import PathTree.Digest
import PathTree.Files.Tree
import PathTree.Paths.Walk
import PathTree.Solver.Bounded
import PathTree.Solver.Memo

/-!
# Settings

What a run is done with, the faults of settings that no run can use, and the solver that they name.
`Settings.fingerprint` tells settings apart as far as results depend on them.
-/

namespace PathTree

/-- The settings of a run. -/
structure Settings where
  name : String := "tpath"
  loopBound : Int := 2
  visitUnsatPaths : Bool := true
  logFoundBranches : Bool := false
  foldConstants : Bool := true
  solver : String := "bounded"
  maxComplexity : Int := 30
  bounded : Bounds := .standard
  /-- The directory of the stored results; with no name, none are stored. -/
  cacheDir : String := ""
  deriving DecidableEq

/-- Why settings cannot be used. -/
inductive SettingsFault where
  | unknownSolver (name : String)
  | negativeBound (n : Int)
  | negativeComplexity (n : Int)
  /-- The solver is not part of this program. -/
  | missingSolver
  /-- The text at a path is no settings document. -/
  | malformed (path : String)
  /-- The path leads to no file. -/
  | unreadable (fault : FileFault)
  deriving DecidableEq

/-- The wording of a fault. -/
def SettingsFault.message : SettingsFault → String
  | .unknownSolver name => "unknown solver " ++ Text.quoteText name
  | .negativeBound n => "loop_bound must not be negative, got " ++ toString n
  | .negativeComplexity n => "max_complexity must not be negative, got " ++ toString n
  | .missingSolver => "tpath was built without z3 support (rebuild with -tags z3)"
  | .malformed path => "error parsing " ++ path ++ ": yaml: document cannot be read"
  | .unreadable fault => fault.message

namespace Settings

/-- The names of the solvers. -/
def solverNames : List String := ["bounded", "z3"]

/-- Checks settings. Of several faults the first one counts: the solver, the loop bound, the
complexity. -/
def validate (s : Settings) : Except SettingsFault Unit :=
  if !solverNames.contains s.solver then .error (.unknownSolver s.solver)
  else if s.loopBound < 0 then .error (.negativeBound s.loopBound)
  else if s.maxComplexity < 0 then .error (.negativeComplexity s.maxComplexity)
  else .ok ()

/-- How paths are explored, where a function may have a loop bound of its own. -/
def exploration (s : Settings) (bound : Nat) : Exploration where
  loopBound := if 0 < bound then bound else s.loopBound
  visitUnsat := s.visitUnsatPaths
  logFound := s.logFoundBranches
  fold := s.foldConstants

/-- A truth value as text. -/
def truthText (b : Bool) : String := if b then "true" else "false"

/-- A text of all settings that results depend on. -/
def fingerprint (s : Settings) : String :=
  "bound=" ++ toString s.loopBound ++ " unsat=" ++ truthText s.visitUnsatPaths ++
    " fold=" ++ truthText s.foldConstants ++ " solver=" ++ s.solver ++
    " radius=" ++ toString s.bounded.radius ++ " candidates=" ++ toString s.bounded.maxCandidates ++
    " complexity=" ++ toString s.maxComplexity

/-- The state of the solver that settings name. -/
abbrev SolverState := Unit × Memo

/-- The solver that settings name: the bounded search, with its answers remembered. No name stands
for it too. -/
def newSolver (s : Settings) : Except SettingsFault (Solver SolverState) :=
  if s.solver = "bounded" ∨ s.solver = "" then .ok (Solver.memo Digest.ofText (.bounded s.bounded))
  else if s.solver = "z3" then .error .missingSolver
  else .error (.unknownSolver s.solver)

end Settings

end PathTree
