import PathTree.Solver.Env
import PathTree.Solver.Variables

/-!
# Bounded search

A solver that tries values. Each variable has a list of candidates, simplest first: all integers
up to a radius and the neighbours of every integer in the query, every text in the query and that
text with a suffix, both truth values. Combinations are tried in turn, the first variable changing
fastest, until one satisfies the query or the allowed number is used up.

Integer candidates are 64-bit words, so the neighbours of the extreme ones wrap around.
-/

namespace PathTree

/-- The limits of a bounded search. -/
structure Bounds where
  /-- Integers up to this magnitude are always candidates. -/
  radius : Int
  /-- The largest number of combinations to try. -/
  maxCandidates : Int
  deriving DecidableEq, Repr

namespace Bounds

/-- The limits used when none are given. -/
def standard : Bounds := ⟨16, 200000⟩

/-- The limits with the standard ones in place of those that are not positive. -/
def normalize (b : Bounds) : Bounds where
  radius := if b.radius ≤ 0 then standard.radius else b.radius
  maxCandidates := if b.maxCandidates ≤ 0 then standard.maxCandidates else b.maxCandidates

end Bounds

/-! ## Words of 64 bits -/

/-- The signed 64-bit word with the same low bits. -/
def wrap64 (n : Int) : Int := n.bmod 0x10000000000000000

/-- The magnitude of a word, which for the least word is the word itself. -/
def magnitude64 (n : Int) : Int := if n < 0 then wrap64 (-n) else n

/-- Whether an integer is a signed 64-bit word. -/
def isWord64 (n : Int) : Bool := -0x8000000000000000 ≤ n && n < 0x8000000000000000

/-! ## Candidates -/

/-- The integers and texts that occur as literals. -/
structure Mentioned where
  ints : List Int := []
  texts : List Text.Bytes := []

namespace Mentioned

/-- Adds the value of a literal, if it is an integer that fits a word, or a text. -/
def add (m : Mentioned) (l : Literal) : Except Fault Mentioned :=
  match l.value with
  | .ok (.int n) => .ok (if isWord64 n then { m with ints := m.ints ++ [n] } else m)
  | .ok (.text s) => .ok { m with texts := m.texts ++ [s] }
  | .ok _ => .ok m
  | .error f => if f.isFatal then .error f else .ok m

/-- The literals among the nodes of an expression. -/
def literals (x : Expr) : List Literal :=
  (x.walk fun _ => true).filterMap fun
    | .lit l => some l
    | _ => none

/-- The integers and texts mentioned by a list of conditions. -/
def ofConds (conds : List Expr) : Except Fault Mentioned :=
  (conds.flatMap literals).foldlM add {}

end Mentioned

/-- The integers from `-r` to `r`. -/
def around (r : Nat) : List Int :=
  (List.range (2 * r + 1)).map fun (i : Nat) => (i : Int) - (r : Int)

/-- The word, its negation and the words next to them. -/
def neighbours (n : Int) : List Int :=
  [-1, 0, 1].flatMap fun d => [wrap64 (n + d), wrap64 (wrap64 (-n) + d)]

/-- Whether an integer is simpler than another or the same: smaller magnitude first, and of a
number and its negation the positive one. -/
def simplerInt (a b : Int) : Bool :=
  if magnitude64 a = magnitude64 b then b ≤ a else magnitude64 a < magnitude64 b

/-- The integer candidates. -/
def intCandidates (radius : Int) (ints : List Int) : List Int :=
  let far := (ints.flatMap neighbours).filter fun n => n < -radius || radius < n
  (around radius.toNat ++ far.eraseDups).mergeSort simplerInt

/-- The text candidates. -/
def textCandidates (texts : List Text.Bytes) : List Text.Bytes :=
  ([] :: texts.flatMap fun s => [s, s ++ Text.bytesOf "_"]).eraseDups

/-- The candidates for a variable of the given sort. -/
def candidates (radius : Int) (m : Mentioned) : ValueSort → List Literal
  | .bool => [.ofBool false, .ofBool true]
  | .string => (textCandidates m.texts).map fun s => ⟨.string, Text.quote s⟩
  | _ => (intCandidates radius m.ints).map .ofInt

/-! ## Combinations -/

/-- One place of a combination: all its candidates, and those from the current one on. -/
structure Wheel (α : Type) where
  all : List α
  ahead : List α

namespace Wheel

variable {α : Type}

/-- The wheel at its first candidate. -/
def start (all : List α) : Wheel α := ⟨all, all⟩

/-- Turns to the next combination, the first wheel fastest; `none` after the last one. -/
def turn : List (Wheel α) → Option (List (Wheel α))
  | [] => none
  | w :: rest =>
    match w.ahead.drop 1 with
    | [] => (turn rest).map (start w.all :: ·)
    | ahead => some (⟨w.all, ahead⟩ :: rest)

/-- The candidates that the wheels show. -/
def shown (wheels : List (Wheel α)) : List α := wheels.filterMap fun w => w.ahead.head?

end Wheel

/-- How many combinations are tried between two questions to the caller. -/
def patienceInterval : Nat := 1024

/-- Tries at most `budget` more combinations after `tried` ones, and gives the first that `good`
accepts. -/
def tryCombinations {α : Type} (good : List α → Except Fault Bool) :
    (budget tried : Nat) → List (Wheel α) → Patience → Except Fault (Option (List α)) × Patience
  | 0, _, _, p => (.ok none, p)
  | budget + 1, tried, wheels, p =>
    let (go, p) := if tried % patienceInterval = 0 then p.ask else (.ok (), p)
    match go with
    | .error f => (.error f, p)
    | .ok _ =>
      match good (Wheel.shown wheels) with
      | .error f => (.error f, p)
      | .ok true => (.ok (some (Wheel.shown wheels)), p)
      | .ok false =>
        match Wheel.turn wheels with
        | none => (.ok none, p)
        | some wheels => tryCombinations good budget (tried + 1) wheels p

/-! ## The solver -/

/-- The value of a parameter that no condition mentions. -/
def idleValue : ValueSort → Literal
  | .int => .ofInt 0
  | .bool => .ofBool false
  | .string => .ofText ""
  | .unknown => .nilValue

/-- The values of the parameters in an environment. -/
def assignmentOf (params : List Param) (env : Env) : Assignment :=
  params.map fun p => ⟨p.name, (env.get? p.name).getD (idleValue (sortOf p.type))⟩

/-- The environment that gives variables the values of a combination. -/
def combinationEnv (vars : List Variable) (values : List Literal) : Env :=
  (vars.map (·.key)).zip values

/-- What a search needs of a query: its variables, each with its candidates. -/
def Bounds.plan (b : Bounds) (q : Query) : Except Fault (List Variable × List (List Literal)) := do
  let vars ← q.variables
  let mentioned ← Mentioned.ofConds q.conds
  .ok (vars, vars.map fun v => candidates b.radius mentioned v.sort)

/-- Searches for an answer to a query. -/
def Bounds.search (b : Bounds) (q : Query) (p : Patience) : Except Fault Answer × Patience :=
  let (go, p) := p.ask
  match go with
  | .error f => (.error f, p)
  | .ok _ =>
    match b.plan q with
    | .error f => (.error f, p)
    | .ok (vars, domains) =>
      let good (values : List Literal) := (combinationEnv vars values).holds q.conds
      let (found, p) :=
        tryCombinations good b.maxCandidates.toNat 0 (domains.map Wheel.start) p
      match found with
      | .error f => (.error f, p)
      | .ok none => (.ok .unsat, p)
      | .ok (some values) =>
        (.ok ⟨true, some (assignmentOf q.params (combinationEnv vars values))⟩, p)

/-- The result of a search, step by step: the caller waits, the query has a plan, and combinations
are tried. -/
theorem Bounds.search_fst (b : Bounds) (q : Query) (p : Patience) :
    (b.search q p).1 = (do
      let _ ← p.ask.1
      let plan ← b.plan q
      let found ← (tryCombinations (fun values => (combinationEnv plan.1 values).holds q.conds)
        b.maxCandidates.toNat 0 (plan.2.map Wheel.start) p.ask.2).1
      .ok (found.elim .unsat fun values =>
        ⟨true, some (assignmentOf q.params (combinationEnv plan.1 values))⟩)) := by
  unfold Bounds.search
  rcases p.ask with ⟨f | _, p'⟩
  · rfl
  · rcases b.plan q with f | ⟨vars, domains⟩
    · rfl
    · simp only [bind, Except.bind]
      split
      · next h => simp only [h]
      · next h => simp only [h, Option.elim_none]
      · next values h => simp only [h, Option.elim_some]

/-- The solver that searches within bounds. -/
def Solver.bounded {σ : Type} (b : Bounds) : Solver σ where
  solve q s :=
    let (a, p) := b.normalize.search q s.1
    (a, (p, s.2))

end PathTree
