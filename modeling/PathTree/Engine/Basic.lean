import PathTree.Directive
import PathTree.Outcome
import PathTree.Settings.Basic
import PathTree.Source.Emit
import PathTree.Source.Parser.File
import PathTree.Source.Splice
import PathTree.Store

/-!
# Engines

An engine lays out the paths of the functions of a source file, with one group of settings. It works
in a workspace: the files, the stored results, the log, and how long the caller is willing to wait.

`Engine.runSource` is the run on one text. A function that cannot be laid out is noted in the
outcome and keeps its body; only a caller who does not want to wait ends the run.
-/

namespace PathTree

open Source

/-! ## Faults -/

/-- Why a run has no outcome. -/
inductive RunFault where
  | settings (fault : SettingsFault)
  | store (fault : StoreFault)
  | file (fault : FileFault)
  /-- The text is no source. -/
  | notSource (why : String)
  /-- The run was ended. -/
  | stopped (fault : Fault)
  /-- What was being done, and the cause. -/
  | during (what : String) (cause : RunFault)
  /-- Several causes, each for itself. -/
  | several (causes : List RunFault)

namespace RunFault

mutual
/-- The wording of a fault. -/
def message : RunFault → String
  | .settings fault => fault.message
  | .store fault => fault.message
  | .file fault => fault.message
  | .notSource why => "error parsing file: " ++ why
  | .stopped fault => fault.message
  | .during what cause => what ++ ": " ++ cause.message
  | .several causes => "\n".intercalate (messages causes)

/-- The wordings of faults. -/
def messages : List RunFault → List String
  | [] => []
  | cause :: rest => cause.message :: messages rest
end

mutual
/-- The causes without the accounts around them. -/
def roots : RunFault → List RunFault
  | .during _ cause => cause.roots
  | .several causes => rootsOf causes
  | fault => [fault]

/-- The causes of all faults of a list. -/
def rootsOf : List RunFault → List RunFault
  | [] => []
  | cause :: rest => cause.roots ++ rootsOf rest
end

end RunFault

/-! ## Workspaces -/

/-- The files of a workspace; the saved records among them are stored outcomes. -/
abbrev Files := FileTree (Store.Records FileOutcome)

/-- What a run works on. -/
structure Workspace (σ : Type) extends Session σ where
  files : Files := {}
  /-- The stored results, if results are stored. -/
  store : Option (Store FileOutcome) := none
  /-- The time, in nanoseconds. -/
  now : Int := 0

/-- Steps of a run. -/
abbrev Run (σ : Type) := ExceptT RunFault (StateM (Workspace σ))

namespace Run

variable {σ : Type}

/-- Adds an entry to the log. -/
def tell (level : LogLevel) (message : String) (fields : List (String × String)) : Run σ Unit :=
  modify fun w => { w with log := w.log.push ⟨level, message, fields⟩ }

/-- Does steps and forgets what they log. -/
def silently {α : Type} (steps : Run σ α) : Run σ α := do
  let log := (← get).log
  let result ← ExceptT.lift steps.run
  modify fun w => { w with log := log }
  liftExcept result
where
  /-- A result as a step. -/
  liftExcept : Except RunFault α → Run σ α
    | .ok a => pure a
    | .error f => throw f

/-- Asks the caller once whether to go on. -/
def askOn : Run σ Unit := do
  let w ← get
  let (answer, patience) := w.patience.ask
  set { w with patience := patience }
  match answer with
  | .ok _ => pure ()
  | .error fault => throw (.stopped fault)

end Run

/-! ## Functions -/

/-- The comment that keeps a function from having its complexity counted. -/
def isUncounted (c : Comment) : Bool :=
  (Text.cutFront? "//gocyclo:".toList c.text.toList).any fun rest => Text.trim rest = "ignore".toList

/-- The complexity of a function: one more than the places where control may branch, or zero if it
is not counted. -/
def Source.File.complexity (file : Source.File) (f : FuncDecl) : Nat :=
  let doc := (f.doc.bind fun i => file.groups[i]?).getD []
  if doc.any isUncounted then 0 else f.decisions + 1

/-- A case as it is reported. -/
def Case.outcome (c : Case) : CaseOutcome :=
  ⟨c.label, c.trace, some (c.assignment.map fun b => ⟨b.name, b.value.text⟩)⟩

/-- An engine. With names, only the functions that have one of them are looked at. A quiet one logs
nothing on files. -/
structure Engine (σ : Type) where
  settings : Settings
  solver : Solver σ
  funcs : List String := []
  quiet : Bool := false

namespace Engine

variable {σ : Type}

/-- An engine with settings that were checked. The solver may be the one that they name. -/
def create (settings : Settings) (solver : Except SettingsFault (Solver σ)) (funcs : List String) :
    Except RunFault (Engine σ) := do
  settings.validate.mapError .settings
  let solver ← solver.mapError .settings
  .ok { settings, solver, funcs }

/-- A workspace for an engine, with its stored results. -/
def enter (e : Engine σ) (state : σ) (patience : Patience) (files : Files) :
    Except RunFault (Workspace σ) :=
  if e.settings.cacheDir = "" then .ok { patience, state, files }
  else do
    let (store, files) ← (Store.openAt files e.settings.cacheDir).mapError .store
    .ok { patience, state, files, store := some store }

/-- Whether a function is looked at: by its own name or by that with its receiver. -/
def selects (e : Engine σ) (f : FuncDecl) : Bool :=
  e.funcs.isEmpty || e.funcs.contains f.name || e.funcs.contains f.qualifiedName

/-- The names of an engine, each one once and in order. -/
def names (e : Engine σ) : List String := (e.funcs.eraseDups).mergeSort Table.nameLe

/-- All that an outcome depends on besides the text. -/
def salt (e : Engine σ) : String :=
  e.settings.fingerprint ++ " funcs=" ++ ",".intercalate e.names

/-- Why a function is left as it is, if it is. -/
def skips? (e : Engine σ) (complexity : Nat) (d : Directive) : Option String :=
  let limit := e.settings.maxComplexity
  if d.skip then some "skip directive"
  else if 0 < limit ∧ limit < complexity then
    some ("cyclomatic complexity " ++ toString complexity ++ " exceeds " ++ toString limit)
  else none

/-- Lays out the paths of a function. -/
def layOut (e : Engine σ) (fn : Function) (bound : Nat) : Run σ (Except Fault Paths) := do
  let w ← get
  let (result, session) := (fn.paths e.solver (e.settings.exploration bound)).run.run w.toSession
  set { w with toSession := session }
  pure result

/-- Treats a function: what came out, and its new body if it has one. -/
def treat (e : Engine σ) (complexity : Nat) (d : Directive) (f : FuncDecl) :
    Run σ (FuncOutcome × Option (List Statement)) := do
  let outcome : FuncOutcome := { name := f.name, line := f.place.line }
  match e.skips? complexity d with
  | some why => pure ({ outcome with skipped := why }, none)
  | none =>
    match f.lower with
    | .error fault => pure ({ outcome with error := fault.message }, none)
    | .ok fn =>
      let outcome := { outcome with name := fn.name }
      match ← e.layOut fn d.bound with
      | .error fault =>
        if fault.isFatal then throw (.stopped fault)
        Run.askOn
        pure ({ outcome with error := fault.message }, none)
      | .ok paths =>
        match Stmt.listToSource paths.body with
        | .error fault => pure ({ outcome with error := fault.message }, none)
        | .ok list => pure ({ outcome with cases := paths.cases.map Case.outcome }, some list)

/-- Treats functions one after the other. -/
def treatAll (e : Engine σ) (filename : String) (file : Source.File) (set : Directives) :
    List (FuncDecl × Nat) → Run σ (List FuncOutcome × List (FuncDecl × List Statement))
  | [] => pure ([], [])
  | (f, i) :: rest => do
    let (outcome, body) ← e.treat (file.complexity f) (set.of i) f
    if outcome.error != "" then
      Run.tell .error "Error rewriting function"
        [("file", filename), ("func", outcome.name), ("error", outcome.error)]
    let (outcomes, bodies) ← e.treatAll filename file set rest
    pure (outcome :: outcomes, (body.map fun list => (f, list)).toList ++ bodies)

/-! ## Files -/

/-- The first lines of a new file. -/
def header (filename : String) : String :=
  "// Code generated by tpath from " ++ Path.base filename ++ ". DO NOT EDIT.\n\n"

/-- The outcome of a text, worked out anew. -/
def workOut (e : Engine σ) (filename src : String) : Run σ FileOutcome := do
  match File.parse src with
  | .error why => throw (.notSource why)
  | .ok file =>
    let (set, faults) := Directives.ofFile file
    faults.forM fun (place, fault) =>
      Run.tell .warn "Ignoring directive"
        [("file", filename), ("error", directiveMessage filename place fault)]
    let chosen := file.funcs.zipIdx.filter fun f => f.1.body.isSome && e.selects f.1
    let (outcomes, bodies) ← e.treatAll filename file set chosen
    pure { filename := filename, funcs := if outcomes.isEmpty then none else some outcomes,
           source := header filename ++ withBodies src bodies }

/-- The stored outcome of a text, if there is one. -/
def lookUp (filename : String) (key : UInt64) : Run σ (Option FileOutcome) := do
  let w ← get
  match w.store with
  | none => pure none
  | some store =>
    let (found, store) := store.get? w.now filename key
    set { w with store := some store }
    pure found

/-- Stores an outcome, if outcomes are stored. That it cannot be saved is only logged. -/
def remember (e : Engine σ) (filename : String) (key : UInt64) (r : FileOutcome) : Run σ Unit := do
  let w ← get
  match w.store with
  | none => pure ()
  | some store =>
    let store := store.put w.now filename key r
    match store.saveAt FileOutcome.stored w.files e.settings.cacheDir with
    | .ok files => set { w with store := some store, files := files }
    | .error fault =>
      set { w with store := some store }
      Run.tell .warn "Error writing cache" [("file", filename), ("error", fault.message)]

/-- The outcome of a text that is known under a name. -/
def runSource (e : Engine σ) (filename src : String) : Run σ FileOutcome := do
  let key := Store.keyOf src e.salt
  match ← lookUp filename key with
  | some r => pure r
  | none =>
    let r ← e.workOut filename src
    e.remember filename key r
    pure r

/-- The outcome of a file. -/
def run (e : Engine σ) (path : String) : Run σ FileOutcome := do
  match (← get).files.read path with
  | .error fault => throw (.during "error reading file" (.file fault))
  | .ok (.text src) =>
    if e.quiet then Run.silently (e.runSource path src) else e.runSource path src
  | .ok _ => throw (.notSource (path ++ ":1:1: expected 'package'"))

end Engine

end PathTree
