import PathTree.Log
import PathTree.Memory
import PathTree.Paths.Tree
import PathTree.Solver.Query

/-!
# Walking a path tree

The walk goes through a path tree with a symbolic memory. At each branch it asks a solver whether
the path can go on when the test succeeds, and then whether it can when the test fails. An arm that
can be reached and leaves the function is a case, with the values that lead there.

`Function.paths` is the whole: the body with every path laid out, and its cases.
-/

namespace PathTree

/-! ## Conditions and effects -/

namespace Memory

mutual
/-- A condition in terms of the parameters. Callees and member accesses are left as they are. -/
def resolve (m : Memory) : Expr → Except Fault Expr
  | .lit l => .ok (.lit l)
  | .member x s => .ok (.member x s)
  | .ident name => m.lookup name
  | .binary op x y => do
    let l ← m.resolve x
    let r ← m.resolve y
    .ok (.binary op l r)
  | .cast t x => do
    let x ← m.resolve x
    .ok (.cast t x)
  | .call f args => do
    let args ← m.resolveList args
    .ok (.call f args)
  | .pre op x =>
    match op with
    | .not | .neg | .plus => do
      let x ← m.resolve x
      .ok (.pre op x)
    | _ => .error (.ofExpr (.pre op x) "in a condition")
  | .paren x => do
    let x ← m.resolve x
    .ok (.paren x)
  | x => .error (.ofExpr x "in a condition")

/-- The arguments of a call in terms of the parameters. -/
def resolveList (m : Memory) : List Expr → Except Fault (List Expr)
  | [] => .ok []
  | x :: xs => do
    let x ← m.resolve x
    let xs ← m.resolveList xs
    .ok (x :: xs)
end

/-- The memory after a `++` or `--` on a variable. -/
def increment (m : Memory) (node operand : Expr) : Except Fault Memory :=
  match operand.unparen with
  | .ident name => m.update name node
  | _ => .error (.ofExpr node "increment of a non-variable")

/-- The memory after an expression statement. A call has no effect on it. -/
def perform (m : Memory) : Expr → Except Fault Memory
  | .assign op name value =>
    match op.binary? with
    | some op => m.update name (.binary op (.ident name) value)
    | none => m.update name value
  | .post op x => m.increment (.post op x) x
  | .pre op x =>
    if op.isStep then m.increment (.pre op x) x
    else .error (.ofExpr (.pre op x) "expression statement")
  | .call _ _ => .ok m
  | x => .error (.ofExpr x "expression statement")

/-- The memory after a statement without branches. -/
def execute (m : Memory) : Stmt → Except Fault Memory
  | .decl name type value => m.declare name type value
  | .expr x => m.perform x
  | _ => .ok m

/-- The memory after a list of statements without branches. -/
def executeAll (m : Memory) : List Stmt → Except Fault Memory
  | [] => .ok m
  | s :: rest => do
    let m ← m.execute s
    m.executeAll rest

end Memory

/-! ## Cases -/

/-- A path on which the function is left, and values that lead there: `path` is the conditions on
the way, and `taken` tells whether the last test succeeded. -/
structure Case where
  taken : Bool
  path : List Expr
  assignment : Assignment

/-- The conditions of a path as one text. A condition that is no negation is in parentheses. -/
def traceOf (path : List Expr) : String :=
  let part : Expr → String
    | .pre .not x => (Expr.pre .not x).render
    | x => "(" ++ x.render ++ ")"
  " && ".intercalate (path.map part)

namespace Case

/-- The label of a case. -/
def label (c : Case) : String := if c.taken then "TRUE" else "FALSE"

/-- The conditions of a case as one text. -/
def trace (c : Case) : String := traceOf c.path

end Case

/-! ## The walk -/

/-- How paths are explored. -/
structure Exploration where
  /-- The greatest number of rounds of a loop. -/
  loopBound : Int := 2
  /-- Whether arms that cannot be reached are laid out too. -/
  visitUnsat : Bool := true
  /-- Whether cases and unreachable arms are logged. -/
  logFound : Bool := false
  /-- Whether constant values are computed. -/
  fold : Bool := true

/-- The number of rounds a loop is unrolled to, at least one. -/
def Exploration.bound (e : Exploration) : Nat := (max e.loopBound 1).toNat

/-- What a walk works on: the caller's patience, the solver's state and the log. -/
structure Session (σ : Type) where
  patience : Patience
  state : σ
  log : Array LogEntry := #[]

/-- Steps of a walk. -/
abbrev Walk (σ : Type) := ExceptT Fault (StateM (Session σ))

/-- What the steps of one walk have in common. -/
structure Walker (σ : Type) where
  solver : Solver σ
  params : List Param
  visitUnsat : Bool
  /-- The name under which the walk logs, if it does. -/
  logAs : Option String

namespace Walker

variable {σ : Type}

/-- Tells something about a path. -/
def tell (w : Walker σ) (level : LogLevel) (message : String) (path : List Expr)
    (more : List (String × String)) : Walk σ Unit :=
  match w.logAs with
  | none => pure ()
  | some name =>
    modify fun s =>
      { s with log := s.log.push ⟨level, message, [("func", name), ("path", traceOf path)] ++ more⟩ }

/-- Asks the solver about a path. -/
def ask (w : Walker σ) (path : List Expr) : Walk σ Answer := do
  let s ← get
  let (answer, patience, state) := w.solver.solve ⟨w.params, path⟩ (s.patience, s.state)
  set { s with patience := patience, state := state }
  match answer with
  | .ok a => pure a
  | .error f => throw (.during ("solving " ++ traceOf path) f)

/-- What a visit to an arm gives: the arm laid out, the case of the arm itself, and the cases
below it. -/
structure ArmResult where
  stmt : Option Stmt := none
  own : List Case := []
  below : List Case := []

/-- Visits the arm that `path` leads to, where `descend` lays the arm out. -/
def visitArm (w : Walker σ) (taken : Bool) (path : List Expr) (arm : Option (List Stmt))
    (descend : Walk σ (List Stmt × List Case)) : Walk σ ArmResult := do
  let answer ← w.ask path
  if !answer.sat then w.tell .debug "UNSATISFIABLE" path []
  match arm with
  | none => pure {}
  | some stmts =>
    let case : Case := ⟨taken, path, answer.assignment.getD []⟩
    let own := if answer.sat && Stmt.containsTerminal stmts then [case] else []
    if !own.isEmpty then
      w.tell .info (case.label ++ " PATH") path [("assignment", case.assignment.render)]
    if answer.sat || w.visitUnsat then
      let (body, below) ← descend
      pure ⟨some (.block body), own, below⟩
    else pure ⟨some (.block stmts), own, []⟩

/-- Walks a tree: the statements laid out and the cases on the way. The cases of a branch come
before those below its arms. -/
def walk (w : Walker σ) : Tree → List Expr → Memory → Walk σ (List Stmt × List Case)
  | .stuck before f, _, m => do
    let _ ← liftExcept (m.executeAll before)
    throw f
  | .straight stmts, _, m => do
    let _ ← liftExcept (m.executeAll stmts)
    pure (stmts, [])
  | .branch before cond arm sub, path, m => do
    let m ← liftExcept (m.executeAll before)
    let test ← liftExcept (m.resolve cond)
    let yes ← w.visitArm true (path ++ [test]) (arm true) (w.walk (sub true) (path ++ [test]) m)
    let no ← w.visitArm false (path ++ [test.negate]) (arm false)
      (w.walk (sub false) (path ++ [test.negate]) m)
    pure (before ++ [.branch cond yes.stmt no.stmt], yes.own ++ no.own ++ yes.below ++ no.below)
where
  /-- A failing computation as a step of the walk. -/
  liftExcept {α : Type} (r : Except Fault α) : Walk σ α :=
    match r with
    | .ok a => pure a
    | .error f => throw f

end Walker

/-! ## Functions -/

/-- A function's body with every path laid out, and its cases. -/
structure Paths where
  body : List Stmt
  cases : List Case

/-- Lays out the paths of a function. -/
def Function.paths {σ : Type} (fn : Function) (solver : Solver σ) (e : Exploration) :
    Walk σ Paths := do
  let w : Walker σ :=
    { solver := solver, params := fn.params, visitUnsat := e.visitUnsat,
      logAs := if e.logFound then some fn.name else none }
  let attempt := w.walk (.ofStmts e.bound fn.body) [] (.init fn.params e.fold)
  let (body, cases) ← tryCatch attempt fun f => throw (.during ("rewriting " ++ fn.name) f)
  pure ⟨body, cases⟩

end PathTree
