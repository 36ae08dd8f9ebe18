import PathTree.Proofs.Scoping

/-!
# Runs with scopes and runs with one store

Two ways of running a function, for any interpretation of its operators, calls and free names.

`FuncDecl.run` runs the source. Its variables are bindings, the innermost first : a declaration adds
a binding, a name stands for its innermost binding, and at the end of a scope the bindings made in
it are dropped. `Function.run` runs the statement tree that the source is lowered to. It has no
scopes, and its variables are one store of values by name.

Both give the outcome, the state of the world, and a trace of the value of every expression that was
evaluated and of every decision that was made, the last one first. Loops go at most a given number
of rounds, after the last of which they are left without another test.
-/

namespace PathTree

/-! ## Runs -/

/-- What a run meets : the value of an expression, or how a test came out. -/
inductive Event (V : Type) where
  | value (v : V)
  | decision (b : Bool)
  deriving DecidableEq

/-- How a run ends. `stuck` is for trees that are no programs. -/
inductive Outcome (V ε : Type) where
  | ended
  | returned (values : List V)
  | thrown (v : V)
  | failed (cause : ε)
  | stuck
  deriving DecidableEq

/-- A meaning of literals, operators, calls, types and names that are not local, over values of type
`V` and a world of type `W`, where steps may fail with a cause of type `ε`. A number with a sign is
the negated number. -/
structure Interpretation (V W ε : Type) where
  literal : Literal → V
  unary : UnaryOp → V → EStateM ε W V
  binary : BinaryOp → V → V → EStateM ε W V
  /-- Whether a value is taken to hold when it is tested. -/
  truth : V → EStateM ε W Bool
  convert : String → V → EStateM ε W V
  member : V → String → EStateM ε W V
  call : V → List V → EStateM ε W V
  /-- The value after a count, up or down. -/
  count : Bool → V → EStateM ε W V
  /-- A count on something that is no local variable. -/
  countPlace : Bool → V → EStateM ε W Unit
  /-- The value of a name that is not local. -/
  global : String → EStateM ε W V
  setGlobal : String → V → EStateM ε W Unit
  /-- A value as a variable of a type holds it. -/
  hold : String → V → V
  /-- What a variable of a type holds if it is given no value. -/
  initial : String → V
  unary_neg : ∀ kind text, kind = .int ∨ kind = .float →
    unary .neg (literal ⟨kind, text⟩) = pure (literal ⟨kind, "-" ++ text⟩)

/-- The state of a run : its variables, the world and the trace. -/
structure RunState (σ V W : Type) where
  vars : σ
  world : W
  trace : List (Event V)

/-- Runs with variables of type `σ`. -/
abbrev Steps (σ V W ε α : Type) := EStateM (Outcome V ε) (RunState σ V W) α

/-- How variables are kept. -/
structure Variables (σ V : Type) where
  get : String → σ → Option V
  set : String → V → σ → σ
  declare : String → V → σ → σ

/-- Variables as bindings, the innermost first. -/
abbrev Bindings (V : Type) := List (String × V)

/-- Gives the innermost binding of a name another value. -/
def Bindings.set {V : Type} (name : String) (v : V) : Bindings V → Bindings V
  | [] => []
  | (n, u) :: rest => if n = name then (n, v) :: rest else (n, u) :: Bindings.set name v rest

/-- A store has one value for each name. -/
abbrev NameStore (V : Type) := String → Option V

/-- The store with another value for a name. -/
def NameStore.set {V : Type} (name : String) (v : V) (store : NameStore V) : NameStore V :=
  fun n => if n = name then some v else store n

namespace Variables

variable {V : Type}

/-- Variables with scopes. -/
def lexical : Variables (Bindings V) V where
  get name vars := vars.lookup name
  set := Bindings.set
  declare name v vars := (name, v) :: vars

/-- Variables in one store. -/
def flat : Variables (NameStore V) V where
  get name vars := vars name
  set := NameStore.set
  declare := NameStore.set

end Variables

namespace Steps

variable {σ V W ε : Type} (I : Interpretation V W ε) (X : Variables σ V)

/-! ## Single steps -/

/-- A step of the interpretation. -/
def perform {α : Type} (x : EStateM ε W α) : Steps σ V W ε α := fun s =>
  match x s.world with
  | .ok a w => .ok a { s with world := w }
  | .error e w => .error (.failed e) { s with world := w }

/-- Leaves a run. -/
def leave {α : Type} (o : Outcome V ε) : Steps σ V W ε α := throw o

/-- Notes the value of an expression. -/
def note (v : V) : Steps σ V W ε V := fun s => .ok v { s with trace := .value v :: s.trace }

/-- Tests a value and notes how the test came out. -/
def decide (v : V) : Steps σ V W ε Bool := do
  let b ← perform (I.truth v)
  modify fun s => { s with trace := .decision b :: s.trace }
  pure b

/-- The value of a variable, if there is one of this name. -/
def valueOf? (name : String) : Steps σ V W ε (Option V) := do pure (X.get name (← get).vars)

/-- The value of a name. -/
def lookUp (name : String) : Steps σ V W ε V := do
  match ← valueOf? X name with
  | some v => pure v
  | none => perform (I.global name)

/-- Gives a name another value. The blank name takes any value and keeps none. -/
def assign (name : String) (v : V) : Steps σ V W ε Unit := do
  unless name = "_" do
    match ← valueOf? X name with
    | some _ => modify fun s => { s with vars := X.set name v s.vars }
    | none => perform (I.setGlobal name v)

/-- Declares a variable with a value. The blank name declares nothing. -/
def declare (name : String) (v : V) : Steps σ V W ε Unit := do
  unless name = "_" do
    modify fun s => { s with vars := X.declare name v s.vars }

/-- A value as a declaration with the text of a type holds it. There may be no type. -/
def held (type : String) (v : V) : V := if type = "" then v else I.hold type v

/-- A count on a variable, if `name` is one, and else on a place with the value `v`. -/
def countAt (up : Bool) (name : Option String) (place : Steps σ V W ε V) :
    Steps σ V W ε Unit := do
  let old ← match name with
    | some name => valueOf? X name
    | none => pure none
  match name, old with
  | some name, some v => assign I X name (← perform (I.count up v))
  | _, _ => perform (I.countPlace up (← place))

/-- At most `n` rounds of a loop. No test is made after the last one. -/
def rounds (test : Steps σ V W ε Bool) (round : Steps σ V W ε Unit) :
    Nat → Steps σ V W ε Unit
  | 0 => pure ()
  | n + 1 => do
    if ← test then
      round
      rounds test round n

/-- Does steps in a scope of their own. -/
def inScope {α : Type} (steps : Steps (Bindings V) V W ε α) :
    Steps (Bindings V) V W ε α := do
  let outer := (← get).vars.length
  let a ← steps
  modify fun s => { s with vars := s.vars.drop (s.vars.length - outer) }
  pure a

end Steps

open Variables

/-! ## Runs of the source -/

namespace Source

variable {V W ε : Type} (I : Interpretation V W ε)

/-- The number that a literal is. -/
def Node.number? : Node → Option Literal
  | .literal .int text => some ⟨.int, text⟩
  | .literal .float text => some ⟨.float, text⟩
  | _ => none

/-- The value of a name. Three names that are not local are literals. -/
def readName (name : String) : Steps (Bindings V) V W ε V := do
  match ← Steps.valueOf? lexical name with
  | some v => Steps.note v
  | none =>
    match nameExpr name with
    | .lit l => Steps.note (I.literal l)
    | _ => Steps.note (← Steps.perform (I.global name))

/-- Whether a call is a conversion : that of a type name, which is not the name of a local, with one
argument. -/
def converts (callee : Node) (args : List Node) : Steps (Bindings V) V W ε (Option String) := do
  match callee, args with
  | .ident name, [_] =>
    match ← Steps.valueOf? lexical name with
    | some _ => pure none
    | none => pure (if conversionTypes.contains name then some name else none)
  | _, _ => pure none

mutual
/-- The value of an expression. The number behind a minus sign is no expression of its own, and a
name in place of a function is no literal. -/
def Node.eval : Node → Steps (Bindings V) V W ε V
  | .ident name => readName I name
  | .literal form text =>
    match form.kind? with
    | some kind => Steps.note (I.literal ⟨kind, text⟩)
    | none => Steps.leave .stuck
  | .unary op x =>
    match op.unary? with
    | none => Steps.leave .stuck
    | some un => do
      let v ← match un, x.number? with
        | .neg, some l => pure (I.literal l)
        | _, _ => x.eval
      Steps.note (← Steps.perform (I.unary un v))
  | .binary op x y =>
    match op.binary? with
    | none => Steps.leave .stuck
    | some .and => do
      let v ← x.eval
      if ← Steps.decide I v then y.eval else pure v
    | some .or => do
      let v ← x.eval
      if ← Steps.decide I v then pure v else y.eval
    | some bin => do
      let a ← x.eval
      let b ← y.eval
      Steps.note (← Steps.perform (I.binary bin a b))
  | .paren x => x.eval
  | .selector x sel => do
    let v ← x.eval
    Steps.note (← Steps.perform (I.member v sel))
  | .call callee args false => do
    match ← converts callee args with
    | some type =>
      let vs ← evalArgs args
      Steps.note (← Steps.perform (I.convert type (vs.headD (I.initial type))))
    | none =>
      let f ← match callee with
        | .ident name => do Steps.note (← Steps.lookUp I lexical name)
        | _ => callee.eval
      let vs ← evalArgs args
      Steps.note (← Steps.perform (I.call f vs))
  | _ => Steps.leave .stuck

/-- The values of arguments, from left to right. -/
def evalArgs : List Node → Steps (Bindings V) V W ε (List V)
  | [] => pure []
  | x :: rest => do
    let v ← x.eval
    let vs ← evalArgs rest
    pure (v :: vs)
end

/-- The outcome of the condition of a loop; a missing one is true. -/
def testOption : Option Node → Steps (Bindings V) V W ε Bool
  | none => do Steps.decide I (← Steps.note (I.literal (.ofBool true)))
  | some x => do Steps.decide I (← x.eval I)

/-- The name that a count is on. -/
def Node.counted? (x : Node) : Option String :=
  match x.unparen with
  | .ident name => some name
  | _ => none

/-- Declares variables with a type. All values are evaluated before a variable is declared. -/
def execNames (type : String) : List String → List Node → Steps (Bindings V) V W ε Unit
  | [], _ => pure ()
  | name :: names, values => do
    let v ← match values.head? with
      | none => pure (I.initial type)
      | some x => Steps.held I type <$> x.eval I
    execNames type names (values.drop 1)
    Steps.declare lexical name v

/-- Declares a list of variables. -/
def execSpec (spec : ValueSpec) : Steps (Bindings V) V W ε Unit :=
  execNames I (spec.type.elim "" Node.typeText) spec.names spec.values

/-- An assignment or a short declaration. -/
def execAssign : List Node → SetOp → List Node → Steps (Bindings V) V W ε Unit
  | [.ident name], op, [x] => do
    let v ← x.eval I
    match op.assign? with
    | none => if op = .define then Steps.declare lexical name v else Steps.leave .stuck
    | some op =>
      match op.binary? with
      | none => Steps.assign I lexical name v
      | some bin =>
        Steps.assign I lexical name
          (← Steps.perform (I.binary bin (← Steps.lookUp I lexical name) v))
  | _, _, _ => Steps.leave .stuck

/-- An expression that is a statement. A call of `panic`, if that is not the name of a local, with
one argument leaves the function. -/
def execExpr (x : Node) : Steps (Bindings V) V W ε Unit := do
  match x with
  | .call (.ident "panic") [v] _ =>
    match ← Steps.valueOf? lexical "panic" with
    | some _ => discard (x.eval I)
    | none => Steps.leave (.thrown (← v.eval I))
  | _ => discard (x.eval I)

section Statements

variable (bound : Nat) (results : List String)

mutual
/-- The run of a statement, where loops go at most `bound` rounds. A return without a value gives
the values of the variables `results`. -/
def Statement.exec : Statement → Steps (Bindings V) V W ε Unit
  | .block list => Steps.inScope (execList list)
  | .branch init cond body other => Steps.inScope do
    execOption init
    if ← Steps.decide I (← cond.eval I) then Steps.inScope (execList body)
    else Steps.inScope (execOption other)
  | .loop init cond step body => Steps.inScope do
    execOption init
    Steps.rounds (testOption I cond) (do Steps.inScope (execList body); execOption step) bound
  | .ret [] => do Steps.leave (.returned (← results.mapM (Steps.lookUp I lexical)))
  | .ret [x] => do Steps.leave (.returned [← x.eval I])
  | .assign targets op values => execAssign I targets op values
  | .count x up => Steps.countAt I lexical up x.counted? (x.eval I)
  | .vars specs => specs.forM (execSpec I)
  | .expr x => execExpr I x
  | .empty => pure ()
  | _ => Steps.leave .stuck

/-- The run of a list, one statement after the other. -/
def execList : List Statement → Steps (Bindings V) V W ε Unit
  | [] => pure ()
  | s :: rest => do s.exec; execList rest

/-- The run of a statement that may be missing. -/
def execOption : Option Statement → Steps (Bindings V) V W ε Unit
  | none => pure ()
  | some s => s.exec
end

end Statements

end Source

/-! ## Runs of statement trees -/

section Tree

variable {V W ε : Type} (I : Interpretation V W ε)

mutual
/-- The value of an expression. -/
def Expr.eval : Expr → Steps (NameStore V) V W ε V
  | .lit l => Steps.note (I.literal l)
  | .ident name => do Steps.note (← Steps.lookUp I flat name)
  | .binary op x y =>
    match op with
    | .and => do
      let v ← x.eval
      if ← Steps.decide I v then y.eval else pure v
    | .or => do
      let v ← x.eval
      if ← Steps.decide I v then pure v else y.eval
    | op => do
      let a ← x.eval
      let b ← y.eval
      Steps.note (← Steps.perform (I.binary op a b))
  | .pre op x => do
    let v ← x.eval
    Steps.note (← Steps.perform (I.unary op v))
  | .paren x => x.eval
  | .cast type x => do
    let v ← x.eval
    Steps.note (← Steps.perform (I.convert type v))
  | .call f args => do
    let f ← f.eval
    let vs ← Expr.evalList args
    Steps.note (← Steps.perform (I.call f vs))
  | .member x sel => do
    let v ← x.eval
    Steps.note (← Steps.perform (I.member v sel))
  | _ => Steps.leave .stuck

/-- The values of expressions, from left to right. -/
def Expr.evalList : List Expr → Steps (NameStore V) V W ε (List V)
  | [] => pure []
  | x :: rest => do
    let v ← x.eval
    let vs ← Expr.evalList rest
    pure (v :: vs)
end

/-- The outcome of the condition of a loop; a missing one is true. -/
def Expr.testOption : Option Expr → Steps (NameStore V) V W ε Bool
  | none => do Steps.decide I (← Steps.note (I.literal (.ofBool true)))
  | some x => do Steps.decide I (← x.eval I)

/-- The name that a count is on. -/
def Expr.counted? (x : Expr) : Option String :=
  match x.unparen with
  | .ident name => some name
  | _ => none

/-- The run of an expression that is a statement. -/
def Expr.exec : Expr → Steps (NameStore V) V W ε Unit
  | .assign op name x => do
    let v ← x.eval I
    match op.binary? with
    | none => Steps.assign I flat name v
    | some bin =>
      Steps.assign I flat name (← Steps.perform (I.binary bin (← Steps.lookUp I flat name) v))
  | .post op x => Steps.countAt I flat (op == .inc) x.counted? (x.eval I)
  | x => discard (x.eval I)

variable (bound : Nat) (results : List String)

mutual
/-- The run of a statement, where loops go at most `bound` rounds. A return without a value gives
the values of the variables `results`. -/
def Stmt.run : Stmt → Steps (NameStore V) V W ε Unit
  | .block list => Stmt.runList list
  | .branch c yes no => do
    if ← Steps.decide I (← c.eval I) then Stmt.runArm yes else Stmt.runArm no
  | .whileLoop c body => Steps.rounds (Expr.testOption I (some c)) (Stmt.runArm body) bound
  | .forLoop init c step body => do
    Stmt.runArm init
    Steps.rounds (Expr.testOption I c) (do Stmt.runArm body; step.forM (Expr.exec I)) bound
  | .ret none => do Steps.leave (.returned (← results.mapM (Steps.lookUp I flat)))
  | .ret (some x) => do Steps.leave (.returned [← x.eval I])
  | .throw none => Steps.leave .stuck
  | .throw (some x) => do Steps.leave (.thrown (← x.eval I))
  | .expr x => x.exec I
  | .decl name type none => Steps.declare flat name (I.initial type)
  | .decl name type (some x) => do Steps.declare flat name (Steps.held I type (← x.eval I))

/-- The run of an arm; a missing one does nothing. -/
def Stmt.runArm : Option Stmt → Steps (NameStore V) V W ε Unit
  | none => pure ()
  | some s => Stmt.run s

/-- The run of a list, one statement after the other. -/
def Stmt.runList : List Stmt → Steps (NameStore V) V W ε Unit
  | [] => pure ()
  | s :: rest => do Stmt.run s; Stmt.runList rest
end

end Tree

/-! ## Runs of functions -/

section Functions

variable {σ V W ε : Type} (I : Interpretation V W ε) (bound : Nat)

/-- How steps end when they are done from the start : the outcome, the world and the trace. -/
def Steps.outcome (steps : Steps σ V W ε Unit) (vars : σ) (w : W) :
    Outcome V ε × W × List (Event V) :=
  match steps ⟨vars, w, []⟩ with
  | .ok _ s => (.ended, s.world, s.trace)
  | .error e s => (e, s.world, s.trace)

/-- The variables of a function's head, with their values. -/
def Source.FuncDecl.bindings (f : Source.FuncDecl) (args : String → V) : Bindings V :=
  f.headNames.map fun name => (name, args name)

/-- The names of the results that have names. -/
def Source.FuncDecl.resultNames (f : Source.FuncDecl) : List String :=
  f.results.flatMap Source.Node.fieldNames

/-- The run of a function with scopes. -/
def Source.FuncDecl.run (f : Source.FuncDecl) (args : String → V) (w : W) :
    Outcome V ε × W × List (Event V) :=
  (Source.execList I bound f.resultNames f.list).outcome (f.bindings args) w

/-- The run of a statement tree with one store, which has the variables of a function's head. -/
def Function.run (fn : Function) (results : List String) (vars : NameStore V) (w : W) :
    Outcome V ε × W × List (Event V) :=
  (Stmt.runList I bound results fn.body).outcome vars w

end Functions

end PathTree
