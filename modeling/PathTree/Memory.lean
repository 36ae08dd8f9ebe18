import PathTree.Constant.Eval
import PathTree.Table
import PathTree.Types

/-!
# Symbolic memory

The values of variables as expressions over the parameters of a function. A declared or assigned
value is stored with every variable in it replaced by that variable's value, so no stored value
mentions a local variable; values without parameters are computed unless folding is off.
-/

namespace PathTree

/-- The symbolic values of the variables in scope, and whether constant values are computed. -/
structure Memory where
  vars : Table Expr
  fold : Bool := true

namespace Memory

/-- The memory at the start of a function: every parameter is itself. -/
def init (params : List Param) (fold : Bool) : Memory where
  vars := Table.putAll [] (params.map fun p => (p.name, .ident p.name))
  fold := fold

/-- The value of a variable. -/
def lookup (m : Memory) (name : String) : Except Fault Expr :=
  match m.vars.get? name with
  | some x => .ok x
  | none => .error (.unknownName name)

/-- The value of a variable after one `++` or `--`. A literal is left as it is written. -/
def step (m : Memory) (node : Expr) (op : UnaryOp) (operand : Expr) : Except Fault Expr :=
  match operand.unparen with
  | .lit _ => .ok node
  | .ident name => do
    let v ← m.lookup name
    .ok (.binary (if op = .dec then .sub else .add) v (.int 1))
  | _ => .error (.ofExpr node "increment of a non-variable")

/-- An assigned value with every variable replaced by its value. Parentheses are dropped, and a
sign or negation is kept on literals only. -/
def substitute (m : Memory) : Expr → Except Fault Expr
  | .lit l => .ok (.lit l)
  | .ident name => m.lookup name
  | .paren x => m.substitute x
  | .binary op x y => do
    let l ← m.substitute x
    let r ← m.substitute y
    .ok (.binary op l r)
  | .pre op x =>
    match op, x.unparen with
    | .inc, _ | .dec, _ => m.step (.pre op x) op x
    | .neg, .lit l | .plus, .lit l | .not, .lit l => .ok (.pre op (.lit l))
    | _, _ => .error (.ofExpr (.pre op x) "operand of a prefix operator in an assigned value")
  | .post op x => m.step (.post op x) op x
  | x => .error (.ofExpr x "assigned value")

/-- Computes a value that has no variables; truth values and what has no value are left. -/
def simplify (m : Memory) (x : Expr) : Except Fault Expr :=
  if m.fold && x.isClosed then
    match x.constant with
    | .ok (.bool _) => .ok x
    | .ok v => .ok (.lit v.literal)
    | .error f => if f.isFatal then .error f else .ok x
  else .ok x

/-- Stores an assigned value. -/
def store (m : Memory) (name : String) (value : Expr) : Except Fault Memory := do
  let x ← m.substitute value
  let x ← m.simplify x
  .ok { m with vars := m.vars.put name x }

/-- Declares a variable. Without a value it gets the zero value of its type. -/
def declare (m : Memory) (name type : String) (value : Option Expr) : Except Fault Memory := do
  let x ← match value with
    | some x => pure x
    | none => zeroValue type
  m.store name x

/-- Assigns to a variable that is in scope. -/
def update (m : Memory) (name : String) (value : Expr) : Except Fault Memory :=
  if m.vars.has name then m.store name value else .error (.unknownName name)

/-- The names in scope, sorted. -/
def names (m : Memory) : List String := m.vars.names

/-- The memory as text, by sorted names. -/
def render (m : Memory) : String :=
  let entry (name : String) : String :=
    name ++ ": " ++ ((m.vars.get? name).map Expr.render).getD ""
  "\x7b" ++ ", ".intercalate (m.names.map entry) ++ "\x7d"

end Memory

end PathTree
