import PathTree.Solver.Query
import PathTree.Table

/-!
# Environments

The value of a condition when its variables are given: parameters by name, calls and member
accesses by their text. Conversions have no effect.
-/

namespace PathTree

/-- Values of variables. -/
abbrev Env := Table Literal

namespace Env

/-- The value of a variable. -/
def value (env : Env) (key : String) : Except Fault Expr :=
  match env.get? key with
  | some l => .ok (.lit l)
  | none => .error (.unknownName key)

/-- An expression with its variables replaced by their values. -/
def bind (env : Env) : Expr → Except Fault Expr
  | .lit l => .ok (.lit l)
  | .ident name => env.value name
  | .call f args => env.value (Expr.call f args).render
  | .member x s => env.value (Expr.member x s).render
  | .paren x => env.bind x
  | .cast _ x => env.bind x
  | .pre op x => do
    let x ← env.bind x
    .ok (.pre op x)
  | .binary op x y => do
    let x ← env.bind x
    let y ← env.bind y
    .ok (.binary op x y)
  | x => .error (.ofExpr x "in a path condition")

/-- The value of an expression. -/
def eval (env : Env) (x : Expr) : Except Fault Value := do
  (← env.bind x).constant

/-- Whether every condition is true; one that has no value is not. -/
def holds (env : Env) : List Expr → Except Fault Bool
  | [] => .ok true
  | c :: cs =>
    match env.eval c with
    | .ok (.bool true) => env.holds cs
    | .ok _ => .ok false
    | .error f => if f.isFatal then .error f else .ok false

end Env

namespace Assignment

/-- The environment of an assignment; a later value of a name wins. -/
def env (a : Assignment) : Env := Table.putAll [] (a.map fun b => (b.name, b.value))

/-- Whether conditions are true in an environment, with the reason when one has no truth value. -/
def check (env : Env) : List Expr → Except Fault Bool
  | [] => .ok true
  | c :: cs =>
    match env.eval c with
    | .ok (.bool true) => check env cs
    | .ok (.bool false) => .ok false
    | .ok _ => .error (.notCondition c)
    | .error f => .error (.during ("evaluating " ++ c.render) f)

/-- Whether an assignment makes conditions true. -/
def satisfies (a : Assignment) (conds : List Expr) : Except Fault Bool := check a.env conds

end Assignment

end PathTree
