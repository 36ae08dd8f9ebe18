import PathTree.Solver.Query
import PathTree.Table
import PathTree.Types

/-!
# The variables of a query

What a query ranges over: the parameters that its conditions mention, and the calls and member
accesses in them, which are taken as unknowns named by their text. Each variable gets a sort, from
the declared type of a parameter or else from the first use that tells one.
-/

namespace PathTree

/-- A variable of a query; `term` is the call or member access it stands for, if it is one. -/
structure Variable where
  key : String
  sort : ValueSort
  term : Option Expr

/-- Whether a variable is a parameter. -/
def Variable.isParam (v : Variable) : Bool := v.term.isNone

namespace Variable

/-- The sort of a parameter, by the last parameter of that name. -/
def paramSorts (params : List Param) : Table ValueSort :=
  Table.putAll [] (params.map fun p => (p.name, sortOf p.type))

/-- Sets the sort of the variable with the given key if it is still unknown. -/
def refine (key : String) (want : ValueSort) (vars : List Variable) : List Variable :=
  vars.map fun v => if v.key = key ∧ v.sort = .unknown then { v with sort := want } else v

/-- The sort of the variable with the given key. -/
def sortIn (key : String) (vars : List Variable) : ValueSort :=
  ((vars.find? (fun v => v.key = key)).map (·.sort)).getD .unknown

/-- Notes a use of a variable where the sort `want` is expected, and gives the sort it has now. -/
def note (v : Variable) (want : ValueSort) (vars : List Variable) :
    ValueSort × List Variable :=
  let vars := if vars.any (fun u => u.key = v.key) then vars else vars ++ [v]
  let vars := refine v.key want vars
  (sortIn v.key vars, vars)

/-- The sort that a literal has by its kind. -/
def literalSort : LitKind → ValueSort
  | .bool => .bool
  | .string => .string
  | .nil => .unknown
  | _ => .int

/-- The fault for a form that has no place in a condition. -/
def outside (x : Expr) : Fault := .ofExpr x "in a path condition"

/-- Collects the variables of an expression where the sort `want` is expected, and gives the
expression's sort. When only the right operand of a comparison or an arithmetic operator has a
known sort, the left one is visited again with it. -/
def collect (sorts : Table ValueSort) :
    Expr → ValueSort → List Variable → Except Fault (ValueSort × List Variable)
  | .lit l, _, vars => .ok (literalSort l.kind, vars)
  | .ident name, want, vars =>
    match sorts.get? name with
    | none => .error (.unknownName name)
    | some sort => .ok (note ⟨name, sort, none⟩ want vars)
  | .call f args, want, vars =>
    .ok (note ⟨(Expr.call f args).render, .unknown, some (.call f args)⟩ want vars)
  | .member x s, want, vars =>
    .ok (note ⟨(Expr.member x s).render, .unknown, some (.member x s)⟩ want vars)
  | .paren x, want, vars => collect sorts x want vars
  | .cast t x, _, vars => collect sorts x (sortOf t) vars
  | .pre op x, _, vars =>
    match op with
    | .not => do
      let (_, vars) ← collect sorts x .bool vars
      .ok (.bool, vars)
    | .neg | .plus => do
      let (_, vars) ← collect sorts x .int vars
      .ok (.int, vars)
    | _ => .error (outside (.pre op x))
  | .binary op x y, want, vars =>
    if op.isLogical then do
      let (_, vars) ← collect sorts x .bool vars
      let (_, vars) ← collect sorts y .bool vars
      .ok (.bool, vars)
    else do
      let (l, vars) ← collect sorts x (if op.isComparison then .unknown else want) vars
      let (r, vars) ← collect sorts y l vars
      if l = .unknown ∧ r ≠ .unknown then do
        let (_, vars) ← collect sorts x r vars
        .ok (if op.isComparison then .bool else r, vars)
      else .ok (if op.isComparison then .bool else l, vars)
  | x, _, _ => .error (outside x)

/-- Collects the variables of a list of conditions. -/
def collectAll (sorts : Table ValueSort) :
    List Expr → List Variable → Except Fault (List Variable)
  | [], vars => .ok vars
  | c :: cs, vars => do
    let (_, vars) ← collect sorts c .bool vars
    collectAll sorts cs vars

/-- A variable whose sort nothing tells is an integer. -/
def settle (v : Variable) : Variable :=
  if v.sort = .unknown then { v with sort := .int } else v

end Variable

/-- The variables of a query, in the order of their first use. -/
def Query.variables (q : Query) : Except Fault (List Variable) := do
  let vars ← Variable.collectAll (Variable.paramSorts q.params) q.conds []
  .ok (vars.map Variable.settle)

end PathTree
