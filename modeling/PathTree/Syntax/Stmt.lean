import PathTree.Syntax.Expr

/-!
# Statements

Statement trees and functions. An arm of a branch and the body of a loop may be missing, which
is not the same as an empty block, and need not be blocks.

`Stmt.statements` lists what stands directly in an arm, `Stmt.flatten` splices nested blocks, and
`Stmt.isTerminal` says which statements leave the function.
-/

namespace PathTree

/-- Statements. A missing loop condition is true; `throw` leaves the function with a failure. -/
inductive Stmt where
  | block (list : List Stmt)
  | branch (cond : Expr) (yes no : Option Stmt)
  | whileLoop (cond : Expr) (body : Option Stmt)
  | forLoop (init : Option Stmt) (cond : Option Expr) (step : List Expr) (body : Option Stmt)
  | ret (value : Option Expr)
  | throw (value : Option Expr)
  | expr (x : Expr)
  | decl (name type : String) (value : Option Expr)

/-- A parameter and the text of its type. -/
structure Param where
  name : String
  type : String
  deriving DecidableEq, Repr

/-- A function: its name, parameters, result types and body. -/
structure Function where
  name : String
  params : List Param
  results : List String
  body : List Stmt

namespace Stmt

instance : Inhabited Stmt := ⟨.block []⟩

/-- The name of a statement's form. -/
def kind : Stmt → String
  | .block _ => "Block"
  | .branch .. => "If"
  | .whileLoop .. => "While"
  | .forLoop .. => "For"
  | .ret _ => "Return"
  | .throw _ => "Throw"
  | .expr _ => "ExpressionStatement"
  | .decl .. => "LocalDeclaration"

/-- The assignment of a value to a name. -/
def set (name : String) (value : Expr) : Stmt := .expr (.assign .set name value)

/-- The declaration of a name without a type. -/
def declare (name : String) (value : Option Expr) : Stmt := .decl name "" value

/-! ## Terminal statements -/

/-- Statements that leave the function. -/
def isTerminal : Stmt → Bool
  | .ret _ | .throw _ => true
  | _ => false

/-- Whether the last statement of a list leaves the function. -/
def endsTerminal (list : List Stmt) : Bool :=
  list.getLast?.any isTerminal

/-- Whether some statement of a list leaves the function. -/
def containsTerminal (list : List Stmt) : Bool :=
  list.any isTerminal

/-! ## Lists and blocks -/

/-- What stands directly in a statement that is used as an arm. -/
def statements : Option Stmt → List Stmt
  | none => []
  | some (.block list) => list
  | some s => [s]

mutual
/-- A statement as the list that stands for it when blocks are spliced. -/
def spliced : Stmt → List Stmt
  | .block inner => flatten inner
  | s => [s]

/-- A list of statements with nested blocks spliced at every depth. -/
def flatten : List Stmt → List Stmt
  | [] => []
  | s :: rest => spliced s ++ flatten rest
end

/-! ## Walking a tree -/

mutual
/-- The statements met on a walk from the root: a statement stands before its parts, and the parts
of a statement that `enter` refuses are skipped. -/
def walk (enter : Stmt → Bool) : Stmt → List Stmt
  | .block list => .block list :: if enter (.block list) then walkList enter list else []
  | .branch c yes no =>
    .branch c yes no ::
      if enter (.branch c yes no) then walkArm enter yes ++ walkArm enter no else []
  | .whileLoop c body =>
    .whileLoop c body :: if enter (.whileLoop c body) then walkArm enter body else []
  | .forLoop init c step body =>
    .forLoop init c step body ::
      if enter (.forLoop init c step body) then walkArm enter init ++ walkArm enter body else []
  | .ret v => [.ret v]
  | .throw v => [.throw v]
  | .expr x => [.expr x]
  | .decl n t v => [.decl n t v]

/-- The walk of an arm; a missing arm has none. -/
def walkArm (enter : Stmt → Bool) : Option Stmt → List Stmt
  | none => []
  | some s => walk enter s

/-- The walks of a list of statements, one after the other. -/
def walkList (enter : Stmt → Bool) : List Stmt → List Stmt
  | [] => []
  | s :: rest => walk enter s ++ walkList enter rest
end

end Stmt

end PathTree
