import PathTree.Syntax.Stmt

/-!
# Rendering

The one-line text of expressions and statements. Operands are put in parentheses when their
precedence is too low for the place they stand in, so the text shows how a tree is grouped.
-/

namespace PathTree

/-- How tightly a binary operator binds: `||` least, multiplication most. -/
def BinaryOp.precedence : BinaryOp → Nat
  | .or => 1
  | .and => 2
  | .eq | .ne | .lt | .le | .gt | .ge => 3
  | .add | .sub => 4
  | .mul | .div | .mod | .invalid => 5

namespace Expr

/-- The precedence of an operator before its operand. -/
def unaryPrecedence : Nat := 6

/-- The precedence of names, literals, calls and all that needs no parentheses. -/
def primaryPrecedence : Nat := 7

/-- How tightly an expression binds; an assignment binds least of all. -/
def precedence : Expr → Nat
  | .binary op _ _ => op.precedence
  | .pre _ _ => unaryPrecedence
  | .assign _ _ _ => 0
  | _ => primaryPrecedence

/-- Whether an operand under the prefix operator `op` would run together with it: the same
operator again, or an increment or decrement. -/
def sticksTo (op : UnaryOp) : Expr → Bool
  | .pre inner _ => inner == op || inner.isStep
  | _ => false

/-- Puts the text of `x` in parentheses if `x` binds less tightly than `least`. -/
def wrapBelow (least : Nat) (x : Expr) (text : String) : String :=
  if x.precedence < least then "(" ++ text ++ ")" else text

mutual
/-- The text of an expression. -/
def render : Expr → String
  | .lit l => l.text
  | .ident n => n
  | .binary op x y =>
    wrapBelow op.precedence x x.render ++ " " ++ op.symbol ++ " "
      ++ wrapBelow (op.precedence + 1) y y.render
  | .pre op x =>
    op.symbol ++
      if sticksTo op x then "(" ++ x.render ++ ")" else wrapBelow unaryPrecedence x x.render
  | .post op x => wrapBelow primaryPrecedence x x.render ++ op.symbol
  | .paren x => "(" ++ x.render ++ ")"
  | .cast t x => t ++ "(" ++ x.render ++ ")"
  | .call f args =>
    wrapBelow primaryPrecedence f f.render ++ "(" ++ ", ".intercalate (renderList args) ++ ")"
  | .member x s => wrapBelow primaryPrecedence x x.render ++ "." ++ s
  | .assign op n v => n ++ " " ++ op.symbol ++ " " ++ v.render

/-- The texts of a list of expressions. -/
def renderList : List Expr → List String
  | [] => []
  | x :: xs => x.render :: renderList xs
end

/-- The texts of a list are the texts of its members. -/
theorem renderList_eq_map (xs : List Expr) : renderList xs = xs.map render := by
  induction xs with
  | nil => rfl
  | cons x xs ih => simp [renderList, ih]

end Expr

namespace Stmt

/-- A list of texts in braces, divided by semicolons. -/
def braced : List String → String
  | [] => "\x7b\x7d"
  | parts => "\x7b " ++ "; ".intercalate parts ++ " \x7d"

/-- A keyword and, behind a blank, the value that it takes if it has one. -/
def keyword (word : String) : Option Expr → String
  | none => word
  | some v => word ++ " " ++ v.render

mutual
/-- The text of a statement. -/
def render : Stmt → String
  | .block list => braced (renderList list)
  | .branch c yes no => "if " ++ c.render ++ " " ++ renderArm yes ++ renderElse no
  | .whileLoop c body => "while " ++ c.render ++ " " ++ renderArm body
  | .forLoop init c step body =>
    "for " ++ renderInit init ++ "; " ++ (c.map Expr.render).getD "" ++ "; "
      ++ ", ".intercalate (step.map Expr.render) ++ " " ++ renderArm body
  | .ret v => keyword "return" v
  | .throw v => keyword "throw" v
  | .expr x => x.render
  | .decl n t v =>
    "var " ++ n ++ (if t = "" then "" else " " ++ t)
      ++ (match v with
        | none => ""
        | some v => " = " ++ v.render)

/-- The texts of a list of statements. -/
def renderList : List Stmt → List String
  | [] => []
  | s :: rest => s.render :: renderList rest

/-- The text of an arm, as a block. -/
def renderArm : Option Stmt → String
  | none => braced []
  | some (.block list) => braced (renderList list)
  | some s => braced [s.render]

/-- The text of the second arm of a branch. -/
def renderElse : Option Stmt → String
  | none => ""
  | some (.block list) => " else " ++ braced (renderList list)
  | some s => " else " ++ braced [s.render]

/-- The text of a statement that runs before a loop. -/
def renderInit : Option Stmt → String
  | none => ""
  | some s => s.render
end

end Stmt

end PathTree
