/-!
# Expressions

The expression language of the statement trees: literals kept as they are written, names,
operators, conversions, calls, member accesses and assignments. Each operator type has a value
`invalid` for an operator that is not one of the language.

`Expr.kind` is the name of a node's form, `Expr.unparen` removes outer parentheses, and
`Expr.negate` is the condition that holds when the given one does not.
-/

namespace PathTree

/-! ## Literals and operators -/

/-- The kinds of a literal. -/
inductive LitKind where
  | int | float | string | char | bool | nil | invalid
  deriving DecidableEq, Repr

/-- The word for a literal kind. -/
def LitKind.name : LitKind → String
  | .int => "int"
  | .float => "float"
  | .string => "string"
  | .char => "char"
  | .bool => "bool"
  | .nil => "nil"
  | .invalid => "?"

/-- A literal is its kind and its source text, quotes included. -/
structure Literal where
  kind : LitKind
  text : String
  deriving DecidableEq, Repr

/-- Operators with two operands. -/
inductive BinaryOp where
  | add | sub | mul | div | mod
  | eq | ne | lt | le | gt | ge
  | and | or
  | invalid
  deriving DecidableEq, Repr

namespace BinaryOp

/-- The spelling of an operator. -/
def symbol : BinaryOp → String
  | .add => "+"
  | .sub => "-"
  | .mul => "*"
  | .div => "/"
  | .mod => "%"
  | .eq => "=="
  | .ne => "!="
  | .lt => "<"
  | .le => "<="
  | .gt => ">"
  | .ge => ">="
  | .and => "&&"
  | .or => "||"
  | .invalid => "?"

/-- `&&` and `||`. -/
def isLogical : BinaryOp → Bool
  | .and | .or => true
  | _ => false

/-- The six comparisons. -/
def isComparison : BinaryOp → Bool
  | .eq | .ne | .lt | .le | .gt | .ge => true
  | _ => false

end BinaryOp

/-- Operators with one operand. -/
inductive UnaryOp where
  | not | neg | plus | inc | dec | invalid
  deriving DecidableEq, Repr

/-- The spelling of an operator. -/
def UnaryOp.symbol : UnaryOp → String
  | .not => "!"
  | .neg => "-"
  | .plus => "+"
  | .inc => "++"
  | .dec => "--"
  | .invalid => "?"

/-- `++` and `--`. -/
def UnaryOp.isStep : UnaryOp → Bool
  | .inc | .dec => true
  | _ => false

/-- Assignment operators. -/
inductive AssignOp where
  | set | add | sub | mul | div | mod | invalid
  deriving DecidableEq, Repr

namespace AssignOp

/-- The spelling of an operator. -/
def symbol : AssignOp → String
  | .set => "="
  | .add => "+="
  | .sub => "-="
  | .mul => "*="
  | .div => "/="
  | .mod => "%="
  | .invalid => "?"

/-- The arithmetic operator a compound assignment applies. -/
def binary? : AssignOp → Option BinaryOp
  | .add => some .add
  | .sub => some .sub
  | .mul => some .mul
  | .div => some .div
  | .mod => some .mod
  | .set | .invalid => none

end AssignOp

/-! ## Expressions -/

/-- Expressions. `pre` and `post` are an operator before and behind its operand. -/
inductive Expr where
  | lit (l : Literal)
  | ident (name : String)
  | binary (op : BinaryOp) (x y : Expr)
  | pre (op : UnaryOp) (x : Expr)
  | post (op : UnaryOp) (x : Expr)
  | paren (x : Expr)
  | cast (type : String) (x : Expr)
  | call (callee : Expr) (args : List Expr)
  | member (x : Expr) (sel : String)
  | assign (op : AssignOp) (name : String) (value : Expr)
  deriving Repr

instance : Inhabited Expr := ⟨.ident ""⟩

namespace Expr

/-- The name of a node's form, with its operator if it has one. -/
def kind : Expr → String
  | .lit _ => "Literal"
  | .ident _ => "Identifier"
  | .binary op _ _ => "Binary(" ++ op.symbol ++ ")"
  | .pre op _ => "Prefix(" ++ op.symbol ++ ")"
  | .post op _ => "Postfix(" ++ op.symbol ++ ")"
  | .paren _ => "Parenthesized"
  | .cast _ _ => "Cast"
  | .call _ _ => "Invocation"
  | .member _ _ => "MemberAccess"
  | .assign op _ _ => "Assignment(" ++ op.symbol ++ ")"

/-- The expression without its outer parentheses. -/
def unparen : Expr → Expr
  | .paren x => x.unparen
  | x => x

/-- The negated condition. Its operand is in parentheses, which are not doubled. -/
def negate : Expr → Expr
  | .paren x => .pre .not (.paren x)
  | x => .pre .not (.paren x)

/-- The integer `n` as an expression. -/
def int (n : Int) : Expr := .lit ⟨.int, toString n⟩

end Expr

namespace Literal

/-- The decimal literal of an integer. -/
def ofInt (n : Int) : Literal := ⟨.int, toString n⟩

/-- The literal of a truth value. -/
def ofBool (b : Bool) : Literal := ⟨.bool, if b then "true" else "false"⟩

/-- The literal `nil`. -/
def nilValue : Literal := ⟨.nil, "nil"⟩

end Literal

/-! ## Walking a tree -/

mutual
/-- The nodes met on a walk from the root: a node stands before its operands, and the operands
of a node that `enter` refuses are skipped. -/
def Expr.walk (enter : Expr → Bool) : Expr → List Expr
  | .lit l => [.lit l]
  | .ident n => [.ident n]
  | .binary op x y =>
    .binary op x y :: if enter (.binary op x y) then x.walk enter ++ y.walk enter else []
  | .pre op x => .pre op x :: if enter (.pre op x) then x.walk enter else []
  | .post op x => .post op x :: if enter (.post op x) then x.walk enter else []
  | .paren x => .paren x :: if enter (.paren x) then x.walk enter else []
  | .cast t x => .cast t x :: if enter (.cast t x) then x.walk enter else []
  | .call f args =>
    .call f args ::
      if enter (.call f args) then f.walk enter ++ Expr.walkList enter args else []
  | .member x s => .member x s :: if enter (.member x s) then x.walk enter else []
  | .assign op n v => .assign op n v :: if enter (.assign op n v) then v.walk enter else []

/-- The walks of a list of expressions, one after the other. -/
def Expr.walkList (enter : Expr → Bool) : List Expr → List Expr
  | [] => []
  | x :: xs => x.walk enter ++ Expr.walkList enter xs
end

/-- Whether an expression is built from literals by operators and parentheses alone. -/
def Expr.isClosed : Expr → Bool
  | .lit _ => true
  | .binary _ x y => x.isClosed && y.isClosed
  | .pre _ x => x.isClosed
  | .paren x => x.isClosed
  | _ => false

end PathTree
