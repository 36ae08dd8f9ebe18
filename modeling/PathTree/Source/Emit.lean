import PathTree.Source.Parser.File
import PathTree.Fault

/-!
# From statement trees to source trees

`Stmt.toSource` turns statements back into source statements. Operands that bind too loosely for
their place get parentheses, and the texts of types are parsed.
-/

namespace PathTree

open Source

/-! ## Expressions -/

/-- The tree of a type text. -/
def typeNode (type : String) : Except Fault Node :=
  (Node.parse type).mapError .notType

/-- A literal in source form. A sign stands in front of the literal as an operator. -/
def Literal.toSource (l : Literal) : Except Fault Node :=
  let signed (form : LiteralForm) : Node :=
    match l.text.toList with
    | '-' :: rest => .unary .neg (.literal form (String.ofList rest))
    | _ => .literal form l.text
  match l.kind with
  | .bool | .nil => .ok (.ident l.text)
  | .int => .ok (signed .int)
  | .float => .ok (signed .float)
  | .string => .ok (signed .string)
  | .char => .ok (signed .char)
  | .invalid => .error (.ofExpr (.lit l) "literal")

/-- Whether an expression is a literal with a sign. -/
def Expr.isSigned : Expr → Bool
  | .lit l => l.text.toList.head? == some '-'
  | _ => false

/-- Puts the node of `x` in parentheses if `x` binds less tightly than `least`. -/
def wrapNode (least : Nat) (x : Expr) (node : Node) : Node :=
  if x.precedence < least then
    match node with
    | .paren _ => node
    | _ => .paren node
  else node

/-- The operator in front of an operand, in source form. -/
def UnaryOp.toSource? : UnaryOp → Option PrefixOp
  | .not => some .not
  | .neg => some .neg
  | .plus => some .plus
  | .inc | .dec | .invalid => none

mutual
/-- An expression in source form. Below an operator in front of it, every operand that is an operator
expression or has a sign is in parentheses. -/
def Expr.toSource : Expr → Except Fault Node
  | .lit l => l.toSource
  | .ident name => .ok (.ident name)
  | .binary op x y => do
    let l ← x.toSource
    let r ← y.toSource
    pure (.binary (.base op) (wrapNode op.precedence x l) (wrapNode (op.precedence + 1) y r))
  | .pre op x =>
    match op.toSource? with
    | none => .error (.ofExpr (.pre op x) "in an expression")
    | some op => do
      let inner := wrapNode Expr.primaryPrecedence x (← x.toSource)
      pure (.unary op (if x.isSigned then .paren inner else inner))
  | .paren x => do pure (.paren (← x.toSource))
  | .cast type x => do
    let type ← typeNode type
    let x ← x.toSource
    pure (.call type [x] false)
  | .call f args => do
    let f ← f.toSource
    let args ← Expr.listToSource args
    pure (.call f args false)
  | .member x sel => do pure (.selector (← x.toSource) sel)
  | .post op x => .error (.ofExpr (.post op x) "in an expression")
  | .assign op name value => .error (.ofExpr (.assign op name value) "in an expression")

/-- Expressions in source form, from left to right. -/
def Expr.listToSource : List Expr → Except Fault (List Node)
  | [] => .ok []
  | x :: rest => do
    let x ← x.toSource
    let rest ← Expr.listToSource rest
    pure (x :: rest)
end

/-! ## Statements -/

/-- An expression that is a statement. Assignments and counts are statements of their own. -/
def Expr.toStatement : Expr → Except Fault Statement
  | .assign op name value => do
    pure (.assign [.ident name] (.base op) [← value.toSource])
  | .post op x => do pure (.count (← x.toSource) (op != .dec))
  | .pre .inc x => do pure (.count (← x.toSource) true)
  | .pre .dec x => do pure (.count (← x.toSource) false)
  | x => do pure (.expr (← x.toSource))

/-- An optional expression in source form. -/
def Expr.optToSource : Option Expr → Except Fault (Option Node)
  | none => .ok none
  | some x => some <$> x.toSource

/-- A declaration in source form. Without a type it needs a value. -/
def declToSource (name type : String) (value : Option Expr) : Except Fault Statement := do
  let init ← Expr.optToSource value
  if type = "" then
    match init with
    | some v => pure (.assign [.ident name] .define [v])
    | none => .error (.ofStmt (.decl name type value) "declaration without type or value")
  else
    let node ← typeNode type
    pure (.vars [⟨[name], some node, init.toList⟩])

/-- The step of a loop in source form. There is room for one expression. -/
def stepToSource (loop : Stmt) : List Expr → Except Fault (Option Statement)
  | [] => .ok none
  | [x] => some <$> x.toStatement
  | _ => .error (.ofStmt loop "more than one post statement")

mutual
/-- A statement in source form. Arms and loop bodies become blocks. -/
def Stmt.toSource : Stmt → Except Fault Statement
  | .block list => do pure (.block (← Stmt.listToSource list))
  | .branch cond yes no => do
    let cond ← cond.toSource
    let body ← Stmt.armToSource yes
    let other ← Stmt.otherToSource no
    pure (.branch none cond body other)
  | .whileLoop cond body => do
    let cond ← cond.toSource
    let body ← Stmt.armToSource body
    pure (.loop none (some cond) none body)
  | .forLoop init cond step body => do
    let start ← Stmt.initToSource init
    let test ← Expr.optToSource cond
    let next ← stepToSource (.forLoop init cond step body) step
    let body ← Stmt.armToSource body
    pure (.loop start test next body)
  | .ret value => do pure (.ret (← Expr.optToSource value).toList)
  | .throw value => do
    pure (.expr (.call (.ident "panic") (← Expr.optToSource value).toList false))
  | .expr x => x.toStatement
  | .decl name type value => declToSource name type value

/-- Statements in source form, from first to last. -/
def Stmt.listToSource : List Stmt → Except Fault (List Statement)
  | [] => .ok []
  | s :: rest => do
    let s ← s.toSource
    let rest ← Stmt.listToSource rest
    pure (s :: rest)

/-- What stands in an arm or loop body, in source form. -/
def Stmt.armToSource : Option Stmt → Except Fault (List Statement)
  | none => .ok []
  | some (.block list) => Stmt.listToSource list
  | some s => do pure [← s.toSource]

/-- The second arm of a branch in source form. -/
def Stmt.otherToSource : Option Stmt → Except Fault (Option Statement)
  | none => .ok none
  | some (.block list) => do pure (some (.block (← Stmt.listToSource list)))
  | some s => do pure (some (.block [← s.toSource]))

/-- What a loop starts with, in source form. -/
def Stmt.initToSource : Option Stmt → Except Fault (Option Statement)
  | none => .ok none
  | some s => some <$> s.toSource
end

end PathTree
