import PathTree.Source.Token
import PathTree.Syntax.Stmt

/-!
# Source trees

The trees of a source file as its grammar has them. Expressions and types share one type `Node`,
because the grammar cannot tell them apart. A statement form that has no counterpart among the
statements of `PathTree.Stmt` is kept as its name only.
-/

namespace PathTree.Source

/-! ## Operators -/

/-- The operators on bits. -/
inductive BitOp where
  | and | or | xor | clear | left | right
  deriving DecidableEq, Repr

/-- The spelling of an operator. -/
def BitOp.symbol : BitOp → String
  | .and => "&"
  | .or => "|"
  | .xor => "^"
  | .clear => "&^"
  | .left => "<<"
  | .right => ">>"

/-- The operators between two operands. -/
inductive InfixOp where
  | base (op : BinaryOp)
  | bits (op : BitOp)
  deriving DecidableEq, Repr

namespace InfixOp

/-- The spelling of an operator. -/
def symbol : InfixOp → String
  | .base .invalid => "ILLEGAL"
  | .base op => op.symbol
  | .bits op => op.symbol

/-- How tightly an operator binds, from one. An operator that is not one of the language has zero. -/
def level : InfixOp → Nat
  | .base .or => 1
  | .base .and => 2
  | .base .eq | .base .ne | .base .lt | .base .le | .base .gt | .base .ge => 3
  | .base .add | .base .sub | .bits .or | .bits .xor => 4
  | .base .mul | .base .div | .base .mod | .bits .and | .bits .clear | .bits .left
  | .bits .right => 5
  | .base .invalid => 0

/-- The operators of the language. -/
def all : List InfixOp :=
  [.base .add, .base .sub, .base .mul, .base .div, .base .mod, .base .eq, .base .ne, .base .lt,
    .base .le, .base .gt, .base .ge, .base .and, .base .or, .bits .and, .bits .or, .bits .xor,
    .bits .clear, .bits .left, .bits .right]

/-- The operator with a spelling. -/
def ofSymbol? (s : String) : Option InfixOp := all.find? (·.symbol == s)

end InfixOp

/-- The operators in front of an operand. -/
inductive PrefixOp where
  | not | neg | plus | complement | address | receive | underlying
  deriving DecidableEq, Repr

/-- The spelling of an operator. -/
def PrefixOp.symbol : PrefixOp → String
  | .not => "!"
  | .neg => "-"
  | .plus => "+"
  | .complement => "^"
  | .address => "&"
  | .receive => "<-"
  | .underlying => "~"

/-- The operators of an assignment. -/
inductive SetOp where
  | define
  | base (op : AssignOp)
  | bits (op : BitOp)
  deriving DecidableEq, Repr

namespace SetOp

/-- The spelling of an operator. -/
def symbol : SetOp → String
  | .define => ":="
  | .base .invalid => "ILLEGAL"
  | .base op => op.symbol
  | .bits op => op.symbol ++ "="

/-- The operators of the language. -/
def all : List SetOp :=
  [.define, .base .set, .base .add, .base .sub, .base .mul, .base .div, .base .mod, .bits .and,
    .bits .or, .bits .xor, .bits .clear, .bits .left, .bits .right]

/-- The operator with a spelling. -/
def ofSymbol? (s : String) : Option SetOp := all.find? (·.symbol == s)

end SetOp

/-! ## Expressions and types -/

/-- The directions of a channel. -/
inductive ChanDir where
  | both | send | receive
  deriving DecidableEq, Repr

/-- Expressions and types. The body of a function literal is not kept. A `field` is a member of a
parameter list, a struct or an interface; it has no names if it is a type alone. -/
inductive Node where
  | ident (name : String)
  | literal (form : LiteralForm) (text : String)
  | composite (type : Option Node) (elements : List Node)
  | funcLit (type : Node)
  | paren (x : Node)
  | selector (x : Node) (sel : String)
  | index (x : Node) (args : List Node)
  | slice (x : Node) (low high max : Option Node)
  | typeAssert (x : Node) (type : Option Node)
  | call (callee : Node) (args : List Node) (spread : Bool)
  | star (x : Node)
  | unary (op : PrefixOp) (x : Node)
  | binary (op : InfixOp) (x y : Node)
  | keyValue (key value : Node)
  | arrayType (length : Option Node) (element : Node)
  | structType (fields : List Node)
  | funcType (params results : List Node)
  | interfaceType (members : List Node)
  | mapType (key value : Node)
  | chanType (dir : ChanDir) (element : Node)
  | ellipsis (element : Option Node)
  | field (names : List String) (type : Node)

namespace Node

instance : Inhabited Node := ⟨.ident ""⟩

/-- The name of a node's form. -/
def kind : Node → String
  | .ident _ => "Ident"
  | .literal .. => "BasicLit"
  | .composite .. => "CompositeLit"
  | .funcLit _ => "FuncLit"
  | .paren _ => "ParenExpr"
  | .selector .. => "SelectorExpr"
  | .index _ [_] => "IndexExpr"
  | .index .. => "IndexListExpr"
  | .slice .. => "SliceExpr"
  | .typeAssert .. => "TypeAssertExpr"
  | .call .. => "CallExpr"
  | .star _ => "StarExpr"
  | .unary .. => "UnaryExpr"
  | .binary .. => "BinaryExpr"
  | .keyValue .. => "KeyValueExpr"
  | .arrayType .. => "ArrayType"
  | .structType _ => "StructType"
  | .funcType .. => "FuncType"
  | .interfaceType _ => "InterfaceType"
  | .mapType .. => "MapType"
  | .chanType .. => "ChanType"
  | .ellipsis _ => "Ellipsis"
  | .field .. => "Field"

/-- The node without its outer parentheses. -/
def unparen : Node → Node
  | .paren x => x.unparen
  | x => x

/-- The names of a field. -/
def fieldNames : Node → List String
  | .field names _ => names
  | _ => []

/-- The type of a field. -/
def fieldType : Node → Node
  | .field _ type => type
  | x => x

end Node

/-! ## Statements and declarations -/

/-- The forms of statements that are kept as a name only. -/
inductive OtherForm where
  | switch | typeSwitch | select | range | jump | label | send | go | defer
  deriving DecidableEq, Repr

/-- The name of a form. -/
def OtherForm.kind : OtherForm → String
  | .switch => "SwitchStmt"
  | .typeSwitch => "TypeSwitchStmt"
  | .select => "SelectStmt"
  | .range => "RangeStmt"
  | .jump => "BranchStmt"
  | .label => "LabeledStmt"
  | .send => "SendStmt"
  | .go => "GoStmt"
  | .defer => "DeferStmt"

/-- The declaration of variables that share a type. -/
structure ValueSpec where
  names : List String
  type : Option Node
  values : List Node

/-- Statements. `constants` stands for a declaration of constants or types. -/
inductive Statement where
  | block (list : List Statement)
  | branch (init : Option Statement) (cond : Node) (body : List Statement) (other : Option Statement)
  | loop (init : Option Statement) (cond : Option Node) (step : Option Statement)
      (body : List Statement)
  | ret (results : List Node)
  | assign (targets : List Node) (op : SetOp) (values : List Node)
  | count (x : Node) (up : Bool)
  | vars (specs : List ValueSpec)
  | constants
  | expr (x : Node)
  | empty
  | other (form : OtherForm)

namespace Statement

instance : Inhabited Statement := ⟨.empty⟩

/-- The name of a statement's form. -/
def kind : Statement → String
  | .block _ => "BlockStmt"
  | .branch .. => "IfStmt"
  | .loop .. => "ForStmt"
  | .ret _ => "ReturnStmt"
  | .assign .. => "AssignStmt"
  | .count .. => "IncDecStmt"
  | .vars _ | .constants => "DeclStmt"
  | .expr _ => "ExprStmt"
  | .empty => "EmptyStmt"
  | .other form => form.kind

end Statement

/-- A function body and the places of its braces. -/
structure Body where
  opening : Place
  closing : Place
  list : List Statement

/-- A function declaration. `place` is that of its keyword, `doc` the number of the comment group in
front of it, and `decisions` counts the places in it where control may branch. -/
structure FuncDecl where
  doc : Option Nat
  place : Place
  receiver : Option (List Node)
  name : String
  params : List Node
  results : List Node
  body : Option Body
  decisions : Nat

/-- A source file: the place of its package clause, its comments and its functions. -/
structure File where
  package : Place
  groups : List (List Comment)
  funcs : List FuncDecl

end PathTree.Source
