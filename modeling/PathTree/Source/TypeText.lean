import PathTree.Source.Ast

/-!
# The text of a type

The one-line form in which a type, or an expression inside a type, is shown. The elements of a
composite literal and the body of a function literal are left out.
-/

namespace PathTree.Source.Node

/-- The text in front of the element of a channel type. -/
def chanText : ChanDir → String
  | .both => "chan "
  | .send => "chan<- "
  | .receive => "<-chan "

/-- The text of results. A single result without a name has no parentheses. -/
def resultsText (results : List Node) (texts : List String) : String :=
  match results, texts with
  | [], _ => ""
  | [.field [] _], [text] => " " ++ text
  | _, texts => " (" ++ ", ".intercalate texts ++ ")"

/-- The text of a field. -/
def fieldText (names : List String) (type : String) : String :=
  if names.isEmpty then type else ", ".intercalate names ++ " " ++ type

/-- The text of a member of an interface: the type of a method is its signature, without the keyword
that starts the text of a function type. -/
def memberText (names : List String) (type : Node) (text : String) : String :=
  match type with
  | .funcType .. => ", ".intercalate names ++ String.ofList (text.toList.drop "func".length)
  | _ => fieldText names text

mutual
/-- The text of a type or expression. -/
def typeText : Node → String
  | .ident name => name
  | .literal _ text => text
  | .composite type elements =>
    optText "(ast: <nil>)" type ++ "\x7b" ++ (if elements.isEmpty then "" else "…") ++ "\x7d"
  | .funcLit type => "(" ++ typeText type ++ " literal)"
  | .paren x => "(" ++ typeText x ++ ")"
  | .selector x sel => typeText x ++ "." ++ sel
  | .index x args => typeText x ++ "[" ++ ", ".intercalate (typeTexts args) ++ "]"
  | .slice x low high max =>
    typeText x ++ "[" ++ optText "" low ++ ":" ++ optText "" high ++
      (if max.isSome then ":" else "") ++ optText "" max ++ "]"
  | .typeAssert x type => typeText x ++ ".(" ++ optText "(ast: <nil>)" type ++ ")"
  | .call callee args spread =>
    typeText callee ++ "(" ++ ", ".intercalate (typeTexts args) ++ (if spread then "..." else "") ++
      ")"
  | .star x => "*" ++ typeText x
  | .unary op x => op.symbol ++ typeText x
  | .binary op x y => typeText x ++ " " ++ op.symbol ++ " " ++ typeText y
  | .keyValue key value => typeText key ++ ": " ++ typeText value
  | .arrayType length element => "[" ++ optText "" length ++ "]" ++ typeText element
  | .structType fields => "struct\x7b" ++ "; ".intercalate (typeTexts fields) ++ "\x7d"
  | .funcType params results =>
    "func(" ++ ", ".intercalate (typeTexts params) ++ ")" ++ resultsText results (typeTexts results)
  | .interfaceType members => "interface\x7b" ++ "; ".intercalate (memberTexts members) ++ "\x7d"
  | .mapType key value => "map[" ++ typeText key ++ "]" ++ typeText value
  | .chanType dir element => chanText dir ++ typeText element
  | .ellipsis element => "..." ++ optText "" element
  | .field names type => fieldText names (typeText type)

/-- The texts of a list. -/
def typeTexts : List Node → List String
  | [] => []
  | x :: rest => typeText x :: typeTexts rest

/-- The texts of the members of an interface. -/
def memberTexts : List Node → List String
  | [] => []
  | .field names type :: rest => memberText names type (typeText type) :: memberTexts rest
  | x :: rest => typeText x :: memberTexts rest

/-- The text of a part, or another text if it is missing. -/
def optText (missing : String) : Option Node → String
  | none => missing
  | some x => typeText x
end

end PathTree.Source.Node
