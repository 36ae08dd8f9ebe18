import PathTree.Source.Parser.Stmts
import PathTree.Source.Lexed

/-!
# Parsing files

The rules of the grammar tied together, and the two things that are read as a whole: a source file
(`File.parse`) and the text of a type (`Node.parse`).

A rule may refer to any other, so the rules are tied by a bound on how deeply they are nested. Rules
are nested no deeper than a few times the number of tokens, and `rulesFor` takes the bound from there.
-/

namespace PathTree.Source

open Parse

/-- The rules, each over the rules it refers to. -/
def ruleOf (rules : Rules) : Rules
  | .expr => rules (.binary 1 none)
  | .binary level first => binaryFrom rules level first
  | .unary => unary rules
  | .primary first => primary rules first
  | .type? => type? rules
  | .literalValue type => literalValue rules type
  | .statements => statements rules
  | .statement => statement rules
  | .branch => branch rules

/-- The rules, nested to a depth of at most `n`. -/
def rulesTo : Nat → Rules
  | 0 => fun _ => expected "less nesting"
  | n + 1 => ruleOf (rulesTo n)

/-- The rules for a text of so many tokens. -/
def rulesFor (tokens : Nat) : Rules := rulesTo (8 * tokens + 8)

/-! ## Declarations of a file -/

/-- Reads the path of an import. -/
def importSpec : Parse Unit := do
  if (← atName) || (← sees ".") then
    let _ ← advance
  if ← atText then
    let _ ← advance
    semicolon
  else expected "import path"

/-- The words and operators at which control may branch. -/
def decisionMarks : List String := ["if", "for", "case", "&&", "||"]

/-- How often control may branch in a list of tokens. -/
def decisionsIn (tokens : List Token) : Nat :=
  (tokens.filter fun t => t.kind == .mark && decisionMarks.contains t.text).length

/-- Reads a function declaration. -/
def funcDecl (rules : Rules) : Parse FuncDecl := do
  let before := (← get).tokens
  let keyword ← mark "func"
  let receiver ← if ← sees "(" then some <$> parameters rules else pure none
  let name ← Parse.name
  if ← sees "[" then
    require receiver.isNone "method without type parameters"
    typeParameters rules
  let params ← parameters rules
  let results ← results rules
  let body ←
    if ← sees "\x7b" then
      let body ← rules.block
      pure (some body)
    else pure none
  let after := (← get).tokens
  semicolon
  if body.isNone then
    require (!(← sees "\x7b")) "body on the line of the function"
  let decisions := decisionsIn (before.take (before.length - after.length))
  pure ⟨keyword.lead, keyword.place, receiver, name, params, results, body, decisions⟩

/-- Reads the declarations of a file and keeps the functions. Imports come first. -/
def declarations (rules : Rules) : Parse (List FuncDecl) := do
  let _ ← many (sees "import") do
    let _ ← advance
    let _ ← specs importSpec
  let decls ← many (do pure !(← atEnd)) do
    if ← sees "func" then
      let f ← funcDecl rules
      pure (some f)
    else
      let _ ← declaration rules
      pure none
  pure (decls.filterMap id)

/-- Reads a file. -/
def file (rules : Rules) : Parse (Place × List FuncDecl) := do
  let keyword ← mark "package"
  let _ ← Parse.name
  semicolon
  let funcs ← declarations rules
  pure (keyword.place, funcs)

/-- Runs a parsing step on a text. The faults of its lexemes come before those of its grammar. -/
def parseText {α : Type} (step : Rules → Parse α) (text : String) :
    Except String (α × Lexed) :=
  let lexed := Lexed.ofText text
  match lexed.faults with
  | f :: fs => .error (f.summary fs)
  | [] =>
    match (step (rulesFor lexed.tokens.length)).run ⟨lexed.tokens, 0⟩ with
    | .ok (a, _) => .ok (a, lexed)
    | .error f => .error (f.summary [])

/-- Reads a source file. -/
def File.parse (text : String) : Except String File := do
  let ((package, funcs), lexed) ← parseText file text
  pure ⟨package, lexed.groups, funcs⟩

/-- Reads a single expression or type and nothing behind it but a line end. -/
def wholeExpr (rules : Rules) : Parse Node := do
  let x ← rules .expr
  let _ ← skip "\n"
  require (← atEnd) "'EOF'"
  pure x

/-- Reads the text of an expression or type. -/
def Node.parse (text : String) : Except String Node := do
  let (x, _) ← parseText wholeExpr text
  pure x

end PathTree.Source
