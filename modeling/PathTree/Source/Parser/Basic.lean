import PathTree.Source.Ast

/-!
# Parsing steps

A parsing step takes tokens off the front of a list or fails. The grammar is recursive, so each rule
is written over a family `Rules` of the rules it uses, one per `Goal`; the family is tied together in
`PathTree.Source.Parser.File`.
-/

namespace PathTree.Source

/-- What is left to read, and how deep in brackets the reader is. At a negative depth, in the head of
a statement, an opening brace starts the statement's block and no literal. -/
structure Input where
  tokens : List Token
  depth : Int

/-- A parsing step. -/
abbrev Parse := StateT Input (Except SyntaxFault)

namespace Parse

/-- The next token. Behind the last one there is nothing but the end. -/
def peek : Parse Token := do
  match (← get).tokens with
  | t :: _ => pure t
  | [] => pure ⟨.finish, "", .start, none⟩

/-- Takes the next token. -/
def advance : Parse Token := do
  let t ← peek
  modify fun s => { s with tokens := s.tokens.drop 1 }
  pure t

/-- How a token is called in a message. -/
def describe (t : Token) : String :=
  match t.kind with
  | .finish => "'EOF'"
  | .mark => if t.text = "\n" then "newline" else "'" ++ t.text ++ "'"
  | _ => t.text

/-- Fails at the next token. -/
def expected {α : Type} (what : String) : Parse α := do
  let t ← peek
  throw ⟨t.place, "expected " ++ what ++ ", found " ++ describe t⟩

/-- Fails at the next token if something does not hold. -/
def require (ok : Bool) (what : String) : Parse Unit :=
  if ok then pure () else expected what

/-- Whether the next token is a mark. -/
def sees (text : String) : Parse Bool := do
  let t ← peek
  pure (t.kind == .mark && t.text == text)

/-- Whether the next token is one of some marks. -/
def seesAny (texts : List String) : Parse Bool := do
  let t ← peek
  pure (t.kind == .mark && texts.contains t.text)

/-- Whether the next token is a name. -/
def atName : Parse Bool := do pure ((← peek).kind == .name)

/-- Whether the text is at its end. -/
def atEnd : Parse Bool := do pure ((← peek).kind == .finish)

/-- Whether the next token is a text literal. -/
def atText : Parse Bool := do pure ((← peek).kind == .literal .string)

/-- Takes a mark. -/
def mark (text : String) : Parse Token := do
  if ← sees text then advance else expected ("'" ++ text ++ "'")

/-- Takes a mark if it is the next token. -/
def skip (text : String) : Parse Bool := do
  if ← sees text then
    let _ ← advance
    pure true
  else pure false

/-- Takes a name. -/
def name : Parse String := do
  if ← atName then
    let t ← advance
    pure t.text
  else expected "'IDENT'"

/-- Whether the next token is the end of a statement. -/
def atSemicolon : Parse Bool := seesAny [";", "\n"]

/-- Takes the end of a statement, which may be missing in front of a closing bracket. -/
def semicolon : Parse Unit := do
  unless ← seesAny [")", "\x7d"] do
    if ← atSemicolon then
      let _ ← advance
    else expected "';'"

/-- Runs a step with another depth of brackets, which is put back afterwards. -/
def withDepth {α : Type} (change : Int → Int) (step : Parse α) : Parse α := do
  let depth := (← get).depth
  modify fun s => { s with depth := change depth }
  let a ← step
  modify fun s => { s with depth }
  pure a

/-- Runs a step inside brackets. -/
def inBrackets {α : Type} (step : Parse α) : Parse α := withDepth (· + 1) step

/-- Runs a step in the head of a statement. -/
def inHead {α : Type} (step : Parse α) : Parse α := withDepth (fun _ => -1) step

/-- Repeats a step at most `n` times, until it gives a result. -/
def iterate {α β : Type} (step : α → Parse (α ⊕ β)) : Nat → α → Parse β
  | 0, _ => expected "end"
  | n + 1, a => do
    match ← step a with
    | .inl a => iterate step n a
    | .inr b => pure b

/-- Repeats a step until it gives a result. Each round takes a token, or is the last one, so there
are no more rounds than tokens. -/
def loop {α β : Type} (step : α → Parse (α ⊕ β)) (a : α) : Parse β := do
  iterate step ((← get).tokens.length + 2) a

/-- Reads elements as long as there are any. -/
def many {α : Type} (more : Parse Bool) (element : Parse α) : Parse (List α) :=
  loop (fun acc => do
    if ← more then
      let a ← element
      pure (.inl (a :: acc))
    else pure (.inr acc.reverse)) []

/-- Reads elements with commas between them and one more comma at most, up to the mark `closing`,
which is not taken. -/
def listUpTo {α : Type} (closing : String) (element : Parse α) : Parse (List α) :=
  loop (fun acc => do
    if (← sees closing) || (← atEnd) then pure (.inr acc.reverse)
    else
      let a ← element
      if ← skip "," then pure (.inl (a :: acc))
      else if ← sees closing then pure (.inr (a :: acc).reverse)
      else expected "','") []

/-- Reads one element or more with commas between them. -/
def commaList {α : Type} (element : Parse α) : Parse (List α) :=
  loop (fun acc => do
    let a ← element
    if ← skip "," then pure (.inl (a :: acc)) else pure (.inr (a :: acc).reverse)) []

end Parse

/-- The rules that other rules refer to. -/
inductive Goal where
  /-- An expression. -/
  | expr
  /-- An expression of operators that bind at least as tightly as the level, onto a first operand
  if there is one already. -/
  | binary (level : Nat) (first : Option Node)
  /-- An operand with the operators in front of it. -/
  | unary
  /-- An operand with what is behind it, onto a first part if there is one already. -/
  | primary (first : Option Node)
  /-- A type, if there is one. -/
  | type?
  /-- The value of a composite literal between braces. -/
  | literalValue (type : Option Node)
  /-- Statements up to the end of a block or clause. -/
  | statements
  /-- A statement. -/
  | statement
  /-- A conditional statement. -/
  | branch

/-- What a rule gives. -/
abbrev Goal.Result : Goal → Type
  | .type? => Option Node
  | .statements => List Statement
  | .statement | .branch => Statement
  | _ => Node

/-- One parsing step for each rule. -/
abbrev Rules := (g : Goal) → Parse g.Result

/-- Reads a type. -/
def Rules.type (rules : Rules) : Parse Node := do
  match ← rules .type? with
  | some t => pure t
  | none => Parse.expected "type"

/-- Reads expressions with commas between them. -/
def Rules.exprs (rules : Rules) : Parse (List Node) := Parse.commaList (rules .expr)

/-- Reads a block with its braces. -/
def Rules.block (rules : Rules) : Parse Body := do
  let opening ← Parse.mark "\x7b"
  let list ← rules .statements
  let closing ← Parse.mark "\x7d"
  pure ⟨opening.place, closing.place, list⟩

end PathTree.Source
