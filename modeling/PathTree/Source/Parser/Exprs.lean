import PathTree.Source.Parser.Types

/-!
# Parsing expressions

The rules for expressions. Types may stand where expressions do, as arguments and in conversions.
-/

namespace PathTree.Source

open Parse

variable (rules : Rules)

/-! ## Operands -/

/-- Reads a function type or a function literal. -/
def funcTypeOrLiteral : Parse Node := do
  let type ← funcType rules
  if ← sees "\x7b" then
    let _ ← inBrackets rules.block
    pure (.funcLit type)
  else pure type

/-- Reads an operand without operators. -/
def operand : Parse Node := do
  let t ← peek
  match t.kind with
  | .name =>
    let _ ← advance
    pure (.ident t.text)
  | .literal form =>
    let _ ← advance
    pure (.literal form t.text)
  | _ =>
    if ← skip "(" then
      let x ← inBrackets (rules .expr)
      let _ ← mark ")"
      pure (.paren x)
    else if ← sees "func" then funcTypeOrLiteral rules
    else
      match ← rules .type? with
      | some type => pure type
      | none => expected "operand"

/-! ## What stands behind an operand -/

/-- Reads what follows a dot: a selector or the type that is asserted. -/
def dotFrom (x : Node) : Parse Node := do
  if ← atName then
    let sel ← Parse.name
    pure (.selector x sel)
  else if ← skip "(" then
    let type ← if ← skip "type" then pure none else some <$> rules.type
    let _ ← mark ")"
    pure (.typeAssert x type)
  else expected "selector or type assertion"

/-- Reads the bound behind a colon, if there is one. -/
def bound? : Parse (Option Node) := do
  if (← sees ":") || (← sees "]") then pure none else some <$> rules .expr

/-- Reads what follows the colon of a slice expression. If there is a second colon, the bounds
behind both are needed. -/
def sliceFrom (x : Node) (low : Option Node) : Parse Node := do
  let high ← bound? rules
  if ← skip ":" then
    require high.isSome "middle index in 3-index slice"
    let max ← bound? rules
    require max.isSome "final index in 3-index slice"
    pure (.slice x low high max)
  else pure (.slice x low high none)

/-- Reads what follows an opening bracket: an index, a slice or type arguments. -/
def bracketFrom (x : Node) : Parse Node := do
  let y ← inBrackets do
    if ← skip ":" then sliceFrom rules x none
    else
      let first ← rules .expr
      if ← skip ":" then sliceFrom rules x (some first)
      else if ← sees "," then
        let more ← loop (fun acc => do
          if ← skip "," then
            if ← sees "]" then pure (.inl acc)
            else
              let type ← rules.type
              pure (.inl (type :: acc))
          else pure (.inr acc.reverse)) []
        pure (.index x (first :: more))
      else pure (.index x [first])
  let _ ← mark "]"
  pure y

/-- Reads the arguments of a call up to the closing parenthesis. No argument follows one that is
spread. -/
def callFrom (callee : Node) : Parse Node := do
  let (args, spread) ← inBrackets (loop (fun (acc : List Node) => do
    if (← sees ")") || (← atEnd) then pure (.inr (acc.reverse, false))
    else
      let x ← rules .expr
      let spread ← skip "..."
      let comma ← skip ","
      if spread || !comma then pure (.inr ((x :: acc).reverse, spread))
      else pure (.inl (x :: acc))) [])
  let _ ← mark ")"
  pure (.call callee args spread)

/-- Whether a node can be the type of a composite literal whose brace follows it at this depth. -/
def opensLiteral (depth : Int) : Node → Bool
  | .ident _ | .selector .. | .index .. => 0 ≤ depth
  | .arrayType .. | .structType _ | .mapType .. => true
  | _ => false

/-- Reads an operand with what is behind it. -/
def primary (first : Option Node) : Parse Node := do
  let x ← match first with
    | some x => pure x
    | none => operand rules
  loop (fun x => do
    if ← skip "." then .inl <$> dotFrom rules x
    else if ← skip "[" then .inl <$> bracketFrom rules x
    else if ← skip "(" then .inl <$> callFrom rules x
    else if ← sees "\x7b" then
      let depth := (← get).depth
      if opensLiteral depth x then .inl <$> rules (.literalValue (some x))
      else if opensLiteral depth x.unparen then expected "literal type without parentheses"
      else pure (.inr x)
    else pure (.inr x)) x

/-- Reads an element of a composite literal, or its key. -/
def elementPart : Parse Node := do
  if ← sees "\x7b" then rules (.literalValue none) else rules .expr

/-- Reads the value of a composite literal. -/
def literalValue (type : Option Node) : Parse Node := do
  let _ ← mark "\x7b"
  let elements ← inBrackets (listUpTo "\x7d" do
    let x ← elementPart rules
    if ← skip ":" then
      let value ← elementPart rules
      pure (.keyValue x value)
    else pure x)
  let _ ← mark "\x7d"
  pure (.composite type elements)

/-! ## Operators -/

/-- The channel type that an arrow in front of a channel type makes, if there is one. The arrow takes
the place of one that belonged to the type, which goes on to the type's element. -/
def receiveType? : Node → Option Node
  | .chanType .both e => some (.chanType .receive e)
  | .chanType .send e => (receiveType? e).map (.chanType .receive ·)
  | _ => none

/-- The operators that may stand in front of an operand, with their spellings. -/
def prefixOp? (text : String) : Option PrefixOp :=
  [PrefixOp.plus, .neg, .not, .complement, .address, .underlying].find? (·.symbol == text)

/-- Reads an operand with the operators in front of it. -/
def unary : Parse Node := do
  let t ← peek
  let op := if t.kind == .mark then prefixOp? t.text else none
  match op with
  | some op =>
    let _ ← advance
    let x ← rules .unary
    pure (.unary op x)
  | none =>
    if ← skip "<-" then
      match ← rules .unary with
      | .chanType dir e =>
        match receiveType? (.chanType dir e) with
        | some type => pure type
        | none => expected "channel type"
      | x => pure (.unary .receive x)
    else if ← skip "*" then Node.star <$> rules .unary
    else rules (.primary none)

/-- The operator that the next token is. -/
def infixOp? : Parse (Option InfixOp) := do
  let t ← peek
  pure (if t.kind == .mark then InfixOp.ofSymbol? t.text else none)

/-- Reads an expression of operators that bind at least as tightly as `level`. Operators of one level
group to the left. -/
def binaryFrom (level : Nat) (first : Option Node) : Parse Node := do
  let x ← match first with
    | some x => pure x
    | none => rules .unary
  loop (fun x => do
    match ← infixOp? with
    | some op =>
      if level ≤ op.level then
        let _ ← advance
        let y ← rules (.binary (op.level + 1) none)
        pure (.inl (.binary op x y))
      else pure (.inr x)
    | none => pure (.inr x)) x

end PathTree.Source
