import PathTree.Source.Parser.Exprs

/-!
# Parsing statements

The rules for statements and for the declarations that are statements.
-/

namespace PathTree.Source

open Parse

variable (rules : Rules)

/-! ## Declarations -/

/-- Reads what a declaration declares: one thing, or several in parentheses. -/
def specs {α : Type} (spec : Parse α) : Parse (List α) := do
  if ← skip "(" then
    let list ← many (do pure (!(← sees ")") && !(← atEnd))) spec
    let _ ← mark ")"
    semicolon
    pure list
  else
    let s ← spec
    pure [s]

/-- Reads the values behind an equality sign, if there is one. -/
def initialValues : Parse (List Node) := do
  if ← skip "=" then rules.exprs else pure []

/-- Reads the declaration of variables that share a type. -/
def varSpec : Parse ValueSpec := do
  let names ← commaList Parse.name
  let type ← if ← sees "=" then pure none else some <$> rules.type
  let values ← initialValues rules
  semicolon
  pure ⟨names, type, values⟩

/-- Reads the declaration of constants. -/
def constSpec : Parse Unit := do
  let _ ← commaList Parse.name
  unless (← atSemicolon) || (← sees ")") || (← atEnd) do
    let _ ← rules .type?
    let _ ← initialValues rules
  semicolon

/-- Whether a node can be nothing but a type or a union of types. -/
def isTypeTerm : Node → Bool
  | .arrayType .. | .structType _ | .funcType .. | .interfaceType _ | .mapType ..
  | .chanType .. => true
  | .binary _ x y => isTypeTerm x || isTypeTerm y
  | .unary op _ => op == .underlying
  | .paren x => isTypeTerm x
  | _ => false

/-- Splits an expression into the name of a type parameter and its type. With `force` an expression
that could be the length of an array is split too. -/
def splitTypeParam? (force : Bool) : Node → Option (String × Option Node)
  | .ident name => some (name, none)
  | .binary (.base .mul) (.ident name) y =>
    if force || isTypeTerm y then some (name, some (.star y)) else none
  | .binary (.bits .or) x y =>
    match splitTypeParam? (force || isTypeTerm y) x with
    | some (name, some type) => some (name, some (.binary (.bits .or) type y))
    | _ => none
  | .call (.ident name) [x] false =>
    if force || isTypeTerm x then some (name, some x) else none
  | _ => none

/-- Reads a list of type parameters whose first name, and perhaps type, was read. -/
def typeParamsFrom (name : String) (type : Option Node) : Parse Unit := do
  let first ← match type with
    | some type =>
      let type ← unionFrom rules type
      pure (⟨some name, some type⟩ : RawParam)
    | none => paramFrom rules true name
  let more ←
    if ← skip "," then listUpTo "]" (param rules true)
    else if ← sees "]" then pure []
    else expected "','"
  match paramFields true (first :: more) with
  | some _ => pure ()
  | none => expected "type parameter"

/-- Reads the declaration of a type. -/
def typeSpec : Parse Unit := do
  let _ ← Parse.name
  if ← skip "[" then
    if ← atName then
      let name ← Parse.name
      let x ←
        if ← sees "[" then pure (.ident name)
        else inBrackets do
          let operand ← rules (.primary (some (.ident name)))
          rules (.binary 1 (some operand))
      let comma ← sees ","
      let closed ← sees "]"
      match splitTypeParam? comma x with
      | some (name, type) =>
        if type.isSome || !closed then
          typeParamsFrom rules name type
          let _ ← mark "]"
          let _ ← skip "="
          let _ ← rules.type
        else
          let _ ← arrayFrom rules (some x)
      | none =>
        let _ ← arrayFrom rules (some x)
    else
      let _ ← arrayFrom rules none
  else
    let _ ← skip "="
    let _ ← rules.type
  semicolon

/-- Reads a declaration that is a statement. -/
def declaration : Parse Statement := do
  if ← skip "var" then .vars <$> specs (varSpec rules)
  else if ← skip "const" then
    let _ ← specs (constSpec rules)
    pure .constants
  else
    let _ ← mark "type"
    let _ ← specs (typeSpec rules)
    pure .constants

/-! ## Simple statements -/

/-- Where a simple statement stands. -/
inductive SimplePlace where
  /-- Where a label may stand. -/
  | labels
  /-- In the head of a loop, where a range may stand. -/
  | ranges
  /-- Anywhere else. -/
  | plain
  deriving DecidableEq

/-- Reads a simple statement. -/
def simple (place : SimplePlace) : Parse Statement := do
  let xs ← rules.exprs
  let t ← peek
  let op := if t.kind == .mark then SetOp.ofSymbol? t.text else none
  match op, xs with
  | some op, _ =>
    let _ ← advance
    if place == .ranges && (op == .define || op == .base .set) && (← sees "range") then
      let _ ← advance
      let _ ← rules .expr
      require (xs.length ≤ 2) "at most 2 expressions"
      pure (.other .range)
    else
      let ys ← rules.exprs
      pure (.assign xs op ys)
  | none, [x] =>
    if ← skip ":" then
      match place, x with
      | .labels, .ident _ =>
        let _ ← rules .statement
        pure (.other .label)
      | _, _ => expected "label"
    else if ← skip "<-" then
      let _ ← rules .expr
      pure (.other .send)
    else if ← skip "++" then pure (.count x true)
    else if ← skip "--" then pure (.count x false)
    else pure (.expr x)
  | none, _ => expected "1 expression"

/-- The expression that a statement in the place of one is. -/
def asExpr : Statement → Parse Node
  | .expr x => pure x
  | _ => expected "expression"

/-! ## Statements with a head -/

/-- Reads a conditional statement. -/
def branch : Parse Statement := do
  let _ ← mark "if"
  let (init, cond) ← inHead do
    let first ←
      if ← sees ";" then pure none else some <$> simple rules .plain
    if ← sees "\x7b" then
      match first with
      | some s => do
        let cond ← asExpr s
        pure (none, cond)
      | none => expected "condition"
    else
      require (← atSemicolon) "';'"
      let _ ← advance
      let second ← simple rules .plain
      let cond ← asExpr second
      pure (first, cond)
  let body ← rules.block
  if ← skip "else" then
    if ← sees "if" then
      let other ← rules .branch
      pure (.branch init cond body.list (some other))
    else
      let other ← rules.block
      semicolon
      pure (.branch init cond body.list (some (.block other.list)))
  else
    semicolon
    pure (.branch init cond body.list none)

/-- What stands in the head of a loop. -/
inductive LoopHead where
  | range
  | clauses (init : Option Statement) (cond : Option Node) (step : Option Statement)

/-- Reads the head of a loop. -/
def loopHead : Parse LoopHead := do
  if ← sees "\x7b" then pure (.clauses none none none)
  else inHead do
    if ← skip "range" then
      let _ ← rules .expr
      pure .range
    else
      let first ← if ← atSemicolon then pure none else some <$> simple rules .ranges
      if let some (.other .range) := first then
        pure .range
      else if ← atSemicolon then
        let _ ← advance
        let cond ←
          if ← atSemicolon then pure none
          else
            let s ← simple rules .plain
            some <$> asExpr s
        require (← atSemicolon) "';'"
        let _ ← advance
        let step ← if ← sees "\x7b" then pure none else some <$> simple rules .plain
        pure (.clauses first cond step)
      else
        match first with
        | some s =>
          let cond ← asExpr s
          pure (.clauses none (some cond) none)
        | none => expected "for loop condition"

/-- Reads a loop. -/
def loopStatement : Parse Statement := do
  let _ ← mark "for"
  let head ← loopHead rules
  let body ← rules.block
  semicolon
  match head with
  | .range => pure (.other .range)
  | .clauses init cond step => pure (.loop init cond step body.list)

/-- Reads the statements of a clause behind its colon. -/
def clauseBody : Parse Unit := do
  let _ ← mark ":"
  let _ ← rules .statements

/-- Reads clauses in braces, each with a head behind its keyword if it is no default clause. -/
def clauses (head : Parse Unit) : Parse Unit := do
  let _ ← mark "\x7b"
  let _ ← many (seesAny ["case", "default"]) do
    if ← skip "default" then pure () else
      let _ ← advance
      head
    clauseBody rules
  let _ ← mark "\x7d"
  semicolon

/-- Whether a statement asks for the type of a value. -/
def asksType : Statement → Bool
  | .expr (.typeAssert _ none) => true
  | .assign [_] .define [.typeAssert _ none] => true
  | _ => false

/-- Reads a choice among values or types. -/
def switchStatement : Parse Statement := do
  let _ ← mark "switch"
  let subject ←
    if ← sees "\x7b" then pure none
    else inHead do
      let first ← if ← atSemicolon then pure none else some <$> simple rules .plain
      if ← atSemicolon then
        let _ ← advance
        if ← sees "\x7b" then pure none else some <$> simple rules .plain
      else pure first
  let byType := subject.any asksType
  match subject with
  | some s => unless byType do
      let _ ← asExpr s
  | none => pure ()
  clauses rules do
    let _ ← rules.exprs
  pure (.other (if byType then .typeSwitch else .switch))

/-- Reads the communication that a clause waits for. -/
def communication : Parse Unit := do
  let xs ← rules.exprs
  if ← skip "<-" then
    require (xs.length == 1) "1 expression"
    let _ ← rules .expr
  else if ← seesAny ["=", ":="] then
    require (xs.length ≤ 2) "1 or 2 expressions"
    let _ ← advance
    let _ ← rules .expr
  else require (xs.length == 1) "1 expression"

/-- Reads a choice among communications. -/
def selectStatement : Parse Statement := do
  let _ ← mark "select"
  clauses rules (communication rules)
  pure (.other .select)

/-! ## Statements -/

/-- Reads the call behind a keyword. -/
def deferredCall : Parse Unit := do
  match ← rules .expr with
  | .call .. => semicolon
  | _ => expected "function call"

/-- The marks that may start an expression. -/
def exprMarks : List String :=
  ["func", "(", "[", "struct", "map", "chan", "interface", "+", "-", "*", "&", "^", "<-", "!"]

/-- Reads a statement that starts with a mark. -/
def markStatement (text : String) : Parse Statement := do
  match text with
  | "const" | "type" | "var" => declaration rules
  | "go" =>
    let _ ← advance
    deferredCall rules
    pure (.other .go)
  | "defer" =>
    let _ ← advance
    deferredCall rules
    pure (.other .defer)
  | "return" =>
    let _ ← advance
    let values ← if (← atSemicolon) || (← sees "\x7d") then pure [] else rules.exprs
    semicolon
    pure (.ret values)
  | "break" | "continue" | "goto" | "fallthrough" =>
    let _ ← advance
    if text == "goto" || (text != "fallthrough" && (← atName)) then
      let _ ← Parse.name
    semicolon
    pure (.other .jump)
  | "\x7b" =>
    let body ← rules.block
    semicolon
    pure (.block body.list)
  | "if" => rules .branch
  | "switch" => switchStatement rules
  | "select" => selectStatement rules
  | "for" => loopStatement rules
  | ";" | "\n" =>
    let _ ← advance
    pure .empty
  | "\x7d" => pure .empty
  | _ => expected "statement"

/-- Reads a statement. -/
def statement : Parse Statement := do
  let t ← peek
  let startsExpr := match t.kind with
    | .name | .literal _ => true
    | .mark => exprMarks.contains t.text
    | _ => false
  if startsExpr then
    let s ← simple rules .labels
    match s with
    | .other .label => pure s
    | _ =>
      semicolon
      pure s
  else
    require (t.kind == .mark) "statement"
    markStatement rules t.text

/-- Reads statements up to the end of a block or clause. -/
def statements : Parse (List Statement) :=
  many (do pure (!(← seesAny ["case", "default", "\x7d"]) && !(← atEnd))) (rules .statement)

end PathTree.Source
