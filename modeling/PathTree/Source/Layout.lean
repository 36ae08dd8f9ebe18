import PathTree.Source.Lexeme
import PathTree.Source.Lower

/-!
# Layout

The text of source trees in the standard layout: one statement on a line, tabs for indentation, and
blanks around an operator that tell how tightly it binds. `Statement.text` is the text of a statement
on its own, and `bodyLayout` that of a function body, which goes on one line if it is short.

An operator keeps a line break behind it if its right operand starts on another line than the one
the layout is on. Names of types are the only words of a new tree that have a place in the file, as
if each type stood at its very beginning; all other words are taken to follow the word before them.
So the first conversion of a body that directly follows an operator goes on a new line, and the ones
behind it do not.
-/

namespace PathTree.Source

/-! ## Pieces -/

/-- The indentation of a line. -/
def tabs (n : Nat) : String := String.ofList (List.replicate n '\t')

/-- Replaces the last occurrence of a character. -/
def replaceLast (old new : Char) (cs : List Char) : List Char :=
  match (cs.reverse.takeWhile (· != old)).length with
  | n => if n < cs.length then cs.take (cs.length - n - 1) ++ new :: cs.drop (cs.length - n) else cs

/-- A number with the letters of its base and exponent in lower case. -/
def normalNumber (text : String) : String :=
  match text.toList with
  | '0' :: 'X' :: rest => String.ofList ('0' :: 'x' :: replaceLast 'P' 'p' rest)
  | '0' :: 'x' :: rest => String.ofList ('0' :: 'x' :: replaceLast 'P' 'p' rest)
  | '0' :: 'O' :: rest => String.ofList ('0' :: 'o' :: rest)
  | '0' :: 'B' :: rest => String.ofList ('0' :: 'b' :: rest)
  | '0' :: 'o' :: _ | '0' :: 'b' :: _ => text
  | [_] => text
  | cs =>
    if cs.contains 'E' then String.ofList (replaceLast 'E' 'e' cs)
    else if cs.getLast? == some 'i' && !cs.contains '.' && !cs.contains 'e' then
      let rest := cs.dropWhile (fun c => c == '0' || c == '_')
      if rest == ['i'] then "0i" else String.ofList rest
    else text

/-- The text of a literal. -/
def literalText (form : LiteralForm) (text : String) : String :=
  match form with
  | .int | .float | .imaginary => normalNumber text
  | .char | .string => text

/-- Whether two operators in a row would read as another one. -/
def PrefixOp.runsInto (first second : PrefixOp) : Bool :=
  match first, second with
  | .neg, .neg | .plus, .plus | .address, .address | .address, .complement => true
  | _, _ => false

/-! ## Blanks around operators -/

/-- What decides on blanks in an expression: whether operators of level 4 and of level 5 occur, and
the level up to which operators need blanks to be read at all. -/
structure Blanks where
  has4 : Bool
  has5 : Bool
  needed : Nat

/-- The blanks that an operator and its right operand need. -/
def neededBefore (op : InfixOp) (right : Node) : Nat :=
  match right with
  | .star _ => if op = .base .div then 5 else 0
  | .unary r _ =>
    match op.symbol ++ r.symbol with
    | "/*" | "&&" | "&^" => 5
    | "++" | "--" => 4
    | _ => 0
  | _ => 0

/-- Looks through the operands that are not in parentheses. -/
def blanksOf : Node → Blanks
  | .binary op x y =>
    let left : Blanks := match x with
      | .binary l _ _ => if l.level < op.level then ⟨false, false, 0⟩ else blanksOf x
      | _ => ⟨false, false, 0⟩
    let right : Blanks := match y with
      | .binary r _ _ => if r.level ≤ op.level then ⟨false, false, 0⟩ else blanksOf y
      | _ => ⟨false, false, neededBefore op y⟩
    ⟨op.level == 4 || left.has4 || right.has4, op.level == 5 || left.has5 || right.has5,
      max left.needed right.needed⟩
  | _ => ⟨false, false, 0⟩

/-- The level from which on operators have no blanks around them. -/
def cutoff (x : Node) (depth : Nat) : Nat :=
  let b := blanksOf x
  if 0 < b.needed then b.needed + 1
  else if b.has4 && b.has5 then if depth = 1 then 5 else 4
  else if depth = 1 then 6 else 4

/-- The depth inside parentheses. -/
def inner (depth : Nat) : Nat := max (depth - 1) 1

/-- The depth of a left operand below an operator of a level. -/
def leftDepth (level depth : Nat) : Node → Nat
  | .binary op _ _ => if op.level = level then depth else depth + 1
  | _ => depth + 1

/-! ## Expressions and types -/

/-- The level of operators in front of an operand. -/
def unaryLevel : Nat := 6

/-- The level of what may stand in front of a selector or a call. -/
def operandLevel : Nat := 7

/-- Puts a text in parentheses on a condition. -/
def wrapIf (wrap : Bool) (text : String) : String := if wrap then "(" ++ text ++ ")" else text

/-- The names of a field in a row. -/
def namesText (names : List String) : String := ", ".intercalate names

/-- Whether a type needs parentheses in front of a value that is converted to it. -/
def needsParens : Node → Bool
  | .funcType .. => true
  | .chanType .receive _ => true
  | _ => false

/-- Whether a node is in parentheses. -/
def isParen : Node → Bool
  | .paren _ => true
  | _ => false

/-- The text of a node without its outer parentheses. Doubled parentheses are written once, so there
is one pair at most. -/
def bareText (x : Node) (text : String) : String :=
  if isParen x then String.ofList (text.toList.drop 1).dropLast else text

/-- The text of results. A single result without a name has no parentheses. -/
def resultsLayout (results : List Node) (texts : List String) : String :=
  match results, texts with
  | [], _ => ""
  | [.field [] _], [text] => " " ++ text
  | _, texts => " (" ++ ", ".intercalate texts ++ ")"

/-- The lines of a struct's fields. Types stand under each other in a run of fields with names; a
field over several lines ends a run. -/
def alignFields : List (List String × String) → List String
  | [] => []
  | fields@((names, text) :: rest) =>
    if names.isEmpty then text :: alignFields rest
    else
      let oneLine := fun f : List String × String => !f.1.isEmpty && !f.2.contains '\n'
      let run := fields.takeWhile oneLine
      let width := (run.map fun f => (namesText f.1).length).foldl max (namesText names).length
      let pad := width + 1 - (namesText names).length
      -- the widths of a run are those of its longest name from its first field on
      (namesText names ++ String.ofList (List.replicate pad ' ') ++ text) ::
        (rest.take (run.length - 1)).map (fun f =>
          namesText f.1 ++
            String.ofList (List.replicate (width + 1 - (namesText f.1).length) ' ') ++ f.2) ++
        alignFields (rest.drop (run.length - 1))
termination_by fields => fields.length
decreasing_by
  all_goals simp_all only [List.length_cons, List.length_drop]; omega

/-- A struct or interface type over its members: on one line if there is at most one member and it is
short, else one member on a line. -/
def membersLayout (indent : Nat) (keyword : String) (short : Bool) (lines : List String) : String :=
  match lines with
  | [] => keyword ++ "\x7b\x7d"
  | [line] =>
    if short then keyword ++ "\x7b " ++ line ++ " \x7d"
    else keyword ++ " \x7b\n" ++ tabs (indent + 1) ++ line ++ "\n" ++ tabs indent ++ "\x7d"
  | lines =>
    keyword ++ " \x7b\n" ++ String.join (lines.map fun l => tabs (indent + 1) ++ l ++ "\n") ++
      tabs indent ++ "\x7d"

/-- Whether the type of a single member is short enough for one line. -/
def isShort (names : List String) (text : String) : Bool :=
  !text.contains '\n' && text.utf8ByteSize + (if names.isEmpty then 0 else 1) ≤ 30

/-- A member of an interface. The type of a method is its signature. -/
def memberLayout (names : List String) (type : Node) (text : String) : String :=
  match names, type with
  | [], _ => text
  | name :: _, .funcType .. => name ++ String.ofList (text.toList.drop "func".length)
  | names, _ => namesText names ++ " " ++ text

/-! ## Places of types -/

/-- Where a layout is in its file: the number of bytes of the first line of the file, if there is
one, and whether the last word with a place is on that line. -/
structure Page where
  topSize : Option Nat := none
  atTop : Bool := true

/-- Texts that are laid out one after the other on a page. -/
abbrev OnPage := StateM Page

/-- Moves to a word of a type that starts at an offset. -/
def Page.moveTo (p : Page) (offset : Nat) : Page :=
  match p.topSize with
  | none => p
  | some size => { p with atTop := offset ≤ size }

/-- The offset of the last word of a type's text. -/
def lastWordOffset (text : String) : Nat :=
  let word := String.ofList (text.toList.reverse.takeWhile inName)
  text.utf8ByteSize - max 1 word.utf8ByteSize

/-- Whether a call converts its argument to a basic type. -/
def isConversion : Node → List Node → Bool
  | .ident name, [_] => conversionTypes.contains name
  | _, _ => false

/-- Whether the first word of an expression is the type of a conversion. -/
def startsWithType : Node → Bool
  | .binary _ x _ => startsWithType x
  | .selector x _ => startsWithType x
  | .call callee args _ => isConversion callee args || startsWithType callee
  | _ => false

mutual
/-- The text of an expression or type in a place where operators of a level below `least` need
parentheses. The `depth` grows with the nesting of operators. -/
def Node.layout (indent least depth : Nat) : Node → OnPage String
  | .ident name => pure name
  | .literal form text => pure (literalText form text)
  | .composite type elements => do
    let type ← match type with
      | none => pure ""
      | some t => t.layout indent operandLevel depth
    pure (type ++ "\x7b" ++ ", ".intercalate (← layouts indent 1 elements) ++ "\x7d")
  | .funcLit type => do pure ((← type.layout indent 0 1) ++ " \x7b\x7d")
  | .paren x =>
    if isParen x then x.layout indent 0 depth
    else do pure ("(" ++ (← x.layout indent 0 (inner depth)) ++ ")")
  | .selector (.literal .int text) sel => pure (literalText .int text ++ " ." ++ sel)
  | .selector x sel => do pure ((← x.layout indent operandLevel depth) ++ "." ++ sel)
  | .index x args => do
    let x ← x.layout indent operandLevel 1
    pure (x ++ "[" ++ ", ".intercalate (← layouts indent (depth + 1) args) ++ "]")
  | .slice x low high max => do
    let bounds := [low, high, max].filterMap id
    let isBinary := fun y : Node => match y with
      | .binary .. => true
      | _ => false
    let blank := if depth ≤ 1 && 1 < bounds.length && bounds.any isBinary then " " else ""
    let before := fun b : Option Node => if b.isSome then blank else ""
    let x ← x.layout indent operandLevel 1
    let l ← optLayout indent (depth + 1) low
    let h ← optLayout indent (depth + 1) high
    let m ← optLayout indent (depth + 1) max
    pure (x ++ "[" ++ l ++ before low ++ ":" ++ before high ++ h ++
      (if max.isSome then before high ++ ":" ++ before max else "") ++ m ++ "]")
  | .typeAssert x type => do
    let x ← x.layout indent operandLevel depth
    let type ← match type with
      | none => pure "type"
      | some t => t.layout indent 0 1
    pure (x ++ ".(" ++ type ++ ")")
  | .call callee args spread => do
    let depth := if 1 < args.length then depth + 1 else depth
    let front ← callee.layout indent operandLevel depth
    if isConversion callee args then modify (·.moveTo 0)
    let args ← layouts indent depth args
    pure (wrapIf (needsParens callee) front ++ "(" ++ ", ".intercalate args ++
      (if spread then "..." else "") ++ ")")
  | .star x => do pure (wrapIf (unaryLevel < least) ("*" ++ (← x.layout indent 0 1)))
  | .unary op x => do
    let wrap := decide (unaryLevel < least)
    let blank := match x with
      | .unary next _ => if op.runsInto next then " " else ""
      | _ => ""
    let x ← x.layout indent unaryLevel (if wrap then 1 else depth)
    pure (wrapIf wrap (op.symbol ++ blank ++ x))
  | .binary op x y => do
    let wrap := decide (op.level < least)
    let depth := if wrap then inner depth else depth
    let blank := if op.level < cutoff (.binary op x y) depth then " " else ""
    let l ← x.layout indent op.level (leftDepth op.level depth x)
    let broken := !(← get).atTop && startsWithType y
    let indent := if broken then indent + 1 else indent
    let r ← y.layout indent (op.level + 1) (depth + 1)
    pure (wrapIf wrap (l ++ blank ++ op.symbol ++ (if broken then "\n" ++ tabs indent else blank) ++ r))
  | .keyValue key value => do
    let key ← key.layout indent 0 1
    pure (key ++ ": " ++ (← value.layout indent 0 1))
  | .arrayType length element => do
    let length ← optLayout indent 1 length
    pure ("[" ++ length ++ "]" ++ (← element.layout indent 0 1))
  | .structType fields => do
    let parts ← fieldParts (indent + 1) fields
    let lines := match parts with
      | [(names, text)] => [if names.isEmpty then text else namesText names ++ " " ++ text]
      | parts => alignFields parts
    pure (membersLayout indent "struct" (parts.all fun p => isShort p.1 p.2) lines)
  | .funcType params results => do
    let params ← paramLayouts indent params
    let texts ← paramLayouts indent results
    pure ("func(" ++ ", ".intercalate params ++ ")" ++ resultsLayout results texts)
  | .interfaceType members => do
    let parts ← fieldParts (indent + 1) members
    let lines := (members.zip parts).map fun (m, p) => memberLayout p.1 m.fieldType p.2
    pure (membersLayout indent "interface" (parts.all fun p => isShort p.1 p.2) lines)
  | .mapType key value => do
    let key ← key.layout indent 0 1
    pure ("map[" ++ key ++ "]" ++ (← value.layout indent 0 1))
  | .chanType dir element => do
    let front := match dir with
      | .both => "chan "
      | .send => "chan<- "
      | .receive => "<-chan "
    pure (front ++ (← element.layout indent 0 1))
  | .ellipsis element => do pure ("..." ++ (← optLayout indent 1 element))
  | .field names type => do
    let type ← type.layout indent 0 1
    pure ((if names.isEmpty then "" else namesText names ++ " ") ++ type)

/-- The texts of a list. -/
def layouts (indent depth : Nat) : List Node → OnPage (List String)
  | [] => pure []
  | x :: rest => do
    let x ← x.layout indent 0 depth
    pure (x :: (← layouts indent depth rest))

/-- The text of a part that may be missing. -/
def optLayout (indent depth : Nat) : Option Node → OnPage String
  | none => pure ""
  | some x => x.layout indent 0 depth

/-- The names of fields with the texts of their types. -/
def fieldParts (indent : Nat) : List Node → OnPage (List (List String × String))
  | [] => pure []
  | .field names type :: rest => do
    let type ← type.layout indent 0 1
    pure ((names, type) :: (← fieldParts indent rest))
  | x :: rest => do
    let x ← x.layout indent 0 1
    pure (([], x) :: (← fieldParts indent rest))

/-- The texts of parameters. Parentheses around a parameter's type are dropped. -/
def paramLayouts (indent : Nat) : List Node → OnPage (List String)
  | [] => pure []
  | .field names type :: rest => do
    let text ← type.layout indent 0 1
    let param := (if names.isEmpty then "" else namesText names ++ " ") ++ bareText type text
    pure (param :: (← paramLayouts indent rest))
  | x :: rest => do
    let x ← x.layout indent 0 1
    pure (x :: (← paramLayouts indent rest))
end

/-- The text of a condition. -/
def condLayout (indent : Nat) (cond : Node) : OnPage String :=
  bareText cond <$> cond.layout indent 0 1

/-- The text of a condition that may be missing. -/
def optCondLayout (indent : Nat) : Option Node → OnPage (Option String)
  | none => pure none
  | some cond => some <$> condLayout indent cond

/-! ## Statements -/

/-- Texts of statements as a block. -/
def blockLayout (indent : Nat) (lines : List String) : String :=
  "\x7b\n" ++ String.join (lines.map fun l => tabs (indent + 1) ++ l ++ "\n") ++ tabs indent ++ "\x7d"

/-- The head of a loop with a blank behind it. The semicolons are left out if there is nothing but a
condition. -/
def loopHeadLayout (init : Option String) (cond : Option String) (step : Option String) : String :=
  let blank := fun part : Option String => part.elim "" (· ++ " ")
  if init.isNone && step.isNone then "for " ++ blank cond
  else "for " ++ init.getD "" ++ "; " ++ cond.getD "" ++ "; " ++ blank step

/-- The text of a type in a declaration, with a blank in front of it. -/
def declTypeLayout (indent : Nat) : Option Node → OnPage String
  | none => pure ""
  | some type => do
    let text ← type.layout indent 0 1
    modify (·.moveTo (lastWordOffset type.typeText))
    pure (" " ++ text)

/-- The text of a declaration of variables. -/
def specLayout (indent : Nat) (spec : ValueSpec) : OnPage String := do
  let type ← declTypeLayout indent spec.type
  let values ← layouts indent 1 spec.values
  pure (namesText spec.names ++ type ++
    if values.isEmpty then "" else " = " ++ ", ".intercalate values)

/-- The texts of declarations of variables. -/
def specLayouts (indent : Nat) : List ValueSpec → OnPage (List String)
  | [] => pure []
  | spec :: rest => do
    let spec ← specLayout indent spec
    pure (spec :: (← specLayouts indent rest))

mutual
/-- The text of a statement whose first line starts at an indentation. Forms that are kept as a name
only have no text. -/
def Statement.layout (indent : Nat) : Statement → OnPage String
  | .block list => do pure (blockLayout indent (← statementLayouts (indent + 1) list))
  | .branch init cond body other => do
    let init ← optStatementLayout indent init
    let cond ← condLayout indent cond
    let body ← statementLayouts (indent + 1) body
    let other ← optStatementLayout indent other
    pure ("if " ++ init.elim "" (· ++ "; ") ++ cond ++ " " ++ blockLayout indent body ++
      other.elim "" (" else " ++ ·))
  | .loop init cond step body => do
    let init ← optStatementLayout indent init
    let cond ← optCondLayout indent cond
    let step ← optStatementLayout indent step
    let body ← statementLayouts (indent + 1) body
    pure (loopHeadLayout init cond step ++ blockLayout indent body)
  | .ret [] => pure "return"
  | .ret results => do pure ("return " ++ ", ".intercalate (← layouts indent 1 results))
  | .assign targets op values => do
    let depth := if 1 < targets.length && 1 < values.length then 2 else 1
    let targets ← layouts indent depth targets
    let values ← layouts indent depth values
    pure (", ".intercalate targets ++ " " ++ op.symbol ++ " " ++ ", ".intercalate values)
  | .count x up => do pure ((← x.layout indent 0 2) ++ if up then "++" else "--")
  | .vars [spec] => do pure ("var " ++ (← specLayout indent spec))
  | .vars specs => do
    let lines ← specLayouts (indent + 1) specs
    pure ("var (\n" ++ String.join (lines.map fun l => tabs (indent + 1) ++ l ++ "\n") ++ tabs indent ++ ")")
  | .expr x => x.layout indent 0 1
  | .constants | .empty | .other _ => pure ""

/-- The texts of statements, one after the other. -/
def statementLayouts (indent : Nat) : List Statement → OnPage (List String)
  | [] => pure []
  | s :: rest => do
    let s ← s.layout indent
    pure (s :: (← statementLayouts indent rest))

/-- The text of a statement that may be missing. -/
def optStatementLayout (indent : Nat) : Option Statement → OnPage (Option String)
  | none => pure none
  | some s => do pure (some (← s.layout indent))
end

/-- The text of a statement that goes into no file. -/
def Statement.text (s : Statement) : String := (s.layout 0 {}).1

/-- The most bytes of a function that goes on one line. -/
def lineBudget : Nat := 100

/-- The text of a function body behind a head of so many bytes; no number stands for a head over
several lines. The function goes on one line if it has at most five statements, each of them is on
one line when it is laid out alone at the top of the file, and all is short enough. -/
def bodyLayout (head : Option Nat) (list : List Statement) : OnPage String := do
  let page ← get
  let alone := list.map fun s => (s.layout 0 { page with atTop := true }).1
  let size := (alone.map String.utf8ByteSize).foldl (· + ·) 0 + 2 * (alone.length - 1)
  let fits := head.any fun h => h + size ≤ lineBudget
  if fits && alone.length ≤ 5 && alone.all (fun t => !t.contains '\n') then
    let texts ← statementLayouts 0 list
    pure (if texts.isEmpty then "\x7b\x7d" else "\x7b " ++ "; ".intercalate texts ++ " \x7d")
  else
    pure (blockLayout 0 (← statementLayouts 1 list))

end PathTree.Source
