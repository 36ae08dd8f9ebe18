import PathTree.Source.Token
import PathTree.Text.Quoted

/-!
# Lexemes

What stands at the front of a text that is not blank: a name, a literal, a mark or a comment.
`lexeme` reads it and tells whether it is well formed.
-/

namespace PathTree.Source

/-- What a lexeme is. -/
inductive LexemeKind where
  | token (kind : TokenKind)
  | comment
  deriving DecidableEq, Repr

/-- A lexeme: its characters, and what is wrong with it. -/
structure Lexeme where
  kind : LexemeKind
  chars : List Char
  fault : Option String

/-! ## Numerals -/

/-- The bases a numeral may be written in. A leading zero alone makes an integer octal. -/
inductive Radix where
  | decimal | leadingZero | hexadecimal | octal | binary
  deriving DecidableEq, Repr

namespace Radix

/-- The base of the numeral that starts a text. -/
def of : List Char → Radix
  | '0' :: c :: _ =>
    if c = 'x' ∨ c = 'X' then .hexadecimal
    else if c = 'o' ∨ c = 'O' then .octal
    else if c = 'b' ∨ c = 'B' then .binary
    else .leadingZero
  | ['0'] => .leadingZero
  | _ => .decimal

/-- How many characters announce the base. -/
def markSize : Radix → Nat
  | .decimal | .leadingZero => 0
  | .hexadecimal | .octal | .binary => 2

/-- The name of a numeral in this base. -/
def name : Radix → String
  | .decimal => "decimal literal"
  | .leadingZero | .octal => "octal literal"
  | .hexadecimal => "hexadecimal literal"
  | .binary => "binary literal"

/-- The characters that are taken for digits in this base, separators included. -/
def isDigit (r : Radix) (c : Char) : Bool :=
  c == '_' || c.isDigit ||
    (r == .hexadecimal && (('a' ≤ c && c ≤ 'f') || ('A' ≤ c && c ≤ 'F')))

/-- Whether a decimal digit is too large for this base. -/
def isTooLarge (r : Radix) (c : Char) : Bool :=
  match r with
  | .leadingZero | .octal => '8' ≤ c && c ≤ '9'
  | .binary => '2' ≤ c && c ≤ '9'
  | .decimal | .hexadecimal => false

end Radix

/-- Whether some character is a digit and no separator. -/
def hasDigit (cs : List Char) : Bool := cs.any (· != '_')

/-- Whether every separator of a numeral stands between digits. `afterDigit` tells whether a digit,
or the mark of the base, stands in front of the text. -/
def separatorsOk (r : Radix) (afterDigit : Bool) : List Char → Bool
  | [] => true
  | '_' :: d :: cs => afterDigit && d != '_' && r.isDigit d && separatorsOk r true cs
  | ['_'] => false
  | c :: cs => separatorsOk r (r.isDigit c) cs

/-- The parts of a numeral behind the mark of its base. -/
structure NumeralParts where
  whole : List Char
  point : Bool
  fraction : List Char
  /-- The exponent's mark and sign. -/
  exponentMark : List Char
  exponent : List Char
  imaginary : Bool

/-- The mark of an exponent at the front of a text, with its sign. -/
def markOfExponent : List Char → List Char
  | [] => []
  | [c] => if c ∈ ['e', 'E', 'p', 'P'] then [c] else []
  | c :: d :: _ =>
    if c ∈ ['e', 'E', 'p', 'P'] then if d ∈ ['+', '-'] then [c, d] else [c] else []

/-- Splits a numeral off a text behind the mark of its base. -/
def numeralParts (r : Radix) (cs : List Char) : NumeralParts :=
  let whole := cs.takeWhile r.isDigit
  let rest := cs.dropWhile r.isDigit
  let point := rest.head? == some '.'
  let rest := if point then rest.drop 1 else rest
  let fraction := if point then rest.takeWhile r.isDigit else []
  let rest := rest.drop fraction.length
  let exponentMark := markOfExponent rest
  let rest := rest.drop exponentMark.length
  let exponent := if exponentMark.isEmpty then [] else rest.takeWhile Radix.decimal.isDigit
  let rest := rest.drop exponent.length
  ⟨whole, point, fraction, exponentMark, exponent, rest.head? == some 'i'⟩

namespace NumeralParts

/-- The characters of the parts. -/
def chars (p : NumeralParts) : List Char :=
  p.whole ++ (if p.point then ['.'] else []) ++ p.fraction ++ p.exponentMark ++ p.exponent ++
    (if p.imaginary then ['i'] else [])

/-- The form of the literal. -/
def form (p : NumeralParts) : LiteralForm :=
  if p.imaginary then .imaginary
  else if p.point || !p.exponentMark.isEmpty then .float
  else .int

/-- What is wrong with a numeral. -/
def fault (r : Radix) (p : NumeralParts) : Option String :=
  let mark := p.exponentMark.head?
  if p.point && (r == .octal || r == .binary) then some ("invalid radix point in " ++ r.name)
  else if !hasDigit (p.whole ++ p.fraction) then some (r.name ++ " has no digits")
  else if (mark == some 'e' || mark == some 'E') && r.markSize != 0 then
    some "exponent requires decimal mantissa"
  else if (mark == some 'p' || mark == some 'P') && r != .hexadecimal then
    some "exponent requires hexadecimal mantissa"
  else if mark.isSome && !hasDigit p.exponent then some "exponent has no digits"
  else if mark.isNone && r == .hexadecimal && p.point then
    some "hexadecimal mantissa requires a 'p' exponent"
  else if p.form == .int && p.whole.any r.isTooLarge then some ("invalid digit in " ++ r.name)
  else if !separatorsOk r (r.markSize != 0) p.chars then some "'_' must separate successive digits"
  else none

end NumeralParts

/-- Reads a numeral. -/
def numeral (cs : List Char) : Lexeme :=
  let r := Radix.of cs
  let parts := numeralParts r (cs.drop r.markSize)
  ⟨.token (.literal parts.form), cs.take r.markSize ++ parts.chars, parts.fault r⟩

/-! ## Quoted literals and comments -/

/-- The characters up to the closing quote and with it. A backslash hides the character behind it,
and a literal does not go beyond its line. -/
def quotedTail? (q : Char) : List Char → Option (List Char)
  | [] => none
  | '\\' :: c :: cs => if c = '\n' then none else (quotedTail? q cs).map ('\\' :: c :: ·)
  | c :: cs =>
    if c = q then some [c] else if c = '\n' then none else (quotedTail? q cs).map (c :: ·)

/-- Reads a literal with escapes between the quotes `q`. A character literal is not empty. -/
def quotedLiteral (form : LiteralForm) (q : Char) (cs : List Char) : Lexeme :=
  match quotedTail? q cs with
  | none =>
    ⟨.token (.literal form), q :: cs.takeWhile (· != '\n'), some "literal not terminated"⟩
  | some tail =>
    let chars := q :: tail
    let empty := form == .char && tail.length == 1
    let ok := !empty && (Text.unquote? (Text.bytesOf (String.ofList chars))).isSome
    ⟨.token (.literal form), chars, if ok then none else some "invalid literal"⟩

/-- Reads a literal without escapes. -/
def rawLiteral (cs : List Char) : Lexeme :=
  let body := cs.takeWhile (· != '\x60')
  if body.length < cs.length then
    ⟨.token (.literal .string), '\x60' :: body ++ ['\x60'], none⟩
  else ⟨.token (.literal .string), '\x60' :: body, some "raw string literal not terminated"⟩

/-- The characters up to the end of a block comment and with it. -/
def blockTail? : List Char → Option (List Char)
  | '*' :: '/' :: _ => some ['*', '/']
  | c :: cs => (blockTail? cs).map (c :: ·)
  | [] => none

/-- Reads a comment between delimiters. -/
def blockComment (cs : List Char) : Lexeme :=
  match blockTail? cs with
  | some tail => ⟨.comment, '/' :: '*' :: tail, none⟩
  | none => ⟨.comment, '/' :: '*' :: cs, some "comment not terminated"⟩

/-! ## Lexemes -/

/-- The characters a name may start with. -/
def startsName (c : Char) : Bool := c == '_' || Text.isLetter c

/-- The characters of a name. -/
def inName (c : Char) : Bool := startsName c || Text.isDigit c

/-- The wording for a character that starts no lexeme. -/
def illegalCharacter (c : Char) : String :=
  let code := (Nat.toDigits 16 c.toNat).map Char.toUpper
  "illegal character U+" ++ String.ofList (List.replicate (4 - code.length) '0' ++ code) ++
    if Text.isPrintable c then " '" ++ c.toString ++ "'" else ""

/-- Reads the lexeme that starts with `c`. -/
def lexeme (c : Char) (cs : List Char) : Lexeme :=
  if startsName c then
    let chars := c :: cs.takeWhile inName
    ⟨.token (if keywords.contains (String.ofList chars) then .mark else .name), chars, none⟩
  else if c.isDigit || (c == '.' && cs.head?.any Char.isDigit) then numeral (c :: cs)
  else if c = '"' then quotedLiteral .string '"' cs
  else if c = '\'' then quotedLiteral .char '\'' cs
  else if c = '\x60' then rawLiteral cs
  else if c = '/' && cs.head? == some '/' then ⟨.comment, c :: cs.takeWhile (· != '\n'), none⟩
  else if c = '/' && cs.head? == some '*' then blockComment (cs.drop 1)
  else match symbols.find? (fun s => s.toList.isPrefixOf (c :: cs)) with
    | some s => ⟨.token .mark, s.toList, none⟩
    | none => ⟨.token .illegal, [c], some (illegalCharacter c)⟩

end PathTree.Source
