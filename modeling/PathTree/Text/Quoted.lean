import PathTree.Text.CharClass
import PathTree.Text.Utf8

/-!
# Quoted texts

Byte strings are written between double quotes with escapes for what is not printable, and read
back from three forms: double quotes with escapes, backquotes without escapes, and a single
character between single quotes.

`quoteWith` writes a byte string for any table of the printable characters and `quote` for the
one of `isPrintable`, `unquote?` reads one of the three forms, and `unquoteChar?` reads one
character, escaped or not.
-/

namespace PathTree.Text

/-! ## Hexadecimal digits -/

/-- The digit `n` of base 16, in lower case. -/
def hexDigit (n : Nat) : Char :=
  if n < 10 then Char.ofNat (0x30 + n) else Char.ofNat (0x57 + n)

/-- The last `width` hexadecimal digits of `n`. -/
def hexPadded : (width n : Nat) → List Char
  | 0, _ => []
  | w + 1, n => hexPadded w (n / 16) ++ [hexDigit (n % 16)]

/-- The value of a hexadecimal digit in either case. -/
def hexValue? (b : UInt8) : Option Nat :=
  let n := b.toNat
  if 0x30 ≤ n ∧ n ≤ 0x39 then some (n - 0x30)
  else if 0x61 ≤ n ∧ n ≤ 0x66 then some (n - 0x57)
  else if 0x41 ≤ n ∧ n ≤ 0x46 then some (n - 0x37)
  else none

/-- The value of an octal digit. -/
def octalValue? (b : UInt8) : Option Nat :=
  if 0x30 ≤ b.toNat ∧ b.toNat ≤ 0x37 then some (b.toNat - 0x30) else none

/-! ## Writing -/

/-- The letter behind the backslash for a control character that has one. -/
def controlLetter? (c : Char) : Option Char :=
  match c.toNat with
  | 0x07 => some 'a'
  | 0x08 => some 'b'
  | 0x0c => some 'f'
  | 0x0a => some 'n'
  | 0x0d => some 'r'
  | 0x09 => some 't'
  | 0x0b => some 'v'
  | _ => none

section Writing

variable (printable : Char → Bool)

/-- A character as it stands between double quotes. -/
def escapeCharWith (c : Char) : List Char :=
  if c = '"' ∨ c = '\\' then ['\\', c]
  else if printable c then [c]
  else match controlLetter? c with
    | some l => ['\\', l]
    | none =>
      if c.toNat < 0x20 ∨ c.toNat = 0x7f then '\\' :: 'x' :: hexPadded 2 c.toNat
      else if c.toNat < 0x10000 then '\\' :: 'u' :: hexPadded 4 c.toNat
      else '\\' :: 'U' :: hexPadded 8 c.toNat

/-- A piece of a byte string as it stands between double quotes. -/
def escapePieceWith : Piece → List Char
  | .char c => escapeCharWith printable c
  | .stray b => '\\' :: 'x' :: hexPadded 2 b.toNat

/-- A byte string between double quotes. -/
def quoteWith (bs : Bytes) : String :=
  String.ofList ('"' :: ((pieces bs).flatMap (escapePieceWith printable) ++ ['"']))

end Writing

/-- A character as it stands between double quotes, escaped if it is not printable. -/
def escapeChar (c : Char) : List Char := escapeCharWith isPrintable c

/-- A byte string between double quotes, with escapes for what is not printable. -/
def quote (bs : Bytes) : String := quoteWith isPrintable bs

/-- A text between double quotes. -/
def quoteText (s : String) : String := quote (bytesOf s)

/-! ## Reading -/

/-- What one character of a quoted text stands for: a byte, or a character. -/
inductive Glyph where
  | byte (b : UInt8)
  | char (c : Char)

/-- The bytes that a glyph stands for. -/
def Glyph.bytes : Glyph → Bytes
  | .byte b => [b]
  | .char c => String.utf8EncodeChar c

/-- The number of a glyph. -/
def Glyph.code : Glyph → Nat
  | .byte b => b.toNat
  | .char c => c.toNat

/-- Reads `count` hexadecimal digits onto the value `acc`. -/
def readHex : (count acc : Nat) → Bytes → Option (Nat × Bytes)
  | 0, acc, bs => some (acc, bs)
  | _ + 1, _, [] => none
  | n + 1, acc, b :: bs => do readHex n (acc * 16 + (← hexValue? b)) bs

/-- The code point `n` as a glyph, if it is one. -/
def codePoint? (n : Nat) : Option Glyph :=
  if n.isValidChar then some (.char (Char.ofNat n)) else none

/-- Reads what stands behind a backslash. Of the two quote characters only `delim` may be escaped. -/
def unescape? (delim : UInt8) : Bytes → Option (Glyph × Bytes)
  | [] => none
  | c :: bs =>
    match Char.ofNat c.toNat with
    | 'a' => some (.byte 0x07, bs)
    | 'b' => some (.byte 0x08, bs)
    | 'f' => some (.byte 0x0c, bs)
    | 'n' => some (.byte 0x0a, bs)
    | 'r' => some (.byte 0x0d, bs)
    | 't' => some (.byte 0x09, bs)
    | 'v' => some (.byte 0x0b, bs)
    | 'x' => do
      let (v, rest) ← readHex 2 0 bs
      some (.byte v.toUInt8, rest)
    | 'u' => do
      let (v, rest) ← readHex 4 0 bs
      some (← codePoint? v, rest)
    | 'U' => do
      let (v, rest) ← readHex 8 0 bs
      some (← codePoint? v, rest)
    | '\\' => some (.byte c, bs)
    | '\'' => if c = delim then some (.byte c, bs) else none
    | '"' => if c = delim then some (.byte c, bs) else none
    | _ => do
      let first ← octalValue? c
      match bs with
      | d :: e :: rest =>
        let v := (first * 8 + (← octalValue? d)) * 8 + (← octalValue? e)
        if v ≤ 255 then some (.byte v.toUInt8, rest) else none
      | _ => none

/-- The character that stands for bytes that spell none. -/
def replacement : Char := Char.ofNat 0xfffd

/-- Reads one character of a text that ends with `delim`, escaped or not. -/
def unquoteChar? (delim : UInt8) : Bytes → Option (Glyph × Bytes)
  | [] => none
  | c :: bs =>
    if c = delim then none
    else if c = 0x5c then unescape? delim bs
    else if c < 0x80 then some (.byte c, bs)
    else match nextPiece c bs with
      | (.char ch, rest) => some (.char ch, rest)
      | (.stray _, rest) => some (.char replacement, rest)

/-- Reads characters up to the double quote that ends the text. A line break must be escaped.
The count bounds the number of characters. -/
def readQuoted : Nat → Bytes → Option (Bytes × Bytes)
  | 0, _ => none
  | _ + 1, [] => none
  | n + 1, c :: bs =>
    if c = 0x22 then some ([], bs)
    else if c = 0x0a then none
    else do
      let (g, rest) ← unquoteChar? 0x22 (c :: bs)
      let (more, rest) ← readQuoted n rest
      some (g.bytes ++ more, rest)

/-- Reads a single character between single quotes; nothing between them is the empty text. -/
def readSingle : Bytes → Option (Bytes × Bytes)
  | 0x27 :: bs => some ([], bs)
  | 0x0a :: _ => none
  | bs => do
    let (g, rest) ← unquoteChar? 0x27 bs
    match rest with
    | 0x27 :: rest => some (g.bytes, rest)
    | _ => none

/-- Reads up to the closing backquote; carriage returns are dropped. -/
def readRaw : Bytes → Option (Bytes × Bytes)
  | [] => none
  | 0x60 :: bs => some ([], bs)
  | 0x0d :: bs => readRaw bs
  | c :: bs => do
    let (more, rest) ← readRaw bs
    some (c :: more, rest)

/-- The byte string that a quoted text stands for, if it is one and nothing follows it. -/
def unquote? (bs : Bytes) : Option Bytes := do
  let (value, rest) ← match bs with
    | 0x22 :: more => readQuoted bs.length more
    | 0x27 :: more => readSingle more
    | 0x60 :: more => readRaw more
    | _ => none
  if rest.isEmpty then some value else none

end PathTree.Text
