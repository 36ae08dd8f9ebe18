import PathTree.Text.Blank
import PathTree.Text.Integer
import PathTree.Text.Quoted

/-!
# Durations

Texts such as `1h30m` or `1.5s`: numbers with units, added up, in nanoseconds.
-/

namespace PathTree.Duration

/-- Why a text is no duration. -/
inductive Flaw where
  | invalid
  | missingUnit
  | unknownUnit (unit : List Char)

/-- A text in quotes, where every byte that is not a printing one of ASCII is written by its
number. -/
def quoted (cs : List Char) : String :=
  let glyph (b : UInt8) : List Char :=
    if b < 0x20 || 0x80 ≤ b then '\\' :: 'x' :: Text.hexPadded 2 b.toNat
    else if b = 0x22 || b = 0x5c then ['\\', Char.ofNat b.toNat]
    else [Char.ofNat b.toNat]
  String.ofList ('\x22' :: (Text.bytesOf (String.ofList cs)).flatMap glyph ++ ['\x22'])

/-- The wording of a flaw in a text. -/
def Flaw.message (text : List Char) : Flaw → String
  | .invalid => "time: invalid duration " ++ quoted text
  | .missingUnit => "time: missing unit in duration " ++ quoted text
  | .unknownUnit unit => "time: unknown unit " ++ quoted unit ++ " in duration " ++ quoted text

/-- The nanoseconds of a unit. -/
def unit? (cs : List Char) : Option Nat :=
  match String.ofList cs with
  | "ns" => some 1
  | "us" | "µs" | "μs" => some 1000
  | "ms" => some 1000000
  | "s" => some 1000000000
  | "m" => some 60000000000
  | "h" => some 3600000000000
  | _ => none

/-- The greatest number of nanoseconds, and one more for a negative duration. -/
def limit : Nat := 0x8000000000000000

/-- A character of a number. -/
def isNumeric (c : Char) : Bool := c = '.' || c.isDigit

/-- Reads one number with its unit: its nanoseconds and the rest. -/
def term (cs : List Char) : Except Flaw (Nat × List Char) :=
  let whole := cs.takeWhile Char.isDigit
  let rest := cs.dropWhile Char.isDigit
  let (parts, rest) := match rest with
    | '.' :: more => (more.takeWhile Char.isDigit, more.dropWhile Char.isDigit)
    | rest => ([], rest)
  let value := (Text.digitsValue? whole).getD 0
  if whole.isEmpty && parts.isEmpty || limit < value then .error .invalid
  else
    let unit := rest.takeWhile (!isNumeric ·)
    if unit.isEmpty then .error .missingUnit
    else
      match unit? unit with
      | none => .error (.unknownUnit unit)
      | some size =>
        let fraction := (Text.digitsValue? parts).getD 0 * size / Nat.pow 10 parts.length
        let total := value * size + fraction
        if limit < total then .error .invalid else .ok (total, rest.dropWhile (!isNumeric ·))

/-- Adds up numbers with units onto a total, with so many steps at most. -/
def terms (total : Nat) : (steps : Nat) → List Char → Except Flaw Nat
  | _, [] => .ok total
  | 0, _ => .error .invalid
  | steps + 1, cs =>
    if !cs.head?.any isNumeric then .error .invalid
    else do
      let (n, rest) ← term cs
      if limit < total + n then .error .invalid else terms (total + n) steps rest

/-- Reads a duration in nanoseconds. -/
def read (text : String) : Except String Int :=
  let cs := text.toList
  let (negative, body) := match cs with
    | '-' :: rest => (true, rest)
    | '+' :: rest => (false, rest)
    | cs => (false, cs)
  let result : Except Flaw Int :=
    if body = ['0'] then .ok 0
    else if body.isEmpty then .error .invalid
    else
      match terms 0 body.length body with
      | .error flaw => .error flaw
      | .ok n =>
        if negative then .ok (-(n : Int)) else if n < limit then .ok n else .error .invalid
  result.mapError (Flaw.message cs)

end PathTree.Duration
