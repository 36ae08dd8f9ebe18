/-!
# Numerals

Reading integers and rationals from their source text. An underscore may stand between two
digits or behind a base mark. An integer that starts with `0` and has no base mark is octal; a
rational is decimal unless it has one.
-/

namespace PathTree.Numeral

/-! ## Digits -/

/-- The value of a digit or letter, letters counting from ten in either case. -/
def digitValue? (c : Char) : Option Nat :=
  if '0' ≤ c ∧ c ≤ '9' then some (c.toNat - 0x30)
  else if 'a' ≤ c ∧ c ≤ 'z' then some (c.toNat - 0x57)
  else if 'A' ≤ c ∧ c ≤ 'Z' then some (c.toNat - 0x37)
  else none

/-- The value of a digit of the given base. -/
def digit? (base : Nat) (c : Char) : Option Nat :=
  (digitValue? c).filter (· < base)

/-- Cuts a sign off; `true` is a minus. -/
def cutSign : List Char → Bool × List Char
  | '-' :: cs => (true, cs)
  | '+' :: cs => (false, cs)
  | cs => (false, cs)

/-- The base that a mark behind a leading zero stands for. -/
def markedBase? : Char → Option Nat
  | 'b' | 'B' => some 2
  | 'o' | 'O' => some 8
  | 'x' | 'X' => some 16
  | _ => none

/-! ## Integers -/

/-- Reads digits to the end of the text onto the value `acc`. An underscore is allowed when
`joined` says that a digit or base mark is directly before it. -/
def readDigits? (base : Nat) (joined : Bool) (acc : Nat) : List Char → Option Nat
  | [] => if joined then some acc else none
  | '_' :: cs => if joined then readDigits? base false acc cs else none
  | c :: cs => do readDigits? base true (acc * base + (← digit? base c)) cs

/-- A natural number in one of the four bases. -/
def readNat? : List Char → Option Nat
  | [] => none
  | '0' :: m :: cs =>
    match markedBase? m with
    | some base => if cs.isEmpty then none else readDigits? base true 0 cs
    | none => readDigits? 8 true 0 (m :: cs)
  | cs => readDigits? 10 false 0 cs

/-- An integer: an optional sign and a natural number. -/
def readInt? (cs : List Char) : Option Int :=
  let (negative, rest) := cutSign cs
  (readNat? rest).map fun n => if negative then -(n : Int) else n

/-! ## Rationals -/

/-- What was read of a mantissa: its digits as a number, how many there are, and how many of them
stand behind the point, if there is one. -/
structure Mantissa where
  value : Nat := 0
  count : Nat := 0
  places : Option Nat := none

/-- Reads a mantissa and gives back the rest. The flag says whether an underscore is allowed, and
`pending` whether one was just read. -/
def readMantissa? (base : Nat) (m : Mantissa) (joined pending : Bool) :
    List Char → Option (Mantissa × List Char)
  | '.' :: cs =>
    match m.places with
    | none =>
      if pending then none else readMantissa? base { m with places := some 0 } false false cs
    | some _ => if pending then none else some (m, '.' :: cs)
  | '_' :: cs => if joined then readMantissa? base m false true cs else none
  | c :: cs =>
    match digit? base c with
    | some d =>
      readMantissa? base ⟨m.value * base + d, m.count + 1, m.places.map (· + 1)⟩ true false cs
    | none => if pending then none else some (m, c :: cs)
  | [] => if pending then none else some (m, [])

/-- Reads an exponent to the end of the text: the base it scales by and its value. -/
def readExponent? : List Char → Option (Nat × Int)
  | [] => some (10, 0)
  | mark :: cs => do
    let base ← match mark with
      | 'e' | 'E' => some 10
      | 'p' | 'P' => some 2
      | _ => none
    let (negative, digits) := cutSign cs
    let n ← readDigits? 10 false 0 digits
    some (base, if negative then -(n : Int) else n)

/-- Cuts a base mark off a mantissa. -/
def cutMark : List Char → Nat × Bool × List Char
  | '0' :: m :: cs =>
    match markedBase? m with
    | some base => (base, true, cs)
    | none => (10, false, '0' :: m :: cs)
  | cs => (10, false, cs)

/-- The rational `value · scale^exponent / base^places`. -/
def scaled (value : Nat) (base places scale : Nat) (exponent : Int) : Rat :=
  if 0 ≤ exponent then mkRat (value * scale.pow exponent.toNat) (base.pow places)
  else mkRat value (base.pow places * scale.pow (-exponent).toNat)

/-- A rational: an optional sign, a mantissa with at least one digit, an optional exponent. -/
def readRat? (cs : List Char) : Option Rat := do
  let (negative, rest) := cutSign cs
  let (base, joined, rest) := cutMark rest
  let (m, rest) ← readMantissa? base {} joined false rest
  if m.count = 0 then none
  let (scale, e) ← readExponent? rest
  let q := scaled m.value base (m.places.getD 0) scale e
  some (if negative then -q else q)

end PathTree.Numeral
