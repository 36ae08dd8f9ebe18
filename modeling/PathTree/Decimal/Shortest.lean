/-!
# Shortest decimals

Binary floating point numbers with a 53-bit significand, as pairs of naturals: the nearest one to
a rational, and the shortest decimal that is nearer to it than to any other.

All arithmetic is exact. A decimal `d · 10^t` reads back as the number `m · 2^e` when it lies in the
interval of rationals that round to it, whose ends belong to it exactly when `m` is even.
-/

namespace PathTree.Decimal

/-! ## Binary numbers -/

/-- The positive number `significand · 2^exponent`. -/
structure Binary where
  significand : Nat
  exponent : Int
  deriving DecidableEq, Repr

/-- The exponent of the smallest positive number. -/
def minExponent : Int := -1074

/-- The exponent of the largest number. -/
def maxExponent : Int := 971

/-- A fraction of naturals; the second is positive wherever one is made. -/
abbrev Fraction := Nat × Nat

/-- The fraction `n / d · base^k`. -/
def shift (base : Nat) (k : Int) (q : Fraction) : Fraction :=
  if 0 ≤ k then (q.1 * base.pow k.toNat, q.2) else (q.1, q.2 * base.pow (-k).toNat)

/-- Whether the first fraction is below the second. -/
def below (p q : Fraction) : Bool := p.1 * q.2 < q.1 * p.2

/-- The integer nearest to a fraction; a half goes to the even neighbour. -/
def roundEven (q : Fraction) : Nat :=
  let n := q.1 / q.2
  let twice := 2 * (q.1 % q.2)
  if twice < q.2 then n
  else if q.2 < twice then n + 1
  else if n % 2 = 0 then n else n + 1

/-- The number nearest to a fraction, a half going to the even significand: `none` if it is too
large, with significand 0 if it is too small. -/
def nearest? (q : Fraction) : Option Binary :=
  let guess : Int := (q.1.log2 : Int) - (q.2.log2 : Int) - 52
  let e := if below (shift 2 (-guess) q) (0x10000000000000, 1) then guess - 1 else guess
  let e := max e minExponent
  let m := roundEven (shift 2 (-e) q)
  let b : Binary := if m = 0x20000000000000 then ⟨0x10000000000000, e + 1⟩ else ⟨m, e⟩
  if maxExponent < b.exponent then none else some b

/-- The value of a binary number. -/
def Binary.value (b : Binary) : Fraction := shift 2 b.exponent (b.significand, 1)

/-! ## Decimals -/

/-- The positive number `0.d₁d₂… · 10^point`, with its digits in order. -/
structure Digits where
  digits : List Nat
  point : Int
  deriving DecidableEq, Repr

/-- The lower end of the interval that rounds to a number: half a step down, or a quarter just
above a power of two, where the numbers below are twice as dense. -/
def Binary.low (b : Binary) : Fraction :=
  if b.significand = 0x10000000000000 ∧ minExponent < b.exponent then
    shift 2 (b.exponent - 2) (4 * b.significand - 1, 1)
  else shift 2 (b.exponent - 1) (2 * b.significand - 1, 1)

/-- The upper end of the interval that rounds to a number. -/
def Binary.high (b : Binary) : Fraction :=
  shift 2 (b.exponent - 1) (2 * b.significand + 1, 1)

/-- Whether a fraction rounds to the number. -/
def Binary.accepts (b : Binary) (q : Fraction) : Bool :=
  if b.significand % 2 = 0 then !below q b.low && !below b.high q
  else below b.low q && below q b.high

/-- The least `p` with `q < 10^p`, started from an estimate that is not above it. -/
def pointFrom (q : Fraction) : (steps : Nat) → Int → Int
  | 0, p => p
  | n + 1, p => if below q (shift 10 p (1, 1)) then p else pointFrom q n (p + 1)

/-- The least `p` with `q < 10^p`: the estimate is off by less than four places. -/
def point (q : Fraction) : Int :=
  let bits : Int := (q.1.log2 : Int) - (q.2.log2 : Int) - 1
  pointFrom q 8 (bits * 30103 / 100000 - 2)

/-- The decimal with `n` digits nearest to a number among its two neighbours, if it reads back. -/
def withDigits? (b : Binary) (p : Int) (n : Nat) : Option Nat :=
  let scaled := shift 10 (n - p) b.value
  let d := scaled.1 / scaled.2
  let reads (k : Nat) : Bool := b.accepts (shift 10 (p - n) (k, 1))
  if reads d then
    if reads (d + 1) ∧ scaled.2 < 2 * (scaled.1 % scaled.2) then some (d + 1) else some d
  else if reads (d + 1) then some (d + 1)
  else none

/-- The decimal with the fewest digits, from `n` on, that reads back. -/
def search (b : Binary) (p : Int) : (steps n : Nat) → Nat × Nat
  | 0, n => (0, n)
  | s + 1, n =>
    match withDigits? b p n with
    | some d => (d, n)
    | none => search b p s (n + 1)

/-- The digits of a natural number in base 10, first digit first. -/
def digitsOf (n : Nat) : List Nat :=
  (Nat.toDigits 10 n).map (fun c => c.toNat - 0x30)

/-- Removes zeros from the end of a list of digits. -/
def trimZeros (ds : List Nat) : List Nat :=
  (ds.reverse.dropWhile (· == 0)).reverse

/-- The shortest decimal that reads back as a positive number. -/
def shortest (b : Binary) : Digits :=
  let p := point b.value
  let (d, n) := search b p 17 1
  let ds := digitsOf d
  ⟨trimZeros ds, p + ((ds.length : Int) - n)⟩

end PathTree.Decimal
