import PathTree.Decimal.Shortest

/-!
# Decimals as text

How a decimal is written: positionally, or with an exponent when it is very small or large.
The choices of a format are the fields of `Format`.
-/

namespace PathTree.Decimal

/-- The choices of a decimal format: the exponents of ten that are still written positionally, the
least number of digits of an exponent, and the texts for values out of range. -/
structure Format where
  leastPositional : Int
  mostPositional : Int
  exponentDigits : Nat
  tooLarge : String
  tooLargeNegative : String

/-- A digit as a character. -/
def digitChar (d : Nat) : Char := Char.ofNat (0x30 + d)

/-- Digits as text. -/
def digitText (ds : List Nat) : String := String.ofList (ds.map digitChar)

/-- A decimal written with an exponent: one digit, the rest behind a point, the signed exponent. -/
def Format.scientific (f : Format) (d : Digits) : String :=
  let head := digitText (d.digits.take 1)
  let tail := d.digits.drop 1
  let e := d.point - 1
  let digits := toString e.natAbs
  let padded := String.ofList (List.replicate (f.exponentDigits - digits.length) '0') ++ digits
  head ++ (if tail.isEmpty then "" else "." ++ digitText tail)
    ++ "e" ++ (if e < 0 then "-" else "+") ++ padded

/-- A decimal written positionally, without a point if it is an integer. -/
def positional (d : Digits) : String :=
  if d.point ≤ 0 then
    "0." ++ String.ofList (List.replicate (-d.point).toNat '0') ++ digitText d.digits
  else
    let n := d.point.toNat
    let whole := d.digits.take n
    let padding := String.ofList (List.replicate (n - d.digits.length) '0')
    let tail := d.digits.drop n
    digitText whole ++ padding ++ (if tail.isEmpty then "" else "." ++ digitText tail)

/-- A decimal as text. -/
def Format.write (f : Format) (d : Digits) : String :=
  let e := d.point - 1
  if e < f.leastPositional ∨ f.mostPositional < e then f.scientific d else positional d

/-- The shortest text that reads back as the number nearest to a rational. -/
def Format.rational (f : Format) (q : Rat) : String :=
  if q.num = 0 then "0"
  else
    let negative := q.num < 0
    match nearest? (q.num.natAbs, q.den) with
    | none => if negative then f.tooLargeNegative else f.tooLarge
    | some b =>
      let body := if b.significand = 0 then "0" else f.write (shortest b)
      if negative then "-" ++ body else body

end PathTree.Decimal
