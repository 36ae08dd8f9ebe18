/-!
# Decimal integers

Reading an integer of 64 bits from decimal digits with an optional sign.
-/

namespace PathTree.Text

/-- The value of decimal digits. -/
def digitsValue? (cs : List Char) : Option Nat :=
  if cs.isEmpty || !cs.all Char.isDigit then none
  else some (cs.foldl (fun n c => n * 10 + (c.toNat - 0x30)) 0)

/-- Whether an integer has 64 bits. -/
def fitsWord (n : Int) : Bool := -0x8000000000000000 ≤ n && n < 0x8000000000000000

/-- The integer that a text spells without regard to its size. -/
def spelledInt? : List Char → Option Int
  | '-' :: cs => (digitsValue? cs).map fun n => -(n : Int)
  | '+' :: cs => (digitsValue? cs).map fun n => (n : Int)
  | cs => (digitsValue? cs).map fun n => (n : Int)

/-- The integer of 64 bits that a text spells. -/
def readInt? (cs : List Char) : Option Int := (spelledInt? cs).filter fitsWord

end PathTree.Text
