import PathTree.Fault
import PathTree.Decimal.Layout

/-!
# Constant values

Integers without bound, exact rationals, byte strings and truth values, with the operators of the
language on them. Integers and rationals mix in arithmetic and comparisons; a rational stays one
even when it is whole.
-/

namespace PathTree

/-- A constant value. -/
inductive Value where
  | int (n : Int)
  | float (q : Rat)
  | text (s : Text.Bytes)
  | bool (b : Bool)
  deriving DecidableEq, Repr

namespace Value

/-- The name of a value's kind. -/
def kind : Value → String
  | .int _ => "Int"
  | .float _ => "Float"
  | .text _ => "String"
  | .bool _ => "Bool"

/-- Whether a value is a number. -/
def isNumeric : Value → Bool
  | .int _ | .float _ => true
  | _ => false

/-! ## Order -/

/-- Byte strings compared byte by byte. -/
def compareBytes : Text.Bytes → Text.Bytes → Ordering
  | [], [] => .eq
  | [], _ :: _ => .lt
  | _ :: _, [] => .gt
  | a :: as, b :: bs =>
    if a < b then .lt else if b < a then .gt else compareBytes as bs

/-- Rationals in their order. -/
def compareRat (a b : Rat) : Ordering :=
  if a < b then .lt else if a = b then .eq else .gt

/-- The order of two integers. -/
def compareInt (a b : Int) : Ordering :=
  if a < b then .lt else if a = b then .eq else .gt

/-- Whether a comparison holds between values in the given order. -/
def ordered (op : BinaryOp) (o : Ordering) : Bool :=
  match op with
  | .eq => o == .eq
  | .ne => o != .eq
  | .lt => o == .lt
  | .le => o != .gt
  | .gt => o == .gt
  | _ => o != .lt

/-- The order of two values, if they have one; truth values are only alike or not. -/
def order? : Value → Value → Option Ordering
  | .int a, .int b => some (compareInt a b)
  | .int a, .float b => some (compareRat a b)
  | .float a, .int b => some (compareRat a b)
  | .float a, .float b => some (compareRat a b)
  | .text a, .text b => some (compareBytes a b)
  | _, _ => none

/-! ## Operators -/

/-- A unary operator on a value. -/
def unary (op : UnaryOp) (v : Value) : Except Fault Value :=
  match op, v with
  | .neg, .int n => .ok (.int (-n))
  | .neg, .float q => .ok (.float (-q))
  | .plus, .int n => .ok (.int n)
  | .plus, .float q => .ok (.float q)
  | .not, .bool b => .ok (.bool !b)
  | op, v => .error (.notConstant (.unary op v.kind))

/-- The fault of a binary operator on values of the wrong kinds. -/
def mismatch (op : BinaryOp) (l r : Value) : Fault :=
  .notConstant (.binary op l.kind r.kind)

/-- Division by zero. -/
def divisionByZero : Fault := .notConstant .divisionByZero

/-- Arithmetic on rationals; there is no remainder. -/
def rational (op : BinaryOp) (l r : Value) (a b : Rat) : Except Fault Value :=
  match op with
  | .add => .ok (.float (a + b))
  | .sub => .ok (.float (a - b))
  | .mul => .ok (.float (a * b))
  | .div => if b = 0 then .error divisionByZero else .ok (.float (a / b))
  | _ => .error (mismatch op l r)

/-- Arithmetic on integers: quotients go toward zero, remainders take the sign of the dividend. -/
def integer (op : BinaryOp) (a b : Int) : Except Fault Value :=
  match op with
  | .add => .ok (.int (a + b))
  | .sub => .ok (.int (a - b))
  | .mul => .ok (.int (a * b))
  | .div => if b = 0 then .error divisionByZero else .ok (.int (a.tdiv b))
  | .mod => if b = 0 then .error divisionByZero else .ok (.int (a.tmod b))
  | _ => .error (mismatch op (.int a) (.int b))

/-- A comparison of two values. -/
def comparison (op : BinaryOp) (l r : Value) : Except Fault Value :=
  match l, r with
  | .bool a, .bool b =>
    match op with
    | .eq => .ok (.bool (a == b))
    | .ne => .ok (.bool (a != b))
    | _ => .error (mismatch op l r)
  | l, r =>
    match order? l r with
    | some o => .ok (.bool (ordered op o))
    | none => .error (mismatch op l r)

/-- A binary operator on two values. -/
def binary (op : BinaryOp) (l r : Value) : Except Fault Value :=
  if op.isLogical then
    match l, r with
    | .bool a, .bool b => .ok (.bool (if op = .and then a && b else a || b))
    | l, r => .error (mismatch op l r)
  else if op.isComparison then comparison op l r
  else
    match l, r with
    | .text a, .text b => if op = .add then .ok (.text (a ++ b)) else .error (mismatch op l r)
    | .int a, .int b => integer op a b
    | .int a, .float b => rational op l r a b
    | .float a, .int b => rational op l r a b
    | .float a, .float b => rational op l r a b
    | l, r => .error (mismatch op l r)

/-! ## Values as literals -/

/-- Rationals are written positionally from 0.0001 up to six digits before the point. -/
def floatFormat : Decimal.Format where
  leastPositional := -4
  mostPositional := 5
  exponentDigits := 2
  tooLarge := "+Inf"
  tooLargeNegative := "-Inf"

/-- The text of a rational; a whole number gets `.0` behind it. -/
def floatText (q : Rat) : String :=
  let s := floatFormat.rational q
  if s.toList.any (fun c => c == '.' || c == 'e' || c == 'n') then s else s ++ ".0"

/-- The literal of a value for a table of the printable characters. -/
def literalWith (printable : Char → Bool) : Value → Literal
  | .int n => .ofInt n
  | .float q => ⟨.float, floatText q⟩
  | .text s => ⟨.string, Text.quoteWith printable s⟩
  | .bool b => .ofBool b

/-- The literal of a value. -/
def literal (v : Value) : Literal := v.literalWith Text.isPrintable

end Value

/-- The literal of a text. -/
def Literal.ofText (s : String) : Literal := ⟨.string, Text.quoteText s⟩

end PathTree
