import PathTree.Constant.Numeral
import PathTree.Decimal.Shortest
import PathTree.Text.Blank
import PathTree.Text.Integer

/-!
# Plain scalars

What a text without quotes stands for in a settings document: nothing, a truth value, a number, a
date, or the text itself. An underscore in a number is ignored.
-/

namespace PathTree.Settings

/-- What a plain text stands for. -/
inductive Plain where
  | null
  | truth (value : Bool)
  | whole (value : Int)
  /-- A number with a point or an exponent, as the nearest one of 64 bits. -/
  | decimal (value : Rat)
  | infinite (negative : Bool)
  | notNumber
  | date
  | text
  deriving DecidableEq

namespace Plain

/-! ## Fixed spellings -/

/-- The spellings of nothing. -/
def nullWords : List String := ["", "~", "null", "Null", "NULL"]

/-- The truth values. -/
def truthWords : List (String × Bool) :=
  [("true", true), ("True", true), ("TRUE", true), ("false", false), ("False", false),
    ("FALSE", false)]

/-- Words that are texts, but that are also read as truth values where one is asked for. -/
def looseTruthWords : List (String × Bool) :=
  (["y", "Y", "yes", "Yes", "YES", "on", "On", "ON"].map (·, true)) ++
    (["n", "N", "no", "No", "NO", "off", "Off", "OFF"].map (·, false))

/-- The numbers that have no digits. -/
def numberWords : List (String × Plain) :=
  ([".nan", ".NaN", ".NAN"].map (·, notNumber)) ++
    ([".inf", ".Inf", ".INF", "+.inf", "+.Inf", "+.INF"].map (·, infinite false)) ++
    (["-.inf", "-.Inf", "-.INF"].map (·, infinite true))

/-! ## Dates -/

/-- Reads a number of one or two digits. -/
def shortNumber? : List Char → Option (Nat × List Char)
  | a :: b :: cs =>
    if a.isDigit then
      if b.isDigit then some ((a.toNat - 48) * 10 + (b.toNat - 48), cs)
      else some (a.toNat - 48, b :: cs)
    else none
  | [a] => if a.isDigit then some (a.toNat - 48, []) else none
  | [] => none

/-- Whether a year has 366 days. -/
def isLeap (year : Nat) : Bool := year % 4 = 0 && (year % 100 != 0 || year % 400 = 0)

/-- The number of days of a month. -/
def daysIn (year month : Nat) : Nat :=
  if month = 2 then if isLeap year then 29 else 28
  else if [4, 6, 9, 11].contains month then 30
  else 31

/-- Reads a day such as `2001-2-03`. -/
def day? (cs : List Char) : Option (List Char) := do
  let year ← Text.digitsValue? (cs.take 4)
  let rest ← Text.cutFront? ['-'] (cs.drop 4)
  let (month, rest) ← shortNumber? rest
  let rest ← Text.cutFront? ['-'] rest
  let (day, rest) ← shortNumber? rest
  if 1 ≤ month ∧ month ≤ 12 ∧ 1 ≤ day ∧ day ≤ daysIn year month then some rest else none

/-- Reads a time such as `7:05:00.25`. -/
def clock? (cs : List Char) : Option (List Char) := do
  let (hour, rest) ← shortNumber? cs
  let rest ← Text.cutFront? [':'] rest
  let (minute, rest) ← shortNumber? rest
  let rest ← Text.cutFront? [':'] rest
  let (second, rest) ← shortNumber? rest
  if hour < 24 ∧ minute < 60 ∧ second < 60 then
    match rest with
    | mark :: d :: more =>
      if (mark = '.' ∨ mark = ',') ∧ d.isDigit then some (more.dropWhile Char.isDigit) else some rest
    | _ => some rest
  else none

/-- Whether a text is a time zone, `Z` or an offset such as `+01:00`. -/
def isZone : List Char → Bool
  | ['Z'] => true
  | [sign, a, b, ':', c, d] =>
    (sign = '+' || sign = '-') &&
      ((Text.digitsValue? [a, b]).any (· ≤ 24) && (Text.digitsValue? [c, d]).any (· ≤ 60))
  | _ => false

/-- Whether a text is a date, with or without a time. -/
def isDate (cs : List Char) : Bool :=
  match day? cs with
  | none => false
  | some [] => true
  | some (mark :: rest) =>
    match clock? rest with
    | none => false
    | some zone => if mark = ' ' then zone.isEmpty else (mark = 'T' || mark = 't') && isZone zone

/-! ## Numbers -/

/-- The nearest number of 64 bits, if there is one. -/
def nearestDecimal? (q : Rat) : Option Rat :=
  (Decimal.nearest? (q.num.natAbs, q.den)).map fun b =>
    let m := mkRat b.value.1 b.value.2
    if q < 0 then -m else m

/-- Reads a number with a point or an exponent. -/
def decimal? (cs : List Char) : Option Plain :=
  if cs.all fun c => c.isDigit || ".eE+-".contains c then
    ((Numeral.readRat? cs).bind nearestDecimal?).map decimal
  else none

/-- Reads a whole number of 64 bits; without a sign, it may use all of them for its size. -/
def whole? (cs : List Char) : Option Plain :=
  let signed := cs.head? = some '-' || cs.head? = some '+'
  (Numeral.readInt? cs).bind fun n =>
    if Text.fitsWord n || (!signed && n < 0x10000000000000000) then some (whole n) else none

/-- What a number-like text stands for. -/
def number (cs : List Char) : Plain :=
  match cs with
  | [] => text
  | c :: _ =>
    if c = '.' then (decimal? cs).getD text
    else if c.isDigit || c = '+' || c = '-' then
      if isDate cs then date
      else
        let digits := cs.filter (· != '_')
        ((whole? digits).or (decimal? digits)).getD text
    else text

/-- What a plain text stands for. -/
def ofText (s : String) : Plain :=
  if nullWords.contains s then null
  else
    match truthWords.lookup s, numberWords.lookup s with
    | some b, _ => truth b
    | none, some n => n
    | none, none => number s.toList

end Plain

end PathTree.Settings
