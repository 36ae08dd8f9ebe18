import PathTree.Constant.Numeral
import PathTree.Constant.Value

/-!
# Constant expressions

The value of a literal and of an expression built from literals. Both operands of an operator are
always evaluated, the left one first.
-/

namespace PathTree

/-- The truth value a text spells. -/
def readTruth? : String → Option Bool
  | "1" | "t" | "T" | "TRUE" | "true" | "True" => some true
  | "0" | "f" | "F" | "FALSE" | "false" | "False" => some false
  | _ => none

/-- The value of a character literal: the number of the first character between its ends. -/
def readChar? (bs : Text.Bytes) : Option Int :=
  match bs with
  | _ :: _ :: _ => (Text.unquoteChar? 0x27 (bs.drop 1).dropLast).map fun (g, _) => (g.code : Int)
  | _ => none

namespace Literal

/-- Cuts one minus sign off the front of a literal's text. -/
def cutMinus : List Char → Bool × List Char
  | '-' :: cs => (true, cs)
  | cs => (false, cs)

/-- The value that a text without its minus sign spells in a kind of literals. -/
def read? (kind : LitKind) (cs : List Char) : Option Value :=
  match kind with
  | .int => (Numeral.readInt? cs).map .int
  | .float => (Numeral.readRat? cs).map .float
  | .char => (readChar? (Text.bytesOf (String.ofList cs))).map .int
  | .string => (Text.unquote? (Text.bytesOf (String.ofList cs))).map .text
  | _ => none

/-- The value with its sign changed. -/
def negated : Value → Except Fault Value
  | .int n => .ok (.int (-n))
  | .float q => .ok (.float (-q))
  | _ => .error .signedText

/-- The value of a literal. -/
def value (l : Literal) : Except Fault Value :=
  match l.kind with
  | .bool =>
    match readTruth? l.text with
    | some b => .ok (.bool b)
    | none => .error (.notTruth l.text)
  | .nil => .error (.notConstant (.kindOf .nil))
  | .invalid => .error (.notConstant (.kindOf .invalid))
  | kind =>
    let (negative, cs) := cutMinus l.text.toList
    match read? kind cs with
    | none => .error (.notConstant (.malformed l.text))
    | some v => if negative then negated v else .ok v

section Read

variable {kind : LitKind} (hkind : kind ∈ [LitKind.int, .float, .char, .string]) {text : String}
  {negative : Bool} {cs : List Char} (hcut : cutMinus text.toList = (negative, cs))

include hkind hcut

/-- The value of a literal whose text can be read, but for a sign. -/
theorem value_of_read? {v : Value} (h : read? kind cs = some v) :
    value ⟨kind, text⟩ = if negative then negated v else .ok v := by
  cases kind with
  | int | float | char | string => simp only [value, hcut, h]
  | bool | nil | invalid => simp at hkind

theorem value_of_read?_none (h : read? kind cs = none) :
    value ⟨kind, text⟩ = .error (.notConstant (.malformed text)) := by
  cases kind with
  | int | float | char | string => simp only [value, hcut, h]
  | bool | nil | invalid => simp at hkind

end Read

end Literal

/-- The value of a constant expression. -/
def Expr.constant : Expr → Except Fault Value
  | .lit l => l.value
  | .paren x => x.constant
  | .pre op x => do Value.unary op (← x.constant)
  | .binary op x y => do
    let l ← x.constant
    let r ← y.constant
    Value.binary op l r
  | x => .error (.notConstant (.node x.kind))

end PathTree
