import Mathlib
import PathTree.Constant.Value
import PathTree.Proofs.Lexemes

/-!
# Signs in texts

Where two equal signs stand side by side, a text reads as an increment or a decrement
(`Text.doublesSign`). Putting texts one behind the other doubles no sign if the second one does not
start with a sign (`Text.doublesSign_append`), and a text with one sign at most doubles none.

The only sign inside a number is that of its exponent, in the tokens of a source
(`Source.signs_of_isToken`) as in what computed numbers are written as (`Value.isSigned_floatText`,
`Literal.isSigned_ofInt`). So a number has one sign at its front and one inside, and they do not
meet (`Literal.IsNumber.isSigned`).
-/

namespace PathTree

open Source

/-! ## Signs in texts -/

namespace Text

/-- The characters of which two make an increment or a decrement. -/
def isSign (c : Char) : Bool := c == '+' || c == '-'

/-- Whether two equal signs stand side by side. -/
def doublesSign : List Char → Bool
  | [] => false
  | c :: cs => (isSign c && cs.head? == some c) || doublesSign cs

/-- Whether a text starts with a sign. -/
def startsWithSign (cs : List Char) : Bool := cs.head?.any isSign

/-- How many signs stand in a text. -/
def signs (cs : List Char) : Nat := cs.countP isSign

variable {c : Char} {cs ds : List Char}

theorem doublesSign_cons_of_not (h : isSign c = false) (cs : List Char) :
    doublesSign (c :: cs) = doublesSign cs := by
  simp [doublesSign, h]

/-- A text doubles a sign if an increment or a decrement stands in it. -/
theorem doublesSign_iff : doublesSign cs ↔ ['+', '+'] <:+: cs ∨ ['-', '-'] <:+: cs := by
  induction cs with
  | nil => simp [doublesSign]
  | cons c cs ih =>
    have hfront : (isSign c && cs.head? == some c) = true ↔
        ['+', '+'] <+: c :: cs ∨ ['-', '-'] <+: c :: cs := by
      cases cs with
      | nil => simp
      | cons d cs =>
        simp only [isSign, List.head?_cons, Bool.and_eq_true, Bool.or_eq_true, beq_iff_eq,
          Option.some.injEq, List.cons_prefix_cons, List.nil_prefix, and_true]
        constructor
        · rintro ⟨rfl | rfl, rfl⟩ <;> simp
        · rintro (⟨rfl, rfl⟩ | ⟨rfl, rfl⟩) <;> simp
    rw [doublesSign, List.infix_cons_iff, List.infix_cons_iff, Bool.or_eq_true, ih, hfront]
    exact or_or_or_comm

/-- No signs meet where the second of two texts does not start with one. -/
theorem doublesSign_append (h : startsWithSign ds = false) (cs : List Char) :
    doublesSign (cs ++ ds) = (doublesSign cs || doublesSign ds) := by
  induction cs with
  | nil => rfl
  | cons c cs ih =>
    rw [List.cons_append, doublesSign, doublesSign, ih]
    cases cs with
    | nil =>
      have hmeet : (isSign c && ds.head? == some c) = false := by
        cases ds with
        | nil => simp
        | cons d ds =>
          by_cases hd : d = c
          · subst hd
            simpa [startsWithSign] using h
          · simp [hd]
      simp [hmeet]
    | cons d cs => simp [Bool.or_assoc]

theorem head?_ne_of_not (hc : isSign c) (h : startsWithSign cs = false) : cs.head? ≠ some c := by
  intro hcs
  simp [startsWithSign, hcs, hc] at h

theorem startsWithSign_of_signs_eq_zero (h : signs cs = 0) : startsWithSign cs = false := by
  cases cs with
  | nil => rfl
  | cons c cs => exact Bool.eq_false_iff.mpr (List.countP_eq_zero.mp h c (by simp))

/-- There must be two signs to have one doubled. -/
theorem doublesSign_of_signs_le_one (h : signs cs ≤ 1) : doublesSign cs = false := by
  induction cs with
  | nil => rfl
  | cons c cs ih =>
    cases hc : isSign c with
    | false =>
      rw [doublesSign_cons_of_not hc]
      exact ih (by simpa [signs, List.countP_cons, hc] using h)
    | true =>
      have hcs : signs cs = 0 := by simpa [signs, List.countP_cons, hc] using h
      have hhead := startsWithSign_of_signs_eq_zero hcs
      rw [doublesSign, ih (by omega), Bool.or_false, Bool.and_eq_false_iff]
      right
      cases cs with
      | nil => rfl
      | cons d cs =>
        have : d ≠ c := by
          rintro rfl
          simp [startsWithSign, hc] at hhead
        simp [this]

@[simp] theorem signs_append (cs ds : List Char) : signs (cs ++ ds) = signs cs + signs ds :=
  List.countP_append

theorem signs_eq_zero_iff : signs cs = 0 ↔ ∀ c ∈ cs, isSign c = false := by
  simp [signs, List.countP_eq_zero]

theorem startsWithSign_append (hc : startsWithSign cs = false) (hd : startsWithSign ds = false) :
    startsWithSign (cs ++ ds) = false := by
  cases cs with
  | nil => exact hd
  | cons c cs => exact hc

/-- A text without signs can be left away in front. -/
theorem doublesSign_append_of_signs (hc : signs cs = 0) (ds : List Char) :
    doublesSign (cs ++ ds) = doublesSign ds := by
  induction cs with
  | nil => rfl
  | cons c cs ih =>
    rw [signs_eq_zero_iff, List.forall_mem_cons] at hc
    rw [List.cons_append, doublesSign_cons_of_not hc.1, ih (signs_eq_zero_iff.mpr hc.2)]

/-- Signs in texts with a separator between them stand in the texts. -/
theorem doublesSign_intercalate {sep : String} (hne : sep ≠ "") (hsep : signs sep.toList = 0)
    (texts : List String) :
    doublesSign (sep.intercalate texts).toList = texts.any fun s => doublesSign s.toList := by
  have hfront (ds : List Char) : startsWithSign (sep.toList ++ ds) = false := by
    cases h : sep.toList with
    | nil => exact absurd (String.toList_eq_nil_iff.mp h) hne
    | cons c cs =>
      rw [h] at hsep
      exact (startsWithSign_of_signs_eq_zero hsep :)
  induction texts with
  | nil => rfl
  | cons s texts ih =>
    cases texts with
    | nil => simp
    | cons t texts =>
      have hcons : (sep.intercalate (s :: t :: texts)).toList =
          s.toList ++ (sep.toList ++ (sep.intercalate (t :: texts)).toList) := by
        simp [String.intercalate_cons_cons]
      rw [hcons, doublesSign_append (hfront _), doublesSign_append_of_signs hsep, ih]
      rfl

/-- A sign or none, and behind it a text that has none at its front and one at most in it. -/
def IsSigned (cs : List Char) : Prop :=
  ∃ rest, startsWithSign rest = false ∧ signs rest ≤ 1 ∧ (cs = rest ∨ ∃ c, cs = c :: rest)

theorem IsSigned.doublesSign (h : IsSigned cs) : doublesSign cs = false := by
  obtain ⟨rest, hfront, hsigns, rfl | ⟨c, rfl⟩⟩ := h
  · exact doublesSign_of_signs_le_one hsigns
  · rw [Text.doublesSign, doublesSign_of_signs_le_one hsigns, Bool.or_false, Bool.and_eq_false_iff]
    cases rest with
    | nil => exact Or.inr rfl
    | cons d rest =>
      by_cases hd : d = c
      · subst hd
        exact Or.inl (by simpa [startsWithSign] using hfront)
      · exact Or.inr (by simp [hd])

theorem IsSigned.append (h : IsSigned cs) (hd : signs ds = 0) : IsSigned (cs ++ ds) := by
  obtain ⟨rest, hfront, hsigns, hcs⟩ := h
  refine ⟨rest ++ ds, startsWithSign_append hfront (startsWithSign_of_signs_eq_zero hd), ?_, ?_⟩
  · rw [signs_append, hd]
    exact hsigns
  · rcases hcs with rfl | ⟨c, rfl⟩
    · exact Or.inl rfl
    · exact Or.inr ⟨c, rfl⟩

end Text

/-! ## Numbers -/

namespace Source

open Text

theorem Radix.signs_take_markSize (cs : List Char) :
    signs (cs.take (Radix.of cs).markSize) = 0 := by
  fun_cases Radix.of cs with
  | case1 c cs h | case2 c cs _ h | case3 c cs _ _ h =>
    rcases h with rfl | rfl <;> rfl
  | case4 | case5 | case6 => rfl

theorem Radix.isSign_of_isDigit {r : Radix} {c : Char} (h : r.isDigit c) : isSign c = false := by
  cases hc : isSign c with
  | false => rfl
  | true =>
    rcases (by simpa [isSign] using hc : c = '+' ∨ c = '-') with rfl | rfl
    · exact absurd h (by cases r <;> decide)
    · exact absurd h (by cases r <;> decide)

theorem signs_markOfExponent (cs : List Char) : signs (markOfExponent cs) ≤ 1 := by
  have hmark : ∀ c ∈ ['e', 'E', 'p', 'P'], isSign c = false := by simp [isSign]
  fun_cases markOfExponent cs with
  | case2 c hc => simp [signs, hmark c hc]
  | case4 c d cs hc hd | case5 c d cs hc hd =>
    simp only [signs, List.countP_cons, hmark c hc, List.countP_nil]
    split <;> simp
  | case1 | case3 | case6 => simp [signs]

theorem signs_digits (r : Radix) (cs : List Char) : signs (cs.takeWhile r.isDigit) = 0 :=
  signs_eq_zero_iff.mpr fun _ hc => Radix.isSign_of_isDigit (List.mem_takeWhile_imp hc)

theorem NumeralParts.signs_chars {p : NumeralParts} (hwhole : signs p.whole = 0)
    (hfraction : signs p.fraction = 0) (hmark : signs p.exponentMark ≤ 1)
    (hexponent : signs p.exponent = 0) : signs p.chars ≤ 1 := by
  have hpoint : signs (if p.point then ['.'] else []) = 0 := by cases p.point <;> rfl
  have himaginary : signs (if p.imaginary then ['i'] else []) = 0 := by cases p.imaginary <;> rfl
  simp only [chars, signs_append]
  omega

/-- In a numeral there is no sign but that of the exponent. -/
theorem signs_numeral (cs : List Char) : signs (numeral cs).chars ≤ 1 := by
  have hdigits (ok : Bool) (r : Radix) (cs : List Char) :
      signs (if ok then cs.takeWhile r.isDigit else []) = 0 := by
    cases ok
    · rfl
    · exact signs_digits r cs
  have hexponent (empty : Bool) (cs : List Char) :
      signs (if empty then [] else cs.takeWhile Radix.decimal.isDigit) = 0 := by
    cases empty
    · exact signs_digits _ cs
    · rfl
  simp only [numeral, signs_append, Radix.signs_take_markSize, Nat.zero_add]
  exact NumeralParts.signs_chars (signs_digits _ _) (hdigits _ _ _) (signs_markOfExponent _)
    (hexponent _ _)

/-- A number is read as a numeral. -/
theorem lexeme_eq_numeral {form : LiteralForm} (hform : form = .int ∨ form = .float) {c : Char}
    {cs : List Char} (h : (lexeme c cs).kind = .token (.literal form)) :
    lexeme c cs = numeral (c :: cs) := by
  have hother : form ≠ .string ∧ form ≠ .char := by rcases hform with rfl | rfl <;> decide
  by_cases hname : startsName c
  · rw [lexeme, if_pos hname] at h
    dsimp only at h
    split at h <;> cases h
  by_cases hnum : c.isDigit || (c == '.' && cs.head?.any Char.isDigit)
  · rw [lexeme, if_neg hname, if_pos hnum]
  · rw [lexeme, if_neg hname, if_neg hnum] at h
    repeat' split at h
    all_goals simp [hother.1.symm, hother.2.symm] at h

/-- The token of a number does not start with a sign, and has one at most. -/
theorem signs_of_isToken {form : LiteralForm} (hform : form = .int ∨ form = .float) {text : String}
    (h : isToken (.literal form) text) :
    startsWithSign text.toList = false ∧ signs text.toList ≤ 1 := by
  obtain ⟨c, cs, htext, hlex⟩ := isToken_iff.mp h
  rw [htext]
  constructor
  · rw [Bool.eq_false_iff]
    intro hc
    have hmem : c ∈ operandMarks := by
      rcases (by simpa [startsWithSign, isSign] using hc : c = '+' ∨ c = '-') with rfl | rfl <;>
        decide
    rcases kind_lexeme_of_mem_operandMarks hmem cs with hkind | hkind <;> simp [hlex] at hkind
  · have hchars : (numeral (c :: cs)).chars = c :: cs := by
      rw [← lexeme_eq_numeral hform (by rw [hlex]), hlex]
    rw [← hchars]
    exact signs_numeral (c :: cs)

end Source

namespace Decimal

open Text

theorem isSign_digitChar (d : Nat) : isSign (digitChar d) = false := by
  have hval : (digitChar d).toNat = 0x30 + d ∨ (digitChar d).toNat = 0 := by
    rw [digitChar, Char.toNat_ofNat]
    split
    · exact Or.inl rfl
    · exact Or.inr rfl
  rw [Bool.eq_false_iff]
  intro h
  rcases (by simpa [isSign] using h : digitChar d = '+' ∨ digitChar d = '-') with hc | hc
  all_goals
    rw [hc] at hval
    simp at hval
    omega

theorem signs_digitText (ds : List Nat) : signs (digitText ds).toList = 0 := by
  rw [digitText, String.toList_ofList, signs_eq_zero_iff]
  intro c hc
  obtain ⟨d, -, rfl⟩ := List.mem_map.mp hc
  exact isSign_digitChar d

theorem signs_toString (n : Nat) : signs (toString n).toList = 0 := by
  have htext : (toString n).toList = Nat.toDigits 10 n := Nat.toList_repr
  rw [htext, signs_eq_zero_iff]
  intro c hc
  exact Radix.isSign_of_isDigit (r := .decimal)
    (by simp [Radix.isDigit, Nat.isDigit_of_mem_toDigits (by decide) (by decide) hc])

theorem signs_zeros (n : Nat) : signs (List.replicate n '0') = 0 := by
  rw [signs_eq_zero_iff]
  intro c hc
  rw [List.eq_of_mem_replicate hc]
  rfl

/-- What stands behind the point, and the point. -/
theorem signs_tail (tail : List Nat) :
    signs (if tail.isEmpty then "" else "." ++ digitText tail).toList = 0 := by
  split
  · rfl
  · rw [String.toList_append, signs_append, signs_digitText]
    rfl

/-- A decimal does not start with a sign, and only an exponent has one. -/
theorem signs_write (f : Format) (d : Digits) :
    startsWithSign (f.write d).toList = false ∧ signs (f.write d).toList ≤ 1 := by
  unfold Format.write
  dsimp only
  split
  · have hexp : signs (if d.point - 1 < 0 then "-" else "+").toList = 1 := by split <;> rfl
    simp only [Format.scientific, String.toList_append, List.append_assoc, signs_append,
      signs_digitText, signs_tail, hexp, String.toList_ofList, signs_zeros, signs_toString]
    have hfront := startsWithSign_of_signs_eq_zero (signs_digitText (d.digits.take 1))
    refine ⟨startsWithSign_append hfront ?_, by decide⟩
    exact startsWithSign_append (startsWithSign_of_signs_eq_zero (signs_tail _)) rfl
  · have hnone : signs (positional d).toList = 0 := by
      unfold positional
      split
      · simp only [String.toList_append, signs_append, String.toList_ofList, signs_zeros,
          signs_digitText]
        rfl
      · simp only [String.toList_append, signs_append, String.toList_ofList, signs_zeros,
          signs_digitText, signs_tail]
    exact ⟨startsWithSign_of_signs_eq_zero hnone, by omega⟩

theorem isSigned_rational (f : Format) (hlarge : IsSigned f.tooLarge.toList)
    (hlarge' : IsSigned f.tooLargeNegative.toList) (q : Rat) :
    IsSigned (f.rational q).toList := by
  unfold Format.rational
  split
  · exact ⟨['0'], rfl, by decide, Or.inl rfl⟩
  · dsimp only
    split
    · split
      · exact hlarge'
      · exact hlarge
    · next b _ =>
      have hbody : ∀ body : String, (startsWithSign body.toList = false ∧ signs body.toList ≤ 1) →
          IsSigned (if q.num < 0 then "-" ++ body else body).toList := by
        rintro body ⟨hfront, hsigns⟩
        split
        · exact ⟨body.toList, hfront, hsigns, Or.inr ⟨'-', by simp⟩⟩
        · exact ⟨body.toList, hfront, hsigns, Or.inl rfl⟩
      refine hbody _ ?_
      split
      · decide
      · exact signs_write f _

end Decimal

theorem Value.isSigned_floatText (q : Rat) : Text.IsSigned (Value.floatText q).toList := by
  have h := Decimal.isSigned_rational floatFormat
    ⟨"Inf".toList, by decide, by decide, Or.inr ⟨'+', rfl⟩⟩
    ⟨"Inf".toList, by decide, by decide, Or.inr ⟨'-', rfl⟩⟩ q
  unfold floatText
  dsimp only
  split
  · exact h
  · rw [String.toList_append]
    exact h.append rfl

theorem Literal.isSigned_ofInt (n : Int) : Text.IsSigned (ofInt n).text.toList := by
  have hdigits (k : Nat) : Text.signs (Nat.repr k).toList = 0 := Decimal.signs_toString k
  have hrest (k : Nat) := Text.startsWithSign_of_signs_eq_zero (hdigits k)
  cases n with
  | ofNat n => exact ⟨(Nat.repr n).toList, hrest n, by rw [hdigits]; decide, Or.inl rfl⟩
  | negSucc n =>
    refine ⟨(Nat.repr (n + 1)).toList, hrest _, by rw [hdigits]; decide, Or.inr ⟨'-', ?_⟩⟩
    change ("-" ++ Nat.repr (n + 1)).toList = _
    rw [String.toList_append]
    rfl

/-- Literals of integers and rationals : a sign or none with the token of a number behind it, or
what a number that was computed is written as. -/
inductive Literal.IsNumber : Literal → Prop
  | int {sign digits : String} (hs : sign ∈ ["", "+", "-"])
      (hd : isToken (.literal .int) digits) : IsNumber ⟨.int, sign ++ digits⟩
  | float {sign digits : String} (hs : sign ∈ ["", "+", "-"])
      (hd : isToken (.literal .float) digits) : IsNumber ⟨.float, sign ++ digits⟩
  | ofInt (n : Int) : IsNumber (.ofInt n)
  | ofRational (q : Rat) : IsNumber ⟨.float, Value.floatText q⟩

theorem Literal.IsNumber.isSigned {l : Literal} (h : l.IsNumber) : Text.IsSigned l.text.toList := by
  have htoken {form : LiteralForm} (hform : form = .int ∨ form = .float) {sign digits : String}
      (hs : sign ∈ ["", "+", "-"]) (hd : isToken (.literal form) digits) :
      Text.IsSigned (sign ++ digits).toList := by
    obtain ⟨hfront, hsigns⟩ := signs_of_isToken hform hd
    refine ⟨digits.toList, hfront, hsigns, ?_⟩
    rcases (by simpa using hs : sign = "" ∨ sign = "+" ∨ sign = "-") with rfl | rfl | rfl
    · exact Or.inl (by simp)
    · exact Or.inr ⟨'+', by simp⟩
    · exact Or.inr ⟨'-', by simp⟩
  cases h with
  | int hs hd => exact htoken (Or.inl rfl) hs hd
  | float hs hd => exact htoken (Or.inr rfl) hs hd
  | ofInt n => exact isSigned_ofInt n
  | ofRational q => exact Value.isSigned_floatText q

/-- A name has no signs. -/
theorem Source.signs_of_isName {name : String} (h : isToken .name name) :
    Text.signs name.toList = 0 := by
  obtain ⟨c, cs, htext, hlex⟩ := isToken_iff.mp h
  rw [htext, Text.signs_eq_zero_iff]
  intro d hd
  have hin := (inName_of_lexeme hlex).2 d hd
  rw [Bool.eq_false_iff]
  intro hsign
  rcases (by simpa [Text.isSign] using hsign : d = '+' ∨ d = '-') with rfl | rfl
  · exact absurd hin (by decide)
  · exact absurd hin (by decide)

end PathTree
