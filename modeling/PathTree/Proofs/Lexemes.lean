import Mathlib.Data.List.TakeWhile
import PathTree.Source.Lexeme

/-!
# Lexemes in a text

The lexeme at the front of a text ends where it cannot go on. A name goes on with the characters of
names, and a literal that is an operand is followed by a blank, a comma, a semicolon or a closing
parenthesis. `lexeme_append_of_name` and `lexeme_append_of_literal` : a token that is all of a text
is also the first token of a longer one.
-/

namespace PathTree.Source

/-- Whether a text is one token of the given kind. -/
def isToken (kind : TokenKind) (text : String) : Bool :=
  match text.toList with
  | [] => false
  | c :: cs =>
    (lexeme c cs).kind == .token kind && (lexeme c cs).chars == c :: cs &&
      (lexeme c cs).fault.isNone

theorem isToken_iff {kind : TokenKind} {text : String} :
    isToken kind text ↔
      ∃ c cs, text.toList = c :: cs ∧ lexeme c cs = ⟨.token kind, c :: cs, none⟩ := by
  unfold isToken
  cases text.toList with
  | nil => simp
  | cons c cs =>
    simp only [Bool.and_eq_true, beq_iff_eq, Option.isNone_iff_eq_none, List.cons.injEq]
    constructor
    · rintro ⟨⟨hkind, hchars⟩, hfault⟩
      refine ⟨c, cs, ⟨rfl, rfl⟩, ?_⟩
      rw [← hkind, ← hchars, ← hfault]
    · rintro ⟨_, _, ⟨rfl, rfl⟩, h⟩
      simp [h]

/-! ## First characters -/

/-- The marks that stand in front of an operand or around it. -/
def operandMarks : List Char := ['!', '-', '+', '(', ')']

/-- No name and no literal starts with such a mark. -/
theorem kind_lexeme_of_mem_operandMarks {c : Char} (hc : c ∈ operandMarks) (cs : List Char) :
    (lexeme c cs).kind = .token .mark ∨ (lexeme c cs).kind = .token .illegal := by
  have hname : ¬startsName c :=
    List.any_eq_false.mp (by decide : operandMarks.any startsName = false) c hc
  have hdigit : ¬c.isDigit :=
    List.any_eq_false.mp (by decide : operandMarks.any Char.isDigit = false) c hc
  have hne : ∀ d, d ∉ operandMarks → c ≠ d := fun d hd he => hd (he ▸ hc)
  have hslash := hne '/' (by decide)
  rw [lexeme, if_neg hname, if_neg (by simp [hdigit, hne '.' (by decide)]),
    if_neg (hne '"' (by decide)), if_neg (hne '\'' (by decide)), if_neg (hne '\x60' (by decide)),
    if_neg (by simp [hslash]), if_neg (by simp [hslash])]
  split
  · exact .inl rfl
  · exact .inr rfl

/-! ## What follows -/

/-- The characters that can stand behind an operand. -/
def afterOperand : List Char := [' ', ')', ',', ';']

/-- Whether a text can stand behind an operand. -/
def isBehind (rest : List Char) : Bool := rest.head?.all (afterOperand.contains ·)

/-- Whether the rest of a text does not go on with a character of the given class. -/
def stopsAt (p : Char → Bool) (rest : List Char) : Bool := rest.head?.all (!p ·)

theorem stopsAt_of_isBehind {p : Char → Bool} (hp : afterOperand.any p = false)
    {rest : List Char} (h : isBehind rest) : stopsAt p rest := by
  cases rest with
  | nil => rfl
  | cons c cs =>
    have hc := List.any_eq_false.mp hp c (by simpa [isBehind] using h)
    simp [stopsAt, hc]

theorem takeWhile_append {p : Char → Bool} {rest : List Char} (h : stopsAt p rest)
    (cs : List Char) : (cs ++ rest).takeWhile p = cs.takeWhile p := by
  induction cs with
  | nil => cases rest with
    | nil => rfl
    | cons c rest => simp [show p c = false by simpa [stopsAt] using h]
  | cons c cs ih => simp [List.takeWhile_cons, ih]

theorem dropWhile_append {p : Char → Bool} {rest : List Char} (h : stopsAt p rest)
    (cs : List Char) : (cs ++ rest).dropWhile p = cs.dropWhile p ++ rest := by
  induction cs with
  | nil => cases rest with
    | nil => rfl
    | cons c rest => simp [show p c = false by simpa [stopsAt] using h]
  | cons c cs ih => cases hc : p c <;> simp [ih, hc]

theorem head?_append {c : Char} (hc : c ∉ afterOperand) {rest : List Char} (h : isBehind rest)
    (cs : List Char) : ((cs ++ rest).head? == some c) = (cs.head? == some c) := by
  cases cs with
  | nil =>
    cases rest with
    | nil => rfl
    | cons d rest =>
      have hd : d ∈ afterOperand := by simpa [isBehind] using h
      have hne : d ≠ c := fun he => hc (he ▸ hd)
      simp [hne]
  | cons d cs => rfl

theorem quotedTail?_cons_of_ne {q c : Char} (hc : c ≠ '\\') (cs : List Char) :
    quotedTail? q (c :: cs) =
      if c = q then some [c] else if c = '\n' then none else (quotedTail? q cs).map (c :: ·) :=
  quotedTail?.eq_3 q c cs fun _ _ h _ => hc h

/-- A closing quote that is found does not depend on what follows it. -/
theorem quotedTail?_append {q : Char} (hq : q ≠ '\\') {cs tail : List Char}
    (h : quotedTail? q cs = some tail) (rest : List Char) :
    quotedTail? q (cs ++ rest) = some tail := by
  fun_induction quotedTail? q cs generalizing tail with
  | case1 => cases h
  | case2 cs => cases h
  | case3 c cs hc ih =>
    obtain ⟨t, ht, rfl⟩ := Option.map_eq_some_iff.mp h
    simp [quotedTail?, hc, ih ht]
  | case4 cs hne =>
    rw [List.cons_append, quotedTail?_cons_of_ne hq, if_pos rfl, h]
  | case5 => cases h
  | case6 c cs hne hcq hline ih =>
    obtain ⟨t, ht, rfl⟩ := Option.map_eq_some_iff.mp h
    cases cs with
    | nil => cases ht
    | cons d cs =>
      have hc : c ≠ '\\' := fun hc => hne d cs hc rfl
      rw [List.cons_append, quotedTail?_cons_of_ne hc, if_neg hcq, if_neg hline, ih ht]
      rfl

theorem Radix.isDigit_afterOperand (r : Radix) : afterOperand.any r.isDigit = false := by
  cases r <;> decide

theorem markOfExponent_append (cs : List Char) {rest : List Char} (h : isBehind rest) :
    markOfExponent (cs ++ rest) = markOfExponent cs := by
  cases rest with
  | nil => rw [List.append_nil]
  | cons d rest =>
    have hd : d ∈ afterOperand := by simpa [isBehind] using h
    have hnot : ∀ l : List Char, afterOperand.any l.contains = false → d ∉ l := fun l hl => by
      simpa using List.any_eq_false.mp hl d hd
    have hsign := hnot ['+', '-'] (by decide)
    have hmark := hnot ['e', 'E', 'p', 'P'] (by decide)
    match cs with
    | _ :: _ :: _ => rfl
    | [c] => simp [markOfExponent, hsign]
    | [] => cases rest <;> simp [markOfExponent, hmark]

theorem length_markOfExponent_le (cs : List Char) : (markOfExponent cs).length ≤ cs.length := by
  unfold markOfExponent
  split
  · simp
  · split <;> simp
  · split
    · split <;> simp
    · simp

/-- The parts of a numeral do not depend on what follows it. -/
theorem numeralParts_append (r : Radix) (cs : List Char) {rest : List Char}
    (h : isBehind rest) : numeralParts r (cs ++ rest) = numeralParts r cs := by
  have hdigit : ∀ r : Radix, stopsAt r.isDigit rest := fun r =>
    stopsAt_of_isBehind r.isDigit_afterOperand h
  have htake := fun r => takeWhile_append (hdigit r)
  have hdrop : ∀ p (cs : List Char), (cs ++ rest).drop (cs.takeWhile p).length =
      cs.drop (cs.takeWhile p).length ++ rest := fun p cs =>
    List.drop_append_of_le_length (List.takeWhile_prefix p).length_le
  have hmark : ∀ cs : List Char, (cs ++ rest).drop (markOfExponent cs).length =
      cs.drop (markOfExponent cs).length ++ rest := fun cs =>
    List.drop_append_of_le_length (length_markOfExponent_le cs)
  have hpoint : ∀ cs : List Char, ((cs ++ rest).head? == some '.') = (cs.head? == some '.') :=
    head?_append (by decide) h
  have hi : ∀ cs : List Char, ((cs ++ rest).head? == some 'i') = (cs.head? == some 'i') :=
    head?_append (by decide) h
  simp only [numeralParts, htake, dropWhile_append (hdigit r), hpoint]
  generalize cs.dropWhile r.isDigit = u
  by_cases hu : (u.head? == some '.') = true
  · obtain ⟨v, rfl⟩ : ∃ v, u = '.' :: v := by
      cases u with
      | nil => cases hu
      | cons c v => exact ⟨v, by simpa using hu⟩
    simp only [List.head?_cons, beq_self_eq_true, if_true, List.cons_append,
      List.drop_succ_cons, List.drop_zero, htake, hdrop, hmark, markOfExponent_append _ h]
    split <;> simp only [hdrop, hi, List.length_nil, List.drop_zero]
  · simp only [hu, Bool.false_eq_true, if_false, List.length_nil, List.drop_zero, hmark, htake,
      markOfExponent_append _ h]
    split <;> simp only [hdrop, hi, List.length_nil, List.drop_zero]

theorem Radix.of_cons_of_ne {c : Char} (hc : c ≠ '0') (cs : List Char) :
    Radix.of (c :: cs) = .decimal := by
  unfold Radix.of
  split <;> simp_all

theorem Radix.of_append (c : Char) (cs : List Char) {rest : List Char} (h : isBehind rest) :
    Radix.of (c :: cs ++ rest) = Radix.of (c :: cs) := by
  by_cases hc : c = '0'
  · subst hc
    match cs, rest with
    | _ :: _, _ => rfl
    | [], [] => rfl
    | [], d :: rest =>
      rcases (by simpa [isBehind, afterOperand] using h : d = ' ' ∨ d = ')' ∨ d = ',' ∨ d = ';')
        with rfl | rfl | rfl | rfl <;> rfl
  · rw [List.cons_append, Radix.of_cons_of_ne hc, Radix.of_cons_of_ne hc]

theorem Radix.markSize_of_le (cs : List Char) : (Radix.of cs).markSize ≤ cs.length := by
  unfold Radix.of
  split
  · split
    · simp [Radix.markSize]
    · split
      · simp [Radix.markSize]
      · split <;> simp [Radix.markSize]
  · simp [Radix.markSize]
  · simp [Radix.markSize]

theorem numeral_append (c : Char) (cs : List Char) {rest : List Char} (h : isBehind rest) :
    numeral (c :: cs ++ rest) = numeral (c :: cs) := by
  have hsize := Radix.markSize_of_le (c :: cs)
  simp only [numeral, Radix.of_append c cs h, List.drop_append_of_le_length hsize,
    List.take_append_of_le_length hsize, numeralParts_append _ _ h]

@[simp] theorem kind_quotedLiteral (form : LiteralForm) (q : Char) (cs : List Char) :
    (quotedLiteral form q cs).kind = .token (.literal form) := by
  unfold quotedLiteral
  split <;> rfl

@[simp] theorem kind_rawLiteral (cs : List Char) :
    (rawLiteral cs).kind = .token (.literal .string) := by
  simp only [rawLiteral]
  split <;> rfl

@[simp] theorem kind_blockComment (cs : List Char) : (blockComment cs).kind = .comment := by
  unfold blockComment
  split <;> rfl

theorem quotedLiteral_append {form : LiteralForm} {q : Char} (hq : q ≠ '\\') {cs : List Char}
    (h : (quotedLiteral form q cs).fault = none) (rest : List Char) :
    quotedLiteral form q (cs ++ rest) = quotedLiteral form q cs := by
  unfold quotedLiteral at h ⊢
  cases htail : quotedTail? q cs with
  | none => simp [htail] at h
  | some tail => rw [quotedTail?_append hq htail]

theorem rawLiteral_append {cs : List Char} (h : (rawLiteral cs).fault = none) (rest : List Char) :
    rawLiteral (cs ++ rest) = rawLiteral cs := by
  have hlt : (cs.takeWhile (· != '\x60')).length < cs.length := by
    by_contra hge
    simp [rawLiteral, hge] at h
  have htake : (cs ++ rest).takeWhile (· != '\x60') = cs.takeWhile (· != '\x60') := by
    rw [List.takeWhile_append, if_neg (by omega)]
  have hlt' : (cs.takeWhile (· != '\x60')).length < (cs ++ rest).length := by
    rw [List.length_append]
    omega
  simp only [rawLiteral, htake, if_pos hlt, if_pos hlt']

/-- A name starts as names do, and has no other characters than names have. -/
theorem inName_of_lexeme {c : Char} {cs : List Char}
    (h : lexeme c cs = ⟨.token .name, c :: cs, none⟩) :
    startsName c ∧ ∀ d ∈ c :: cs, inName d := by
  by_cases hc : startsName c
  · have hchars := congrArg Lexeme.chars h
    rw [lexeme, if_pos hc] at hchars
    have htake : cs.takeWhile inName = cs := (List.cons.inj hchars).2
    have hfirst : inName c := by simp [inName, hc]
    exact ⟨hc, List.forall_mem_cons.mpr ⟨hfirst, List.takeWhile_eq_self_iff.mp htake⟩⟩
  · have hkind := congrArg Lexeme.kind h
    rw [lexeme, if_neg hc] at hkind
    repeat' split at hkind
    all_goals simp [numeral] at hkind

/-- A name is read as far as it goes. -/
theorem lexeme_append_of_name {c : Char} {cs : List Char}
    (h : lexeme c cs = ⟨.token .name, c :: cs, none⟩) {rest : List Char}
    (hrest : stopsAt inName rest) : lexeme c (cs ++ rest) = ⟨.token .name, c :: cs, none⟩ := by
  have hc := (inName_of_lexeme h).1
  rw [lexeme, if_pos hc] at h ⊢
  simpa [takeWhile_append hrest] using h

/-- A literal is read as far as it goes. -/
theorem lexeme_append_of_literal {c : Char} {cs : List Char} {form : LiteralForm}
    (h : lexeme c cs = ⟨.token (.literal form), c :: cs, none⟩) {rest : List Char}
    (hrest : isBehind rest) :
    lexeme c (cs ++ rest) = ⟨.token (.literal form), c :: cs, none⟩ := by
  have hfault := congrArg Lexeme.fault h
  have hdigit : (cs ++ rest).head?.any Char.isDigit = cs.head?.any Char.isDigit := by
    cases cs with
    | cons d cs => rfl
    | nil =>
      have hstop := stopsAt_of_isBehind (p := Char.isDigit) (by decide) hrest
      cases rest with
      | nil => rfl
      | cons d rest => simpa [stopsAt] using hstop
  rw [← h]
  unfold lexeme at h hfault ⊢
  rw [hdigit]
  by_cases hc : startsName c
  · have hkind := congrArg Lexeme.kind h
    rw [if_pos hc] at hkind
    dsimp only at hkind
    split at hkind <;> cases hkind
  · rw [if_neg hc] at h hfault ⊢
    split
    · exact numeral_append c cs hrest
    next hnum =>
    split
    · exact quotedLiteral_append (by decide) (by simpa [*] using hfault) rest
    next hstring =>
    split
    · exact quotedLiteral_append (by decide) (by simpa [*] using hfault) rest
    next hchar =>
    split
    · exact rawLiteral_append (by simpa [*] using hfault) rest
    next hraw =>
    have hkind := congrArg Lexeme.kind h
    rw [if_neg hnum, if_neg hstring, if_neg hchar, if_neg hraw] at hkind
    repeat' split at hkind
    all_goals simp at hkind
end PathTree.Source
