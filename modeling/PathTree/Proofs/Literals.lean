import Mathlib
import PathTree.Constant.Eval

/-!
# Literals and their values

The value of a literal that was written for a value is this value again, unless it is a rational
(`Value.value_literalWith`). For byte strings this says that quoting is read back
(`Text.unquote?_quoteWith_iff`) : every piece of the string, a character or a byte that starts
none, is written in one of six ways, and each of them is read as the bytes of the piece
(`Piece.readsFrom_escapePieceWith`). The table of the printable characters chooses among these
ways; all that is asked of it is that line breaks are escaped. For integers it says that decimal
digits are read back (`Numeral.readNat?_toDigits`), where a leading zero would mean another base.
-/

namespace PathTree

/-! ## Bytes and characters -/

namespace Text

theorem toList_loop (l pre : List UInt8) :
    ByteArray.toList.loop (pre ++ l).toByteArray pre.length pre.reverse = pre ++ l := by
  induction l generalizing pre with
  | nil =>
    rw [ByteArray.toList.loop]
    simp
  | cons b l ih =>
    have hb : (pre ++ b :: l).toByteArray.get! pre.length = b := by
      simp [ByteArray.get!]
    rw [ByteArray.toList.loop, hb]
    simpa using ih (pre ++ [b])

/-- The bytes of a text are those of its characters. -/
theorem bytesOf_ofList (cs : List Char) :
    bytesOf (String.ofList cs) = cs.flatMap String.utf8EncodeChar := by
  have h := toList_loop (cs.flatMap String.utf8EncodeChar) []
  simpa [bytesOf, ByteArray.toList, List.utf8Encode] using h

theorem toNat_lt (c : Char) : c.toNat < 0x110000 := by
  rcases c.valid with h | h
  · exact Nat.lt_trans h (by decide)
  · exact h.2

theorem groupLength_ofNat {n : Nat} (h : n < 256) : groupLength (UInt8.ofNat n) =
    if n < 0x80 then 1 else if n < 0xe0 then 2 else if n < 0xf0 then 3 else 4 := by
  simp [groupLength, UInt8.lt_iff_toNat_lt, Nat.mod_eq_of_lt h]

section GroupValue

variable {b m₁ m₂ m₃ : UInt8}

theorem groupValue_one (h : groupLength b = 1) : groupValue b [] = b.toNat := by
  simp [groupValue, h]

theorem groupValue_two (h : groupLength b = 2) :
    groupValue b [m₁] = b.toNat % 0x20 * 0x40 + m₁.toNat % 0x40 := by
  simp [groupValue, h]

theorem groupValue_three (h : groupLength b = 3) : groupValue b [m₁, m₂] =
    (b.toNat % 0x10 * 0x40 + m₁.toNat % 0x40) * 0x40 + m₂.toNat % 0x40 := by
  simp [groupValue, h]

theorem groupValue_four (h : groupLength b = 4) : groupValue b [m₁, m₂, m₃] =
    ((b.toNat % 0x08 * 0x40 + m₁.toNat % 0x40) * 0x40 + m₂.toNat % 0x40) * 0x40 +
      m₃.toNat % 0x40 := by
  simp [groupValue, h]

end GroupValue

/-- The bytes of a character are a group that spells its number. -/
theorem groupValue_utf8EncodeChar {c : Char} {b : UInt8} {more : Bytes}
    (h : String.utf8EncodeChar c = b :: more) :
    groupLength b = more.length + 1 ∧ groupValue b more = c.toNat := by
  have hv : c.val.toNat < 0x110000 := toNat_lt c
  change _ ∧ groupValue b more = c.val.toNat
  unfold String.utf8EncodeChar at h
  generalize c.val.toNat = v at h hv
  dsimp only at h
  -- One case for each length of the encoding.
  split at h
  · obtain ⟨rfl, rfl⟩ := List.cons.inj h
    have hg := groupLength_ofNat (n := v) (by omega)
    rw [if_pos (by omega)] at hg
    refine ⟨hg, ?_⟩
    rw [groupValue_one hg, UInt8.toNat_ofNat']
    omega
  · split at h
    · obtain ⟨rfl, rfl⟩ := List.cons.inj h
      have hg := groupLength_ofNat (n := v / 64 % 0x20 + 0xc0) (by omega)
      rw [if_neg (by omega), if_pos (by omega)] at hg
      refine ⟨hg, ?_⟩
      rw [groupValue_two hg, UInt8.toNat_ofNat', UInt8.toNat_ofNat']
      omega
    · split at h
      · obtain ⟨rfl, rfl⟩ := List.cons.inj h
        have hg := groupLength_ofNat (n := v / 4096 % 0x10 + 0xe0) (by omega)
        rw [if_neg (by omega), if_neg (by omega), if_pos (by omega)] at hg
        refine ⟨hg, ?_⟩
        rw [groupValue_three hg, UInt8.toNat_ofNat', UInt8.toNat_ofNat', UInt8.toNat_ofNat']
        omega
      · obtain ⟨rfl, rfl⟩ := List.cons.inj h
        have hg := groupLength_ofNat (n := v / 262144 % 0x08 + 0xf0) (by omega)
        rw [if_neg (by omega), if_neg (by omega), if_neg (by omega)] at hg
        refine ⟨hg, ?_⟩
        rw [groupValue_four hg, UInt8.toNat_ofNat', UInt8.toNat_ofNat', UInt8.toNat_ofNat',
          UInt8.toNat_ofNat']
        omega

/-- Reading takes the bytes of a character off the front as this character. -/
theorem nextPiece_utf8EncodeChar {c : Char} {b : UInt8} {more : Bytes}
    (h : String.utf8EncodeChar c = b :: more) (rest : Bytes) :
    nextPiece b (more ++ rest) = (.char c, rest) := by
  obtain ⟨hl, hv⟩ := groupValue_utf8EncodeChar h
  simp [nextPiece, hl, hv, h]

/-! ## Quoted texts -/

theorem utf8EncodeChar_of_lt {c : Char} (h : c.toNat < 0x80) :
    String.utf8EncodeChar c = [UInt8.ofNat c.toNat] := by
  have h' : c.toNat ≤ 0x7f := by omega
  simp [String.utf8EncodeChar, h']

/-- A character whose first byte is one of the first 128 has no other byte. -/
theorem utf8EncodeChar_ascii {c : Char} {b : UInt8} {more : Bytes}
    (h : String.utf8EncodeChar c = b :: more) (hb : b < 0x80) : more = [] ∧ c.toNat = b.toNat := by
  obtain ⟨hl, hv⟩ := groupValue_utf8EncodeChar h
  have hg : groupLength b = 1 := by simp [groupLength, hb]
  have hm : more = [] := List.length_eq_zero_iff.mp (by omega)
  rw [hm, groupValue_one hg] at hv
  exact ⟨hm, hv.symm⟩

/-- One of the first 128 characters does not start another character. -/
theorem ne_of_utf8EncodeChar {c d : Char} (hd : d.toNat < 0x80) (hne : c ≠ d) {b : UInt8}
    {more : Bytes} (h : String.utf8EncodeChar c = b :: more) : b ≠ UInt8.ofNat d.toNat := by
  rintro rfl
  have hd' : (UInt8.ofNat d.toNat).toNat = d.toNat := by
    rw [UInt8.toNat_ofNat']
    omega
  obtain ⟨-, hc⟩ := utf8EncodeChar_ascii h (by rw [UInt8.lt_iff_toNat_lt, hd']; exact hd)
  exact hne (Char.toNat_inj.mp (hc.trans hd'))

theorem hexValue?_hexDigit {n : Nat} (h : n < 16) :
    ∃ b, String.utf8EncodeChar (hexDigit n) = [b] ∧ hexValue? b = some n := by
  have : ∀ n < 16, hexValue? (UInt8.ofNat (hexDigit n).toNat) = some n ∧
    (hexDigit n).toNat < 0x80 := by decide
  exact ⟨_, utf8EncodeChar_of_lt (this n h).2, (this n h).1⟩

/-- The last digit can be read by itself. -/
theorem readHex_succ (w acc : Nat) (bs : Bytes) :
    readHex (w + 1) acc bs = (readHex w acc bs).bind fun p => readHex 1 p.1 p.2 := by
  induction w generalizing acc bs with
  | zero => rfl
  | succ w ih =>
    cases bs with
    | nil => rfl
    | cons b bs =>
      rw [readHex, readHex]
      cases hexValue? b with
      | none => rfl
      | some d => exact ih _ _

/-- Digits that were written are read back. -/
theorem readHex_hexPadded (w n acc : Nat) (rest : Bytes) :
    readHex w acc ((hexPadded w n).flatMap String.utf8EncodeChar ++ rest) =
      some (acc * 16 ^ w + n % 16 ^ w, rest) := by
  induction w generalizing n rest with
  | zero => simp [readHex, hexPadded, Nat.mod_one]
  | succ w ih =>
    obtain ⟨b, hb, hd⟩ := hexValue?_hexDigit (Nat.mod_lt n (by decide : 16 > 0))
    rw [readHex_succ, hexPadded, List.flatMap_append, List.append_assoc, ih]
    simp only [List.flatMap_cons, List.flatMap_nil, List.append_nil, hb, List.cons_append,
      List.nil_append, Option.bind_some, readHex, hd]
    have : (acc * 16 ^ w + n / 16 % 16 ^ w) * 16 + n % 16 =
        acc * 16 ^ (w + 1) + n % 16 ^ (w + 1) := by
      rw [Nat.pow_succ, Nat.mul_comm (16 ^ w) 16, Nat.mod_mul, Nat.mul_left_comm]
      omega
    simpa using this

theorem readHex_hexPadded_of_lt {w n : Nat} (h : n < 16 ^ w) (rest : Bytes) :
    readHex w 0 ((hexPadded w n).flatMap String.utf8EncodeChar ++ rest) = some (n, rest) := by
  rw [readHex_hexPadded, Nat.zero_mul, Nat.zero_add, Nat.mod_eq_of_lt h]

/-- The characters `cs` start with neither a double quote nor a line break, and are read back as
the bytes of the piece. -/
def Piece.ReadsFrom (p : Piece) (cs : List Char) : Prop :=
  ∃ b more, cs.flatMap String.utf8EncodeChar = b :: more ∧ b ≠ 0x22 ∧ b ≠ 0x0a ∧
    ∀ rest, ∃ g, unquoteChar? 0x22 (b :: (more ++ rest)) = some (g, rest) ∧ g.bytes = p.bytes

/-- A piece that is written with a backslash is read back if what stands behind it is. -/
theorem Piece.readsFrom_escape {p : Piece} {cs : List Char}
    (h : ∀ rest, ∃ g, unescape? 0x22 (cs.flatMap String.utf8EncodeChar ++ rest) = some (g, rest) ∧
      g.bytes = p.bytes) : p.ReadsFrom ('\\' :: cs) := by
  refine ⟨0x5c, cs.flatMap String.utf8EncodeChar, rfl, by decide, by decide, fun rest => ?_⟩
  obtain ⟨g, hg, hp⟩ := h rest
  exact ⟨g, by simp [unquoteChar?, hg], hp⟩

theorem Piece.readsFrom_hex {p : Piece} {b : UInt8} (hp : p.bytes = [b]) :
    p.ReadsFrom ('\\' :: 'x' :: hexPadded 2 b.toNat) := by
  refine readsFrom_escape fun rest => ⟨.byte b, ?_, hp.symm⟩
  have hr := readHex_hexPadded_of_lt (w := 2) b.toNat_lt rest
  have hx : String.utf8EncodeChar 'x' = [0x78] := rfl
  simp [unescape?, hx, hr]

theorem codePoint?_toNat (c : Char) : codePoint? c.toNat = some (.char c) := by
  have h : c.toNat.isValidChar := c.valid
  simp [codePoint?, h]

/-- A character that is not escaped is read back. -/
theorem Piece.readsFrom_plain {c : Char} (hq : c ≠ '"') (hs : c ≠ '\\') (hn : c ≠ '\n') :
    (Piece.char c).ReadsFrom [c] := by
  obtain ⟨b, more, hc⟩ := List.exists_cons_of_ne_nil (String.utf8EncodeChar_ne_nil (c := c))
  have hbq : b ≠ 0x22 := ne_of_utf8EncodeChar (by decide) hq hc
  have hbs : b ≠ 0x5c := ne_of_utf8EncodeChar (by decide) hs hc
  refine ⟨b, more, by simp [hc], hbq, ne_of_utf8EncodeChar (by decide) hn hc, fun rest => ?_⟩
  by_cases hb : b < 0x80
  · obtain ⟨rfl, -⟩ := utf8EncodeChar_ascii hc hb
    exact ⟨.byte b, by simp [unquoteChar?, hbq, hbs, hb], hc.symm⟩
  · exact ⟨.char c, by simp [unquoteChar?, hbq, hbs, hb, nextPiece_utf8EncodeChar hc], rfl⟩

/-- A control character with a letter is read back from the letter. -/
theorem Piece.readsFrom_letter {c l : Char} (hl : controlLetter? c = some l) :
    (Piece.char c).ReadsFrom ['\\', l] := by
  refine readsFrom_escape fun rest => ⟨.byte (UInt8.ofNat c.toNat), ?_, ?_⟩
  · unfold controlLetter? at hl
    split at hl
    case h_8 => cases hl
    all_goals
      next hc =>
        cases hl
        rw [hc]
        rfl
  · have hc : c.toNat < 0x80 := by
      unfold controlLetter? at hl
      split at hl
      case h_8 => cases hl
      all_goals omega
    exact (utf8EncodeChar_of_lt hc).symm

/-- A control character of ASCII is a single byte, and is read back from its number. -/
theorem Piece.readsFrom_control {c : Char} (hc : c.toNat < 0x20 ∨ c.toNat = 0x7f) :
    (Piece.char c).ReadsFrom ('\\' :: 'x' :: hexPadded 2 c.toNat) := by
  have hlt : c.toNat < 0x80 := by omega
  have hb : (UInt8.ofNat c.toNat).toNat = c.toNat := by
    rw [UInt8.toNat_ofNat']
    omega
  have h : (Piece.char c).ReadsFrom _ := readsFrom_hex (utf8EncodeChar_of_lt hlt)
  rwa [hb] at h

/-- A character is read back from its number as a code point. -/
theorem Piece.readsFrom_number {c u : Char} {w : Nat} (hu : u = 'u' ∧ w = 4 ∨ u = 'U' ∧ w = 8)
    (hw : c.toNat < 16 ^ w) : (Piece.char c).ReadsFrom ('\\' :: u :: hexPadded w c.toNat) := by
  refine readsFrom_escape fun rest => ⟨.char c, ?_, rfl⟩
  have hr := readHex_hexPadded_of_lt hw rest
  rcases hu with ⟨rfl, rfl⟩ | ⟨rfl, rfl⟩
  · have hx : String.utf8EncodeChar 'u' = [0x75] := rfl
    simp [unescape?, hx, hr, codePoint?_toNat]
  · have hx : String.utf8EncodeChar 'U' = [0x55] := rfl
    simp [unescape?, hx, hr, codePoint?_toNat]

section Printable

variable {printable : Char → Bool} (hn : printable '\n' = false)

include hn

/-- Every piece is read back from what it is written as. -/
theorem Piece.readsFrom_escapePieceWith (p : Piece) :
    p.ReadsFrom (escapePieceWith printable p) := by
  cases p with
  | stray b => exact readsFrom_hex rfl
  | char c =>
    rw [escapePieceWith, escapeCharWith]
    split
    · next hq =>
      refine readsFrom_escape fun rest => ?_
      rcases hq with rfl | rfl
      · exact ⟨.byte 0x22, rfl, rfl⟩
      · exact ⟨.byte 0x5c, rfl, rfl⟩
    · next hq =>
      obtain ⟨hq, hs⟩ := not_or.mp hq
      split
      · next hp =>
        refine readsFrom_plain hq hs ?_
        rintro rfl
        rw [hn] at hp
        cases hp
      · split
        · next l hl => exact readsFrom_letter hl
        · split
          · next hc => exact readsFrom_control hc
          · split
            · next hlt => exact readsFrom_number (Or.inl ⟨rfl, rfl⟩) hlt
            · have hlt := toNat_lt c
              exact readsFrom_number (Or.inr ⟨rfl, rfl⟩) (by omega)

/-- Written pieces are read back up to the double quote behind them. -/
theorem readQuoted_pieces (ps : List Piece) (n : Nat) (hlen : ps.length < n) :
    readQuoted n ((ps.flatMap (escapePieceWith printable)).flatMap String.utf8EncodeChar ++
      [0x22]) = some (joinPieces ps, []) := by
  induction ps generalizing n with
  | nil =>
    obtain ⟨n, rfl⟩ : ∃ k, n = k + 1 := ⟨n - 1, by simp at hlen; omega⟩
    rfl
  | cons p ps ih =>
    obtain ⟨n, rfl⟩ : ∃ k, n = k + 1 := ⟨n - 1, by simp at hlen; omega⟩
    obtain ⟨b, more, he, hq, hl, hr⟩ := p.readsFrom_escapePieceWith hn
    obtain ⟨g, hg, hp⟩ := hr ((ps.flatMap (escapePieceWith printable)).flatMap
      String.utf8EncodeChar ++ [0x22])
    have hps := ih n (by simpa using hlen)
    rw [List.flatMap_cons, List.flatMap_append, he, List.append_assoc, List.cons_append, readQuoted]
    simp [hq, hl, hg, hps, hp, joinPieces]

theorem length_le_written (ps : List Piece) :
    ps.length ≤ ((ps.flatMap (escapePieceWith printable)).flatMap String.utf8EncodeChar).length := by
  induction ps with
  | nil => simp
  | cons p ps ih =>
    obtain ⟨b, more, he, -⟩ := p.readsFrom_escapePieceWith hn
    rw [List.flatMap_cons, List.flatMap_append, he, List.length_append, List.length_cons,
      List.length_cons]
    omega

end Printable

/-- The bytes of a quoted text are those of its pieces between two double quotes. -/
theorem bytesOf_quoteWith (printable : Char → Bool) (bs : Bytes) :
    bytesOf (quoteWith printable bs) = 0x22 ::
      (((pieces bs).flatMap (escapePieceWith printable)).flatMap String.utf8EncodeChar ++
        [0x22]) := by
  rw [quoteWith, bytesOf_ofList, List.flatMap_cons, List.flatMap_append]
  rfl

/-- All byte strings are read back from what they are quoted as if and only if the table of the
printable characters leaves out the line break. -/
theorem unquote?_quoteWith_iff {printable : Char → Bool} :
    (∀ bs, unquote? (bytesOf (quoteWith printable bs)) = some bs) ↔ printable '\n' = false := by
  constructor
  · intro h
    have h := h [0x0a]
    cases hn : printable '\n' with
    | false => rfl
    | true =>
      -- The line break stands as it is, where no text may have one.
      have hp : pieces [0x0a] = [.char '\n'] := by
        rw [pieces, show nextPiece 0x0a [] = (.char '\n', []) from rfl, pieces]
      have hq : bytesOf (quoteWith printable [0x0a]) = [0x22, 0x0a, 0x22] := by
        rw [bytesOf_quoteWith, hp]
        simp [escapePieceWith, escapeCharWith, hn]
        rfl
      rw [hq] at h
      cases h
  · intro hn bs
    have hl := length_le_written hn (pieces bs)
    rw [bytesOf_quoteWith, unquote?]
    simp only [List.length_cons, List.length_append, List.length_nil]
    rw [readQuoted_pieces hn _ _ (by omega), joinPieces_pieces]
    rfl

/-- A byte string that was quoted is read back. -/
theorem unquote?_quote (bs : Bytes) : unquote? (bytesOf (quote bs)) = some bs :=
  unquote?_quoteWith_iff.mpr (by decide) bs

end Text

/-! ## Integers -/

namespace Numeral

theorem digit?_of_isDigit {c : Char} (h : c.isDigit) :
    digit? 10 c = some (c.toNat - '0'.toNat) := by
  obtain ⟨h0, h9⟩ := Char.isDigit_iff_toNat.mp h
  have hd : digitValue? c = some (c.toNat - '0'.toNat) := if_pos ⟨h0, h9⟩
  have hlt : c.toNat - '0'.toNat < 10 := by
    simp only [Char.reduceToNat] at h0 h9 ⊢
    omega
  rw [digit?, hd]
  simpa using hlt

theorem readDigits?_cons {c : Char} (h : c.isDigit) (joined : Bool) (acc : Nat) (cs : List Char) :
    readDigits? 10 joined acc (c :: cs) =
      readDigits? 10 true (10 * acc + (c.toNat - '0'.toNat)) cs := by
  have hu : c ≠ '_' := by
    rintro rfl
    cases h
  rw [readDigits?, digit?_of_isDigit h, Nat.mul_comm]
  · rfl
  · exact hu

/-- Decimal digits are read as the number they spell. -/
theorem readDigits?_eq_ofDigitChars {cs : List Char} (h : ∀ c ∈ cs, c.isDigit) (acc : Nat) :
    readDigits? 10 true acc cs = some (Nat.ofDigitChars 10 cs acc) := by
  induction cs generalizing acc with
  | nil => rfl
  | cons c cs ih =>
    rw [readDigits?_cons (h c (by simp)), ih fun d hd => h d (List.mem_cons_of_mem _ hd),
      Nat.ofDigitChars_cons]

/-- No leading zero is written. -/
theorem head?_toDigits {n : Nat} (h : 0 < n) : (Nat.toDigits 10 n).head? ≠ some '0' := by
  induction n using Nat.strongRecOn with
  | ind n ih =>
    by_cases hn : n < 10
    · rw [Nat.toDigits_of_lt_base hn]
      simp
      omega
    · have ih := ih (n / 10) (by omega) (by omega)
      rw [Nat.toDigits_of_base_le (by decide) (by omega)]
      cases hd : Nat.toDigits 10 (n / 10) with
      | nil => exact absurd hd Nat.toDigits_ne_nil
      | cons c cs => simpa [hd] using ih

/-- The digits of a number are read back. -/
theorem readNat?_toDigits (n : Nat) : readNat? (Nat.toDigits 10 n) = some n := by
  by_cases h0 : n = 0
  · subst h0
    rfl
  · have hd : ∀ c ∈ Nat.toDigits 10 n, c.isDigit := fun c hc =>
      Nat.isDigit_of_mem_toDigits (by decide) (by decide) hc
    have hv : Nat.ofDigitChars 10 (Nat.toDigits 10 n) 0 = n := Nat.ofDigitChars_ten_toDigits
    have hh := head?_toDigits (Nat.pos_of_ne_zero h0)
    cases hcs : Nat.toDigits 10 n with
    | nil => exact absurd hcs Nat.toDigits_ne_nil
    | cons c cs =>
      rw [hcs] at hd hv hh
      have hr : readDigits? 10 false 0 (c :: cs) = some n := by
        rw [readDigits?_cons (hd c (by simp)), ← readDigits?_cons (hd c (by simp)) true,
          readDigits?_eq_ofDigitChars hd, hv]
      have hc : c ≠ '0' := by simpa using hh
      unfold readNat?
      split
      · next h => cases h
      · next h => exact absurd (List.cons.inj h).1 hc
      · exact hr

/-- A number is written with a digit first, so without a sign. -/
theorem exists_toDigits (n : Nat) : ∃ c cs, Nat.toDigits 10 n = c :: cs ∧ c.isDigit := by
  obtain ⟨c, cs, h⟩ := List.exists_cons_of_ne_nil (Nat.toDigits_ne_nil (n := n) (b := 10))
  have hc : c ∈ Nat.toDigits 10 n := by simp [h]
  exact ⟨c, cs, h, Nat.isDigit_of_mem_toDigits (by decide) (by decide) hc⟩

theorem readInt?_toDigits (n : Nat) : readInt? (Nat.toDigits 10 n) = some (n : Int) := by
  have hc : cutSign (Nat.toDigits 10 n) = (false, Nat.toDigits 10 n) := by
    obtain ⟨c, cs, h, hd⟩ := exists_toDigits n
    rw [h]
    unfold cutSign
    split
    · next heq =>
      cases heq
      cases hd
    · next heq =>
      cases heq
      cases hd
    · rfl
  simp [readInt?, hc, readNat?_toDigits]

end Numeral

namespace Literal

theorem cutMinus_of_ne {c : Char} (h : c ≠ '-') (cs : List Char) :
    cutMinus (c :: cs) = (false, c :: cs) := by
  unfold cutMinus
  split
  · next hc => exact absurd (List.cons.inj hc).1 h
  · rfl

/-- The literal of an integer has its value. -/
theorem value_ofInt (n : Int) : (ofInt n).value = .ok (.int n) := by
  have hr (k : Nat) : read? .int (Nat.toDigits 10 k) = some (.int k) := by
    simp [read?, Numeral.readInt?_toDigits]
  cases n with
  | ofNat n =>
    obtain ⟨c, cs, h, hd⟩ := Numeral.exists_toDigits n
    have ht : (toString (Int.ofNat n)).toList = Nat.toDigits 10 n := Nat.toList_repr
    have hm : c ≠ '-' := by
      rintro rfl
      cases hd
    have hc : cutMinus (toString (Int.ofNat n)).toList = (false, Nat.toDigits 10 n) := by
      rw [ht, h]
      exact cutMinus_of_ne hm cs
    exact value_of_read? (by decide) hc (hr n)
  | negSucc n =>
    have ht : (toString (Int.negSucc n)).toList = '-' :: Nat.toDigits 10 (n + 1) := by
      change ("-" ++ Nat.repr (n + 1)).toList = _
      rw [String.toList_append, Nat.toList_repr]
      rfl
    have hc : cutMinus (toString (Int.negSucc n)).toList = (true, Nat.toDigits 10 (n + 1)) := by
      rw [ht]
      rfl
    exact value_of_read? (by decide) hc (hr (n + 1))

/-- The literal of a byte string has its value. -/
theorem value_quoteWith {printable : Char → Bool} (hn : printable '\n' = false) (s : Text.Bytes) :
    (⟨.string, Text.quoteWith printable s⟩ : Literal).value = .ok (.text s) := by
  have hc : cutMinus (Text.quoteWith printable s).toList =
      (false, (Text.quoteWith printable s).toList) := by
    rw [Text.quoteWith, String.toList_ofList]
    exact cutMinus_of_ne (by decide) _
  refine value_of_read? (by decide) hc ?_
  simp [read?, Text.unquote?_quoteWith_iff.mpr hn]

theorem value_quote (s : Text.Bytes) :
    (⟨.string, Text.quote s⟩ : Literal).value = .ok (.text s) :=
  value_quoteWith (by decide) s

end Literal

namespace Value

/-- Whether a value is a rational. -/
def isFloat : Value → Bool
  | .float _ => true
  | _ => false

/-- A value that is no rational is the value of its literal if line breaks are escaped. -/
theorem value_literalWith {printable : Char → Bool} (hn : printable '\n' = false) {v : Value}
    (h : v.isFloat = false) : (v.literalWith printable).value = .ok v := by
  cases v with
  | int n => exact Literal.value_ofInt n
  | float q => cases h
  | text s => exact Literal.value_quoteWith hn s
  | bool b => cases b <;> rfl

/-- A value that is no rational is the value of its literal. -/
theorem value_literal {v : Value} (h : v.isFloat = false) : v.literal.value = .ok v :=
  value_literalWith (by decide) h

/-- Integers of any size, truth values and strings of any bytes are read back from their literals,
whatever the table of the printable characters is, as long as it has no control character of
ASCII. -/
theorem constant_literalWith {printable : Char → Bool}
    (hp : ∀ c : Char, c.toNat < 0x20 ∨ c.toNat = 0x7f → printable c = false) {v : Value}
    (h : v.isFloat = false) : (Expr.lit (v.literalWith printable)).constant = .ok v :=
  value_literalWith (hp '\n' (by decide)) h

/-- A cut off euro sign and a whole one, a line break, a double quote, a backslash, two control
characters without a letter, the bytes of a surrogate and a blank of no width. -/
def mixedBytes : Text.Bytes :=
  [0xe2, 0x82, 0xe2, 0x82, 0xac, 0x0a, 0x22, 0x5c, 0x00, 0x7f, 0xed, 0xa0, 0x80, 0xe2, 0x80, 0x8b]

theorem constant_literalWith_mixedBytes :
    (∀ c : Char, c.toNat < 0x20 ∨ c.toNat = 0x7f → Text.isPrintable c = false) ∧
    (Value.text mixedBytes).isFloat = false ∧
    (Value.text mixedBytes).literalWith Text.isPrintable =
      ⟨.string, "\"\\xe2\\x82€\\n\\\"\\\\\\x00\\x7f\\xed\\xa0\\x80\\u200b\""⟩ ∧
    (Expr.lit ((Value.text mixedBytes).literalWith Text.isPrintable)).constant =
      .ok (.text mixedBytes) :=
  ⟨fun _ => Text.isPrintable_eq_false_of_control, rfl, by decide +kernel,
    constant_literalWith (fun _ => Text.isPrintable_eq_false_of_control) rfl⟩

end Value

end PathTree
