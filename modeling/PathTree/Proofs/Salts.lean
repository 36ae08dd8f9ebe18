import PathTree.Proofs.Candidates
import PathTree.Proofs.RunsInStep

/-!
# Salts

What two engines have in common that have one salt. The settings in it are numbers and truth values,
none with a space in its text, so they can be read back one by one. The names stand behind them with
commas between, and they can be read back if they are such that functions have : a comma stands in
the name of a method only between the square brackets of its receiver's type (`isFuncName`). Then the
engines agree on all that an outcome depends on (`Engine.agrees_of_salt_eq`).
-/

namespace PathTree

/-! ## Names with commas between -/

/-- Whether commas stand only inside square brackets, in a text that starts inside so many. -/
def commasInside : (depth : Nat) → List Char → Bool
  | depth, [] => depth = 0
  | depth, c :: cs =>
    if c = '[' then commasInside (depth + 1) cs
    else if c = ']' then 0 < depth && commasInside (depth - 1) cs
    else (c != ',' || 0 < depth) && commasInside depth cs

/-- Whether a text can be the name of a function, as far as commas tell : `Pair[K, V].Get` can. -/
def isFuncName (name : String) : Bool := name != "" && commasInside 0 name.toList

theorem ne_comma_of_commasInside {c : Char} {cs : List Char} (h : commasInside 0 (c :: cs)) :
    c ≠ ',' := by
  rintro rfl
  simp [commasInside] at h

/-- A text with its commas inside brackets ends at the first comma that is not. -/
theorem commasInside_append_inj {depth : Nat} {x y r r' : List Char}
    (hx : commasInside depth x) (hy : commasInside depth y) (hr : ∀ c ∈ r.head?, c = ',')
    (hr' : ∀ c ∈ r'.head?, c = ',') (h : x ++ r = y ++ r') : x = y ∧ r = r' := by
  induction x generalizing depth y with
  | nil =>
    obtain rfl : depth = 0 := by simpa [commasInside] using hx
    cases y with
    | nil => exact ⟨rfl, h⟩
    | cons c y =>
      exact absurd (hr c (by rw [← List.nil_append r, h]; rfl)) (ne_comma_of_commasInside hy)
  | cons c x ih =>
    cases y with
    | nil =>
      obtain rfl : depth = 0 := by simpa [commasInside] using hy
      exact absurd (hr' c (by rw [← List.nil_append r', ← h]; rfl)) (ne_comma_of_commasInside hx)
    | cons c' y =>
      obtain ⟨rfl, htail⟩ := List.cons.inj h
      have hsub : ∃ depth', commasInside depth' x ∧ commasInside depth' y := by
        unfold commasInside at hx hy
        split_ifs at hx hy
        · exact ⟨depth + 1, hx, hy⟩
        · exact ⟨depth - 1, (Bool.and_eq_true_iff.mp hx).2, (Bool.and_eq_true_iff.mp hy).2⟩
        · exact ⟨depth, (Bool.and_eq_true_iff.mp hx).2, (Bool.and_eq_true_iff.mp hy).2⟩
      obtain ⟨depth', hx', hy'⟩ := hsub
      obtain ⟨rfl, hrest⟩ := ih hx' hy' htail
      exact ⟨rfl, hrest⟩

theorem toList_intercalate_cons (name : String) (names : List String) :
    (",".intercalate (name :: names)).toList =
      name.toList ++ if names = [] then [] else ',' :: (",".intercalate names).toList := by
  cases names with
  | nil => simp
  | cons name' names => simp [String.toList_append]

/-- Names with commas between them can be read back. -/
theorem intercalate_inj {names names' : List String} (hnames : ∀ name ∈ names, isFuncName name)
    (hnames' : ∀ name ∈ names', isFuncName name)
    (h : ",".intercalate names = ",".intercalate names') : names = names' := by
  have hcons : ∀ {name : String} {rest : List String}, isFuncName name →
      ",".intercalate (name :: rest) ≠ "" := by
    intro name rest hname heq
    have hempty := congrArg String.toList heq
    rw [toList_intercalate_cons] at hempty
    have hname' : name = "" := String.toList_eq_nil_iff.mp (List.append_eq_nil_iff.mp hempty).1
    simp [isFuncName, hname'] at hname
  induction names generalizing names' with
  | nil =>
    cases names' with
    | nil => rfl
    | cons name' rest' => exact absurd h.symm (hcons (hnames' name' List.mem_cons_self))
  | cons name rest ih =>
    obtain ⟨hname, hrest⟩ := List.forall_mem_cons.mp hnames
    cases names' with
    | nil => exact absurd h (hcons hname)
    | cons name' rest' =>
      obtain ⟨hname', hrest'⟩ := List.forall_mem_cons.mp hnames'
      have htexts := congrArg String.toList h
      rw [toList_intercalate_cons, toList_intercalate_cons] at htexts
      obtain ⟨hhead, htail⟩ := commasInside_append_inj (Bool.and_eq_true_iff.mp hname).2
        (Bool.and_eq_true_iff.mp hname').2 (by split <;> simp) (by split <;> simp) htexts
      rw [String.toList_injective hhead]
      split_ifs at htail with hnil hnil' hnil'
      · rw [hnil, hnil']
      · rw [ih hrest hrest' (String.toList_injective (List.cons.inj htail).2)]

/-! ## Fields -/

/-- Values with texts that have no space in them and can be read back. -/
structure HasPlainTexts {α : Type} (text : α → String) : Prop where
  injective : Function.Injective text
  space_notMem : ∀ a, ' ' ∉ (text a).toList

theorem hasPlainTexts_toString : HasPlainTexts (toString : Int → String) where
  injective _ _ h := ofInt_injective (congrArg (Literal.mk .int) h)
  space_notMem n := by
    have hdigits : ∀ k : Nat, ' ' ∉ Nat.toDigits 10 k := fun k h => by
      cases Nat.isDigit_of_mem_toDigits (by decide) (by decide) h
    cases n with
    | ofNat n =>
      have htext : (toString (Int.ofNat n)).toList = Nat.toDigits 10 n := Nat.toList_repr
      rw [htext]
      exact hdigits n
    | negSucc n =>
      have htext : (toString (Int.negSucc n)).toList = '-' :: Nat.toDigits 10 (n + 1) := by
        change ("-" ++ Nat.repr (n + 1)).toList = _
        rw [String.toList_append, Nat.toList_repr]
        rfl
      rw [htext, List.mem_cons]
      exact not_or.mpr ⟨by decide, hdigits (n + 1)⟩

theorem hasPlainTexts_truthText : HasPlainTexts Settings.truthText where
  injective := by decide
  space_notMem b := by cases b <;> decide

/-- A value is read back up to the label of the next field, which starts with a space. -/
theorem HasPlainTexts.field_inj {α : Type} {text : α → String} (htext : HasPlainTexts text)
    (label : String) (hlabel : label.toList.head? = some ' ') {a a' : α} {r r' : List Char}
    (h : (text a).toList ++ (label.toList ++ r) = (text a').toList ++ (label.toList ++ r')) :
    a = a' ∧ r = r' := by
  obtain ⟨cs, hcs⟩ := List.head?_eq_some_iff.mp hlabel
  -- What one text has more starts with a space.
  have hmore : ∀ {a : α} {x y u v : List Char}, (text a).toList = x ++ y → ' ' :: u = y ++ v →
      y = [] := by
    intro a x y u v hsplit hy
    cases y with
    | nil => rfl
    | cons c y =>
      obtain ⟨rfl, -⟩ := List.cons.inj hy
      exact absurd (hsplit ▸ List.mem_append_right x List.mem_cons_self) (htext.space_notMem a)
  have heq : (text a).toList = (text a').toList := by
    rw [hcs] at h
    rcases List.append_eq_append_iff.mp h with ⟨y, hy, hrest⟩ | ⟨y, hy, hrest⟩
    · rw [hy, hmore hy hrest, List.append_nil]
    · rw [hy, hmore hy hrest, List.append_nil]
  rw [heq] at h
  exact ⟨htext.injective (String.toList_injective heq),
    List.append_cancel_left (List.append_cancel_left h)⟩

namespace Engine

variable {σ : Type} {e e' : Engine σ}

/-- Two engines agree on all that the outcome of a text depends on. -/
structure Agrees (e e' : Engine σ) : Prop where
  loopBound : e.settings.loopBound = e'.settings.loopBound
  visitUnsat : e.settings.visitUnsatPaths = e'.settings.visitUnsatPaths
  fold : e.settings.foldConstants = e'.settings.foldConstants
  bounded : e.settings.bounded = e'.settings.bounded
  maxComplexity : e.settings.maxComplexity = e'.settings.maxComplexity
  funcs : ∀ name, name ∈ e.funcs ↔ name ∈ e'.funcs

theorem Agrees.alike (h : e.Agrees e') : e.Alike e' where
  loopBound := h.loopBound
  visitUnsat := h.visitUnsat
  fold := h.fold
  maxComplexity := h.maxComplexity
  selects f := by
    have hcontains : ∀ name, e.funcs.contains name = e'.funcs.contains name := fun name => by
      rw [Bool.eq_iff_iff, List.contains_iff_mem, List.contains_iff_mem, h.funcs]
    have hempty : e.funcs.isEmpty = e'.funcs.isEmpty := by
      rw [Bool.eq_iff_iff, List.isEmpty_iff, List.isEmpty_iff, List.eq_nil_iff_forall_not_mem,
        List.eq_nil_iff_forall_not_mem]
      simp only [h.funcs]
    simp only [selects, hcontains, hempty]

/-- Engines with one salt agree, if their names are such that functions have. -/
theorem agrees_of_salt_eq (hsolver : e.settings.solver = e'.settings.solver)
    (hnames : ∀ name ∈ e.funcs, isFuncName name) (hnames' : ∀ name ∈ e'.funcs, isFuncName name)
    (h : e.salt = e'.salt) : e.Agrees e' := by
  have hsalt := congrArg String.toList h
  unfold salt Settings.fingerprint at hsalt
  simp only [hsolver, String.toList_append, List.append_assoc] at hsalt
  have hsalt := List.append_cancel_left hsalt
  obtain ⟨hbound, hsalt⟩ := hasPlainTexts_toString.field_inj " unsat=" rfl hsalt
  obtain ⟨hunsat, hsalt⟩ := hasPlainTexts_truthText.field_inj " fold=" rfl hsalt
  obtain ⟨hfold, hsalt⟩ := hasPlainTexts_truthText.field_inj " solver=" rfl hsalt
  have hsalt := List.append_cancel_left (List.append_cancel_left hsalt)
  obtain ⟨hradius, hsalt⟩ := hasPlainTexts_toString.field_inj " candidates=" rfl hsalt
  obtain ⟨hmax, hsalt⟩ := hasPlainTexts_toString.field_inj " complexity=" rfl hsalt
  obtain ⟨hcomplexity, hsalt⟩ := hasPlainTexts_toString.field_inj " funcs=" rfl hsalt
  have hmem : ∀ (e : Engine σ) name, name ∈ e.names ↔ name ∈ e.funcs := fun e name => by
    rw [names, List.mem_mergeSort, List.mem_eraseDups]
  have hjoined : e.names = e'.names := intercalate_inj
    (fun name hn => hnames name ((hmem e name).mp hn))
    (fun name hn => hnames' name ((hmem e' name).mp hn)) (String.toList_injective hsalt)
  have hbounds : e.settings.bounded = e'.settings.bounded := congrArg₂ Bounds.mk hradius hmax
  exact ⟨hbound, hunsat, hfold, hbounds, hcomplexity, fun name => by rw [← hmem, ← hmem, hjoined]⟩

end Engine

end PathTree
