import Mathlib.Data.List.Sort
import Mathlib.Data.List.Nodup
import PathTree.Proofs.Literals
import PathTree.Solver.Bounded

/-!
# Candidates of a bounded search

Candidates of one variable are distinct (`nodup_candidates`). Conditions that are added to a query
mention more integers and texts (`Mentioned.Grows`), and what is mentioned more only adds candidates
between those that there were : the integers are sorted by a total order, and texts are added behind
(`candidates_sublist`).
-/

namespace PathTree

/-! ## Integers -/

/-- Simpler is a smaller magnitude, or the same with a greater or the same integer. -/
theorem simplerInt_iff {a b : Int} : simplerInt a b = true ↔
    magnitude64 a < magnitude64 b ∨ magnitude64 a = magnitude64 b ∧ b ≤ a := by
  unfold simplerInt
  split
  · next h => simp [h]
  · next h => simp [h]

theorem simplerInt_trans (a b c : Int) (hab : simplerInt a b = true) (hbc : simplerInt b c = true) :
    simplerInt a c = true := by
  rw [simplerInt_iff] at *
  omega

theorem simplerInt_total (a b : Int) : (simplerInt a b || simplerInt b a) = true := by
  rw [Bool.or_eq_true, simplerInt_iff, simplerInt_iff]
  omega

instance : Std.Antisymm fun a b : Int => simplerInt a b = true where
  antisymm a b hab hba := by
    rw [simplerInt_iff] at hab hba
    omega

theorem nodup_eraseDups {α : Type} [BEq α] [LawfulBEq α] (l : List α) : l.eraseDups.Nodup := by
  match l with
  | [] => simp
  | a :: l =>
    rw [List.eraseDups_cons, List.nodup_cons]
    refine ⟨fun ha => ?_, nodup_eraseDups _⟩
    simp [List.mem_eraseDups] at ha
termination_by l.length
decreasing_by exact Nat.lt_succ_of_le (List.length_filter_le _ _)

theorem mem_around {r : Nat} {n : Int} : n ∈ around r ↔ -(r : Int) ≤ n ∧ n ≤ r := by
  unfold around
  rw [List.mem_map]
  constructor
  · rintro ⟨i, hi, rfl⟩
    rw [List.mem_range] at hi
    omega
  · intro h
    exact ⟨(n + r).toNat, by rw [List.mem_range]; omega, by omega⟩

theorem nodup_around (r : Nat) : (around r).Nodup := by
  refine List.Nodup.map (fun i j h => ?_) List.nodup_range
  have : (i : Int) - r = j - r := h
  omega

/-- An integer candidate is within the radius, or is next to one that is mentioned. -/
theorem mem_intCandidates {radius : Int} {ints : List Int} (hr : 0 ≤ radius) {n : Int} :
    n ∈ intCandidates radius ints ↔ (-radius ≤ n ∧ n ≤ radius) ∨ ∃ i ∈ ints, n ∈ neighbours i := by
  have haround : n ∈ around radius.toNat ↔ -radius ≤ n ∧ n ≤ radius := by
    rw [mem_around, Int.toNat_of_nonneg hr]
  unfold intCandidates
  simp only [List.mem_mergeSort, List.mem_append, haround, List.mem_eraseDups, List.mem_filter,
    List.mem_flatMap, Bool.or_eq_true, decide_eq_true_eq]
  constructor
  · rintro (h | ⟨h, -⟩)
    · exact Or.inl h
    · exact Or.inr h
  · rintro (h | h)
    · exact Or.inl h
    · by_cases hn : -radius ≤ n ∧ n ≤ radius
      · exact Or.inl hn
      · exact Or.inr ⟨h, by omega⟩

theorem nodup_intCandidates {radius : Int} (hr : 0 ≤ radius) (ints : List Int) :
    (intCandidates radius ints).Nodup := by
  refine List.Nodup.mergeSort (List.nodup_append.mpr
    ⟨nodup_around _, nodup_eraseDups _, fun a ha b hb hab => ?_⟩)
  rw [mem_around, Int.toNat_of_nonneg hr] at ha
  have hfar := (List.mem_filter.mp (List.mem_eraseDups.mp hb)).2
  simp only [Bool.or_eq_true, decide_eq_true_eq] at hfar
  omega

/-- Mentioning more integers only adds candidates between the others. -/
theorem intCandidates_sublist {radius : Int} (hr : 0 ≤ radius) {ints' ints : List Int}
    (h : ints' ⊆ ints) : (intCandidates radius ints').Sublist (intCandidates radius ints) := by
  have hsubset : intCandidates radius ints' ⊆ intCandidates radius ints := by
    intro n hn
    rw [mem_intCandidates hr] at hn ⊢
    exact hn.imp_right fun ⟨i, hi, hin⟩ => ⟨i, h hi, hin⟩
  have hsorted : ∀ l : List Int, (l.mergeSort simplerInt).Pairwise fun a b => simplerInt a b = true :=
    List.pairwise_mergeSort simplerInt_trans simplerInt_total
  exact List.sublist_of_subperm_of_pairwise
    (List.subperm_of_subset (nodup_intCandidates hr ints') hsubset) (hsorted _) (hsorted _)

/-! ## Texts -/

/-- Mentioning more texts behind the others adds candidates behind the others. -/
theorem textCandidates_grow {texts' texts : List Text.Bytes} (h : texts' <+: texts) :
    textCandidates texts' <+: textCandidates texts := by
  obtain ⟨more, rfl⟩ := h
  unfold textCandidates
  rw [List.flatMap_append, ← List.cons_append, List.eraseDups_append]
  exact List.prefix_append _ _

theorem quote_injective : Function.Injective Text.quote := by
  intro s t h
  have hs := Text.unquote?_quote s
  rw [h, Text.unquote?_quote t] at hs
  exact (Option.some.inj hs).symm

theorem ofInt_injective : Function.Injective Literal.ofInt := by
  intro m n h
  have hm := Literal.value_ofInt m
  rw [h, Literal.value_ofInt n] at hm
  injection hm with hm
  injection hm with hm
  exact hm.symm

/-! ## Candidates of a sort -/

variable {radius : Int} {m m' : Mentioned}

theorem candidates_ne_nil (hr : 0 ≤ radius) (m : Mentioned) (s : ValueSort) :
    candidates radius m s ≠ [] := by
  have hint : intCandidates radius m.ints ≠ [] :=
    List.ne_nil_of_mem (a := 0) ((mem_intCandidates hr).mpr (Or.inl (by omega)))
  have htext : textCandidates m.texts ≠ [] := by simp [textCandidates, List.eraseDups_cons]
  cases s <;> simp [candidates, hint, htext]

theorem nodup_candidates (hr : 0 ≤ radius) (m : Mentioned) (s : ValueSort) :
    (candidates radius m s).Nodup := by
  have hint : ((intCandidates radius m.ints).map Literal.ofInt).Nodup :=
    (nodup_intCandidates hr m.ints).map ofInt_injective
  cases s with
  | bool => simp [candidates, Literal.ofBool]
  | string =>
    have htext : (textCandidates m.texts).Nodup := nodup_eraseDups _
    refine htext.map fun s t h => quote_injective ?_
    injection h
  | int => exact hint
  | unknown => exact hint

/-- The kind of the candidates of a sort. -/
def ValueSort.kind : ValueSort → LitKind
  | .bool => .bool
  | .string => .string
  | _ => .int

theorem candidates_eq (radius : Int) (m : Mentioned) (s : ValueSort) :
    candidates radius m s =
      match s.kind with
      | .bool => [.ofBool false, .ofBool true]
      | .string => (textCandidates m.texts).map fun s => ⟨.string, Text.quote s⟩
      | _ => (intCandidates radius m.ints).map .ofInt := by
  cases s <;> rfl

theorem kind_of_mem_candidates {s : ValueSort} {l : Literal} (h : l ∈ candidates radius m s) :
    l.kind = s.kind := by
  cases s with
  | bool => rcases List.mem_pair.mp h with rfl | rfl <;> rfl
  | string =>
    obtain ⟨t, -, rfl⟩ := List.mem_map.mp h
    rfl
  | int | unknown =>
    obtain ⟨n, -, rfl⟩ := List.mem_map.mp h
    rfl

/-- The literals of one list of conditions are mentioned behind those of another. -/
def Mentioned.Grows (m' m : Mentioned) : Prop := m'.ints <+: m.ints ∧ m'.texts <+: m.texts

/-- What is mentioned more only adds candidates between the others, for two sorts that have a
candidate in common. -/
theorem candidates_sublist (hr : 0 ≤ radius) (hm : m'.Grows m) {s' s : ValueSort} {l : Literal}
    (h' : l ∈ candidates radius m' s') (h : l ∈ candidates radius m s) :
    (candidates radius m' s').Sublist (candidates radius m s) := by
  have hkind : s'.kind = s.kind :=
    (kind_of_mem_candidates h').symm.trans (kind_of_mem_candidates h)
  rw [candidates_eq, candidates_eq, hkind]
  split
  · exact List.Sublist.refl _
  · exact ((textCandidates_grow hm.2).map _).sublist
  · exact (intCandidates_sublist hr hm.1.subset).map _

/-! ## Mentioned literals -/

namespace Mentioned

theorem Grows.refl (m : Mentioned) : m.Grows m := ⟨List.prefix_rfl, List.prefix_rfl⟩

theorem Grows.trans {m₁ m₂ m₃ : Mentioned} (h : m₁.Grows m₂) (h' : m₂.Grows m₃) : m₁.Grows m₃ :=
  ⟨h.1.trans h'.1, h.2.trans h'.2⟩

theorem grows_of_add {l : Literal} (h : m'.add l = .ok m) : m'.Grows m := by
  unfold add at h
  split at h
  · cases h
    split
    · exact ⟨List.prefix_append _ _, List.prefix_rfl⟩
    · exact Grows.refl _
  · cases h
    exact ⟨List.prefix_rfl, List.prefix_append _ _⟩
  · cases h
    exact Grows.refl _
  · split at h
    · cases h
    · cases h
      exact Grows.refl _

theorem grows_of_foldlM {ls : List Literal} (h : ls.foldlM add m' = .ok m) : m'.Grows m := by
  induction ls generalizing m' with
  | nil =>
    cases h
    exact Grows.refl _
  | cons l ls ih =>
    rw [List.foldlM_cons] at h
    obtain ⟨m₁, hl, h⟩ := bind_eq_ok.mp h
    exact (grows_of_add hl).trans (ih h)

/-- Further conditions mention their literals behind the others. -/
theorem grows_of_ofConds {conds more : List Expr} (h' : ofConds conds = .ok m')
    (h : ofConds (conds ++ more) = .ok m) : m'.Grows m := by
  unfold ofConds at h h'
  rw [List.flatMap_append, List.foldlM_append] at h
  obtain ⟨m₁, h₁, h⟩ := bind_eq_ok.mp h
  obtain rfl : m₁ = m' := Except.ok.inj (h₁.symm.trans h')
  exact grows_of_foldlM h

end Mentioned

end PathTree
