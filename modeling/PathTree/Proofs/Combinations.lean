import Mathlib.Data.List.Nodup
import PathTree.Solver.Bounded

/-!
# Combinations in the order of an odometer

The wheels of a bounded search run through all combinations of candidates, the first place changing
fastest (`combinations`, `remaining_start`, `remaining_eq_cons`). A search that ends without a fault
gives the first combination that is good among as many as its budget allows
(`tryCombinations_eq_find?`).

`exists_earlier` compares two such lists : if each of the leading places has fewer candidates, in the
same order, a combination of those that are left does not come later than before. So leaving out
candidates and places moves no combination beyond a budget.
-/

namespace PathTree

variable {α : Type}

/-- All combinations of one candidate for each place, the first place changing fastest. -/
def combinations : List (List α) → List (List α)
  | [] => [[]]
  | d :: ds => (combinations ds).flatMap fun rest => d.map (· :: rest)

/-! ## What the wheels show -/

namespace Wheel

/-- Every place has candidates, and shows one of them. -/
def Live (wheels : List (Wheel α)) : Prop := ∀ w ∈ wheels, w.all ≠ [] ∧ w.ahead ≠ []

/-- The combinations that wheels show from now on. -/
def remaining : List (Wheel α) → List (List α)
  | [] => [[]]
  | w :: rest =>
    w.ahead.map (· :: shown rest) ++ (remaining rest).tail.flatMap fun c => w.all.map (· :: c)

theorem live_cons {w : Wheel α} {rest : List (Wheel α)} :
    Live (w :: rest) ↔ (w.all ≠ [] ∧ w.ahead ≠ []) ∧ Live rest := List.forall_mem_cons

theorem live_start {ds : List (List α)} (h : ∀ d ∈ ds, d ≠ []) : Live (ds.map start) := by
  intro w hw
  obtain ⟨d, hd, rfl⟩ := List.mem_map.mp hw
  exact ⟨h d hd, h d hd⟩

/-- What is shown now comes first. -/
theorem remaining_eq_shown_cons {wheels : List (Wheel α)} (h : Live wheels) :
    remaining wheels = shown wheels :: (remaining wheels).tail := by
  cases wheels with
  | nil => rfl
  | cons w rest =>
    obtain ⟨a, more, ha⟩ := List.exists_cons_of_ne_nil (live_cons.mp h).1.2
    simp [remaining, shown, ha]

theorem remaining_start {ds : List (List α)} (h : ∀ d ∈ ds, d ≠ []) :
    remaining (ds.map start) = combinations ds := by
  induction ds with
  | nil => rfl
  | cons d ds ih =>
    have hds : ∀ d ∈ ds, d ≠ [] := (List.forall_mem_cons.mp h).2
    have hfirst := remaining_eq_shown_cons (live_start hds)
    rw [ih hds] at hfirst
    rw [combinations, hfirst, List.map_cons, remaining, ih hds]
    rfl

/-- The wheels after a turn have candidates and show some. -/
theorem Live.turn {wheels wheels' : List (Wheel α)} (h : Live wheels)
    (ht : turn wheels = some wheels') : Live wheels' := by
  induction wheels generalizing wheels' with
  | nil => cases ht
  | cons w rest ih =>
    obtain ⟨⟨hall, -⟩, hrest⟩ := live_cons.mp h
    rw [Wheel.turn] at ht
    split at ht
    · obtain ⟨rest', hr, rfl⟩ := Option.map_eq_some_iff.mp ht
      exact live_cons.mpr ⟨⟨hall, hall⟩, ih hrest hr⟩
    · next hne =>
      cases ht
      exact live_cons.mpr ⟨⟨hall, hne⟩, hrest⟩

/-- Wheels show a combination and then, if they turn, what they show after the turn. -/
theorem remaining_eq_cons {wheels : List (Wheel α)} (h : Live wheels) :
    remaining wheels = shown wheels :: ((turn wheels).map remaining).getD [] := by
  induction wheels with
  | nil => rfl
  | cons w rest ih =>
    obtain ⟨⟨hall, hahead⟩, hrest⟩ := live_cons.mp h
    obtain ⟨a, more, ha⟩ := List.exists_cons_of_ne_nil hahead
    have hshown : shown (w :: rest) = a :: shown rest := by simp [shown, ha]
    rw [hshown, remaining, turn, ha]
    cases more with
    | nil =>
      have htail : (remaining rest).tail = ((turn rest).map remaining).getD [] := by
        rw [ih hrest]
        rfl
      rw [htail]
      cases ht : turn rest with
      | none => simp
      | some rest' =>
        -- The first wheel starts again in front of what the others show now.
        have hfirst := remaining_eq_shown_cons (hrest.turn ht)
        simp only [List.drop_one, List.tail_cons, Option.map_some, Option.getD_some, remaining,
          start, List.map_cons, List.map_nil, List.cons_append, List.nil_append]
        conv_lhs => rw [hfirst]
        rfl
    | cons b more => simp [remaining]

end Wheel

/-! ## The search -/

/-- A search that ends without a fault gives the first good combination within its budget. -/
theorem find?_of_tryCombinations {good : List α → Except Fault Bool} {budget tried : Nat}
    {wheels : List (Wheel α)} (hw : Wheel.Live wheels) {p : Patience} {found : Option (List α)}
    (h : (tryCombinations good budget tried wheels p).1 = .ok found) :
    ((Wheel.remaining wheels).take budget).find? (fun c => (good c).toOption == some true) =
      found := by
  fun_induction tryCombinations good budget tried wheels p with
  | case1 =>
    cases h
    rfl
  | case2 => cases h
  | case3 => cases h
  | case4 budget tried wheels p p₁ _ hgood hask =>
    cases h
    rw [Wheel.remaining_eq_cons hw]
    simp [hgood, Except.toOption]
  | case5 budget tried wheels p p₁ _ hgood hturn hask =>
    cases h
    rw [Wheel.remaining_eq_cons hw, hturn]
    simp [hgood, Except.toOption]
  | case6 budget tried wheels p p₁ _ hgood wheels' hturn hask ih =>
    rw [Wheel.remaining_eq_cons hw, hturn, ← ih (hw.turn hturn) h]
    simp [hgood, Except.toOption]

theorem tryCombinations_eq_find? {good : List α → Except Fault Bool} {budget tried : Nat}
    {ds : List (List α)} (hds : ∀ d ∈ ds, d ≠ []) {p : Patience} {found : Option (List α)}
    (h : (tryCombinations good budget tried (ds.map Wheel.start) p).1 = .ok found) :
    found = ((combinations ds).take budget).find? fun c => (good c).toOption == some true := by
  rw [← find?_of_tryCombinations (Wheel.live_start hds) h, Wheel.remaining_start hds]

/-! ## Places of combinations -/

theorem length_of_mem_combinations {ds : List (List α)} {c : List α} (h : c ∈ combinations ds) :
    c.length = ds.length := by
  induction ds generalizing c with
  | nil => simp_all [combinations]
  | cons d ds ih =>
    obtain ⟨rest, hrest, hc⟩ := List.mem_flatMap.mp h
    obtain ⟨a, -, rfl⟩ := List.mem_map.mp hc
    simp [ih hrest]

/-- Each place of a combination has one of its candidates. -/
theorem getElem?_of_mem_combinations {ds : List (List α)} {values : List α}
    (h : values ∈ combinations ds)
    {j : Nat} {d : List α} {a : α} (hd : ds[j]? = some d) (ha : values[j]? = some a) :
    a ∈ d := by
  induction ds generalizing values j with
  | nil => simp at hd
  | cons d₀ ds ih =>
    obtain ⟨rest, hrest, hvalues⟩ := List.mem_flatMap.mp h
    obtain ⟨a₀, ha₀, rfl⟩ := List.mem_map.mp hvalues
    cases j with
    | zero =>
      cases hd
      cases ha
      exact ha₀
    | succ j => exact ih hrest hd ha

/-- The candidates of a combination stand at the remainder and the quotient of its place. -/
theorem getElem?_flatMap_cons (d : List α) (hd : d ≠ []) (cs : List (List α)) (k : Nat) :
    (cs.flatMap fun rest => d.map (· :: rest))[k]? =
      cs[k / d.length]?.bind fun rest => d[k % d.length]?.map (· :: rest) := by
  have hpos : 0 < d.length := List.length_pos_iff.mpr hd
  induction cs generalizing k with
  | nil => simp
  | cons c cs ih =>
    rw [List.flatMap_cons]
    by_cases hk : k < d.length
    · rw [List.getElem?_append_left (by simpa using hk), Nat.div_eq_of_lt hk, Nat.mod_eq_of_lt hk]
      simp
    · have hle : d.length ≤ k := Nat.le_of_not_lt hk
      rw [List.getElem?_append_right (by simpa using hle), List.length_map, ih,
        Nat.div_eq_sub_div hpos hle, Nat.mod_eq_sub_mod hle]
      simp

/-- A combination starts with a candidate for the first place, at a place that the other candidates
and it determine. -/
theorem getElem?_combinations_cons {d : List α} {ds : List (List α)} {k : Nat} {c : List α}
    (hd : d ≠ []) : (combinations (d :: ds))[k]? = some c ↔
      ∃ a rest, c = a :: rest ∧ d[k % d.length]? = some a ∧
        (combinations ds)[k / d.length]? = some rest := by
  rw [combinations, getElem?_flatMap_cons d hd, Option.bind_eq_some_iff]
  constructor
  · rintro ⟨rest, hrest, h⟩
    obtain ⟨a, ha, rfl⟩ := Option.map_eq_some_iff.mp h
    exact ⟨a, rest, rfl, ha, hrest⟩
  · rintro ⟨a, rest, rfl, ha, hrest⟩
    exact ⟨rest, hrest, by rw [ha]; rfl⟩

/-- Where candidates are left out, those that are left come no later. -/
theorem exists_getElem?_le_of_sublist {d' d : List α} (h : d'.Sublist d) (hd : d.Nodup) {a : α}
    (ha : a ∈ d') {i : Nat} (hi : d[i]? = some a) : ∃ i' ≤ i, d'[i']? = some a := by
  induction h generalizing i with
  | slnil => simp at ha
  | @cons d' d b hsub ih =>
    obtain ⟨hb, hd⟩ := List.nodup_cons.mp hd
    cases i with
    | zero =>
      cases hi
      exact absurd (hsub.subset ha) hb
    | succ i =>
      obtain ⟨i', hle, hi'⟩ := ih hd ha hi
      exact ⟨i', by omega, hi'⟩
  | @cons_cons d' d b hsub ih =>
    obtain ⟨hb, hd⟩ := List.nodup_cons.mp hd
    by_cases hab : a = b
    · exact ⟨0, by omega, by rw [hab]; rfl⟩
    · have ha' : a ∈ d' := (List.mem_cons.mp ha).resolve_left hab
      cases i with
      | zero =>
        cases hi
        exact absurd rfl hab
      | succ i =>
        obtain ⟨i', hle, hi'⟩ := ih hd ha' hi
        exact ⟨i' + 1, by omega, hi'⟩

/-- A combination whose leading candidates are left comes no later among those of the leading
places. -/
theorem exists_earlier {ds' ds : List (List α)} {values : List α} {k : Nat}
    (hk : (combinations ds)[k]? = some values)
    (h : ∀ (j : Nat) d', ds'[j]? = some d' → ∃ d a, ds[j]? = some d ∧
      values[j]? = some a ∧ d'.Sublist d ∧ d.Nodup ∧ a ∈ d') :
    ∃ k' ≤ k, (combinations ds')[k']? = some (values.take ds'.length) := by
  induction ds' generalizing ds values k with
  | nil => exact ⟨0, Nat.zero_le k, rfl⟩
  | cons d' ds' ih =>
    obtain ⟨d, a, hd, ha, hsub, hnodup, hmem⟩ := h 0 d' rfl
    cases ds with
    | nil => cases hd
    | cons d₀ ds =>
      obtain rfl : d₀ = d := by simpa using hd
      have hne' : d' ≠ [] := List.ne_nil_of_mem hmem
      have hne : d₀ ≠ [] := List.ne_nil_of_mem (hsub.subset hmem)
      obtain ⟨a₀, rest, rfl, ha₀, hrest⟩ := (getElem?_combinations_cons hne).mp hk
      obtain rfl : a₀ = a := by simpa using ha
      obtain ⟨i, hi, hai⟩ := exists_getElem?_le_of_sublist hsub hnodup hmem ha₀
      obtain ⟨j, hj, hrest'⟩ := ih hrest fun n e he => by simpa using h (n + 1) e (by simpa using he)
      have hlt : i < d'.length := (List.getElem?_eq_some_iff.mp hai).1
      refine ⟨d'.length * j + i, ?_, (getElem?_combinations_cons hne').mpr
        ⟨a₀, rest.take ds'.length, rfl, ?_, ?_⟩⟩
      · calc d'.length * j + i
            ≤ d₀.length * (k / d₀.length) + k % d₀.length :=
              Nat.add_le_add (Nat.mul_le_mul hsub.length_le hj) hi
          _ = k := Nat.div_add_mod k d₀.length
      · rw [Nat.mul_add_mod, Nat.mod_eq_of_lt hlt, hai]
      · rw [Nat.mul_add_div (Nat.zero_lt_of_lt hlt), Nat.div_eq_of_lt hlt, Nat.add_zero, hrest']

end PathTree
