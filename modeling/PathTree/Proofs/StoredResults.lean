import PathTree.Engine.Basic
import PathTree.Proofs.Lockstep

/-!
# Runs with stored results

What a store gives back, and what a run does with it. A value that is not given back is dropped, and
it is not given back later either (`Store.get?_later`). A run looks its text up, and only works it
out and stores the outcome if nothing was found (`Engine.effect_runSource`).
-/

namespace PathTree

/-! ## Looking up -/

namespace Store

variable {ν : Type} {s : Store ν} {now now' : Int} {file : String} {key : UInt64} {v : ν}

theorem get?_of_fst_eq_some (h : (s.get? now file key).1 = some v) :
    (s.get? now file key).2 = s := by
  unfold get? at h ⊢
  split
  · rfl
  · next e he =>
    simp only [he] at h
    split at h
    · next hs => rw [if_pos hs]
    · cases h

/-- Looking a value up drops at most the one that was looked up. -/
theorem sublist_get? : (s.get? now file key).2.entries.Sublist s.entries := by
  unfold get?
  split
  · exact .refl _
  · split
    · exact .refl _
    · exact List.filter_sublist

/-- What is not given back is dropped, and so it is not given back later. -/
theorem get?_of_dropped (h : (s.get? now file key).1 = none) :
    ((s.get? now file key).2.get? now' file key).1 = none := by
  unfold get? at h
  cases he : s.entries.get? file with
  | none => simp [get?, he]
  | some e =>
    simp only [he] at h
    split at h
    · cases h
    · next hs =>
      have hgone : Table.get? (s.entries.remove file) file = none := by
        simp only [Table.get?, Table.remove, List.lookup_eq_none_iff, List.mem_filter]
        rintro ⟨name, e⟩ ⟨-, hne⟩
        have hne : name ≠ file := by simpa using hne
        simpa using hne.symm
      simp [get?, he, hs, hgone]

/-- What is not given back is not given back later. -/
theorem get?_later (h : (s.get? now file key).1 = none) (hnow : now ≤ now') :
    (s.get? now' file key).1 = none := by
  unfold get? at h ⊢
  cases he : s.entries.get? file with
  | none => rfl
  | some e =>
    simp only [he] at h ⊢
    split at h
    · cases h
    · next hs =>
      have hs' : s.serves now' key e = false := by
        simp only [serves, Bool.and_eq_true, decide_eq_true_eq, Bool.not_eq_true',
          Bool.and_eq_false_iff, decide_eq_false_iff_not, not_and_or] at hs ⊢
        rcases hs with hs | hs
        · exact Or.inl hs
        · right
          simp only [not_or, not_not, Bool.not_eq_false', Bool.and_eq_true,
            decide_eq_true_eq] at hs ⊢
          omega
      simp [hs']

/-- A value that was put in is given back for its key, as long as it is not too old. -/
theorem get?_put : ((s.put now file key v).get? now' file key).1 = some v ∨
    ((s.put now file key v).get? now' file key).1 = none := by
  unfold get? put
  simp only [Table.get?_put_self]
  split
  · exact Or.inl rfl
  · exact Or.inr rfl

end Store

/-! ## Runs -/

namespace Engine

variable {σ : Type}

/-- What is found for a text at a time. -/
def found (filename : String) (key : UInt64) (store : Option (Store FileOutcome)) (now : Int) :
    Option FileOutcome :=
  store.bind fun s => (s.get? now filename key).1

/-- A workspace after a text was looked up. -/
def lookedUp (filename : String) (key : UInt64) (w : Workspace σ) : Workspace σ :=
  { w with store := w.store.map fun s => (s.get? w.now filename key).2 }

/-- Stores an outcome in a workspace. -/
def rememberIn (e : Engine σ) (filename : String) (key : UInt64) (r : FileOutcome)
    (w : Workspace σ) : Workspace σ :=
  (effect (e.remember filename key r) w).2

theorem effect_lookUp (filename : String) (key : UInt64) (w : Workspace σ) :
    effect (lookUp filename key) w =
      (.ok (found filename key w.store w.now), lookedUp filename key w) := by
  unfold lookUp found lookedUp
  rw [effect_get_bind]
  cases hstore : w.store with
  | none =>
    have hsame : { w with store := none } = w := by rw [← hstore]
    exact congrArg (Prod.mk _) hsame.symm
  | some store => rfl

/-- Storing an outcome does not fail. -/
theorem effect_remember (e : Engine σ) (filename : String) (key : UInt64) (r : FileOutcome)
    (w : Workspace σ) :
    effect (e.remember filename key r) w = (.ok (), e.rememberIn filename key r w) := by
  have hok : (effect (e.remember filename key r) w).1 = .ok () := by
    unfold remember
    rw [effect_get_bind]
    cases w.store with
    | none => rfl
    | some store =>
      dsimp only
      split <;> rfl
  exact Prod.ext hok rfl

/-- After an outcome was stored, it is in the store, and nothing else was touched. -/
theorem rememberIn_eq (e : Engine σ) (filename : String) (key : UInt64) (r : FileOutcome)
    (w : Workspace σ) :
    (e.rememberIn filename key r w).store = w.store.map (·.put w.now filename key r) ∧
      (e.rememberIn filename key r w).state = w.state ∧
      (e.rememberIn filename key r w).now = w.now := by
  unfold rememberIn remember
  rw [effect_get_bind]
  cases hstore : w.store with
  | none => exact ⟨by simp [hstore, effect], rfl, rfl⟩
  | some store =>
    dsimp only
    split <;> exact ⟨rfl, rfl, rfl⟩

/-- A run gives back what it finds, or it works the text out and stores the outcome. -/
theorem effect_runSource (e : Engine σ) (filename src : String) (w : Workspace σ) :
    effect (e.runSource filename src) w =
      match found filename (Store.keyOf src e.salt) w.store w.now with
      | some r => (.ok r, lookedUp filename (Store.keyOf src e.salt) w)
      | none =>
        match effect (e.workOut filename src) (lookedUp filename (Store.keyOf src e.salt) w) with
        | (.error f, w') => (.error f, w')
        | (.ok r, w') => (.ok r, e.rememberIn filename (Store.keyOf src e.salt) r w') := by
  unfold runSource
  rw [effect_bind]
  simp only [effect_lookUp]
  cases found filename (Store.keyOf src e.salt) w.store w.now with
  | some r => rfl
  | none =>
    dsimp only
    rw [effect_bind]
    dsimp only
    rcases effect (e.workOut filename src) (lookedUp filename (Store.keyOf src e.salt) w) with
      ⟨f | r, w'⟩
    · rfl
    · dsimp only
      rw [effect_bind]
      simp only [effect_remember]
      rfl

theorem effect_runSource_of_error {e : Engine σ} {filename src : String} {w w' : Workspace σ}
    {f : RunFault} (hfound : found filename (Store.keyOf src e.salt) w.store w.now = none)
    (h : effect (e.workOut filename src) (lookedUp filename (Store.keyOf src e.salt) w) =
      (.error f, w')) : effect (e.runSource filename src) w = (.error f, w') := by
  rw [effect_runSource, hfound]
  simp only [h]

theorem effect_runSource_of_ok {e : Engine σ} {filename src : String} {w w' : Workspace σ}
    {r : FileOutcome} (hfound : found filename (Store.keyOf src e.salt) w.store w.now = none)
    (h : effect (e.workOut filename src) (lookedUp filename (Store.keyOf src e.salt) w) =
      (.ok r, w')) :
    effect (e.runSource filename src) w =
      (.ok r, e.rememberIn filename (Store.keyOf src e.salt) r w') := by
  rw [effect_runSource, hfound]
  simp only [h]

theorem effect_runSource_of_found {e : Engine σ} {filename src : String} {w : Workspace σ}
    {r : FileOutcome} (hfound : found filename (Store.keyOf src e.salt) w.store w.now = some r) :
    effect (e.runSource filename src) w =
      (.ok r, lookedUp filename (Store.keyOf src e.salt) w) := by
  rw [effect_runSource, hfound]

/-! ## Later runs -/

section Later

variable {filename : String} {key : UInt64} {store : Option (Store FileOutcome)} {now now' : Int}

/-- What was found leaves the store as it is. -/
theorem lookedUp_of_found {w : Workspace σ} {r : FileOutcome}
    (h : found filename key w.store w.now = some r) :
    (lookedUp filename key w).store = w.store := by
  unfold lookedUp
  cases hstore : w.store with
  | none => rfl
  | some s =>
    rw [hstore] at h
    exact congrArg some (Store.get?_of_fst_eq_some h)

theorem found_later (h : found filename key store now = none) (hnow : now ≤ now') :
    found filename key store now' = none := by
  cases store with
  | none => rfl
  | some s => exact Store.get?_later h hnow

theorem found_of_dropped {w : Workspace σ} (h : found filename key w.store w.now = none) :
    found filename key (lookedUp filename key w).store now' = none := by
  unfold lookedUp
  cases hstore : w.store with
  | none => rfl
  | some s =>
    rw [hstore] at h
    exact Store.get?_of_dropped h

/-- An outcome that was stored is found, unless it is too old. -/
theorem found_of_put (filename : String) (key : UInt64) (store : Option (Store FileOutcome))
    (now now' : Int) (r : FileOutcome) :
    found filename key (store.map (·.put now filename key r)) now' = some r ∨
      found filename key (store.map (·.put now filename key r)) now' = none := by
  cases store with
  | none => exact Or.inr rfl
  | some s => exact Store.get?_put

end Later

end Engine

end PathTree
