/-!
# Tables

Finite maps from names to values, as lists of entries with at most one entry for a name that was
put in by `put`. The order of the entries is never shown: `names` is sorted.
-/

namespace PathTree

/-- A finite map from names to values. -/
abbrev Table (α : Type) := List (String × α)

namespace Table

variable {α : Type}

/-- The value of a name. -/
def get? (t : Table α) (name : String) : Option α := List.lookup name t

/-- Whether a name has a value. -/
def has (t : Table α) (name : String) : Bool := (t.get? name).isSome

/-- Gives a name a value in place of the one it may have. -/
def put (t : Table α) (name : String) (value : α) : Table α :=
  (name, value) :: t.filter (fun entry => entry.1 != name)

/-- Removes a name. -/
def remove (t : Table α) (name : String) : Table α :=
  t.filter (fun entry => entry.1 != name)

/-- Puts a list of entries in, one after the other. -/
def putAll (t : Table α) (entries : List (String × α)) : Table α :=
  entries.foldl (fun t entry => t.put entry.1 entry.2) t

/-- Whether a name comes before another or is the same. -/
def nameLe (a b : String) : Bool := !(b < a)

/-- The names that have values, sorted. -/
def names (t : Table α) : List String := (t.map (·.1)).mergeSort nameLe

/-- A name has the value that was put in last. -/
@[simp] theorem get?_put_self (t : Table α) (name : String) (value : α) :
    (t.put name value).get? name = some value := by
  simp [get?, put]

/-- Removing a name leaves the values of the others. -/
theorem lookup_filter_ne (t : Table α) {name other : String} (h : other ≠ name) :
    List.lookup other (t.filter (fun entry => entry.1 != name)) = List.lookup other t := by
  induction t with
  | nil => rfl
  | cons entry rest ih =>
    obtain ⟨key, value⟩ := entry
    by_cases hk : key = name
    · subst hk
      have hb : (other == key) = false := by simpa using h
      simp [List.lookup_cons, hb, ih]
    · simp [hk, List.lookup_cons, ih]

/-- Putting a value in for one name leaves the others. -/
theorem get?_put_of_ne (t : Table α) {name other : String} (value : α) (h : other ≠ name) :
    (t.put name value).get? other = t.get? other := by
  have hb : (other == name) = false := by simpa using h
  simp [get?, put, List.lookup_cons, hb, lookup_filter_ne t h]

theorem get?_put (t : Table α) (name other : String) (v : α) :
    (t.put name v).get? other = if other = name then some v else t.get? other := by
  split
  · next h =>
    subst h
    exact get?_put_self t other v
  · next h => exact get?_put_of_ne t v h

theorem get?_remove (t : Table α) (name other : String) :
    (t.remove name).get? other = if other = name then none else t.get? other := by
  split
  · next h =>
    subst h
    simp only [get?, remove, List.lookup_eq_none_iff, List.mem_filter]
    rintro ⟨name, v⟩ ⟨-, hne⟩
    have hne : name ≠ other := by simpa using hne
    simpa using hne.symm
  · next h => exact lookup_filter_ne t h

/-- A name that has a value had it before, or it was put in. -/
theorem mem_of_get?_putAll {t : Table α} {entries : List (String × α)} {name : String} {v : α}
    (h : (t.putAll entries).get? name = some v) : t.get? name = some v ∨ (name, v) ∈ entries := by
  induction entries generalizing t with
  | nil => exact Or.inl h
  | cons e rest ih =>
    rcases ih (t := t.put e.1 e.2) h with h | h
    · by_cases hk : e.1 = name
      · rw [← hk, get?_put_self] at h
        cases h
        exact Or.inr (by simp [← hk])
      · exact Or.inl (by rwa [get?_put_of_ne t e.2 (Ne.symm hk)] at h)
    · exact Or.inr (List.mem_cons_of_mem _ h)

/-- A name that is put in has a value. -/
theorem exists_get?_putAll {t : Table α} {entries : List (String × α)} {name : String}
    (h : (∃ v, t.get? name = some v) ∨ ∃ e ∈ entries, e.1 = name) :
    ∃ v, (t.putAll entries).get? name = some v := by
  induction entries generalizing t with
  | nil => simpa [putAll] using h
  | cons e rest ih =>
    refine ih (t := t.put e.1 e.2) ?_
    by_cases hk : e.1 = name
    · exact Or.inl ⟨e.2, by rw [← hk, get?_put_self]⟩
    · rcases h with ⟨v, hv⟩ | ⟨e', he', hn⟩
      · exact Or.inl ⟨v, by rwa [get?_put_of_ne t e.2 (Ne.symm hk)]⟩
      · rcases List.mem_cons.mp he' with rfl | he'
        · exact absurd hn hk
        · exact Or.inr ⟨e', he', hn⟩

/-- If all entries of a name agree, the order in which they are put in does not matter. -/
theorem get?_putAll_of_forall {t : Table α} {entries : List (String × α)} {name : String} {v : α}
    (hv : ∀ e ∈ entries, e.1 = name → e.2 = v)
    (h : t.get? name = some v ∨ ∃ e ∈ entries, e.1 = name) :
    (t.putAll entries).get? name = some v := by
  induction entries generalizing t with
  | nil => simpa [putAll] using h
  | cons e rest ih =>
    have hrest : ∀ e' ∈ rest, e'.1 = name → e'.2 = v := fun e' he' =>
      hv e' (List.mem_cons_of_mem _ he')
    show (Table.putAll (t.put e.1 e.2) rest).get? name = some v
    by_cases hk : e.1 = name
    · refine ih hrest (Or.inl ?_)
      rw [← hk, get?_put_self, hv e (by simp) hk]
    · refine ih hrest ?_
      rw [get?_put_of_ne t e.2 (Ne.symm hk)]
      rcases h with h | ⟨e', he', hn⟩
      · exact Or.inl h
      · rcases List.mem_cons.mp he' with rfl | he'
        · exact absurd hn hk
        · exact Or.inr ⟨e', he', hn⟩

end Table

end PathTree
