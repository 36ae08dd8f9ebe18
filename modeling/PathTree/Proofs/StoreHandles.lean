import PathTree.Proofs.FileTrees
import PathTree.Store

/-!
# Several handles on one saved store

A directory's store is opened any number of times, and each handle has values of its own from then
on : a lookup that fails drops a value from the handle alone, and a handle that puts a value in or
drops all values saves what it has over what the others have saved. So values get lost and come
back.

What a handle has for a file is determined by what has happened (`Happening.held`) : the value that
it has put in last or else found when it was opened, unless a lookup of the file failed since. What
is saved is what the handle had that saved last (`Happening.saved`). `Handles.Sound` says that the
stores follow these two, and `Handles.value_served` is what comes of it.
-/

namespace PathTree

/-! ## What happens -/

/-- What has happened at a handle. -/
inductive Happening (ν : Type) where
  /-- The handle was opened, and these records were saved. -/
  | opened (handle : Nat) (records : Store.Records ν)
  | got (handle : Nat) (file : String) (key : UInt64) (result : Option ν)
  | put (handle : Nat) (now : Int) (file : String) (key : UInt64) (value : ν)
  | limited (handle : Nat) (maxAge : Int)
  | cleared (handle : Nat)

/-- What is asked for. -/
inductive StoreAction (ν : Type) where
  | reopen
  | get (handle : Nat) (now : Int) (file : String) (key : UInt64)
  | put (handle : Nat) (now : Int) (file : String) (key : UInt64) (value : ν)
  | limit (handle : Nat) (maxAge : Int)
  | clear (handle : Nat)

/-- The files, the handles on the store of a directory, and what has happened, the last of it
first. -/
structure Handles (ν : Type) where
  files : FileTree (Store.Records ν)
  stores : List (Store ν) := []
  past : List (Happening ν) := []

namespace Handles

variable {ν : Type}

/-- Something has happened at a handle, which now has another store. -/
def change (s : Handles ν) (i : Nat) (store : Store ν) (h : Happening ν) : Handles ν :=
  { s with stores := s.stores.set i store, past := h :: s.past }

/-- What comes of an action, if it does not fail. There is nothing to do for a handle that is not
open. -/
def act (dir : String) (s : Handles ν) : StoreAction ν → Except StoreFault (Handles ν)
  | .reopen => do
    let (store, files) ← Store.openAt s.files dir
    .ok ⟨files, s.stores ++ [store], .opened s.stores.length store.entries :: s.past⟩
  | .get i now file key =>
    match s.stores[i]? with
    | none => .ok s
    | some store =>
      .ok (s.change i (store.get? now file key).2 (.got i file key (store.get? now file key).1))
  | .put i now file key v =>
    match s.stores[i]? with
    | none => .ok s
    | some store => do
      let files ← (store.put now file key v).saveAt id s.files dir
      .ok ({ s with files }.change i (store.put now file key v) (.put i now file key v))
  | .limit i maxAge =>
    match s.stores[i]? with
    | none => .ok s
    | some store => .ok (s.change i { store with maxAge } (.limited i maxAge))
  | .clear i =>
    match s.stores[i]? with
    | none => .ok s
    | some store => do
      let files ← store.clear.saveAt id s.files dir
      .ok ({ s with files }.change i store.clear (.cleared i))

/-- What comes of actions, if none of them fails. -/
def run (dir : String) (s : Handles ν) (actions : List (StoreAction ν)) :
    Except StoreFault (Handles ν) :=
  actions.foldlM (act dir) s

end Handles

/-! ## What a handle has, and what is saved -/

namespace Happening

variable {ν : Type}

/-- The handle at which it happened. -/
def handle : Happening ν → Nat
  | .opened i _ | .got i _ _ _ | .put i _ _ _ _ | .limited i _ | .cleared i => i

/-- Whether it decides what its handle has for a file. A lookup does if it fails. -/
def decides (file : String) : Happening ν → Bool
  | .opened _ _ | .cleared _ => true
  | .got _ name _ result => name = file && result.isNone
  | .put _ _ name _ _ => name = file
  | .limited _ _ => false

/-- Whether it decides what a handle has for a file. -/
def touches (i : Nat) (file : String) (h : Happening ν) : Bool := h.handle = i && h.decides file

/-- What its handle has for a file, if it decides that. -/
def gives (file : String) : Happening ν → Option (Stored ν)
  | .opened _ records => records.get? file
  | .put _ now _ key v => some ⟨key, v, now⟩
  | .got _ _ _ _ | .limited _ _ | .cleared _ => none

/-- Whether the values of its handle were saved. -/
def saves : Happening ν → Bool
  | .put _ _ _ _ _ | .cleared _ => true
  | .opened _ _ | .got _ _ _ _ | .limited _ _ => false

/-- Whether a handle was given a value for a file. -/
def isPut (i : Nat) (file : String) : Happening ν → Bool
  | .put j _ name _ _ => j = i && name = file
  | _ => false

theorem isPut_of_touches {i : Nat} {file : String} {h : Happening ν}
    (hh : h.touches i file = false) : h.isPut i file = false := by
  cases h <;> simp_all [isPut, touches, handle, decides]

theorem isPut_of_handle {i : Nat} {file : String} {h : Happening ν} (hh : h.handle ≠ i) :
    h.isPut i file = false := by
  cases h <;> simp_all [isPut, handle]

/-- What a handle has for a file. -/
def held (i : Nat) (file : String) : List (Happening ν) → Option (Stored ν)
  | [] => none
  | h :: past => if h.touches i file then h.gives file else held i file past

/-- What is saved for a file. -/
def saved (file : String) : List (Happening ν) → Option (Stored ν)
  | [] => none
  | h :: past => if h.saves then held h.handle file (h :: past) else saved file past

theorem held_append {i : Nat} {file : String} {after past : List (Happening ν)}
    (h : ∀ x ∈ after, x.touches i file = false) :
    held i file (after ++ past) = held i file past := by
  induction after with
  | nil => rfl
  | cons x after ih =>
    obtain ⟨hx, hafter⟩ := List.forall_mem_cons.mp h
    simp [held, hx, ih hafter]

theorem saved_append {file : String} {after past : List (Happening ν)}
    (h : ∀ x ∈ after, x.saves = false) : saved file (after ++ past) = saved file past := by
  induction after with
  | nil => rfl
  | cons x after ih =>
    obtain ⟨hx, hafter⟩ := List.forall_mem_cons.mp h
    rw [List.cons_append, saved, if_neg (by simp [hx]), ih hafter]

/-- What a handle has comes from the last happening that decides it. -/
theorem exists_of_held {i : Nat} {file : String} {past : List (Happening ν)} {e : Stored ν}
    (h : held i file past = some e) :
    ∃ after x before, past = after ++ x :: before ∧ (∀ y ∈ after, y.touches i file = false) ∧
      x.touches i file ∧ x.gives file = some e := by
  induction past with
  | nil => cases h
  | cons x past ih =>
    unfold held at h
    split at h
    · next hx => exact ⟨[], x, past, rfl, by simp, hx, h⟩
    · next hx =>
      obtain ⟨after, y, before, rfl, hafter, hy⟩ := ih h
      exact ⟨x :: after, y, before, rfl, by simpa [hx] using hafter, hy⟩

/-- Records that were found on opening are those that were saved, and nothing has happened at a
handle before it was opened. -/
def Consistent (past : List (Happening ν)) : Prop :=
  ∀ after i records before, past = after ++ .opened i records :: before →
    (∀ file, records.get? file = saved file before) ∧ ∀ x ∈ before, x.handle ≠ i

theorem Consistent.cons {x : Happening ν} {past : List (Happening ν)} (h : Consistent past)
    (hx : ∀ i records, x = .opened i records →
      (∀ file, records.get? file = saved file past) ∧ ∀ y ∈ past, y.handle ≠ i) :
    Consistent (x :: past) := by
  intro after i records before hpast
  cases after with
  | nil =>
    obtain ⟨hx', rfl⟩ := List.cons.inj hpast
    exact hx i records hx'
  | cons y after =>
    obtain ⟨-, hpast⟩ := List.cons.inj hpast
    exact h after i records before hpast

theorem Consistent.tail {x : Happening ν} {past : List (Happening ν)} (h : Consistent (x :: past)) :
    Consistent past :=
  fun after i records before hpast => h (x :: after) i records before (by rw [hpast]; rfl)

/-- What a handle has and what is saved was put in for the file and the key. -/
theorem Consistent.exists_put {past : List (Happening ν)} (h : Consistent past) {file : String}
    {e : Stored ν} :
    (∀ i, held i file past = some e → ∃ j, .put j e.createdAt file e.key e.value ∈ past) ∧
      (saved file past = some e → ∃ j, .put j e.createdAt file e.key e.value ∈ past) := by
  induction past with
  | nil => exact ⟨nofun, nofun⟩
  | cons x past ih =>
    obtain ⟨ihHeld, ihSaved⟩ := ih h.tail
    have hheld : ∀ i, held i file (x :: past) = some e →
        ∃ j, .put j e.createdAt file e.key e.value ∈ x :: past := by
      intro i he
      unfold held at he
      split at he
      · next hx =>
        cases x with
        | opened k records =>
          have hsaved : records.get? file = saved file past := (h [] k records past rfl).1 file
          obtain ⟨j, hj⟩ := ihSaved (hsaved ▸ he)
          exact ⟨j, List.mem_cons_of_mem _ hj⟩
        | put k now name key v =>
          cases he
          simp only [touches, decides, Bool.and_eq_true, decide_eq_true_eq] at hx
          obtain ⟨-, rfl⟩ := hx
          exact ⟨k, List.mem_cons_self⟩
        | got k name key result => cases he
        | limited k maxAge => cases he
        | cleared k => cases he
      · obtain ⟨j, hj⟩ := ihHeld i he
        exact ⟨j, List.mem_cons_of_mem _ hj⟩
    refine ⟨hheld, fun he => ?_⟩
    unfold saved at he
    split at he
    · exact hheld _ he
    · obtain ⟨j, hj⟩ := ihSaved he
      exact ⟨j, List.mem_cons_of_mem _ hj⟩

end Happening

/-! ## Steps -/

namespace Store

variable {ν : Type} {s : Store ν} {files files' : FileTree (Records ν)} {dir : String}

/-- What a lookup leaves of a store : the file is dropped if nothing was given back. -/
theorem entries_get? (now : Int) (file : String) (key : UInt64) (other : String) :
    (s.get? now file key).2.entries.get? other =
      if file = other ∧ (s.get? now file key).1 = none then none else s.entries.get? other := by
  unfold get?
  split
  · next hnone =>
    split
    · next h => rw [← h.1, hnone]
    · rfl
  · split
    · simp
    · rw [Table.get?_remove]
      simp [eq_comm]

theorem serves_iff {now : Int} {key : UInt64} {e : Stored ν} :
    s.serves now key e ↔ e.key = key ∧ ¬ (0 < s.maxAge ∧ s.maxAge < now - e.createdAt) := by
  simp only [serves, Bool.and_eq_true, decide_eq_true_eq, Bool.not_eq_true', Bool.and_eq_false_iff,
    decide_eq_false_iff_not, Decidable.not_and_iff_or_not]

/-- What a lookup gives back. -/
theorem get?_eq_some_iff {now : Int} {file : String} {key : UInt64} {v : ν} :
    (s.get? now file key).1 = some v ↔
      ∃ e, s.entries.get? file = some e ∧ s.serves now key e ∧ e.value = v := by
  unfold get?
  split
  · next hnone => simp [hnone]
  · next e he =>
    by_cases hserves : s.serves now key e <;> simp [he, hserves]

/-- What was saved is found. -/
theorem find_of_saveAt (h : s.saveAt id files dir = .ok files') :
    files'.find (path dir) = .ok (FileTree.spotOf (path dir), .saved s.entries) := by
  have hrecords : s.entries.map (fun e => (e.1, { e.2 with value := id e.2.value })) = s.entries :=
    List.map_id _
  unfold saveAt at h
  rw [hrecords] at h
  exact FileTree.find_of_write (mapError_eq_ok.mp h)

end Store

namespace Handles

open Happening

variable {ν : Type} {dir : String} {s s' : Handles ν}

/-- The stores have what has happened. -/
structure Sound (dir : String) (s : Handles ν) : Prop where
  held : ∀ i store, s.stores[i]? = some store →
    ∀ file, store.entries.get? file = Happening.held i file s.past
  saved : (∃ records,
      s.files.find (Store.path dir) = .ok (FileTree.spotOf (Store.path dir), .saved records) ∧
        ∀ file, records.get? file = Happening.saved file s.past) ∨
    (∀ file, Happening.saved file s.past = none) ∧
      ∀ records, s.files.get? (FileTree.spotOf (Store.path dir)) ≠ some (.saved records)
  consistent : Consistent s.past
  handles : ∀ x ∈ s.past, x.handle < s.stores.length

theorem sound_of_empty {files : FileTree (Store.Records ν)}
    (h : files.get? (FileTree.spotOf (Store.path dir)) = none) : Sound dir { files } where
  held := by simp
  saved := Or.inr ⟨fun _ => rfl, by simp [h]⟩
  consistent := by simp [Consistent]
  handles := by simp

/-- What is opened is what was saved. -/
theorem Sound.get?_openAt (hs : s.Sound dir) {store : Store ν} {files : FileTree (Store.Records ν)}
    (h : Store.openAt s.files dir = .ok (store, files)) :
    s.files.DirsAdded files ∧
      ∀ file, store.entries.get? file = Happening.saved file s.past := by
  unfold Store.openAt at h
  split at h
  · cases h
  · next t ht =>
    have hadded := FileTree.dirsAdded_makeDirs ht
    split at h
    · next fault hfault =>
      split at h
      · cases h
        refine ⟨hadded, fun file => ?_⟩
        rcases hs.saved with ⟨records, hfind, -⟩ | ⟨hnone, -⟩
        · rw [FileTree.stat_eq_ok.mpr (hadded.extends.find hfind)] at hfault
          cases hfault
        · exact (hnone file).symm
      · cases h
    · next spot records hstat =>
      cases h
      refine ⟨hadded, fun file => ?_⟩
      have hfind := FileTree.stat_eq_ok.mp hstat
      rcases hs.saved with ⟨records', hfind', hsame⟩ | ⟨-, hnone⟩
      · rw [hadded.extends.find hfind'] at hfind
        cases hfind
        exact hsame file
      · obtain ⟨hspot, hget⟩ := FileTree.find_eq_ok.mp hfind
        obtain rfl := FileTree.eq_spotOf_of_locate hspot
        rcases hadded (FileTree.spotOf (Store.path dir)) with hsame | ⟨-, hdir⟩
        · exact absurd (hsame.symm.trans hget) (hnone records)
        · rw [hget] at hdir
          cases hdir
    · cases h

/-- A handle is opened with what was saved. -/
theorem Sound.openAt (hs : s.Sound dir) {store : Store ν} {files : FileTree (Store.Records ν)}
    (h : Store.openAt s.files dir = .ok (store, files)) :
    Sound dir ⟨files, s.stores ++ [store], .opened s.stores.length store.entries :: s.past⟩ := by
  obtain ⟨hadded, hentries⟩ := hs.get?_openAt h
  refine ⟨?_, ?_, ?_, ?_⟩
  · intro i store' hi file
    by_cases hlt : i < s.stores.length
    · rw [List.getElem?_append_left hlt] at hi
      simp [hs.held i store' hi, Happening.held, touches, handle, Nat.ne_of_gt hlt]
    · rw [List.getElem?_append_right (Nat.le_of_not_lt hlt)] at hi
      obtain ⟨hzero, -⟩ := List.getElem?_eq_some_iff.mp hi
      have hlast : i = s.stores.length := by
        rw [List.length_singleton] at hzero
        omega
      subst hlast
      cases List.mem_singleton.mp (List.mem_of_getElem? hi)
      simp [Happening.held, touches, handle, decides, gives]
  · have hsame : ∀ file, Happening.saved file (.opened s.stores.length store.entries :: s.past) =
        Happening.saved file s.past := fun _ => rfl
    simp only [hsame]
    rcases hs.saved with ⟨records, hfind, hrecords⟩ | ⟨hnone, hget⟩
    · exact Or.inl ⟨records, hadded.extends.find hfind, hrecords⟩
    · refine Or.inr ⟨hnone, fun records hrecords => ?_⟩
      rcases hadded (FileTree.spotOf (Store.path dir)) with hsame | ⟨-, hdir⟩
      · exact hget records (hsame.symm.trans hrecords)
      · rw [hrecords] at hdir
        cases hdir
  · refine hs.consistent.cons ?_
    rintro i records ⟨⟩
    exact ⟨hentries, fun x hx => Nat.ne_of_lt (hs.handles x hx)⟩
  · intro x hx
    rw [List.length_append]
    rcases List.mem_cons.mp hx with rfl | hx
    · simp [handle]
    · exact Nat.lt_add_right _ (hs.handles x hx)

@[simp] theorem stores_change (s : Handles ν) (i : Nat) (store : Store ν) (x : Happening ν) :
    (s.change i store x).stores = s.stores.set i store := rfl

@[simp] theorem past_change (s : Handles ν) (i : Nat) (store : Store ν) (x : Happening ν) :
    (s.change i store x).past = x :: s.past := rfl

@[simp] theorem files_change (s : Handles ν) (i : Nat) (store : Store ν) (x : Happening ν) :
    (s.change i store x).files = s.files := rfl

/-- Something happens at a handle that is open. -/
theorem Sound.of_change (hs : s.Sound dir) {i : Nat} {store store' : Store ν}
    (hi : s.stores[i]? = some store) {x : Happening ν} (hx : x.handle = i)
    (hopen : ∀ j records, x ≠ .opened j records)
    (hstore : ∀ file, store'.entries.get? file =
      if x.decides file then x.gives file else store.entries.get? file)
    {files : FileTree (Store.Records ν)}
    (hfiles : if x.saves then
        files.find (Store.path dir) = .ok (FileTree.spotOf (Store.path dir), .saved store'.entries)
      else files = s.files) :
    Sound dir ({ s with files }.change i store' x) := by
  obtain ⟨hlt, -⟩ := List.getElem?_eq_some_iff.mp hi
  have hheld : ∀ file, store'.entries.get? file = Happening.held i file (x :: s.past) := by
    intro file
    rw [hstore, Happening.held, touches, hx, hs.held i store hi]
    simp
  refine ⟨?_, ?_, ?_, ?_⟩
  · intro j store'' hj file
    rw [past_change]
    rw [stores_change] at hj
    by_cases hij : i = j
    · subst hij
      rw [List.getElem?_set_self hlt] at hj
      cases hj
      exact hheld file
    · rw [List.getElem?_set_ne hij] at hj
      rw [hs.held j store'' hj, Happening.held, touches, hx]
      simp [hij]
  · simp only [past_change, files_change]
    by_cases hsaves : x.saves
    · rw [if_pos hsaves] at hfiles
      refine Or.inl ⟨store'.entries, hfiles, fun file => ?_⟩
      rw [hheld, Happening.saved, if_pos hsaves, hx]
    · rw [if_neg hsaves] at hfiles
      subst hfiles
      have hsame : ∀ file, Happening.saved file (x :: s.past) = Happening.saved file s.past :=
        fun file => by rw [Happening.saved, if_neg hsaves]
      simpa only [hsame] using hs.saved
  · exact hs.consistent.cons fun j records hx => absurd hx (hopen j records)
  · intro y hy
    rw [stores_change, List.length_set]
    rcases List.mem_cons.mp hy with rfl | hy
    · exact hx ▸ hlt
    · exact hs.handles y hy

theorem Sound.act (hs : s.Sound dir) {a : StoreAction ν} (h : s.act dir a = .ok s') :
    s'.Sound dir := by
  cases a with
  | reopen =>
    obtain ⟨⟨store, files⟩, hopen, h⟩ := bind_eq_ok.mp h
    cases h
    exact hs.openAt hopen
  | get i now file key =>
    simp only [Handles.act] at h
    split at h
    · cases h
      exact hs
    · next store hi =>
      cases h
      refine hs.of_change hi rfl (by simp) (fun other => ?_) rfl
      simp [Store.entries_get?, decides, gives]
  | put i now file key v =>
    simp only [Handles.act] at h
    split at h
    · cases h
      exact hs
    · next store hi =>
      obtain ⟨files, hsave, h⟩ := bind_eq_ok.mp h
      cases h
      refine hs.of_change hi rfl (by simp) (fun other => ?_) (Store.find_of_saveAt hsave)
      simp [Store.put, Table.get?_put, decides, gives, eq_comm]
  | limit i maxAge =>
    simp only [Handles.act] at h
    split at h
    · cases h
      exact hs
    · next store hi =>
      cases h
      exact hs.of_change hi rfl (by simp) (fun other => rfl) rfl
  | clear i =>
    simp only [Handles.act] at h
    split at h
    · cases h
      exact hs
    · next store hi =>
      obtain ⟨files, hsave, h⟩ := bind_eq_ok.mp h
      cases h
      exact hs.of_change hi rfl (by simp) (fun other => rfl) (Store.find_of_saveAt hsave)

theorem Sound.run (hs : s.Sound dir) {actions : List (StoreAction ν)}
    (h : s.run dir actions = .ok s') : s'.Sound dir := by
  induction actions generalizing s with
  | nil =>
    cases h
    exact hs
  | cons a actions ih =>
    rw [Handles.run, List.foldlM_cons] at h
    obtain ⟨s₁, h₁, h⟩ := bind_eq_ok.mp h
    exact ih (hs.act h₁) h

/-- What is given back to lookups, for any handles on one directory in which no store is saved at
first, and any actions none of which fails. A value that a lookup gives back was put in by some
handle for the file and the key. It is the one that the handle itself has put in last for the file,
or, if it has put none in, the one that it found when it was opened, and since then it was not
cleared and no lookup of the file failed on it. A value that was put in is found by a handle that is
opened before anything else is saved, for as long as the handle is not cleared, puts nothing in for
the file and no lookup of the file fails on it ; a lookup of the file with the key gives it back
exactly if it is not too old for the handle. -/
theorem value_served {files : FileTree (Store.Records ν)}
    (hempty : files.get? (FileTree.spotOf (Store.path dir)) = none)
    {actions : List (StoreAction ν)} (hrun : run dir { files } actions = .ok s) :
    (∀ i store, s.stores[i]? = some store → ∀ now file key v,
      (store.get? now file key).1 = some v →
        (∃ j t, .put j t file key v ∈ s.past) ∧
          ∃ after x before, s.past = after ++ x :: before ∧
            (∀ y ∈ after, y.touches i file = false) ∧
            ((∃ t, x = .put i t file key v) ∨
              (∃ records t, x = .opened i records ∧ records.get? file = some ⟨key, v, t⟩) ∧
                ∀ y ∈ s.past, y.isPut i file = false)) ∧
      ∀ after i records mid j t file key v before,
        s.past = after ++ .opened i records :: (mid ++ .put j t file key v :: before) →
        (∀ y ∈ mid, y.saves = false) → (∀ y ∈ after, y.touches i file = false) →
        ∀ store, s.stores[i]? = some store → ∀ now,
          (store.get? now file key).1 = some v ↔
            ¬ (0 < store.maxAge ∧ store.maxAge < now - t) := by
  have hs : s.Sound dir := (sound_of_empty hempty).run hrun
  refine ⟨?_, ?_⟩
  · intro i store hi now file key v hv
    obtain ⟨⟨key', v', t⟩, he, hserves, rfl⟩ := Store.get?_eq_some_iff.mp hv
    obtain ⟨rfl, -⟩ := Store.serves_iff.mp hserves
    rw [hs.held i store hi] at he
    obtain ⟨j, hj⟩ := hs.consistent.exists_put.1 i he
    refine ⟨⟨j, t, hj⟩, ?_⟩
    obtain ⟨after, x, before, hpast, hafter, hx, hgives⟩ := exists_of_held he
    refine ⟨after, x, before, hpast, hafter, ?_⟩
    simp only [touches, Bool.and_eq_true, decide_eq_true_eq] at hx
    obtain ⟨rfl, hdecides⟩ := hx
    cases x with
    | put k t' name key v =>
      cases hgives
      obtain rfl : name = file := by simpa [decides] using hdecides
      exact Or.inl ⟨t, rfl⟩
    | opened k records =>
      refine Or.inr ⟨⟨records, t, rfl, hgives⟩, fun y hy => ?_⟩
      -- The handle was not there before, and it was left alone since.
      rw [hpast] at hy
      rcases List.mem_append.mp hy with hy | hy
      · exact isPut_of_touches (hafter y hy)
      · rcases List.mem_cons.mp hy with rfl | hy
        · rfl
        · exact isPut_of_handle ((hs.consistent after k records before hpast).2 y hy)
    | got k name key result => cases hgives
    | limited k maxAge => cases hgives
    | cleared k => cases hgives
  · intro after i records mid j t file key v before hpast hmid hafter store hi now
    have hrecords := (hs.consistent after i records _ hpast).1 file
    have hsaved : Happening.saved file (mid ++ .put j t file key v :: before) =
        some ⟨key, v, t⟩ := by
      rw [saved_append hmid]
      simp [Happening.saved, Happening.held, saves, touches, decides, handle, gives]
    have hheld : store.entries.get? file = some ⟨key, v, t⟩ := by
      rw [hs.held i store hi, hpast, held_append hafter, ← hsaved, ← hrecords]
      simp [Happening.held, touches, decides, handle, gives]
    simp [Store.get?_eq_some_iff, Store.serves_iff, hheld]

/-- One handle puts a value in, and another one, which is opened then, finds it. A third one was
opened before, and saves what it has. So the value is lost for those that are opened later, and the
first handle drops it at a lookup with another key. -/
def lostAndFound : List (StoreAction String) :=
  [.reopen, .reopen, .put 0 10 "a.go" 1 "v", .reopen, .put 1 11 "b.go" 2 "w", .get 0 12 "a.go" 9,
    .limit 2 50]

/-- What comes of `lostAndFound`. -/
def lostAndFoundEnd : Handles String where
  files := ⟨[(["c", "tpath_cache.gob"], .saved [("b.go", ⟨2, "w", 11⟩)]), (["c"], .dir)]⟩
  stores := [{}, { entries := [("b.go", ⟨2, "w", 11⟩)] },
    { entries := [("a.go", ⟨1, "v", 10⟩)], maxAge := 50 }]
  past := [.limited 2 50, .got 0 "a.go" 9 none, .put 1 11 "b.go" 2 "w",
    .opened 2 [("a.go", ⟨1, "v", 10⟩)], .put 0 10 "a.go" 1 "v", .opened 1 [], .opened 0 []]

theorem value_served_lostAndFound :
    run "c" { files := {} } lostAndFound = .ok lostAndFoundEnd ∧
      lostAndFoundEnd.stores.map (fun store => (store.get? 13 "a.go" 1).1) =
        [none, none, some "v"] ∧
      ∀ now, (Store.get? { entries := [("a.go", ⟨1, "v", 10⟩)], maxAge := 50 } now "a.go" 1).1 =
        some "v" ↔ ¬ ((0 : Int) < 50 ∧ 50 < now - 10) := by
  have hrun : run "c" { files := {} } lostAndFound = .ok lostAndFoundEnd := rfl
  have hempty : ({} : FileTree (Store.Records String)).get?
      (FileTree.spotOf (Store.path "c")) = none := rfl
  refine ⟨hrun, rfl, fun now => ?_⟩
  exact (value_served hempty hrun).2
    [.limited 2 50, .got 0 "a.go" 9 none, .put 1 11 "b.go" 2 "w"] 2 _ [] 0 10 "a.go" 1 "v" _ rfl
    (by simp) (by simp [touches, handle, decides]) _ rfl now

/-- A handle that is opened right behind a value that was put in does not give it back, if it is
told to take it for too old. -/
theorem too_old_when_opened :
    ∃ s, run "c" { files := {} } [.reopen, .put 0 10 "a.go" 1 "v", .reopen, .limit 1 1] = .ok s ∧
      s.past = [.limited 1 1, .opened 1 [("a.go", ⟨1, "v", 10⟩)], .put 0 10 "a.go" 1 "v",
        .opened 0 []] ∧
      s.stores.map (fun store => (store.get? 12 "a.go" 1).1) = [some "v", none] :=
  ⟨_, rfl, rfl, rfl⟩

end Handles

end PathTree
