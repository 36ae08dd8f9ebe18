import PathTree.Proofs.RunsInStep
import PathTree.Proofs.StoredResults

/-!
# Saved records

What is known of all records that are saved in a tree of files stays known while directories are
made and other records are saved (`FileTree.AllSaved`). So a store that is opened has nothing but
what was saved before (`Store.allSaved_openAt`), and a run leaves nothing in its store and in the
files but what was there and what it has worked out (`Workspace.AllStored.runSource`).
-/

namespace PathTree

theorem mem_of_lookup {α β : Type} [BEq α] [LawfulBEq α] {l : List (α × β)} {k : α} {b : β}
    (h : l.lookup k = some b) : (k, b) ∈ l := by
  obtain ⟨before, after, rfl, -⟩ := List.lookup_eq_some_iff.mp h
  simp

namespace FileTree

variable {β : Type} {t t' : FileTree β} {P : β → Prop}

/-- All records that are saved in a tree have a property. -/
def AllSaved (P : β → Prop) (t : FileTree β) : Prop :=
  ∀ spot records, (spot, .saved records) ∈ t.entries → P records

theorem AllSaved.mono {Q : β → Prop} (h : t.AllSaved P) (hPQ : ∀ records, P records → Q records) :
    t.AllSaved Q :=
  fun spot records hmem => hPQ records (h spot records hmem)

theorem AllSaved.put (h : t.AllSaved P) (spot : Spot) {e : FileEntry β}
    (he : ∀ records, e = .saved records → P records) : (t.put spot e).AllSaved P := by
  intro spot' records hmem
  rcases List.mem_cons.mp hmem with heq | hmem
  · exact he records (Prod.mk.inj heq).2.symm
  · exact h spot' records (List.mem_of_mem_filter hmem)

theorem AllSaved.makeDir (h : t.AllSaved P) {path : String} (ht : t.makeDir path = .ok t') :
    t'.AllSaved P := by
  unfold FileTree.makeDir at ht
  split at ht
  · cases ht
  · split at ht
    · cases ht
      exact h
    · cases ht
    · cases ht
      exact h.put _ nofun

theorem AllSaved.makeDirsWithin (h : t.AllSaved P) {steps : Nat} {path : String}
    (ht : t.makeDirsWithin steps path = .ok t') : t'.AllSaved P := by
  induction steps generalizing path t' with
  | zero => exact h.makeDir ht
  | succ steps ih =>
    unfold FileTree.makeDirsWithin at ht
    split at ht
    · cases ht
      exact h
    · cases ht
    · dsimp only at ht
      split at ht
      · exact h.makeDir ht
      · obtain ⟨t₁, h₁, ht⟩ := bind_eq_ok.mp ht
        exact (ih h₁).makeDir ht

theorem AllSaved.makeDirs (h : t.AllSaved P) {path : String} (ht : t.makeDirs path = .ok t') :
    t'.AllSaved P :=
  h.makeDirsWithin ht

theorem AllSaved.write (h : t.AllSaved P) {path : String} {records : β} (hrecords : P records)
    (ht : t.write path (.saved records) = .ok t') : t'.AllSaved P := by
  unfold FileTree.write at ht
  split at ht
  · cases ht
  · split at ht
    · cases ht
    · split at ht
      · cases ht
      · cases ht
        exact h.put _ fun records' heq => by cases heq; exact hrecords
    · cases ht
    · cases ht

/-- Records that a path leads to are saved in the tree. -/
theorem AllSaved.stat (h : t.AllSaved P) {action path : String} {spot : Spot} {records : β}
    (ht : t.stat action path = .ok (spot, .saved records)) : P records := by
  obtain ⟨spot', -, hget⟩ := bind_eq_ok.mp (mapError_eq_ok.mp ht)
  split at hget
  · next e he =>
    cases hget
    cases spot with
    | nil => cases he
    | cons name names => exact h _ records (mem_of_lookup he)
  · cases hget

end FileTree

/-! ## Stores -/

namespace Store

variable {ν : Type} {files files' : FileTree (Records ν)} {P : String → Stored ν → Prop}

/-- What is given back for a key was put in for it. -/
theorem exists_of_get? {s : Store ν} {now : Int} {file : String} {key : UInt64} {v : ν}
    (h : (s.get? now file key).1 = some v) :
    ∃ createdAt, (file, ⟨key, v, createdAt⟩) ∈ s.entries := by
  unfold get? at h
  split at h
  · cases h
  · next e he =>
    split at h
    · next hserves =>
      cases h
      have hkey : e.key = key := by
        simp only [serves, Bool.and_eq_true, decide_eq_true_eq] at hserves
        exact hserves.1
      exact ⟨e.createdAt, hkey ▸ mem_of_lookup he⟩
    · cases h

/-- A store has nothing but what was saved. -/
theorem allSaved_openAt {dir : String} {s : Store ν}
    (h : files.AllSaved fun records => ∀ r ∈ records, P r.1 r.2)
    (hs : openAt files dir = .ok (s, files')) :
    (∀ r ∈ s.entries, P r.1 r.2) ∧ files'.AllSaved fun records => ∀ r ∈ records, P r.1 r.2 := by
  unfold openAt at hs
  split at hs
  · cases hs
  · next t ht =>
    have hsaved := h.makeDirs ht
    split at hs
    · split at hs
      · cases hs
        exact ⟨nofun, hsaved⟩
      · cases hs
    · next spot records hstat =>
      cases hs
      exact ⟨hsaved.stat hstat, hsaved⟩
    · cases hs

/-- A store is saved with its values in another form. -/
theorem allSaved_saveAt {dir : String} {s : Store ν} {pack : ν → ν}
    (hpack : ∀ name r, P name r → P name { r with value := pack r.value })
    (h : files.AllSaved fun records => ∀ r ∈ records, P r.1 r.2)
    (hentries : ∀ r ∈ s.entries, P r.1 r.2) (hs : s.saveAt pack files dir = .ok files') :
    files'.AllSaved fun records => ∀ r ∈ records, P r.1 r.2 := by
  refine h.write ?_ (mapError_eq_ok.mp hs)
  intro r hr
  obtain ⟨entry, hentry, rfl⟩ := List.mem_map.mp hr
  exact hpack _ _ (hentries entry hentry)

end Store

/-! ## Workspaces -/

/-- A stored outcome is stored in the form that it has. -/
theorem FileOutcome.stored_stored (r : FileOutcome) : r.stored.stored = r.stored := by
  simp [stored, Function.comp_def, Option.filter_filter]

namespace Workspace

variable {σ : Type} {w : Workspace σ} {P : String → Stored FileOutcome → Prop}

/-- All outcomes that a workspace has have a property, those in its store and those in its files. -/
structure AllStored (P : String → Stored FileOutcome → Prop) (w : Workspace σ) : Prop where
  files : w.files.AllSaved fun records => ∀ r ∈ records, P r.1 r.2
  store : ∀ s ∈ w.store, ∀ r ∈ s.entries, P r.1 r.2

theorem AllStored.mono {Q : String → Stored FileOutcome → Prop} (h : w.AllStored P)
    (hPQ : ∀ name s, P name s → Q name s) : w.AllStored Q where
  files := FileTree.AllSaved.mono h.files fun _ hrecords s hs => hPQ _ _ (hrecords s hs)
  store s hs r hr := hPQ _ _ (h.store s hs r hr)

theorem AllStored.of_rest {w' : Workspace σ} (h : w.AllStored P) (hrest : w'.rest = w.rest) :
    w'.AllStored P := by
  have hfiles : w'.files = w.files := congrArg (·.1) hrest
  have hstore : w'.store = w.store := congrArg (·.2.1) hrest
  exact ⟨hfiles ▸ h.files, hstore ▸ h.store⟩

theorem AllStored.found (h : w.AllStored P) {filename : String} {key : UInt64} {r : FileOutcome}
    (hr : Engine.found filename key w.store w.now = some r) :
    ∃ createdAt, P filename ⟨key, r, createdAt⟩ := by
  obtain ⟨s, hs, hget⟩ := Option.bind_eq_some_iff.mp hr
  obtain ⟨createdAt, hmem⟩ := Store.exists_of_get? hget
  exact ⟨createdAt, h.store s hs _ hmem⟩

theorem AllStored.lookedUp (h : w.AllStored P) (filename : String) (key : UInt64) :
    (Engine.lookedUp filename key w).AllStored P := by
  refine ⟨h.files, fun s' hs' r hr => ?_⟩
  obtain ⟨s, hs, rfl⟩ := Option.map_eq_some_iff.mp hs'
  exact h.store s hs r (Store.sublist_get?.subset hr)

variable (hpack : ∀ name r, P name r → P name { r with value := r.value.stored })

include hpack

theorem AllStored.rememberIn (h : w.AllStored P) (e : Engine σ) {filename : String} {key : UInt64}
    {r : FileOutcome} (hr : P filename ⟨key, r, w.now⟩) :
    (e.rememberIn filename key r w).AllStored P := by
  unfold Engine.rememberIn Engine.remember
  rw [effect_get_bind]
  cases hstore : w.store with
  | none => exact h
  | some s =>
    have hentries : ∀ entry ∈ (s.put w.now filename key r).entries, P entry.1 entry.2 := by
      intro entry hentry
      rcases List.mem_cons.mp hentry with rfl | hentry
      · exact hr
      · exact h.store s hstore entry (List.mem_of_mem_filter hentry)
    dsimp only
    split
    · next files hfiles =>
      exact ⟨Store.allSaved_saveAt hpack h.files hentries hfiles, by rintro _ ⟨⟩; exact hentries⟩
    · exact ⟨h.files, by rintro _ ⟨⟩; exact hentries⟩

/-- A run stores nothing but what it works out. -/
theorem AllStored.runSource (h : w.AllStored P) (e : Engine σ) {filename src : String}
    (hwork : ∀ r w', effect (e.workOut filename src)
        (Engine.lookedUp filename (Store.keyOf src e.salt) w) = (r, w') →
      w'.rest = (Engine.lookedUp filename (Store.keyOf src e.salt) w).rest ∧
        ∀ out, r = .ok out → P filename ⟨Store.keyOf src e.salt, out, w'.now⟩) :
    (effect (e.runSource filename src) w).2.AllStored P := by
  have hlooked := h.lookedUp filename (Store.keyOf src e.salt)
  rw [Engine.effect_runSource]
  cases Engine.found filename (Store.keyOf src e.salt) w.store w.now with
  | some r => exact hlooked
  | none =>
    dsimp only
    rcases heffect : effect (e.workOut filename src)
      (Engine.lookedUp filename (Store.keyOf src e.salt) w) with ⟨f | r, w'⟩
    · exact hlooked.of_rest (hwork _ _ heffect).1
    · exact (hlooked.of_rest (hwork _ _ heffect).1).rememberIn hpack e
        ((hwork _ _ heffect).2 r rfl)

end Workspace

/-- An engine that is taken into use has nothing stored but what was saved. -/
theorem Engine.allStored_enter {σ : Type} {e : Engine σ} {state : σ} {patience : Patience}
    {files : Files} {w : Workspace σ} {P : String → Stored FileOutcome → Prop}
    (h : files.AllSaved fun records => ∀ r ∈ records, P r.1 r.2)
    (hw : e.enter state patience files = .ok w) : w.AllStored P := by
  unfold enter at hw
  split at hw
  · cases hw
    exact ⟨h, nofun⟩
  · obtain ⟨⟨s, files'⟩, hopen, hw⟩ := bind_eq_ok.mp hw
    cases hw
    obtain ⟨hentries, hfiles⟩ := Store.allSaved_openAt h (mapError_eq_ok.mp hopen)
    exact ⟨hfiles, by rintro _ ⟨⟩; exact hentries⟩

namespace Engine

variable {σ : Type} {e : Engine σ} {state : σ} {patience : Patience} {files files' : Files}
  {w : Workspace σ}

/-- An engine that is taken into use has the state that it is given. -/
theorem state_enter (hw : e.enter state patience files = .ok w) : w.state = state := by
  unfold enter at hw
  split at hw
  · cases hw
    rfl
  · obtain ⟨⟨s, files'⟩, -, hw⟩ := bind_eq_ok.mp hw
    cases hw
    rfl

theorem enter_of_openAt {s : Store FileOutcome} (hdir : e.settings.cacheDir ≠ "")
    (hopen : Store.openAt files e.settings.cacheDir = .ok (s, files')) :
    e.enter state patience files =
      .ok { patience, state, files := files', store := some s } := by
  unfold enter
  rw [if_neg hdir, hopen]
  rfl

/-- What is saved after an outcome was stored. -/
theorem files_rememberIn {filename : String} {key : UInt64} {r : FileOutcome}
    {s : Store FileOutcome} (hstore : w.store = some s)
    (hsave : (s.put w.now filename key r).saveAt FileOutcome.stored w.files e.settings.cacheDir =
      .ok files) : (e.rememberIn filename key r w).files = files := by
  unfold rememberIn remember
  rw [effect_get_bind, hstore]
  dsimp only
  rw [hsave]
  rfl

end Engine

end PathTree
