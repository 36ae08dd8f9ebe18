import PathTree.Files.Tree
import PathTree.Fault
import Mathlib.Data.List.Basic

/-!
# Files that are written

What a path leads to after files were written and directories were made. A file is written where no
directory is, so every directory stays one (`FileTree.DirsWithin`), and a path that has led to a
place still leads there. Directories are made where nothing is (`FileTree.DirsAdded`), so everything
stays in place (`FileTree.Extends`). A file that was written is found at its path
(`FileTree.find_of_write`).
-/

namespace PathTree.FileTree

variable {β : Type} {t t' t'' : FileTree β} {e : FileEntry β} {spot place : Spot} {path : String}

/-! ## Places -/

theorem get?_put_self (t : FileTree β) (h : spot ≠ []) (e : FileEntry β) :
    (t.put spot e).get? spot = some e := by
  cases spot with
  | nil => exact absurd rfl h
  | cons name names => simp [get?, put]

theorem get?_put_of_ne (t : FileTree β) (h : place ≠ spot) (e : FileEntry β) :
    (t.put spot e).get? place = t.get? place := by
  cases place with
  | nil => rfl
  | cons name names =>
    have hkeep : ∀ entries : List (Spot × FileEntry β),
        (entries.filter (·.1 != spot)).lookup (name :: names) = entries.lookup (name :: names) := by
      intro entries
      induction entries with
      | nil => rfl
      | cons entry entries ih =>
        obtain ⟨other, e'⟩ := entry
        by_cases hother : other = spot
        · have hne : ((name :: names) == other) = false := by simpa [hother] using h
          simp [hother, ← ih, List.lookup_cons, hother ▸ hne]
        · simp [hother, List.lookup_cons, ih]
    have hne : ((name :: names) == spot) = false := by simpa using h
    simp [get?, put, List.lookup_cons, hne, hkeep]

/-! ## Directories that stay -/

/-- Every directory of a tree is one of another tree. -/
def DirsWithin (t t' : FileTree β) : Prop :=
  ∀ place, t.get? place = some .dir → t'.get? place = some .dir

/-- Everything that is in a tree is in the same place of another tree. -/
def Extends (t t' : FileTree β) : Prop := ∀ place e, t.get? place = some e → t'.get? place = some e

theorem Extends.dirsWithin (h : t.Extends t') : t.DirsWithin t' := fun place => h place .dir

theorem dirsWithin_put (h : t.get? spot ≠ some .dir) (e : FileEntry β) :
    t.DirsWithin (t.put spot e) := by
  intro place hplace
  have hne : place ≠ spot := by
    rintro rfl
    exact h hplace
  rw [get?_put_of_ne t hne, hplace]

/-! ## Paths -/

theorem DirsWithin.follow (h : t.DirsWithin t') {pieces : List String}
    (hfollow : t.follow place pieces = .ok spot) : t'.follow place pieces = .ok spot := by
  induction pieces generalizing place with
  | nil => exact hfollow
  | cons piece pieces ih =>
    unfold FileTree.follow at hfollow
    split at hfollow
    · cases hfollow
    · next hdir =>
      unfold FileTree.follow
      rw [h place hdir]
      exact ih hfollow
    · cases hfollow

theorem DirsWithin.locate (h : t.DirsWithin t') (hlocate : t.locate path = .ok spot) :
    t'.locate path = .ok spot := by
  unfold FileTree.locate at hlocate ⊢
  split at hlocate
  · cases hlocate
  · next hne =>
    rw [if_neg hne]
    exact h.follow hlocate

/-- The place that a path leads to, if it leads anywhere. -/
def spotOf (path : String) : Spot := (Path.pieces path).foldl step []

theorem follow_eq_foldl {pieces : List String} (h : t.follow place pieces = .ok spot) :
    spot = pieces.foldl step place := by
  induction pieces generalizing place with
  | nil =>
    cases h
    rfl
  | cons piece pieces ih =>
    unfold FileTree.follow at h
    split at h
    · cases h
    · exact ih h
    · cases h

theorem eq_spotOf_of_locate (h : t.locate path = .ok spot) : spot = spotOf path := by
  unfold FileTree.locate at h
  split at h
  · cases h
  · exact follow_eq_foldl h

theorem find_eq_ok :
    t.find path = .ok (spot, e) ↔ t.locate path = .ok spot ∧ t.get? spot = some e := by
  unfold find
  constructor
  · intro h
    obtain ⟨spot', hspot, h⟩ := bind_eq_ok.mp h
    split at h
    · next e' he =>
      cases h
      exact ⟨hspot, he⟩
    · cases h
  · rintro ⟨hspot, he⟩
    refine bind_eq_ok.mpr ⟨spot, hspot, ?_⟩
    simp only [he]

theorem stat_eq_ok {action : String} :
    t.stat action path = .ok (spot, e) ↔ t.find path = .ok (spot, e) := mapError_eq_ok

/-- What a path has led to it still leads to, if it is still there. -/
theorem DirsWithin.find (h : t.DirsWithin t') (hfind : t.find path = .ok (spot, e))
    (hget : t'.get? spot = some e) : t'.find path = .ok (spot, e) :=
  find_eq_ok.mpr ⟨h.locate (find_eq_ok.mp hfind).1, hget⟩

theorem Extends.find (h : t.Extends t') (hfind : t.find path = .ok (spot, e)) :
    t'.find path = .ok (spot, e) :=
  h.dirsWithin.find hfind (h spot e (find_eq_ok.mp hfind).2)

/-! ## Writing -/

/-- A path that does not end in a slash is that of its last name. -/
theorem locateNew_eq_locate (h : Path.endsWith path "/" = false) :
    t.locateNew path = t.locate path := by
  have hkeep : path.toList.reverse.dropWhile (· == '/') = path.toList.reverse := by
    cases hcs : path.toList.reverse with
    | nil => rfl
    | cons c cs =>
      have hc : c ≠ '/' := by
        rintro rfl
        simp [Path.endsWith, Text.cutFront?, hcs] at h
      simp [hc]
  unfold locateNew
  rw [hkeep, List.reverse_reverse, String.ofList_toList]

/-- A file is written in the place that its path leads to, where no directory is. -/
theorem write_eq_ok (h : t.write path e = .ok t') :
    t.locate path = .ok (spotOf path) ∧ t.get? (spotOf path) ≠ some .dir ∧
      t' = t.put (spotOf path) e := by
  unfold write at h
  split at h
  · cases h
  · next spot hspot =>
    by_cases hdir : t.get? spot = some .dir
    · simp [hdir] at h
    · split at h
      · cases h
      · split at h
        · cases h
        · next hslash =>
          cases h
          rw [locateNew_eq_locate (by simpa using hslash)] at hspot
          obtain rfl := eq_spotOf_of_locate hspot
          exact ⟨hspot, hdir, rfl⟩
      · cases h
      · cases h

theorem dirsWithin_of_write (h : t.write path e = .ok t') : t.DirsWithin t' := by
  obtain ⟨-, hdir, rfl⟩ := write_eq_ok h
  exact dirsWithin_put hdir e

/-- What was written is found at its path. -/
theorem find_of_write (h : t.write path e = .ok t') : t'.find path = .ok (spotOf path, e) := by
  obtain ⟨hspot, hdir, rfl⟩ := write_eq_ok h
  have hne : spotOf path ≠ [] := by
    intro hnil
    rw [hnil] at hdir
    exact hdir rfl
  exact find_eq_ok.mpr ⟨(dirsWithin_put hdir e).locate hspot, get?_put_self t hne e⟩

/-! ## Making directories -/

/-- A tree has nothing more than another one but directories, in places where nothing was. -/
def DirsAdded (t t' : FileTree β) : Prop :=
  ∀ place, t'.get? place = t.get? place ∨ t.get? place = none ∧ t'.get? place = some .dir

theorem DirsAdded.refl (t : FileTree β) : t.DirsAdded t := fun _ => Or.inl rfl

theorem DirsAdded.trans (h : t.DirsAdded t') (h' : t'.DirsAdded t'') : t.DirsAdded t'' := by
  intro place
  rcases h place with hsame | ⟨hnone, hdir⟩
  · rcases h' place with hsame' | ⟨hnone', hdir'⟩
    · exact Or.inl (hsame'.trans hsame)
    · exact Or.inr ⟨hsame.symm.trans hnone', hdir'⟩
  · rcases h' place with hsame' | ⟨hnone', -⟩
    · exact Or.inr ⟨hnone, hsame'.trans hdir⟩
    · rw [hdir] at hnone'
      cases hnone'

theorem DirsAdded.extends (h : t.DirsAdded t') : t.Extends t' := by
  intro place e he
  rcases h place with hsame | ⟨hnone, -⟩
  · rw [hsame, he]
  · rw [he] at hnone
    cases hnone

theorem dirsAdded_put (h : t.get? spot = none) : t.DirsAdded (t.put spot .dir) := by
  intro place
  by_cases hplace : place = spot
  · subst hplace
    have hne : place ≠ [] := by
      rintro rfl
      cases h
    exact Or.inr ⟨h, get?_put_self t hne .dir⟩
  · exact Or.inl (get?_put_of_ne t hplace .dir)

theorem dirsAdded_makeDir (h : t.makeDir path = .ok t') : t.DirsAdded t' := by
  unfold makeDir at h
  split at h
  · cases h
  · split at h
    · cases h
      exact .refl t
    · cases h
    · next hnone =>
      cases h
      exact dirsAdded_put hnone

theorem dirsAdded_makeDirsWithin {steps : Nat} (h : t.makeDirsWithin steps path = .ok t') :
    t.DirsAdded t' := by
  induction steps generalizing path t' with
  | zero => exact dirsAdded_makeDir h
  | succ steps ih =>
    unfold makeDirsWithin at h
    split at h
    · cases h
      exact .refl t
    · cases h
    · dsimp only at h
      split at h
      · exact dirsAdded_makeDir h
      · obtain ⟨t₁, h₁, h⟩ := bind_eq_ok.mp h
        exact (ih h₁).trans (dirsAdded_makeDir h)

/-- Making directories changes nothing else. -/
theorem dirsAdded_makeDirs (h : t.makeDirs path = .ok t') : t.DirsAdded t' :=
  dirsAdded_makeDirsWithin h

end PathTree.FileTree
