import Mathlib.Data.List.Nodup
import PathTree.Proofs.CleanPaths

/-!
# The sources below a directory

`FileTree.IsSource` says which places below a directory hold sources, in terms of the names that lead
there. `FileTree.exists_places` : the paths that are treated are those of these places, each one
once.
-/

namespace PathTree.FileTree

variable {β : Type} {t : FileTree β} {root : String} {spot names : Spot} {e : FileEntry β}

/-- Places of a tree have names, and there is one thing at each of them. -/
structure IsTree (t : FileTree β) : Prop where
  nodup : (t.entries.map (·.1)).Nodup
  names : ∀ entry ∈ t.entries, entry.1 ≠ [] ∧ ∀ name ∈ entry.1, Path.IsName name

/-- A place below a directory holds a source : it is no directory, its name ends in `.go` but not in
`_test.go`, and no directory between is for test data or hidden. -/
def IsSource (t : FileTree β) (spot names : Spot) : Prop :=
  ∃ dirs name, names = dirs ++ [name] ∧ (∃ e, t.get? (spot ++ names) = some e ∧ e.isDir = false) ∧
    (".go".toList <:+ name.toList ∧ ¬"_test.go".toList <:+ name.toList) ∧
    ∀ dir ∈ dirs, dir ≠ "testdata" ∧ ¬['.'] <+: dir.toList

/-! ## What is below a place -/

theorem IsTree.mem_entries (ht : t.IsTree) (hne : spot ≠ []) :
    (spot, e) ∈ t.entries ↔ t.get? spot = some e := by
  have hget : t.get? spot = t.entries.lookup spot := by
    cases spot with
    | nil => exact absurd rfl hne
    | cons name names => rfl
  rw [hget]
  have hnodup := ht.nodup
  generalize t.entries = entries at hnodup
  induction entries with
  | nil => simp
  | cons entry entries ih =>
    obtain ⟨place, e'⟩ := entry
    obtain ⟨hnew, hnodup⟩ := List.nodup_cons.mp hnodup
    rw [List.lookup_cons, List.mem_cons]
    by_cases hplace : spot = place
    · subst hplace
      have hother : (spot, e) ∉ entries := fun h => hnew (List.mem_map.mpr ⟨_, h, rfl⟩)
      simp [hother, eq_comm]
    · have hb : (spot == place) = false := by simpa using hplace
      simp [hplace, hb, ih hnodup]

/-- What is below a place has the names of the place in front of its own. -/
theorem mem_below : (names, e) ∈ t.below spot ↔ names ≠ [] ∧ (spot ++ names, e) ∈ t.entries := by
  unfold below
  simp only [List.mem_mergeSort, List.mem_map, List.mem_filter, Bool.and_eq_true,
    List.isPrefixOf_iff_prefix, bne_iff_ne]
  constructor
  · rintro ⟨⟨place, e'⟩, ⟨hentry, ⟨rest, rfl⟩, hlen⟩, h⟩
    rw [List.drop_left] at h
    cases h
    exact ⟨fun hnil => hlen (by simp [hnil]), hentry⟩
  · rintro ⟨hne, hentry⟩
    refine ⟨_, ⟨hentry, List.prefix_append _ _, ?_⟩, by simp⟩
    simpa using hne

theorem IsTree.nodup_below (ht : t.IsTree) (spot : Spot) :
    ((t.below spot).map (·.1)).Nodup := by
  have hperm : ((t.below spot).map (·.1)).Perm (((t.entries.filter fun e =>
      spot.isPrefixOf e.1 && e.1.length != spot.length).map (·.1)).map (·.drop spot.length)) := by
    unfold below
    rw [List.map_map]
    refine ((List.mergeSort_perm _ _).map _).trans (List.Perm.of_eq ?_)
    rw [List.map_map]
    rfl
  rw [hperm.nodup_iff]
  refine List.Nodup.map_on (fun x hx y hy h => ?_) (ht.nodup.sublist (List.filter_sublist.map _))
  -- Both places start with the names of the place.
  have hfront {x : Spot} (hx : x ∈ (t.entries.filter fun e =>
      spot.isPrefixOf e.1 && e.1.length != spot.length).map (·.1)) :
      x = spot ++ x.drop spot.length := by
    obtain ⟨entry, hentry, rfl⟩ := List.mem_map.mp hx
    have hprefix := (Bool.and_eq_true_iff.mp (List.mem_filter.mp hentry).2).1
    exact List.prefix_iff_eq_append.mp (List.isPrefixOf_iff_prefix.mp hprefix) |>.symm
  rw [hfront hx, hfront hy, h]

/-! ## Sources -/

theorem isLeftOut_iff {name : String} :
    isLeftOut name = true ↔ name = "testdata" ∨ ['.'] <+: name.toList := by
  unfold isLeftOut
  cases h : name.toList with
  | nil => simp
  | cons c cs => simp [eq_comm (a := '.')]

theorem IsTree.isName_of_mem_below (ht : t.IsTree) (h : (names, e) ∈ t.below spot) {name : String}
    (hname : name ∈ names) : Path.IsName name :=
  (ht.names _ (mem_below.mp h).2).2 name (List.mem_append_right spot hname)

/-- Whether an entry below a root is a source that is treated. -/
def isTaken (root : String) (entry : Spot × FileEntry β) : Bool :=
  !(entry.2.isDir || entry.1.dropLast.any isLeftOut || !isSourcePath (pathBelow root entry.1))

theorem sourcesBelow_eq (t : FileTree β) (root : String) (spot : Spot) : t.sourcesBelow root spot =
    (((t.below spot).filter (isTaken root)).map (·.1)).map (pathBelow root) := by
  unfold sourcesBelow
  rw [List.map_map]
  generalize t.below spot = entries
  induction entries with
  | nil => rfl
  | cons entry entries ih =>
    simp only [List.filterMap_cons, List.filter_cons, ih]
    unfold isTaken
    cases (entry.2.isDir || entry.1.dropLast.any isLeftOut ||
        !isSourcePath (pathBelow root entry.1)) <;> rfl

/-- The entries that are treated are those of the places that hold sources. -/
theorem IsTree.exists_isTaken (ht : t.IsTree) (hroot : root ≠ "") :
    (∃ e, (names, e) ∈ t.below spot ∧ isTaken root (names, e) = true) ↔ t.IsSource spot names := by
  constructor
  · rintro ⟨e, hmem, htaken⟩
    obtain ⟨hne, hentry⟩ := mem_below.mp hmem
    obtain ⟨dirs, name, rfl⟩ : ∃ dirs name, names = dirs ++ [name] :=
      ⟨_, _, (List.dropLast_append_getLast hne).symm⟩
    have hnames : ∀ n ∈ dirs ++ [name], Path.IsName n := fun n hn => ht.isName_of_mem_below hmem hn
    simp only [isTaken, Bool.not_or, Bool.not_not, Bool.and_eq_true, List.dropLast_concat,
      Bool.not_eq_true', List.any_eq_false] at htaken
    obtain ⟨⟨hdir, hleft⟩, hsource⟩ := htaken
    refine ⟨dirs, name, rfl, ⟨e, (ht.mem_entries (by simp)).mp hentry, hdir⟩,
      (isSourcePath_pathBelow hroot hnames).mp hsource, fun dir hdir => ?_⟩
    simpa [isLeftOut_iff, not_or] using hleft dir hdir
  · rintro ⟨dirs, name, rfl, ⟨e, hget, hdir⟩, hname, hdirs⟩
    have hmem : (dirs ++ [name], e) ∈ t.below spot :=
      mem_below.mpr ⟨by simp, (ht.mem_entries (by simp)).mpr hget⟩
    have hnames : ∀ n ∈ dirs ++ [name], Path.IsName n := fun n hn => ht.isName_of_mem_below hmem hn
    refine ⟨e, hmem, ?_⟩
    simp only [isTaken, Bool.not_or, Bool.not_not, Bool.and_eq_true, List.dropLast_concat,
      Bool.not_eq_true', List.any_eq_false]
    refine ⟨⟨hdir, fun dir hdir => ?_⟩, (isSourcePath_pathBelow hroot hnames).mpr hname⟩
    simpa [isLeftOut_iff, not_or] using hdirs dir hdir

/-- The paths of the sources below a directory are those of the places that hold sources, each one
once. -/
theorem IsTree.exists_places (ht : t.IsTree) (hroot : root ≠ "") (spot : Spot) :
    ∃ places : List Spot, places.Nodup ∧ (∀ names, names ∈ places ↔ t.IsSource spot names) ∧
      t.sourcesBelow root spot = places.map (pathBelow root) ∧
      (t.sourcesBelow root spot).Nodup := by
  have hplaces : (((t.below spot).filter (isTaken root)).map (·.1)).Nodup :=
    (ht.nodup_below spot).sublist (List.filter_sublist.map _)
  have hmem : ∀ names ∈ ((t.below spot).filter (isTaken root)).map (·.1),
      ∃ e, (names, e) ∈ t.below spot := by
    intro names hnames
    obtain ⟨entry, hentry, rfl⟩ := List.mem_map.mp hnames
    exact ⟨entry.2, (List.mem_filter.mp hentry).1⟩
  refine ⟨_, hplaces, fun names => ?_, sourcesBelow_eq t root spot, ?_⟩
  · rw [← ht.exists_isTaken hroot]
    simp [List.mem_filter]
  · rw [sourcesBelow_eq]
    refine hplaces.map_on fun x hx y hy h => ?_
    obtain ⟨e, he⟩ := hmem x hx
    obtain ⟨e', he'⟩ := hmem y hy
    exact pathBelow_inj hroot (mem_below.mp he).1 (mem_below.mp he').1
      (fun n hn => ht.isName_of_mem_below he hn) (fun n hn => ht.isName_of_mem_below he' hn) h

end PathTree.FileTree
