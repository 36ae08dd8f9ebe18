import Mathlib.Data.List.Infix
import PathTree.Engine.Paths

/-!
# Clean paths

A clean path is its names with slashes between them, with one in front if it starts at the top
(`Path.render`). Its names are what `Path.pushPiece` leaves of the pieces of any path for the same
place (`Path.stack`), and a clean path is left as it is (`Path.stack_render`).

So the path of a place below a root is that of the root with the names behind it
(`FileTree.pathBelow_eq`) : places have different paths (`FileTree.pathBelow_inj`), and whether a path
is that of a source can be read off the last name (`FileTree.isSourcePath_pathBelow`).
-/

namespace PathTree

/-! ## Pieces -/

theorem Text.exists_splitAt (c : Char) (cs : List Char) :
    ∃ piece rest, splitAt c cs = piece :: rest := by
  induction cs with
  | nil => exact ⟨[], [], rfl⟩
  | cons d ds ih =>
    obtain ⟨piece, rest, h⟩ := ih
    simp only [splitAt, h]
    split <;> exact ⟨_, _, rfl⟩

theorem Text.splitAt_cons {c d : Char} {ds piece : List Char} {rest : List (List Char)}
    (h : splitAt c ds = piece :: rest) :
    splitAt c (d :: ds) = if d = c then [] :: piece :: rest else (d :: piece) :: rest := by
  simp only [splitAt, h]

theorem Text.splitAt_of_notMem {c : Char} {cs : List Char} (h : c ∉ cs) : splitAt c cs = [cs] := by
  induction cs with
  | nil => rfl
  | cons d ds ih =>
    simp only [List.mem_cons, not_or] at h
    rw [splitAt_cons (ih h.2), if_neg (Ne.symm h.1)]

/-- A text is split at each occurrence. -/
theorem Text.splitAt_append (c : Char) (front rest : List Char) :
    splitAt c (front ++ c :: rest) = splitAt c front ++ splitAt c rest := by
  induction front with
  | nil =>
    obtain ⟨piece, more, h⟩ := exists_splitAt c rest
    rw [List.nil_append, splitAt_cons h, if_pos rfl, h]
    rfl
  | cons d ds ih =>
    obtain ⟨piece, more, h⟩ := exists_splitAt c ds
    rw [h] at ih
    rw [List.cons_append, splitAt_cons ih, splitAt_cons h]
    split <;> rfl

theorem Text.notMem_of_mem_splitAt {c : Char} {cs piece : List Char} (h : piece ∈ splitAt c cs) :
    c ∉ piece := by
  induction cs generalizing piece with
  | nil => simp_all [splitAt]
  | cons d ds ih =>
    obtain ⟨first, more, hds⟩ := exists_splitAt c ds
    rw [hds] at ih
    rw [splitAt_cons hds] at h
    split at h
    · rcases List.mem_cons.mp h with rfl | h
      · simp
      · exact ih h
    · next hd =>
      rcases List.mem_cons.mp h with rfl | h
      · simpa [Ne.symm hd] using ih List.mem_cons_self
      · exact ih (List.mem_cons_of_mem _ h)

theorem Text.isSome_cutFront? {front cs : List Char} :
    (cutFront? front cs).isSome ↔ front <+: cs := by
  fun_induction cutFront? front cs with
  | case1 cs => simp
  | case2 f fs cs ih => simpa using ih
  | case3 f fs c cs hne => simp [hne]
  | case4 f fs => simp

namespace Path

variable {path name : String} {names : List String} {rooted : Bool}

theorem endsWith_iff {ending : String} : endsWith path ending = true ↔
    ending.toList <:+ path.toList := by
  rw [endsWith, Text.isSome_cutFront?, List.reverse_prefix]

theorem pieces_of_noSlash (h : '/' ∉ name.toList) : pieces name = [name] := by
  simp [pieces, Text.splitAt_of_notMem h]

theorem pieces_append (front name : String) :
    pieces (front ++ "/" ++ name) = pieces front ++ pieces name := by
  have h : (front ++ "/" ++ name).toList = front.toList ++ '/' :: name.toList := by simp
  rw [pieces, h, Text.splitAt_append, List.map_append]
  rfl

theorem noSlash_of_mem_pieces (h : name ∈ pieces path) : '/' ∉ name.toList := by
  obtain ⟨cs, hcs, rfl⟩ := List.mem_map.mp h
  rw [String.toList_ofList]
  exact Text.notMem_of_mem_splitAt hcs

/-- Names that are put together with slashes are the pieces of the path. -/
theorem pieces_intercalate (hne : names ≠ []) (h : ∀ name ∈ names, '/' ∉ name.toList) :
    pieces ("/".intercalate names) = names := by
  induction names with
  | nil => exact absurd rfl hne
  | cons name names ih =>
    obtain ⟨hname, hnames⟩ := List.forall_mem_cons.mp h
    cases names with
    | nil => rw [String.intercalate_singleton, pieces_of_noSlash hname]
    | cons other names =>
      rw [String.intercalate_cons_cons, pieces_append, pieces_of_noSlash hname,
        ih (by simp) hnames]
      rfl

/-! ## Names of a clean path -/

/-- A name that stands for an entry of a directory. -/
def IsName (name : String) : Prop :=
  name ≠ "" ∧ name ≠ "." ∧ name ≠ ".." ∧ '/' ∉ name.toList

/-- The names of the clean path for the same place, the last one first. -/
def stack (rooted : Bool) (path : String) : List String :=
  (pieces path).foldl (pushPiece rooted) []

/-- The clean path with the given names. -/
def render (rooted : Bool) (names : List String) : String :=
  if rooted then "/" ++ "/".intercalate names
  else if names.isEmpty then "."
  else "/".intercalate names

theorem clean_eq (path : String) :
    clean path = render (isRooted path) (stack (isRooted path) path).reverse := rfl

/-- The names of a clean path, the last one first : `..` stands only in front of the others, and not
in a path that starts at the top. -/
inductive IsStack (rooted : Bool) : List String → Prop
  | nil : IsStack rooted []
  | name {name : String} {done : List String} (hn : IsName name) (h : IsStack rooted done) :
      IsStack rooted (name :: done)
  | up {done : List String} (hr : rooted = false) (hup : ∀ name ∈ done, name = "..")
      (h : IsStack rooted done) : IsStack rooted (".." :: done)

namespace IsStack

variable {done : List String}

theorem pushPiece (h : IsStack rooted done) {piece : String} (hp : '/' ∉ piece.toList) :
    IsStack rooted (pushPiece rooted done piece) := by
  unfold Path.pushPiece
  by_cases hskip : piece = "" ∨ piece = "."
  · rwa [if_pos hskip]
  rw [if_neg hskip]
  by_cases hup : piece = ".."
  · rw [if_pos hup]
    cases h with
    | nil =>
      cases rooted with
      | false => exact .up rfl (by simp) .nil
      | true => exact .nil
    | name hn h =>
      simp only [if_neg hn.2.2.1]
      exact h
    | up hr hall h => exact .up hr (by simpa using hall) (.up hr hall h)
  · rw [if_neg hup]
    exact .name ⟨fun he => hskip (Or.inl he), fun he => hskip (Or.inr he), hup, hp⟩ h

theorem foldl {pieces : List String} (hp : ∀ piece ∈ pieces, '/' ∉ piece.toList)
    (h : IsStack rooted done) : IsStack rooted (pieces.foldl (Path.pushPiece rooted) done) := by
  induction pieces generalizing done with
  | nil => exact h
  | cons piece pieces ih =>
    obtain ⟨hpiece, hpieces⟩ := List.forall_mem_cons.mp hp
    exact ih hpieces (h.pushPiece hpiece)

/-- Names of a clean path are left as they are. -/
theorem foldl_reverse (h : IsStack rooted done) :
    done.reverse.foldl (Path.pushPiece rooted) [] = done := by
  induction h with
  | nil => rfl
  | @name name done hn h ih =>
    obtain ⟨hempty, hdot, hdots, -⟩ := hn
    rw [List.reverse_cons, List.foldl_append, ih]
    simp [Path.pushPiece, hempty, hdot, hdots]
  | @up done hr hup h ih =>
    rw [List.reverse_cons, List.foldl_append, ih]
    cases done with
    | nil => simp [Path.pushPiece, hr]
    | cons last rest =>
      obtain rfl := hup last List.mem_cons_self
      simp [Path.pushPiece]

theorem noSlash (h : IsStack rooted done) {name : String} (hn : name ∈ done) :
    '/' ∉ name.toList := by
  induction h with
  | nil => simp at hn
  | name hname _ ih =>
    rcases List.mem_cons.mp hn with rfl | hn
    · exact hname.2.2.2
    · exact ih hn
  | up _ _ _ ih =>
    rcases List.mem_cons.mp hn with rfl | hn
    · decide
    · exact ih hn

theorem ne_empty (h : IsStack rooted done) {name : String} (hn : name ∈ done) : name ≠ "" := by
  induction h with
  | nil => simp at hn
  | name hname _ ih =>
    rcases List.mem_cons.mp hn with rfl | hn
    · exact hname.1
    · exact ih hn
  | up _ _ _ ih =>
    rcases List.mem_cons.mp hn with rfl | hn
    · decide
    · exact ih hn

end IsStack

theorem isStack_stack (rooted : Bool) (path : String) : IsStack rooted (stack rooted path) :=
  IsStack.nil.foldl fun _ => noSlash_of_mem_pieces

/-! ## Clean paths -/

theorem pieces_render (hne : names ≠ []) (h : ∀ name ∈ names, '/' ∉ name.toList) :
    pieces (render rooted names) = if rooted then "" :: names else names := by
  cases rooted with
  | false => simpa [render, hne] using pieces_intercalate hne h
  | true =>
    have hfront : render true names = "" ++ "/" ++ "/".intercalate names := by simp [render]
    rw [hfront, pieces_append, pieces_intercalate hne h, pieces_of_noSlash (by simp)]
    rfl

/-- Different names have different clean paths. -/
theorem render_inj {names' : List String} (hne : names ≠ []) (hne' : names' ≠ [])
    (h : ∀ name ∈ names, '/' ∉ name.toList) (h' : ∀ name ∈ names', '/' ∉ name.toList)
    (heq : render rooted names = render rooted names') : names = names' := by
  have hpieces := congrArg pieces heq
  rw [pieces_render hne h, pieces_render hne' h'] at hpieces
  cases rooted with
  | false => exact hpieces
  | true => exact (List.cons_inj_right "").mp hpieces

/-- A path ends in its last name, and a slash stands in front of that if anything does. -/
theorem exists_front_render (rooted : Bool) (names : List String) (name : String) :
    ∃ front, (render rooted (names ++ [name])).toList = front ++ name.toList ∧
      (front = [] ∨ ∃ front', front = front' ++ ['/']) := by
  have hintercalate : ∃ front, ("/".intercalate (names ++ [name])).toList = front ++ name.toList ∧
      (front = [] ∨ ∃ front', front = front' ++ ['/']) := by
    induction names with
    | nil => exact ⟨[], by simp, Or.inl rfl⟩
    | cons first names ih =>
      obtain ⟨front, hfront, hslash⟩ := ih
      obtain ⟨other, more, hmore⟩ :=
        List.exists_cons_of_ne_nil (List.append_ne_nil_of_right_ne_nil names
          (List.cons_ne_nil name []))
      refine ⟨first.toList ++ '/' :: front, ?_, Or.inr ?_⟩
      · rw [List.cons_append, hmore, String.intercalate_cons_cons, ← hmore]
        simp [hfront]
      · rcases hslash with rfl | ⟨front', rfl⟩
        · exact ⟨first.toList, rfl⟩
        · exact ⟨first.toList ++ '/' :: front', by simp⟩
  obtain ⟨front, hfront, hslash⟩ := hintercalate
  cases rooted with
  | false =>
    refine ⟨front, ?_, hslash⟩
    simpa [render] using hfront
  | true =>
    refine ⟨'/' :: front, by simp [render, hfront], Or.inr ?_⟩
    rcases hslash with rfl | ⟨front', rfl⟩
    · exact ⟨[], rfl⟩
    · exact ⟨'/' :: front', rfl⟩

theorem isRooted_append (h : path ≠ "") (rest : String) :
    isRooted (path ++ rest) = isRooted path := by
  have hne : path.toList ≠ [] := by simpa using h
  obtain ⟨c, cs, hcs⟩ := List.exists_cons_of_ne_nil hne
  simp [isRooted, hcs]

section Render

variable {done : List String} (h : IsStack rooted done)

include h

/-- A clean path is left as it is. -/
theorem stack_render : stack rooted (render rooted done.reverse) = done := by
  by_cases hne : done = []
  · subst hne
    cases rooted <;> rfl
  · have hnames : done.reverse ≠ [] := by simpa using hne
    unfold stack
    rw [pieces_render hnames fun name hn => h.noSlash (List.mem_reverse.mp hn)]
    have hkeep := h.foldl_reverse
    cases rooted with
    | false => exact hkeep
    | true => exact hkeep

theorem render_ne_empty : render rooted done.reverse ≠ "" := by
  intro hempty
  have hpieces : pieces (render rooted done.reverse) = [""] := by rw [hempty]; rfl
  by_cases hne : done = []
  · subst hne
    cases rooted <;> revert hempty <;> decide
  · have hnames : done.reverse ≠ [] := by simpa using hne
    rw [pieces_render hnames fun name hn => h.noSlash (List.mem_reverse.mp hn)] at hpieces
    cases rooted with
    | true => exact hnames (List.cons_eq_cons.mp hpieces).2
    | false =>
      have hmem : "" ∈ done.reverse := by
        rw [if_neg Bool.false_ne_true] at hpieces
        simp [hpieces]
      exact h.ne_empty (List.mem_reverse.mp hmem) rfl

theorem isRooted_render : isRooted (render rooted done.reverse) = rooted := by
  cases rooted with
  | true => simp [isRooted, render]
  | false =>
    cases hnames : done.reverse with
    | nil => rfl
    | cons name names =>
      have hmem : name ∈ done := List.mem_reverse.mp (hnames ▸ List.mem_cons_self)
      have hne : name.toList ≠ [] := by simpa using h.ne_empty hmem
      obtain ⟨c, cs, hcs⟩ := List.exists_cons_of_ne_nil hne
      have hc : c ≠ '/' := fun he => h.noSlash hmem (by simp [hcs, he])
      cases names with
      | nil => simp [isRooted, render, hcs, hc]
      | cons other names => simp [isRooted, render, String.intercalate_cons_cons, hcs, hc]

end Render

/-! ## Paths below others -/

/-- A name is added behind the names of a path. -/
theorem join_eq (hf : path ≠ "") (hn : IsName name) :
    join path name = render (isRooted path) ((stack (isRooted path) path).reverse ++ [name]) := by
  have hroot : isRooted (path ++ "/" ++ name) = isRooted path := by
    rw [String.append_assoc, isRooted_append hf]
  obtain ⟨hempty, hdot, hdots, hslash⟩ := hn
  have hstack : stack (isRooted path) (path ++ "/" ++ name) =
      name :: stack (isRooted path) path := by
    unfold stack
    rw [pieces_append, pieces_of_noSlash hslash, List.foldl_append]
    simp [pushPiece, hempty, hdot, hdots]
  rw [join, if_neg hf, clean_eq, hroot, hstack, List.reverse_cons]

end Path

namespace FileTree

open PathTree.Path

/-- The path of a place below a root has the names that lead there behind those of the root. -/
theorem pathBelow_eq {root : String} (hroot : root ≠ "") {names : Spot} (hne : names ≠ [])
    (hnames : ∀ name ∈ names, IsName name) : pathBelow root names =
      render (isRooted root) ((stack (isRooted root) root).reverse ++ names) := by
  induction names generalizing root with
  | nil => exact absurd rfl hne
  | cons name names ih =>
    obtain ⟨hname, hnames⟩ := List.forall_mem_cons.mp hnames
    have hjoin := join_eq hroot hname
    rw [show pathBelow root (name :: names) = pathBelow (join root name) names from rfl]
    by_cases hlast : names = []
    · subst hlast
      exact hjoin
    · -- The root with the first name is a clean path with one name more.
      have hstack := IsStack.name hname (isStack_stack (isRooted root) root)
      rw [← List.reverse_cons] at hjoin
      rw [ih (hjoin ▸ render_ne_empty hstack) hlast hnames, hjoin, isRooted_render hstack,
        stack_render hstack, List.reverse_cons, List.append_assoc]
      rfl

/-- Different places below a root have different paths. -/
theorem pathBelow_inj {root : String} (hroot : root ≠ "") {names names' : Spot} (hne : names ≠ [])
    (hne' : names' ≠ []) (h : ∀ name ∈ names, IsName name) (h' : ∀ name ∈ names', IsName name)
    (heq : pathBelow root names = pathBelow root names') : names = names' := by
  have hslash {names : Spot} (h : ∀ name ∈ names, IsName name) :
      ∀ name ∈ (stack (isRooted root) root).reverse ++ names, '/' ∉ name.toList := by
    intro name hname
    rcases List.mem_append.mp hname with hname | hname
    · exact (isStack_stack _ root).noSlash (List.mem_reverse.mp hname)
    · exact (h name hname).2.2.2
  rw [pathBelow_eq hroot hne h, pathBelow_eq hroot hne' h'] at heq
  exact List.append_cancel_left
    (render_inj (by simp [hne]) (by simp [hne']) (hslash h) (hslash h') heq)

end FileTree

/-! ## Sources -/

namespace Path

section LastName

variable {path name : String} {front : List Char} (hpath : path.toList = front ++ name.toList)
  (hfront : front = [] ∨ ∃ front', front = front' ++ ['/']) (hslash : '/' ∉ name.toList)

include hpath hfront

/-- What a path ends in its last name ends in, if no slash stands in it. -/
theorem suffix_path_iff {ending : List Char} (he : '/' ∉ ending) :
    ending <:+ path.toList ↔ ending <:+ name.toList := by
  have hname : name.toList <:+ path.toList := ⟨front, hpath.symm⟩
  refine ⟨fun h => ?_, fun h => h.trans hname⟩
  rcases List.suffix_or_suffix_of_suffix h hname with h' | ⟨more, rfl⟩
  · exact h'
  · -- The ending is not longer than the name : a slash would stand in it.
    obtain ⟨rest, hrest⟩ := h
    have hboth : front ++ name.toList = (rest ++ more) ++ name.toList := by
      rw [← hpath, ← hrest, List.append_assoc]
    have hsplit : front = rest ++ more := List.append_cancel_right hboth
    have hmore : more = [] := by
      rcases hfront with rfl | ⟨front', rfl⟩
      · exact (List.append_eq_nil_iff.mp hsplit.symm).2
      · rcases List.eq_nil_or_concat more with hnil | ⟨more', c, rfl⟩
        · exact hnil
        · rw [List.concat_eq_append, ← List.append_assoc] at hsplit
          have hc := (List.append_inj' hsplit rfl).2
          exact absurd (by simp [← List.singleton_inj.mp hc]) he
    rw [hmore, List.nil_append]

include hslash

theorem takeWhile_reverse_path : path.toList.reverse.takeWhile (· != '/') = name.toList.reverse := by
  rw [hpath, List.reverse_append, List.takeWhile_append_of_pos]
  · rcases hfront with rfl | ⟨front', rfl⟩ <;> simp
  · intro c hc
    simpa using fun he : c = '/' => hslash (he ▸ List.mem_reverse.mp hc)

/-- The ending of a path is `.go` if that is what its last name ends in. -/
theorem ext_eq_go_iff : ext path = ".go" ↔ ".go".toList <:+ name.toList := by
  unfold ext
  dsimp only
  rw [takeWhile_reverse_path hpath hfront hslash]
  constructor
  · intro h
    split at h
    · next hdot =>
      have hletters : name.toList.reverse.takeWhile (· != '.') = ['o', 'g'] := by
        have hlist := congrArg String.toList h
        rw [String.toList_ofList, show ".go".toList = ['.', 'g', 'o'] from rfl] at hlist
        simpa using congrArg List.reverse ((List.cons_inj_right '.').mp hlist)
      have hsplit := List.takeWhile_append_dropWhile (p := (· != '.')) (l := name.toList.reverse)
      have hhead := List.head?_dropWhile_not (· != '.') name.toList.reverse
      rw [hletters] at hsplit
      generalize name.toList.reverse.dropWhile (· != '.') = rest at hsplit hhead
      cases rest with
      | nil => simp [← hsplit] at hdot
      | cons c rest =>
        obtain rfl : c = '.' := by simpa using hhead
        exact List.reverse_prefix.mp ⟨rest, by rw [← hsplit]; rfl⟩
    · simp at h
  · rintro ⟨rest, hrest⟩
    simp [← hrest]

end LastName

end Path

/-- Whether a place below a root is a source can be read off its last name. -/
theorem FileTree.isSourcePath_pathBelow {root : String} (hroot : root ≠ "") {dirs : Spot}
    {name : String} (hnames : ∀ n ∈ dirs ++ [name], Path.IsName n) :
    isSourcePath (pathBelow root (dirs ++ [name])) = true ↔
      ".go".toList <:+ name.toList ∧ ¬"_test.go".toList <:+ name.toList := by
  have hslash : '/' ∉ name.toList := (hnames name (by simp)).2.2.2
  rw [pathBelow_eq hroot (by simp) hnames, ← List.append_assoc]
  obtain ⟨front, hpath, hfront⟩ := Path.exists_front_render (Path.isRooted root)
    ((Path.stack (Path.isRooted root) root).reverse ++ dirs) name
  rw [isSourcePath, Bool.and_eq_true, decide_eq_true_eq, Bool.not_eq_true', ← Bool.not_eq_true,
    Path.endsWith_iff, Path.ext_eq_go_iff hpath hfront hslash,
    Path.suffix_path_iff hpath hfront (by decide)]

end PathTree
