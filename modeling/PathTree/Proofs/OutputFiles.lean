import PathTree.CommandLine.Run
import PathTree.Proofs.CleanPaths
import PathTree.Proofs.FileTrees

/-!
# Files in an output directory

With an output directory, the new text of a file is written there under the last name of the file
(`FileOutcome.outputPath`). The directory is made before (`FileTree.get?_of_makeDirs`), so two texts
are written to the same place only if the names are the same (`FileTree.base_eq_of_spotOf_join`).

What one delivery can do is said once (`CommandLine.Desk.Delivery`). A text that was written stays
until another one is written under the same name (`CommandLine.Desk.find_deliverAll`), so of files
with the same last name the last one is left (`CommandLine.Desk.deliverBatch_written`), and the
others are lost (`CommandLine.Desk.not_deliverBatch_keeps_all`).
-/

namespace PathTree

/-! ## Places of paths -/

namespace FileTree

open PathTree.Path

/-- A piece leads from the place of a clean path to that of the path with the piece. -/
theorem foldl_step_pushPiece {rooted : Bool} {done : List String} (h : IsStack rooted done)
    (piece : String) : (pushPiece rooted done piece).reverse.foldl step [] =
      step (done.reverse.foldl step []) piece := by
  unfold pushPiece
  by_cases hskip : piece = "" ∨ piece = "."
  · rw [if_pos hskip, step, if_pos hskip]
  rw [if_neg hskip]
  by_cases hup : piece = ".."
  · subst hup
    rw [if_pos rfl]
    cases h with
    | nil => cases rooted <;> rfl
    | @name name done hn h =>
      obtain ⟨hempty, hdot, hdots, -⟩ := hn
      simp [step, hempty, hdot, hdots]
    | up hr hall h => simp
  · simp [hup]

theorem foldl_step_foldl {rooted : Bool} {pieces done : List String}
    (hp : ∀ piece ∈ pieces, '/' ∉ piece.toList) (h : IsStack rooted done) :
    (pieces.foldl (pushPiece rooted) done).reverse.foldl step [] =
      pieces.foldl step (done.reverse.foldl step []) := by
  induction pieces generalizing done with
  | nil => rfl
  | cons piece pieces ih =>
    obtain ⟨hpiece, hpieces⟩ := List.forall_mem_cons.mp hp
    rw [List.foldl_cons, ih hpieces (h.pushPiece hpiece), foldl_step_pushPiece h, List.foldl_cons]

theorem foldl_step_stack (rooted : Bool) (path : String) :
    (stack rooted path).reverse.foldl step [] = spotOf path :=
  foldl_step_foldl (fun _ => noSlash_of_mem_pieces) .nil

/-- A clean path leads to the same place. -/
theorem spotOf_clean (path : String) : spotOf (clean path) = spotOf path := by
  rw [← foldl_step_stack (isRooted path) (clean path), clean_eq,
    stack_render (isStack_stack _ path), foldl_step_stack]

theorem spotOf_join {front : String} (hf : front ≠ "") (name : String) :
    spotOf (join front name) = (pieces name).foldl step (spotOf front) := by
  rw [join, if_neg hf, spotOf_clean, spotOf, pieces_append, List.foldl_append]
  rfl

/-- The last name of a path is a slash, or no slash stands in it. -/
theorem base_eq_slash_or (path : String) :
    base path = "/" ∨ base path ≠ "" ∧ '/' ∉ (base path).toList := by
  unfold base
  split
  · exact Or.inr (by decide)
  dsimp only
  have hhead := List.head?_dropWhile_not (· == '/') path.toList.reverse
  generalize path.toList.reverse.dropWhile (· == '/') = cs at hhead
  cases cs with
  | nil => exact Or.inl rfl
  | cons c cs =>
    have hc : c ≠ '/' := by simpa using hhead
    refine Or.inr ⟨?_, ?_⟩
    · simp [hc]
    · intro hmem
      simp only [List.isEmpty_cons, Bool.false_eq_true, if_false, String.toList_ofList,
        List.mem_reverse] at hmem
      simpa using List.all_eq_true.mp List.all_takeWhile '/' hmem

theorem step_inj {spot : Spot} {piece piece' : String} (hp : piece ≠ "") (hp' : piece' ≠ "")
    (hne : step spot piece ≠ spot) (heq : step spot piece' = step spot piece) : piece' = piece := by
  by_cases hdot : piece = "."
  · exact absurd (by simp [step, hdot]) hne
  by_cases hdot' : piece' = "."
  · rw [← heq] at hne
    exact absurd (by simp [step, hdot']) hne
  -- Whether a name is added or taken away shows in the number of names.
  have hlength := congrArg List.length heq
  by_cases hup : piece = ".." <;> by_cases hup' : piece' = ".."
  · rw [hup, hup']
  · simp [step, hp', hdot', hup, hup'] at hlength
    omega
  · simp [step, hp, hdot, hup, hup'] at hlength
  · simpa [step, hp, hp', hdot, hdot', hup, hup'] using heq

/-- Below a directory, last names of paths lead to different places unless they lead to the
directory itself. -/
theorem base_eq_of_spotOf_join {dir path path' : String} (hdir : dir ≠ "")
    (hne : spotOf (join dir (base path)) ≠ spotOf dir)
    (heq : spotOf (join dir (base path')) = spotOf (join dir (base path))) :
    base path' = base path := by
  have hslash {path : String} (h : base path = "/") : spotOf (join dir (base path)) = spotOf dir := by
    rw [spotOf_join hdir, h]
    rfl
  rcases base_eq_slash_or path with h | ⟨hempty, h⟩
  · exact absurd (hslash h) hne
  rcases base_eq_slash_or path' with h' | ⟨hempty', h'⟩
  · rw [← heq] at hne
    exact absurd (hslash h') hne
  rw [spotOf_join hdir, spotOf_join hdir, pieces_of_noSlash h, pieces_of_noSlash h'] at heq
  rw [spotOf_join hdir, pieces_of_noSlash h] at hne
  exact step_inj hempty hempty' hne heq

/-! ## Directories that were made -/

variable {β : Type} {t t' : FileTree β} {path : String}

theorem spotOf_append_slash (front : String) : spotOf (front ++ "/") = spotOf front := by
  have h := pieces_append front ""
  rw [String.append_empty] at h
  rw [spotOf, h, List.foldl_append]
  rfl

/-- Slashes at the end of a path do not count. -/
theorem spotOf_trim (path : String) :
    spotOf (String.ofList (path.toList.reverse.dropWhile (· == '/')).reverse) = spotOf path := by
  have htrim (cs : List Char) : spotOf (String.ofList (cs.dropWhile (· == '/')).reverse) =
      spotOf (String.ofList cs.reverse) := by
    induction cs with
    | nil => rfl
    | cons c cs ih =>
      by_cases hc : c = '/'
      · have hlast : String.ofList (c :: cs).reverse = String.ofList cs.reverse ++ "/" := by
          simp [hc]
        rw [hlast, spotOf_append_slash, ← ih]
        simp [hc]
      · simp [hc]
  simpa using htrim path.toList.reverse

theorem get?_of_makeDir (h : t.makeDir path = .ok t') : t'.get? (spotOf path) = some .dir := by
  unfold makeDir at h
  split at h
  · cases h
  · next spot hspot =>
    obtain rfl : spot = spotOf path := by
      rw [← spotOf_trim]
      exact eq_spotOf_of_locate hspot
    split at h
    · next hdir =>
      cases h
      exact hdir
    · cases h
    · next hnone =>
      cases h
      refine get?_put_self t ?_ .dir
      intro hnil
      rw [hnil] at hnone
      cases hnone

theorem get?_of_makeDirsWithin {steps : Nat} (h : t.makeDirsWithin steps path = .ok t') :
    t'.get? (spotOf path) = some .dir := by
  cases steps with
  | zero => exact get?_of_makeDir h
  | succ steps =>
    unfold makeDirsWithin at h
    split at h
    · next spot hfind =>
      cases h
      obtain ⟨hspot, hdir⟩ := find_eq_ok.mp hfind
      rwa [← eq_spotOf_of_locate hspot]
    · cases h
    · dsimp only at h
      split at h
      · exact get?_of_makeDir h
      · obtain ⟨t₁, -, h⟩ := bind_eq_ok.mp h
        exact get?_of_makeDir h

/-- A directory that was made is where its path leads. -/
theorem get?_of_makeDirs (h : t.makeDirs path = .ok t') : t'.get? (spotOf path) = some .dir :=
  get?_of_makeDirsWithin h

/-- What is written somewhere else changes nothing at a path. -/
theorem find_of_write_of_ne {e e' : FileEntry β} {spot : Spot} {other : String}
    (h : t.write other e' = .ok t') (hne : spotOf other ≠ spot)
    (hfind : t.find path = .ok (spot, e)) : t'.find path = .ok (spot, e) := by
  refine (dirsWithin_of_write h).find hfind ?_
  obtain ⟨-, -, rfl⟩ := write_eq_ok h
  rw [get?_put_of_ne t (Ne.symm hne)]
  exact (find_eq_ok.mp hfind).2

theorem read_of_find {spot : Spot} {text : String} (h : t.find path = .ok (spot, .text text)) :
    t.read path = .ok (.text text) := by
  unfold read
  rw [stat_eq_ok.mpr h]
  rfl

end FileTree

/-! ## Writing one text -/

namespace FileOutcome

open FileTree

/-- The path that the new text of a file is written to with an output directory. -/
def outputPath (r : FileOutcome) (dir : String) : String := Path.join dir (Path.base r.filename)

/-- The new text of a file was written into a directory, which was made before. -/
def Written (r : FileOutcome) (dir : String) (files files' : Files) : Prop :=
  ∃ made, files.makeDirs dir = .ok made ∧
    made.write (r.outputPath dir) (.text r.source) = .ok files'

variable {r r' : FileOutcome} {dir path : String} {files files' : Files}

theorem Written.find (h : r.Written dir files files') :
    files'.find (r.outputPath dir) = .ok (spotOf (r.outputPath dir), .text r.source) := by
  obtain ⟨made, -, hwrite⟩ := h
  exact find_of_write hwrite

theorem Written.find_of_ne (h : r.Written dir files files') {spot : Spot} {e : FileEntry (Store.Records FileOutcome)}
    (hne : spotOf (r.outputPath dir) ≠ spot) (hfind : files.find path = .ok (spot, e)) :
    files'.find path = .ok (spot, e) := by
  obtain ⟨made, hmake, hwrite⟩ := h
  exact find_of_write_of_ne hwrite hne ((dirsAdded_makeDirs hmake).extends.find hfind)

/-- A text is not written in place of its directory, so only another one under the same name is
written to its place. -/
theorem Written.spotOf_ne (h : r.Written dir files files') (hdir : dir ≠ "")
    (hne : Path.base r'.filename ≠ Path.base r.filename) :
    spotOf (r'.outputPath dir) ≠ spotOf (r.outputPath dir) := by
  obtain ⟨made, hmake, hwrite⟩ := h
  refine fun heq => hne (base_eq_of_spotOf_join hdir ?_ heq)
  intro hplace
  obtain ⟨-, hfree, -⟩ := write_eq_ok hwrite
  exact hfree (hplace ▸ get?_of_makeDirs hmake)

/-- A text is written under the last name of its file, or nothing is new but directories. -/
theorem write_cases (r : FileOutcome) (hdir : dir ≠ "") (files : Files) :
    (∃ files', r.Written dir files files' ∧ r.write dir files = (.ok (r.outputPath dir), files')) ∨
      ∃ fault files', files.DirsAdded files' ∧ r.write dir files = (.error fault, files') := by
  unfold write
  rw [if_neg hdir]
  split
  · exact Or.inr ⟨_, files, .refl files, rfl⟩
  · next made hmake =>
    unfold write.put
    split
    · next files' hwrite => exact Or.inl ⟨files', ⟨made, hmake, hwrite⟩, rfl⟩
    · exact Or.inr ⟨_, made, dirsAdded_makeDirs hmake, rfl⟩

end FileOutcome

/-! ## Delivering texts -/

namespace CommandLine.Desk

open FileTree

variable {d d' : Desk} {o : Options} {r : FileOutcome} {results : List FileOutcome}

/-- What the delivery of an outcome into an output directory can do. -/
inductive Delivery (dir : String) (r : FileOutcome) : Desk → Desk → Prop
  /-- There is no new text. -/
  | nothing {d : Desk} (h : r.laidOut = 0) : Delivery dir r d d
  | written {d : Desk} {files : Files} (h : r.laidOut ≠ 0)
      (hfiles : r.Written dir d.work.files files) :
      Delivery dir r d { d with err := d.err ++ "wrote " ++ r.outputPath dir ++ "\n",
                                work := { d.work with files } }
  | failed {d : Desk} {files : Files} {message : String} {fields : List (String × String)}
      (h : r.laidOut ≠ 0) (hfiles : d.work.files.DirsAdded files) :
      Delivery dir r d ({ d with work := { d.work with files } }.tell .error message fields)

theorem delivery_deliver (hout : o.out ≠ "") (d : Desk) (r : FileOutcome) :
    Delivery o.out r d (d.deliver o r).1 := by
  unfold deliver
  rw [if_neg (by simp [hout])]
  split
  · next h => exact .nothing h
  · next h =>
    rcases r.write_cases hout d.work.files with ⟨files, hfiles, heq⟩ | ⟨fault, files, hfiles, heq⟩
    · rw [heq]
      exact .written h hfiles
    · rw [heq]
      exact .failed h hfiles

theorem Delivery.size_log_le {dir : String} (h : Delivery dir r d d') :
    d.work.log.size ≤ d'.work.log.size := by
  cases h with
  | nothing => exact Nat.le_refl _
  | written => exact Nat.le_refl _
  | failed => simp [tell]

/-- Where nothing is logged, a new text was written. -/
theorem Delivery.of_size_log {dir : String} (h : Delivery dir r d d')
    (hok : d'.work.log.size = d.work.log.size) : r.laidOut = 0 ∧ d' = d ∨
      r.laidOut ≠ 0 ∧ r.Written dir d.work.files d'.work.files ∧
        d'.err = d.err ++ "wrote " ++ r.outputPath dir ++ "\n" := by
  cases h with
  | nothing h => exact Or.inl ⟨h, rfl⟩
  | written h hfiles => exact Or.inr ⟨h, hfiles, rfl⟩
  | failed => simp [tell] at hok

/-- A text stays if the one that is delivered goes somewhere else. -/
theorem Delivery.find {dir path : String} {spot : Spot} {e : FileEntry (Store.Records FileOutcome)}
    (h : Delivery dir r d d') (hne : r.laidOut ≠ 0 → spotOf (r.outputPath dir) ≠ spot)
    (hfind : d.work.files.find path = .ok (spot, e)) : d'.work.files.find path = .ok (spot, e) := by
  cases h with
  | nothing => exact hfind
  | written h hfiles => exact hfiles.find_of_ne (hne h) hfind
  | failed h hfiles => exact hfiles.extends.find hfind

/-- What is told of outcomes with a new text when all of them are written. -/
def writtenLines (dir : String) (results : List FileOutcome) : String :=
  String.join ((results.filter (·.laidOut ≠ 0)).map fun r => "wrote " ++ r.outputPath dir ++ "\n")

theorem deliverAll_append (d : Desk) (o : Options) (before after : List FileOutcome) :
    (d.deliverAll o (before ++ after)).1 = ((d.deliverAll o before).1.deliverAll o after).1 := by
  induction before generalizing d with
  | nil => rfl
  | cons r before ih => exact ih (d.deliver o r).1

section Output

variable (hout : o.out ≠ "")

include hout

theorem size_log_le_deliverAll (d : Desk) (results : List FileOutcome) :
    d.work.log.size ≤ (d.deliverAll o results).1.work.log.size := by
  induction results generalizing d with
  | nil => exact Nat.le_refl _
  | cons r results ih => exact (delivery_deliver hout d r).size_log_le.trans (ih (d.deliver o r).1)

/-- A text stays through deliveries that go somewhere else. -/
theorem find_deliverAll {path : String} {spot : Spot} {e : FileEntry (Store.Records FileOutcome)}
    (hne : ∀ r ∈ results, r.laidOut ≠ 0 → spotOf (r.outputPath o.out) ≠ spot)
    (hfind : d.work.files.find path = .ok (spot, e)) :
    (d.deliverAll o results).1.work.files.find path = .ok (spot, e) := by
  induction results generalizing d with
  | nil => exact hfind
  | cons r results ih =>
    obtain ⟨hr, hresults⟩ := List.forall_mem_cons.mp hne
    exact ih hresults ((delivery_deliver hout d r).find hr hfind)

/-- Where nothing fails in all, neither the first delivery nor one of the others fails. -/
theorem size_log_cons (hok : (d.deliverAll o (r :: results)).1.work.log.size = d.work.log.size) :
    (d.deliver o r).1.work.log.size = d.work.log.size ∧
      ((d.deliver o r).1.deliverAll o results).1.work.log.size =
        (d.deliver o r).1.work.log.size := by
  have hfirst := (delivery_deliver hout d r).size_log_le
  have hothers := size_log_le_deliverAll hout (d.deliver o r).1 results
  exact ⟨Nat.le_antisymm (hothers.trans_eq hok) hfirst,
    Nat.le_antisymm (hok.trans_le hfirst) hothers⟩

/-- Where nothing fails, each new text is told of with its path, in order. -/
theorem err_deliverAll (hok : (d.deliverAll o results).1.work.log.size = d.work.log.size) :
    (d.deliverAll o results).1.err = d.err ++ writtenLines o.out results := by
  induction results generalizing d with
  | nil => simp [deliverAll, writtenLines]
  | cons r results ih =>
    obtain ⟨hfirst, hothers⟩ := size_log_cons hout hok
    have herr : (d.deliverAll o (r :: results)).1.err =
        (d.deliver o r).1.err ++ writtenLines o.out results := ih hothers
    rcases (delivery_deliver hout d r).of_size_log hfirst with ⟨hr, hsame⟩ | ⟨hr, -, htold⟩
    · rw [herr, hsame]
      simp [writtenLines, hr]
    · rw [herr, htold]
      simp [writtenLines, hr, String.append_assoc]

/-- Of the texts that are written under the same name the last one is found at its path. -/
theorem read_deliverAll {before after : List FileOutcome}
    (hok : (d.deliverAll o (before ++ r :: after)).1.work.log.size = d.work.log.size)
    (hr : r.laidOut ≠ 0)
    (hlast : ∀ r' ∈ after, r'.laidOut ≠ 0 → Path.base r'.filename ≠ Path.base r.filename) :
    (d.deliverAll o (before ++ r :: after)).1.work.files.read (r.outputPath o.out) =
      .ok (.text r.source) := by
  rw [deliverAll_append] at hok ⊢
  have hbefore := size_log_le_deliverAll hout d before
  generalize (d.deliverAll o before).1 = d₁ at hok hbefore ⊢
  have hafter := size_log_le_deliverAll hout d₁ (r :: after)
  obtain ⟨hfirst, -⟩ := size_log_cons hout (Nat.le_antisymm (hok.trans_le hbefore) hafter)
  rcases (delivery_deliver hout d₁ r).of_size_log hfirst with ⟨hnone, -⟩ | ⟨-, hwritten, -⟩
  · exact absurd hnone hr
  · refine read_of_find (find_deliverAll (d := (d₁.deliver o r).1) hout ?_ hwritten.find)
    exact fun r' hr' hnew => hwritten.spotOf_ne hout (hlast r' hr' hnew)

end Output

/-! ## Delivering what became of paths -/

/-- With an output directory, and where every text can be written: the paths of the new texts are
told in order, and each of those paths holds the text of the last file with that name. -/
theorem deliverBatch_written {batch : Batch} (hout : o.out ≠ "") (hdone : batch.fault = none)
    (hok : (d.deliverBatch o batch).1.work.log = d.work.log) :
    (d.deliverBatch o batch).1.err =
        d.err ++ writtenLines o.out batch.results ++ remarks batch.results ∧
      ∀ before r after, batch.results = before ++ r :: after → r.laidOut ≠ 0 →
        (∀ r' ∈ after, r'.laidOut ≠ 0 → Path.base r'.filename ≠ Path.base r.filename) →
        (d.deliverBatch o batch).1.work.files.read (r.outputPath o.out) = .ok (.text r.source) := by
  have heq : (d.deliverBatch o batch).1 =
      { (d.deliverAll o batch.results).1 with
        err := (d.deliverAll o batch.results).1.err ++ remarks batch.results } := by
    simp only [deliverBatch, hdone]
  rw [heq] at hok ⊢
  have hsize := congrArg Array.size hok
  refine ⟨congrArg (· ++ remarks batch.results) (err_deliverAll hout hsize), ?_⟩
  intro before r after hresults hr hlast
  rw [hresults] at hsize ⊢
  exact read_deliverAll hout hsize hr hlast

/-- The outcome of a file that has one function, with a new text. -/
def oneFunction (filename source : String) : FileOutcome :=
  { filename, funcs := some [{ name := "f", line := 3 }], source }

/-- A desk with no files and nothing on it. -/
def clear : Desk := { work := { patience := .unlimited, state := ((), {}) } }

/-- Two files with the same name in different directories, and another file. -/
def sameNames : Batch :=
  { results := [oneFunction "a/x.go" "A", oneFunction "a/y.go" "Y", oneFunction "b/x.go" "B"] }

theorem outputPath_sameNames :
    (oneFunction "a/x.go" "A").outputPath "gen" = "gen/x.go" ∧
      (oneFunction "a/y.go" "Y").outputPath "gen" = "gen/y.go" ∧
      (oneFunction "b/x.go" "B").outputPath "gen" = "gen/x.go" :=
  ⟨by decide, by decide, by decide⟩

theorem log_sameNames :
    (clear.deliverBatch { out := "gen" } sameNames).1.work.log = clear.work.log := by
  refine Array.eq_empty_of_size_eq_zero ?_
  decide +kernel

theorem deliverBatch_written_sameNames :
    (clear.deliverBatch { out := "gen" } sameNames).1.work.files.read "gen/x.go" =
        .ok (.text "B") ∧
      (clear.deliverBatch { out := "gen" } sameNames).1.work.files.read "gen/y.go" =
        .ok (.text "Y") := by
  obtain ⟨-, hread⟩ := @deliverBatch_written clear { out := "gen" } sameNames (by decide) rfl
    log_sameNames
  obtain ⟨-, hy, hx⟩ := outputPath_sameNames
  constructor
  · rw [← hx]
    exact hread [oneFunction "a/x.go" "A", oneFunction "a/y.go" "Y"] (oneFunction "b/x.go" "B") []
      rfl (by decide) (by simp)
  · rw [← hy]
    exact hread [oneFunction "a/x.go" "A"] (oneFunction "a/y.go" "Y") [oneFunction "b/x.go" "B"]
      rfl (by decide) (by decide)

/-- Different files are not all kept: two with the same last name are told of with the same path,
where the second one takes the place of the first. -/
theorem not_deliverBatch_keeps_all :
    ¬∀ (d : Desk) (o : Options) (batch : Batch), o.out ≠ "" → batch.fault = none →
      (batch.results.map (·.filename)).Nodup →
      (d.deliverBatch o batch).1.work.log = d.work.log →
      ∀ r ∈ batch.results, r.laidOut ≠ 0 →
        (d.deliverBatch o batch).1.work.files.read (r.outputPath o.out) =
          .ok (.text r.source) := by
  intro hall
  have hfirst := hall clear { out := "gen" } sameNames (by decide) rfl (by decide)
    log_sameNames (oneFunction "a/x.go" "A") List.mem_cons_self (by decide)
  have hlast := hall clear { out := "gen" } sameNames (by decide) rfl (by decide)
    log_sameNames (oneFunction "b/x.go" "B") (by simp [sameNames]) (by decide)
  -- One path cannot hold both texts.
  obtain ⟨hx, -, hx'⟩ := outputPath_sameNames
  rw [hx, ← hx', hlast] at hfirst
  simp [oneFunction] at hfirst

end CommandLine.Desk

end PathTree
