import Mathlib.Data.List.Perm.Basic
import Mathlib.Logic.Relation
import PathTree.Proofs.FileTrees
import PathTree.Proofs.RunsInStep
import PathTree.Proofs.SourceFiles

/-!
# Files that are treated at the same time

A pool treats files with several workers. A file that waits goes to a worker of its own, if not too
many are at work; workers treat their files and hand over what came out, in whatever order they get
there (`Pool.Step`). So there are many runs, and treating the files one after the other is one of
them (`Pool.walk_processFiles`).

Every file is in one place at a time : it waits, a worker has it, or it was handed over. The paths
of all of them stay those of the files that were given, up to their order, and what was handed over
is what the files come to (`Pool.Sound.step`). A run ends, since each step brings a file further
(`Pool.Step.left_lt`), and it ends only if nothing is left (`Pool.exists_step`). Outcomes are sorted
then, so nothing depends on the order in which workers got ready (`Treatment.processed`).
-/

namespace PathTree

variable {σ : Type}

/-! ## Pools -/

/-- A worker : the path of its file, and what came out once the file was treated. -/
structure Worker where
  path : String
  result : Option (Except RunFault FileOutcome) := none

/-- Files that are treated at the same time. -/
structure Pool (σ : Type) where
  waiting : List String
  workers : List Worker := []
  results : List FileOutcome := []
  faults : List RunFault := []
  /-- The files that were treated so far, in this order. -/
  treated : List String := []
  space : Workspace σ

namespace Pool

/-- One step of a pool in which so many workers may be at work. -/
inductive Step (treat : Treatment σ) (limit : Nat) : Pool σ → Pool σ → Prop
  /-- The next file goes to a worker. -/
  | start {p : Pool σ} {path : String} {rest : List String} {w : Workspace σ}
      (hwaiting : p.waiting = path :: rest) (hfree : p.workers.length < limit)
      (hask : effect Run.askOn p.space = (.ok (), w)) :
      Step treat limit p
        { p with waiting := rest, workers := p.workers ++ [⟨path, none⟩], space := w }
  /-- No more files are treated, since the caller does not want to wait. -/
  | giveUp {p : Pool σ} {path : String} {rest : List String} {fault : RunFault} {w : Workspace σ}
      (hwaiting : p.waiting = path :: rest)
      (hask : effect Run.askOn p.space = (.error fault, w)) :
      Step treat limit p { p with waiting := [], space := w }
  /-- A worker treats its file. -/
  | treat {p : Pool σ} {before after : List Worker} {path : String}
      {result : Except RunFault FileOutcome} {w : Workspace σ}
      (hworkers : p.workers = before ++ ⟨path, none⟩ :: after)
      (heffect : effect (treat path) p.space = (result, w)) :
      Step treat limit p
        { p with workers := before ++ ⟨path, some result⟩ :: after, treated := p.treated ++ [path],
                 space := w }
  /-- A worker hands over an outcome. -/
  | deliver {p : Pool σ} {before after : List Worker} {path : String} {r : FileOutcome}
      (hworkers : p.workers = before ++ ⟨path, some (.ok r)⟩ :: after) :
      Step treat limit p { p with workers := before ++ after, results := p.results ++ [r] }
  /-- A worker tells why there is no outcome. -/
  | fail {p : Pool σ} {before after : List Worker} {path : String} {fault : RunFault}
      (hworkers : p.workers = before ++ ⟨path, some (.error fault)⟩ :: after) :
      Step treat limit p
        { p with workers := before ++ after, faults := p.faults ++ [.during path fault],
                 space := ((Treatment.tellFault path fault).run p.space).2 }

/-- Steps of a pool, one after the other. -/
def Walk (treat : Treatment σ) (limit : Nat) : Pool σ → Pool σ → Prop :=
  Relation.ReflTransGen (Step treat limit)

/-- Nothing is left to do. -/
def IsDone (p : Pool σ) : Prop := p.waiting = [] ∧ p.workers = []

variable {treat : Treatment σ} {limit : Nat} {p q : Pool σ}

/-! ## Every run ends -/

/-- How many steps a worker has left. -/
def leftOf (worker : Worker) : Nat := if worker.result.isSome then 1 else 2

/-- How many steps are left. -/
def left (p : Pool σ) : Nat := 3 * p.waiting.length + (p.workers.map leftOf).sum

theorem Step.left_lt (h : Step treat limit p q) : q.left < p.left := by
  cases h with
  | start hwaiting hfree hask =>
    simp [left, hwaiting, leftOf]
    omega
  | giveUp hwaiting hask =>
    simp [left, hwaiting]
  | treat hworkers heffect =>
    simp [left, hworkers, leftOf]
  | deliver hworkers =>
    simp [left, hworkers, leftOf]
  | fail hworkers =>
    simp [left, hworkers, leftOf]

/-- No run goes on for ever. -/
theorem no_endless_run (f : Nat → Pool σ) : ¬∀ n, Step treat limit (f n) (f (n + 1)) := by
  intro h
  have hleft : ∀ n, (f n).left + n ≤ (f 0).left := by
    intro n
    induction n with
    | zero => exact Nat.le_refl _
    | succ n ih =>
      have := (h n).left_lt
      omega
  have := hleft ((f 0).left + 1)
  omega

/-- A run goes on as long as something is left. -/
theorem exists_step (hlimit : 0 < limit) (h : ¬p.IsDone) : ∃ q, Step treat limit p q := by
  cases hworkers : p.workers with
  | cons worker rest =>
    have hfirst : p.workers = [] ++ worker :: rest := hworkers
    obtain ⟨path, result⟩ := worker
    rcases result with _ | fault | r
    · exact ⟨_, .treat hfirst rfl⟩
    · exact ⟨_, .fail hfirst⟩
    · exact ⟨_, .deliver hfirst⟩
  | nil =>
    cases hwaiting : p.waiting with
    | nil => exact absurd ⟨hwaiting, hworkers⟩ h
    | cons path rest =>
      cases hask : effect Run.askOn p.space with
      | mk answer w =>
        cases answer with
        | ok _ => exact ⟨_, .start hwaiting (by simpa [hworkers] using hlimit) hask⟩
        | error fault => exact ⟨_, .giveUp hwaiting hask⟩

/-- A run has come to its end exactly if nothing is left. -/
theorem isDone_iff (hlimit : 0 < limit) : p.IsDone ↔ ∀ q, ¬Step treat limit p q := by
  refine ⟨fun ⟨hwaiting, hworkers⟩ q hstep => ?_, fun h => Classical.byContradiction fun hdone => ?_⟩
  · cases hstep with
    | start hcons => simp [hwaiting] at hcons
    | giveUp hcons => simp [hwaiting] at hcons
    | treat hmem => simp [hworkers] at hmem
    | deliver hmem => simp [hworkers] at hmem
    | fail hmem => simp [hworkers] at hmem
  · obtain ⟨q, hq⟩ := exists_step hlimit hdone
    exact h q hq

end Pool

/-! ## What files come to -/

/-- What comes out for a file is determined by its path, in all workspaces that are fit : it is an
outcome under the path, or a fault. Workspaces stay fit when files are treated and when something is
logged, and the caller waits for ever. -/
structure Treatment.DeterminedBy (treat : Treatment σ)
    (answer : String → Except RunFault FileOutcome) (fit : Workspace σ → Prop) : Prop where
  gives : ∀ w path, fit w → (effect (treat path) w).1 = answer path
  named : ∀ path r, answer path = .ok r → r.filename = path
  stays : ∀ w path, fit w → fit (effect (treat path) w).2
  logs : ∀ w log, fit w → fit { w with log := log }
  waits : ∀ w, fit w → w.patience = .unlimited

variable {answer : String → Except RunFault FileOutcome} {fit : Workspace σ → Prop}

/-- The outcomes of files. -/
def outcomes (answer : String → Except RunFault FileOutcome) (paths : List String) :
    List FileOutcome :=
  paths.filterMap fun path => (answer path).toOption

/-- Why files have no outcomes, one cause for each of them. -/
def failures (answer : String → Except RunFault FileOutcome) (paths : List String) :
    List RunFault :=
  paths.filterMap fun path => (failure? (answer path)).map (.during path)

theorem effect_askOn_of_unlimited {w : Workspace σ} (h : w.patience = .unlimited) :
    effect Run.askOn w = (.ok (), w) := by
  rw [effect_askOn, h]
  simp only [Patience.ask, Except.mapError, Prod.mk.injEq, true_and]
  rw [← h]

namespace Pool

variable {treat : Treatment σ} {limit : Nat} {p q : Pool σ} {files done : List String}

/-- Files that were handed over are accounted for, and so are those that wait and those that workers
have. -/
structure Sound (answer : String → Except RunFault FileOutcome) (fit : Workspace σ → Prop)
    (files : List String) (p : Pool σ) (done : List String) : Prop where
  paths : (p.waiting ++ (p.workers.map (·.path) ++ done)).Perm files
  treated : p.treated.Perm ((p.workers.filter (·.result.isSome)).map (·.path) ++ done)
  held : ∀ worker ∈ p.workers, ∀ result, worker.result = some result → result = answer worker.path
  results : p.results = outcomes answer done
  faults : p.faults = failures answer done
  fit : fit p.space

/-- A worker hands over what came out. -/
theorem Sound.handOver (h : p.Sound answer fit files done) {before after : List Worker}
    {path : String} {result : Except RunFault FileOutcome}
    (hworkers : p.workers = before ++ ⟨path, some result⟩ :: after) :
    result = answer path ∧
      (p.waiting ++ ((before ++ after).map (·.path) ++ (done ++ [path]))).Perm files ∧
      p.treated.Perm
        (((before ++ after).filter (·.result.isSome)).map (·.path) ++ (done ++ [path])) ∧
      ∀ worker ∈ before ++ after, ∀ result, worker.result = some result →
        result = answer worker.path := by
  have hmem : ∀ worker ∈ before ++ after, worker ∈ p.workers := by
    intro worker hworker
    rw [hworkers]
    exact (List.sublist_cons_self _ after).append_left before |>.subset hworker
  refine ⟨h.held ⟨path, some result⟩ (by simp [hworkers]) result rfl, ?_, ?_,
    fun worker hworker => h.held worker (hmem worker hworker)⟩
  · refine List.Perm.trans ?_ h.paths
    rw [hworkers, List.perm_iff_count]
    intro path'
    simp only [List.map_append, List.map_cons, List.count_append, List.count_cons, List.count_nil]
    omega
  · refine h.treated.trans ?_
    rw [hworkers, List.perm_iff_count]
    intro path'
    simp only [List.filter_append, List.filter_cons_of_pos, Option.isSome_some, List.map_append,
      List.map_cons, List.count_append, List.count_cons, List.count_nil]
    omega

/-- A step leaves all files accounted for. -/
theorem Sound.step (hd : treat.DeterminedBy answer fit) (h : p.Sound answer fit files done)
    (hstep : Step treat limit p q) : ∃ done', q.Sound answer fit files done' := by
  cases hstep with
  | @start path rest w hwaiting hfree hask =>
    rw [effect_askOn_of_unlimited (hd.waits _ h.fit)] at hask
    cases hask
    refine ⟨done, ?_, ?_, ?_, h.results, h.faults, h.fit⟩
    · refine List.Perm.trans ?_ h.paths
      rw [hwaiting, List.perm_iff_count]
      intro path'
      simp only [List.map_append, List.map_cons, List.map_nil, List.count_append, List.count_cons,
        List.count_nil]
      omega
    · simpa using h.treated
    · simpa [or_imp, forall_and] using h.held
  | giveUp hwaiting hask =>
    rw [effect_askOn_of_unlimited (hd.waits _ h.fit)] at hask
    cases hask
  | @treat before after path result w hworkers heffect =>
    have hgives := hd.gives p.space path h.fit
    have hstays := hd.stays p.space path h.fit
    rw [heffect] at hgives hstays
    refine ⟨done, ?_, ?_, ?_, h.results, h.faults, hstays⟩
    · simpa [hworkers] using h.paths
    · refine (h.treated.append_right [path]).trans ?_
      rw [hworkers, List.perm_iff_count]
      intro path'
      simp only [List.filter_append, List.filter_cons_of_pos, List.filter_cons_of_neg,
        Option.isSome_some, Option.isSome_none, Bool.false_eq_true, not_false_eq_true,
        List.map_append, List.map_cons, List.count_append, List.count_cons, List.count_nil]
      omega
    · intro worker hworker result' hresult
      rcases List.mem_append.mp hworker with hworker | hworker
      · exact h.held worker (by simp [hworkers, hworker]) result' hresult
      · rcases List.mem_cons.mp hworker with rfl | hworker
        · cases hresult
          exact hgives
        · exact h.held worker (by simp [hworkers, hworker]) result' hresult
  | @deliver before after path r hworkers =>
    obtain ⟨hanswer, hpaths, htreated, hheld⟩ := h.handOver hworkers
    refine ⟨done ++ [path], hpaths, htreated, hheld, ?_, ?_, h.fit⟩
    · simp [outcomes, h.results, ← hanswer, Except.toOption]
    · simp [failures, h.faults, ← hanswer, failure?]
  | @fail before after path fault hworkers =>
    obtain ⟨hanswer, hpaths, htreated, hheld⟩ := h.handOver hworkers
    refine ⟨done ++ [path], hpaths, htreated, hheld, ?_, ?_, hd.logs _ _ h.fit⟩
    · simp [outcomes, h.results, ← hanswer, Except.toOption]
    · simp [failures, h.faults, ← hanswer, failure?]

/-- A run leaves all files accounted for. -/
theorem Sound.walk (hd : treat.DeterminedBy answer fit) (h : p.Sound answer fit files done)
    (hwalk : Walk treat limit p q) : ∃ done', q.Sound answer fit files done' := by
  induction hwalk with
  | refl => exact ⟨done, h⟩
  | tail _ hstep ih =>
    obtain ⟨done', h'⟩ := ih
    exact h'.step hd hstep

theorem sound_start {w : Workspace σ} (hw : fit w) (files : List String) :
    Sound answer fit files { waiting := files, space := w } [] where
  paths := by simp
  treated := by simp
  held := by simp
  results := rfl
  faults := rfl
  fit := hw

end Pool

/-! ## One after the other -/

/-- Treating files one after the other, file by file. -/
theorem Treatment.run_processFiles_cons (treat : Treatment σ) (path : String) (rest : List String)
    (w : Workspace σ) : (processFiles treat (path :: rest)).run w =
      match effect Run.askOn w with
      | (.error _, w) => (([], []), w)
      | (.ok _, w) =>
        match effect (treat path) w with
        | (.ok r, w) =>
          let out := (processFiles treat rest).run w
          ((r :: out.1.1, out.1.2), out.2)
        | (.error fault, w) =>
          let out := (processFiles treat rest).run ((tellFault path fault).run w).2
          ((out.1.1, .during path fault :: out.1.2), out.2) := by
  rw [processFiles]
  simp only [effect, Run.attempt, StateT.run_bind]
  rcases hask : (StateT.run (ExceptT.run Run.askOn) w) with ⟨fault | _, w₁⟩
  · rfl
  · rcases htreat : (StateT.run (ExceptT.run (treat path)) w₁) with ⟨fault | r, w₂⟩
    all_goals
      simp only [StateT.run] at htreat
      simp only [Bind.bind, StateT.bind, StateT.run, Id.run, htreat]
      rfl

/-- A pool whose workers are idle treats the next file. -/
theorem Pool.walk_next {treat : Treatment σ} {limit : Nat} (hlimit : 0 < limit) {p : Pool σ}
    {path : String} {rest : List String} {result : Except RunFault FileOutcome}
    {w₁ w₂ : Workspace σ} (hwaiting : p.waiting = path :: rest) (hworkers : p.workers = [])
    (hask : effect Run.askOn p.space = (.ok (), w₁))
    (htreat : effect (treat path) w₁ = (result, w₂)) :
    Walk treat limit p
      { p with waiting := rest, workers := [] ++ ⟨path, some result⟩ :: [],
               treated := p.treated ++ [path], space := w₂ } := by
  have hstart : Step treat limit p
      { p with waiting := rest, workers := p.workers ++ [⟨path, none⟩], space := w₁ } :=
    .start hwaiting (by simpa [hworkers] using hlimit) hask
  refine Relation.ReflTransGen.head hstart (.single ?_)
  have hone : p.workers ++ [⟨path, none⟩] = [] ++ ⟨path, none⟩ :: [] := by simp [hworkers]
  exact .treat hone htreat

/-- Treating files one after the other is a run of a pool. -/
theorem Pool.walk_processFiles {treat : Treatment σ} {limit : Nat} (hlimit : 0 < limit)
    (files : List String) (p : Pool σ) (hwaiting : p.waiting = files) (hworkers : p.workers = []) :
    ∃ q, Walk treat limit p q ∧ q.IsDone ∧
      q.results = p.results ++ ((treat.processFiles files).run p.space).1.1 ∧
      q.faults = p.faults ++ ((treat.processFiles files).run p.space).1.2 ∧
      q.space = ((treat.processFiles files).run p.space).2 := by
  induction files generalizing p with
  | nil =>
    exact ⟨p, .refl, ⟨hwaiting, hworkers⟩, (List.append_nil _).symm, (List.append_nil _).symm, rfl⟩
  | cons path rest ih =>
    rw [Treatment.run_processFiles_cons]
    rcases hask : effect Run.askOn p.space with ⟨fault | _, w₁⟩
    · exact ⟨_, .single (.giveUp hwaiting hask), ⟨rfl, hworkers⟩, (List.append_nil _).symm,
        (List.append_nil _).symm, rfl⟩
    · dsimp only
      rcases htreat : effect (treat path) w₁ with ⟨fault | r, w₂⟩
      · have hnext := walk_next hlimit hwaiting hworkers hask htreat
        obtain ⟨q, hwalk, hdone, hresults, hfaults, hspace⟩ := ih
          { p with waiting := rest, workers := [] ++ [], faults := p.faults ++ [.during path fault],
                   treated := p.treated ++ [path],
                   space := ((Treatment.tellFault path fault).run w₂).2 } rfl rfl
        refine ⟨q, (hnext.tail (.fail rfl)).trans hwalk, hdone, hresults, ?_, hspace⟩
        rw [hfaults, List.append_assoc]
        rfl
      · have hnext := walk_next hlimit hwaiting hworkers hask htreat
        obtain ⟨q, hwalk, hdone, hresults, hfaults, hspace⟩ := ih
          { p with waiting := rest, workers := [] ++ [], results := p.results ++ [r],
                   treated := p.treated ++ [path], space := w₂ } rfl rfl
        refine ⟨q, (hnext.tail (.deliver rfl)).trans hwalk, hdone, ?_, hfaults, hspace⟩
        rw [hresults, List.append_assoc]
        rfl

/-! ## Batches -/

/-- A batch has the outcomes of all files that have one, in the order of their names, and one cause
for each of the others. -/
structure Batch.Comprises (answer : String → Except RunFault FileOutcome) (paths : List String)
    (batch : Batch) : Prop where
  results : batch.results = (outcomes answer paths).mergeSort Treatment.outcomeLe
  sorted : batch.results.Pairwise fun r r' => r.filename < r'.filename
  mem_results : ∀ r, r ∈ batch.results ↔ ∃ path ∈ paths, answer path = .ok r
  fault :
    match batch.fault with
    | none => failures answer paths = []
    | some fault =>
      ∃ causes, fault = .several causes ∧ causes ≠ [] ∧ causes.Perm (failures answer paths)

theorem mem_outcomes {paths : List String} {r : FileOutcome} :
    r ∈ outcomes answer paths ↔ ∃ path ∈ paths, answer path = .ok r := by
  have hok (path : String) : (answer path).toOption = some r ↔ answer path = .ok r := by
    cases answer path <;> simp [Except.toOption]
  simp [outcomes, hok]

namespace Treatment

theorem outcomeLe_iff {a b : FileOutcome} :
    outcomeLe a b = true ↔ a.filename ≤ b.filename := by
  rw [outcomeLe, Table.nameLe, Bool.not_eq_true', decide_eq_false_iff_not]
  exact String.not_lt

theorem pairwise_mergeSort_outcomeLe (l : List FileOutcome) :
    (l.mergeSort outcomeLe).Pairwise fun a b => outcomeLe a b = true := by
  refine List.pairwise_mergeSort (fun a b c hab hbc => ?_) (fun a b => ?_) l
  · rw [outcomeLe_iff] at *
    exact String.le_trans hab hbc
  · rw [Bool.or_eq_true, outcomeLe_iff, outcomeLe_iff]
    exact String.le_total _ _

section Sorted

variable (hnamed : ∀ path r, answer path = .ok r → r.filename = path) {paths done : List String}

include hnamed

/-- The order of the files has no influence on the outcomes once these are sorted. -/
theorem mergeSort_outcomes_perm (h : done.Perm paths) :
    (outcomes answer done).mergeSort outcomeLe = (outcomes answer paths).mergeSort outcomeLe := by
  refine List.Perm.eq_of_pairwise (fun a b ha hb hab hba => ?_) (pairwise_mergeSort_outcomeLe _)
    (pairwise_mergeSort_outcomeLe _) ?_
  · -- Outcomes under one name are those of one file.
    rw [List.mem_mergeSort, mem_outcomes] at ha hb
    rw [outcomeLe_iff] at hab hba
    obtain ⟨path, -, ha⟩ := ha
    obtain ⟨path', -, hb⟩ := hb
    have hsame := String.le_antisymm hab hba
    rw [hnamed path a ha, hnamed path' b hb] at hsame
    rw [hsame] at ha
    exact Except.ok.inj (ha.symm.trans hb)
  · exact (List.mergeSort_perm _ _).trans
      ((h.filterMap _).trans (List.mergeSort_perm _ _).symm)

/-- Outcomes of different files are sorted strictly. -/
theorem pairwise_lt_mergeSort_outcomes (hpaths : paths.Nodup) :
    ((outcomes answer paths).mergeSort outcomeLe).Pairwise fun r r' => r.filename < r'.filename := by
  have hne : ((outcomes answer paths).mergeSort outcomeLe).Pairwise
      fun r r' => r.filename ≠ r'.filename := by
    rw [(List.mergeSort_perm _ _).pairwise_iff fun h => Ne.symm h, outcomes, List.pairwise_filterMap]
    refine hpaths.imp fun hne r hr r' hr' => ?_
    have hok {path : String} {r : FileOutcome} (h : (answer path).toOption = some r) :
        r.filename = path := by
      cases ha : answer path with
      | error f => simp [ha, Except.toOption] at h
      | ok r' =>
        rw [ha] at h
        cases h
        exact hnamed path r ha
    rwa [hok hr, hok hr']
  refine ((pairwise_mergeSort_outcomeLe _).and hne).imp fun ⟨hle, hne⟩ => ?_
  rw [outcomeLe_iff] at hle
  exact Decidable.by_contra fun hlt => hne (String.le_antisymm hle (String.not_lt.mp hlt))

end Sorted

theorem run_conclude {w : Workspace σ} (hw : w.patience = .unlimited) (results : List FileOutcome)
    (faults : List RunFault) : (conclude results faults).run w =
      (⟨results.mergeSort outcomeLe, if faults.isEmpty then none else some (.several faults)⟩, w) := by
  have hask : StateT.run (ExceptT.run Run.askOn) w = (.ok (), w) := effect_askOn_of_unlimited hw
  simp only [conclude, Run.attempt, StateT.run_bind, hask]
  rfl

/-- The sources below a directory are treated, and their outcomes are put together. -/
theorem run_processPath (treat : Treatment σ) {w : Workspace σ} {root : String} {spot : Spot}
    (hdir : w.files.stat "stat" root = .ok (spot, .dir)) : (processPath treat root).run w =
      let out := (processFiles treat (w.files.sourcesBelow root spot)).run w
      (conclude out.1.1 out.1.2).run out.2 := by
  simp only [processPath, StateT.run_bind, StateT.run_get]
  rw [show (pure (w, w) : Id (Workspace σ × Workspace σ)) = (w, w) from rfl]
  simp only [Bind.bind, hdir]
  rfl

end Treatment

/-- A pool with so many workers has come to its end. -/
def Pool.Ends (treat : Treatment σ) (limit : Nat) (files : List String) (w : Workspace σ)
    (p : Pool σ) : Prop :=
  Walk treat limit { waiting := files, space := w } p ∧ ∀ q, ¬Step treat limit p q

/-- What comes out of a pool that has handed over all files. -/
theorem Pool.Sound.comprises {treat : Treatment σ} (hd : treat.DeterminedBy answer fit)
    {p : Pool σ} {files done : List String} (h : p.Sound answer fit files done)
    (hdone : p.IsDone) (hfiles : files.Nodup) :
    p.treated.Perm files ∧ ∃ batch,
      (Treatment.conclude p.results p.faults).run p.space = (batch, p.space) ∧
        batch.Comprises answer files := by
  obtain ⟨hwaiting, hworkers⟩ := hdone
  have hperm : done.Perm files := by simpa [hwaiting, hworkers] using h.paths
  have hfailures : (failures answer done).Perm (failures answer files) := hperm.filterMap _
  have hresults := Treatment.mergeSort_outcomes_perm hd.named hperm
  refine ⟨?_, _, Treatment.run_conclude (hd.waits _ h.fit) _ _, ?_, ?_, ?_, ?_⟩
  · exact List.Perm.trans (by simpa [hworkers] using h.treated) hperm
  · rw [h.results, hresults]
  · rw [h.results, hresults]
    exact Treatment.pairwise_lt_mergeSort_outcomes hd.named hfiles
  · intro r
    rw [h.results, hresults, List.mem_mergeSort, mem_outcomes]
  · rw [h.faults]
    by_cases hnone : failures answer done = []
    · rw [hnone] at hfailures ⊢
      exact hfailures.nil_eq.symm
    · simp only [List.isEmpty_iff, hnone, if_false]
      exact ⟨_, rfl, hnone, hfailures⟩

/-- The sources below a directory are treated by several workers, whatever order these get ready in.
The sources are the files with a name that ends in `.go` but not in `_test.go`, apart from those in
directories that are hidden or for test data. Every run ends. Then each of these files was treated
once, and no others; what comes out has the outcomes of those that have one, sorted strictly by their
names and the same for all runs, and one cause for each of the others. Treating the files one after
the other is such a run. -/
theorem Treatment.processed {treat : Treatment σ} (hd : treat.DeterminedBy answer fit)
    {w : Workspace σ} (hw : fit w) (htree : w.files.IsTree) {root : String} {spot : Spot}
    (hdir : w.files.stat "stat" root = .ok (spot, .dir)) {limit : Nat} (hlimit : 0 < limit) :
    (∀ f : Nat → Pool σ, ¬∀ n, Pool.Step treat limit (f n) (f (n + 1))) ∧
      ∃ places : List Spot, places.Nodup ∧ (∀ names, names ∈ places ↔ w.files.IsSource spot names) ∧
        (places.map (FileTree.pathBelow root)).Nodup ∧
        (∀ p, Pool.Ends treat limit (w.files.sourcesBelow root spot) w p →
          p.treated.Perm (places.map (FileTree.pathBelow root)) ∧
            ∃ batch, (conclude p.results p.faults).run p.space = (batch, p.space) ∧
              batch.Comprises answer (places.map (FileTree.pathBelow root))) ∧
        ∃ p, Pool.Ends treat limit (w.files.sourcesBelow root spot) w p ∧
          (processPath treat root).run w = (conclude p.results p.faults).run p.space := by
  have hroot : root ≠ "" := by
    rintro rfl
    cases hdir
  obtain ⟨places, hnodup, hmem, hpaths, hdistinct⟩ := htree.exists_places hroot spot
  rw [hpaths] at hdistinct ⊢
  refine ⟨Pool.no_endless_run, places, hnodup, hmem, hdistinct, fun p hp => ?_, ?_⟩
  · obtain ⟨done, hsound⟩ := (Pool.sound_start hw _).walk hd hp.1
    exact hsound.comprises hd ((Pool.isDone_iff hlimit).mpr hp.2) hdistinct
  · obtain ⟨p, hwalk, hdone, hresults, hfaults, hspace⟩ := Pool.walk_processFiles hlimit _
      { waiting := places.map (FileTree.pathBelow root), space := w } rfl rfl
    refine ⟨p, ⟨hwalk, (Pool.isDone_iff hlimit).mp hdone⟩, ?_⟩
    rw [run_processPath treat hdir, hpaths, hresults, hfaults, hspace]
    rfl

/-- The treatment that gives known answers. -/
def Treatment.answering (answer : String → Except RunFault FileOutcome) : Treatment Unit :=
  fun path => ExceptT.mk (pure (answer path))

/-- One file fails. -/
def mixedAnswers (path : String) : Except RunFault FileOutcome :=
  if path = "d/b.go" then .error (.notSource "b") else .ok { filename := path }

/-- A directory with two sources, a test and a hidden directory. -/
def mixedFiles : Files :=
  ⟨[(["d"], .dir), (["d", "b.go"], .text ""), (["d", "a.go"], .text ""),
    (["d", "a_test.go"], .text ""), (["d", ".h"], .dir), (["d", ".h", "c.go"], .text "")]⟩

theorem isTree_mixedFiles : mixedFiles.IsTree := by
  refine ⟨by decide, ?_⟩
  unfold Path.IsName
  decide

theorem isSource_mixedFiles {names : Spot} :
    mixedFiles.IsSource ["d"] names ↔ names ∈ [["a.go"], ["b.go"]] := by
  constructor
  · rintro ⟨dirs, name, rfl, ⟨e, hget, hdir⟩, ⟨hgo, htest⟩, hdirs⟩
    have hentry := (isTree_mixedFiles.mem_entries (by simp)).mpr hget
    cases dirs with
    | nil =>
      have hname : name = "b.go" ∧ e = .text "" ∨ name = "a.go" ∧ e = .text "" ∨
          name = "a_test.go" ∧ e = .text "" ∨ name = ".h" ∧ e = .dir := by
        simpa [mixedFiles] using hentry
      rcases hname with ⟨rfl, -⟩ | ⟨rfl, -⟩ | ⟨rfl, -⟩ | ⟨-, rfl⟩
      · simp
      · simp
      · exact absurd (by decide) htest
      · cases hdir
    | cons dir dirs =>
      obtain ⟨⟨rfl, -⟩, -⟩ : (dir = ".h" ∧ dirs ++ [name] = ["c.go"]) ∧ e = .text "" := by
        simpa [mixedFiles] using hentry
      exact absurd (by decide) (hdirs ".h" List.mem_cons_self).2
  · intro h
    rcases List.mem_pair.mp h with rfl | rfl
    · exact ⟨[], "a.go", rfl, ⟨.text "", rfl, rfl⟩, ⟨by decide, by decide⟩, by simp⟩
    · exact ⟨[], "b.go", rfl, ⟨.text "", rfl, rfl⟩, ⟨by decide, by decide⟩, by simp⟩

theorem Treatment.processed_mixed :
    ∃ p, Pool.Ends (answering mixedAnswers) 2 (mixedFiles.sourcesBelow "d" ["d"])
        { patience := .unlimited, state := (), files := mixedFiles } p ∧
      p.treated.Perm ["d/a.go", "d/b.go"] ∧
      (processPath (answering mixedAnswers) "d").run
          { patience := .unlimited, state := (), files := mixedFiles } =
        (⟨[{ filename := "d/a.go" }], some (.several [.during "d/b.go" (.notSource "b")])⟩,
          p.space) := by
  have hd : (answering mixedAnswers).DeterminedBy mixedAnswers fun w => w.patience = .unlimited := by
    refine ⟨fun _ _ _ => rfl, fun path r h => ?_, fun _ _ h => h, fun _ _ h => h, fun _ h => h⟩
    unfold mixedAnswers at h
    split at h
    · cases h
    · cases h
      rfl
  have hdir : mixedFiles.stat "stat" "d" = .ok (["d"], .dir) := rfl
  have hlimit : 0 < 2 := by decide
  obtain ⟨-, places, hnodup, hmem, -, hends, p, hp, hrun⟩ := processed
    (w := { patience := .unlimited, state := (), files := mixedFiles }) hd rfl isTree_mixedFiles
    hdir hlimit
  have hplaces : places.Perm [["a.go"], ["b.go"]] :=
    (List.perm_ext_iff_of_nodup hnodup (by decide)).mpr fun names =>
      (hmem names).trans isSource_mixedFiles
  have hpaths : (places.map (FileTree.pathBelow "d")).Perm ["d/a.go", "d/b.go"] :=
    (hplaces.map _).trans (List.Perm.of_eq (by decide))
  obtain ⟨htreated, ⟨results, fault⟩, hbatch, hcomprises⟩ := hends p hp
  refine ⟨p, hp, htreated.trans hpaths, ?_⟩
  have hresults : results = [{ filename := "d/a.go" }] := by
    rw [← List.perm_singleton, show results = _ from hcomprises.results]
    exact (List.mergeSort_perm _ _).trans (hpaths.filterMap _)
  have hfailures : (failures mixedAnswers (places.map (FileTree.pathBelow "d"))).Perm
      [.during "d/b.go" (.notSource "b")] := hpaths.filterMap _
  have hfault := hcomprises.fault
  cases fault with
  | none =>
    rw [show failures mixedAnswers _ = [] from hfault] at hfailures
    cases hfailures.nil_eq
  | some fault =>
    obtain ⟨causes, rfl, -, hcauses⟩ := hfault
    rw [hrun, hbatch, hresults, List.perm_singleton.mp (hcauses.trans hfailures)]

end PathTree
