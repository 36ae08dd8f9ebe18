import PathTree.Proofs.Resumption
import PathTree.Proofs.StoredResults

/-!
# Withdrawn requests

A request that is withdrawn while a text is worked out leaves nothing behind that a later run could
notice. A search that its caller does not wait for fails (`Bounds.search_yields`), its answer is not
remembered, and the failure ends the run without an outcome that could be stored.

What is remembered then is a part of what the whole run would remember (`Memo.Within`). So a run on
the same text that starts from there is in step with a run that starts with nothing
(`Engine.workOut_of_within`), and `Engine.runSource_withdrawn` compares the runs.
-/

namespace PathTree

namespace Engine

variable {e : Engine Settings.SolverState}

/-- A text is worked out from a part of what is remembered in the end : the outcome is that of the
run alone, or the caller was not willing to wait. -/
theorem workOut_of_within {b : Bounds} (he : e.solver = Solver.memo Digest.ofText (.bounded b))
    (filename src : String) {w : Workspace Settings.SolverState}
    (hw : w.state.2.Within (e.remembered filename src)) :
    (effect (e.workOut filename src) w).2.rest = w.rest ∧
      (effect (e.workOut filename src) w).2.state.2.Within (e.remembered filename src) ∧
      ((effect (e.workOut filename src) w).1 = (e.alone filename src).1 ∨
        ∃ n why, w.patience = .times n why ∧
          (effect (e.workOut filename src) w).1 = .error (.stopped why.fault)) := by
  obtain ⟨hrest, hmemo, hres⟩ := workOut_resumed he filename src fun _ _ _ ha => hw _ _ _ ha
  exact ⟨hrest, fun hash key a ha => (hmemo hash key a ha).elim (hw hash key a) id, hres⟩

/-- What a run gives that is waited for : what it finds, or else what the run alone gives. -/
def awaited (e : Engine Settings.SolverState) (filename src : String)
    (store : Option (Store FileOutcome)) (now : Int) : Except RunFault FileOutcome :=
  match found filename (Store.keyOf src e.salt) store now with
  | some r => .ok r
  | none => (e.alone filename src).1

section Awaited

variable {b : Bounds} (he : e.solver = Solver.memo Digest.ofText (.bounded b))
  {filename src : String} {w : Workspace Settings.SolverState}
  (hw : w.state.2.Within (e.remembered filename src))

include he hw

/-- A run that finds nothing fails and stores nothing, or it gives the outcome of the run alone and
stores it. It fails as the run alone does, or since the caller was not willing to wait. -/
theorem runSource_of_none
    (hfound : found filename (Store.keyOf src e.salt) w.store w.now = none) :
    ∃ w' : Workspace Settings.SolverState,
      w'.rest = (lookedUp filename (Store.keyOf src e.salt) w).rest ∧
      w'.state.2.Within (e.remembered filename src) ∧
      ((∃ f, effect (e.runSource filename src) w = (.error f, w') ∧
          ((e.alone filename src).1 = .error f ∨
            ∃ n why, w.patience = .times n why ∧ f = .stopped why.fault)) ∨
        ∃ r, (e.alone filename src).1 = .ok r ∧
          effect (e.runSource filename src) w =
            (.ok r, e.rememberIn filename (Store.keyOf src e.salt) r w')) := by
  obtain ⟨hrest, hmemo, hres⟩ := workOut_of_within he filename src
    (w := lookedUp filename (Store.keyOf src e.salt) w) hw
  rcases heffect : effect (e.workOut filename src)
    (lookedUp filename (Store.keyOf src e.salt) w) with ⟨f | r, w'⟩
  · rw [heffect] at hrest hmemo hres
    refine ⟨w', hrest, hmemo, Or.inl ⟨f, effect_runSource_of_error hfound heffect, ?_⟩⟩
    rcases hres with hres | ⟨n, why, hp, hres⟩
    · exact Or.inl hres.symm
    · cases hres
      exact Or.inr ⟨n, why, hp, rfl⟩
  · rw [heffect] at hrest hmemo hres
    refine ⟨w', hrest, hmemo, Or.inr ⟨r, ?_, effect_runSource_of_ok hfound heffect⟩⟩
    rcases hres with hres | ⟨n, why, -, hres⟩
    · exact hres.symm
    · cases hres

/-- A run gives what is awaited, or the caller was not willing to wait, and then nothing was
stored. -/
theorem runSource_eq :
    (effect (e.runSource filename src) w).1 = e.awaited filename src w.store w.now ∨
      ∃ n why, w.patience = .times n why ∧
        (effect (e.runSource filename src) w).1 = .error (.stopped why.fault) ∧
        (effect (e.runSource filename src) w).2.rest =
          (lookedUp filename (Store.keyOf src e.salt) w).rest := by
  cases hfound : found filename (Store.keyOf src e.salt) w.store w.now with
  | some r =>
    rw [effect_runSource_of_found hfound, awaited, hfound]
    exact Or.inl rfl
  | none =>
    obtain ⟨w', hrest, -, ⟨f, hrun, hres | ⟨n, why, hp, rfl⟩⟩ | ⟨r, hres, hrun⟩⟩ :=
      runSource_of_none he hw hfound
    · rw [hrun, awaited, hfound]
      exact Or.inl hres.symm
    · rw [hrun]
      exact Or.inr ⟨n, why, hp, rfl, hrest⟩
    · rw [hrun, awaited, hfound]
      exact Or.inl hres.symm

theorem runSource_of_unlimited (hp : w.patience = .unlimited) :
    (effect (e.runSource filename src) w).1 = e.awaited filename src w.store w.now := by
  rcases runSource_eq he hw with h | ⟨n, why, hn, -⟩
  · exact h
  · rw [hp] at hn
    cases hn

/-- What is awaited from a later run is what was awaited before, however the run ended, and what is
remembered is still a part of what the run alone remembers. -/
theorem awaited_after {now : Int} (hnow : w.now ≤ now) :
    e.awaited filename src (effect (e.runSource filename src) w).2.store now =
        e.awaited filename src w.store now ∧
      (effect (e.runSource filename src) w).2.state.2.Within (e.remembered filename src) := by
  cases hfound : found filename (Store.keyOf src e.salt) w.store w.now with
  | some r =>
    rw [effect_runSource_of_found hfound]
    exact ⟨by rw [lookedUp_of_found hfound], hw⟩
  | none =>
    have hold : e.awaited filename src w.store now = (e.alone filename src).1 := by
      simp only [awaited, found_later hfound hnow]
    obtain ⟨w', hrest, hmemo, ⟨f, hrun, -⟩ | ⟨r, hres, hrun⟩⟩ := runSource_of_none he hw hfound
    · -- The run failed, and nothing was stored.
      have hstore : w'.store = (lookedUp filename (Store.keyOf src e.salt) w).store :=
        congrArg (·.2.1) hrest
      rw [hrun, hold]
      exact ⟨by simp only [awaited, hstore, found_of_dropped hfound], hmemo⟩
    · -- The run gave the outcome of the run alone, which is stored.
      obtain ⟨hput, hstate, -⟩ := rememberIn_eq e filename (Store.keyOf src e.salt) r w'
      rw [hrun, hold, hput, hstate]
      refine ⟨?_, hmemo⟩
      unfold awaited
      rcases found_of_put filename (Store.keyOf src e.salt) w'.store w'.now now r with h | h
      · rw [h]
        exact hres.symm
      · rw [h]

end Awaited

/-- The engine that settings make has the bounded search with its answers remembered. -/
theorem create_eq_ok {settings : Settings} {funcs : List String}
    (he : create settings settings.newSolver funcs = .ok e) :
    e = { settings, solver := Solver.memo Digest.ofText (.bounded settings.bounded), funcs } := by
  obtain ⟨_, -, he⟩ := bind_eq_ok.mp he
  obtain ⟨solver, hsolver, he⟩ := bind_eq_ok.mp he
  cases he
  unfold Settings.newSolver at hsolver
  split at hsolver
  · cases hsolver
    rfl
  · split at hsolver <;> cases hsolver

/-- A withdrawn request is all or nothing. Take an engine with the bounded search, in a workspace in
which it has not been asked anything, and a caller who is willing to wait some number of times and
then no more. A run on a text gives what it gives a caller who waits for ever, or it ends for the
caller's reason, and then no file was touched and nothing was put into the store : looking the text
up may have dropped what is not given back any more. However the run ended, another run on the text
that is waited for gives at any later time what a run in the old workspace gives then, and so does a
run that starts with nothing remembered. -/
theorem runSource_withdrawn {settings : Settings} {funcs : List String}
    (he : create settings settings.newSolver funcs = .ok e) (filename src : String)
    {w : Workspace Settings.SolverState} (hw : w.state = ((), {})) (n : Nat) (why : Withdrawal) :
    let run := effect (e.runSource filename src)
    let cut := run { w with patience := .times n why }
    (cut.1 = (run { w with patience := .unlimited }).1 ∨
      cut.1 = .error (.stopped why.fault) ∧ cut.2.files = w.files ∧
        ∀ store' ∈ cut.2.store, ∃ store ∈ w.store, store'.entries.Sublist store.entries) ∧
    ∀ now, w.now ≤ now →
      (run { cut.2 with patience := .unlimited, now }).1 =
          (run { w with patience := .unlimited, now }).1 ∧
        (run { cut.2 with patience := .unlimited, state := ((), {}), now }).1 =
          (run { w with patience := .unlimited, now }).1 := by
  intro run cut
  have hsolver : e.solver = Solver.memo Digest.ofText (.bounded settings.bounded) := by
    rw [create_eq_ok he]
  have hstart : w.state.2.Within (e.remembered filename src) := by
    rw [hw]
    exact Memo.within_of_empty _
  have hlive : ∀ now, (run { w with patience := .unlimited, now }).1 =
      e.awaited filename src w.store now := fun now =>
    runSource_of_unlimited hsolver (w := { w with patience := .unlimited, now }) hstart rfl
  have hcut := runSource_eq hsolver (w := { w with patience := .times n why }) hstart
  refine ⟨?_, fun now hnow => ?_⟩
  · rcases hcut with h | ⟨n', why', hp, hres, hrest⟩
    · exact Or.inl (h.trans (hlive w.now).symm)
    · cases hp
      refine Or.inr ⟨hres, congrArg (·.1) hrest, ?_⟩
      have hstore : cut.2.store = _ := congrArg (·.2.1) hrest
      intro store' hstore'
      rw [hstore] at hstore'
      obtain ⟨store, hs, rfl⟩ := Option.map_eq_some_iff.mp hstore'
      exact ⟨store, hs, Store.sublist_get?⟩
  · obtain ⟨hsame, hmemo⟩ := awaited_after hsolver (w := { w with patience := .times n why })
      hstart hnow
    rw [hlive now]
    refine ⟨?_, ?_⟩
    · exact (runSource_of_unlimited hsolver
        (w := { cut.2 with patience := .unlimited, now }) hmemo rfl).trans hsame
    · exact (runSource_of_unlimited hsolver
        (w := { cut.2 with patience := .unlimited, state := ((), {}), now })
        (Memo.within_of_empty _) rfl).trans hsame

/-- A source with one branch. -/
def branchingSource : String := "package p\nfunc f(a bool) \x7b\nif a \x7b\n\x7d\n\x7d\n"

/-- The file that the source is read as. -/
def branchingFile : Source.File :=
  ⟨⟨0, 1, 1⟩, [],
    [⟨none, ⟨10, 2, 1⟩, none, "f", [.field ["a"] (.ident "bool")], [],
      some ⟨⟨25, 2, 16⟩, ⟨36, 5, 1⟩, [.branch none (.ident "a") [] none]⟩, 1⟩]⟩

theorem parse_branchingSource : Source.File.parse branchingSource = .ok branchingFile := by
  with_unfolding_all rfl

/-- The caller waits twice, which is long enough for the first of two answers. The second run starts
with that answer. -/
theorem runSource_withdrawn_branchingSource :
    ∃ e, create {} (Settings.newSolver {}) [] = .ok e ∧
      let run := effect (e.runSource "a.go" branchingSource)
      let cut := run { patience := .times 2 .expired, state := ((), {}) }
      cut.1 = .error (.stopped .expired) ∧ cut.2.state.2.entries.length = 1 ∧
        (run { cut.2 with patience := .unlimited, now := 7 }).1 =
          (run { patience := .unlimited, state := ((), {}), now := 7 }).1 := by
  let e : Engine Settings.SolverState :=
    ⟨{}, Solver.memo Digest.ofText (.bounded .standard), [], false⟩
  let w : Workspace Settings.SolverState := { patience := .times 2 .expired, state := ((), {}) }
  have he : create {} (Settings.newSolver {}) [] = .ok e := rfl
  obtain ⟨-, hrerun⟩ := runSource_withdrawn he "a.go" branchingSource (w := w) rfl 2 .expired
  have hwork : (effect (e.workOut "a.go" branchingSource) w).1 = .error (.stopped .expired) ∧
      (effect (e.workOut "a.go" branchingSource) w).2.state.2.entries.length = 1 := by
    simp only [workOut, parse_branchingSource]
    cbv
  have hcut : effect (e.runSource "a.go" branchingSource) w =
      (.error (.stopped .expired), (effect (e.workOut "a.go" branchingSource) w).2) :=
    effect_runSource_of_error rfl (Prod.ext hwork.1 rfl)
  refine ⟨e, he, congrArg Prod.fst hcut, ?_, (hrerun 7 (by decide)).1⟩
  exact (congrArg (fun r => r.2.state.2.entries.length) hcut).trans hwork.2

end Engine

end PathTree
