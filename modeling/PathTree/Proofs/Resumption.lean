import PathTree.Proofs.RunsInStep
import PathTree.Proofs.Waiting

/-!
# Runs that start with answers

An engine remembers the answers to queries from one text to the next. A run that starts with such
answers is compared with the run on the same text that starts with nothing and is waited for
(`Engine.alone`). Of what is remembered at the start only the answers to queries matter that the run
alone asks (`Engine.queries`). If these are the answers that it finds, the runs are in step, however
long the caller waits, and afterwards nothing is remembered that was not found by one of the two
(`Engine.workOut_resumed`).
-/

namespace PathTree

open Pairing

/-! ## What is remembered -/

namespace Memo

/-- Everything that one memory finds, the other one finds too. -/
def Within (m m' : Memo) : Prop :=
  ∀ hash key a, m.find? hash key = some a → m'.find? hash key = some a

/-- Everything that a memory finds, one of two others finds too. -/
def WithinEither (m start whole : Memo) : Prop :=
  ∀ hash key a, m.find? hash key = some a →
    start.find? hash key = some a ∨ whole.find? hash key = some a

/-- What one memory finds for queries, the other one finds for them too. -/
def WithinOn (queries : List Query) (m m' : Memo) : Prop :=
  ∀ q ∈ queries, ∀ a, m.find? (Digest.ofText q.key) q.key = some a →
    m'.find? (Digest.ofText q.key) q.key = some a

variable {m m' m'' start whole : Memo} {e : MemoEntry}

theorem Within.refl (m : Memo) : m.Within m := fun _ _ _ h => h

theorem Within.trans (h : m.Within m') (h' : m'.Within m'') : m.Within m'' :=
  fun hash key a ha => h' hash key a (h hash key a ha)

theorem within_of_empty (m : Memo) : Within {} m := by
  intro hash key a h
  cases h

@[simp] theorem find?_hit (m : Memo) (hash : UInt64) (key : String) :
    m.hit.find? hash key = m.find? hash key := rfl

@[simp] theorem find?_miss (m : Memo) (hash : UInt64) (key : String) :
    m.miss.find? hash key = m.find? hash key := rfl

theorem find?_insert (m : Memo) (e : MemoEntry) (hash : UInt64) (key : String) :
    (m.insert e).find? hash key = (m.find? hash key).or
      (if e.hash = hash ∧ e.key = key then some e.answer else none) := by
  simp only [find?, entries_insert, List.find?_append]
  cases m.entries.find? fun e => e.hash = hash && e.key = key with
  | some e' => rfl
  | none => by_cases h : e.hash = hash ∧ e.key = key <;> simp [h]

theorem within_insert (m : Memo) (e : MemoEntry) : m.Within (m.insert e) := by
  intro hash key a h
  rw [find?_insert, h]
  rfl

theorem find?_insert_self (h : m.find? e.hash e.key = none) :
    (m.insert e).find? e.hash e.key = some e.answer := by
  simp [find?_insert, h]

/-- What is found after an answer was put in was found before, or it is that answer. -/
theorem find?_of_insert {hash : UInt64} {key : String} {a : Answer}
    (h : (m.insert e).find? hash key = some a) :
    m.find? hash key = some a ∨ e = ⟨hash, key, a⟩ := by
  rw [find?_insert] at h
  cases hfind : m.find? hash key with
  | some a' =>
    rw [hfind] at h
    exact Or.inl h
  | none =>
    rw [hfind] at h
    split at h
    · next hkeys =>
      obtain ⟨rfl, rfl⟩ := hkeys
      cases h
      exact Or.inr rfl
    · cases h

/-- A new answer is within what finds it anyway. -/
theorem Within.insert (h : m.Within m') (he : m'.find? e.hash e.key = some e.answer) :
    (m.insert e).Within m' := by
  intro hash key a ha
  rcases find?_of_insert ha with ha | rfl
  · exact h hash key a ha
  · exact he

theorem WithinEither.insert (h : m.WithinEither start whole)
    (he : whole.find? e.hash e.key = some e.answer) : (m.insert e).WithinEither start whole := by
  intro hash key a ha
  rcases find?_of_insert ha with ha | rfl
  · exact h hash key a ha
  · exact Or.inr he

end Memo

/-! ## Runs that see the same -/

/-- The pairing of states by a view : nothing that the second program has besides changes its
course. -/
def Pairing.viewing {σ τ : Type} (view : τ → σ) : Pairing Fault (Patience × σ) (Patience × τ) where
  rel s t := s = (t.1, view t.2)
  good _ _ := True
  ended _ _ := False
  good_none _ := trivial

theorem Pairing.waits_viewing {σ τ : Type} (view : τ → σ) : (viewing view).Waits where
  ended_during _ h := h
  good_during _ := trivial
  withdrawn h := h.elim
  good_of_handled _ _ := trivial
  ask := by
    intro t _
    refine ⟨trivial, ?_⟩
    rintro s rfl
    exact Or.inl ⟨rfl, rfl⟩

/-- Engines that treat functions alike give the same, if their solvers do in the view. -/
theorem Engine.workOut_viewing {σ τ : Type} {e : Engine σ} {e' : Engine τ} (view : τ → σ)
    (he : e.Alike e')
    (hsolve : ∀ q t, e.solver.solve q (t.1, view t.2) =
      ((e'.solver.solve q t).1, (e'.solver.solve q t).2.1, view (e'.solver.solve q t).2.2))
    (filename src : String) {w : Workspace σ} {w' : Workspace τ}
    (hw : w.forSolver = (w'.patience, view w'.state)) :
    (effect (e.workOut filename src) w).1 = (effect (e'.workOut filename src) w').1 ∧
      (effect (e.workOut filename src) w).2.state =
        view (effect (e'.workOut filename src) w').2.state := by
  have hsteps : ((viewing view).onRuns w.rest).InStep (effect (e.workOut filename src))
      (effect (e'.workOut filename src)) := by
    refine Engine.inStep_workOut (waits_viewing view) he (fun q _ t _ => ⟨trivial, ?_⟩) filename src
    rintro s rfl
    rw [hsolve q t]
    exact Or.inl ⟨rfl, rfl⟩
  rcases (hsteps w' trivial).2 w ⟨hw, rfl⟩ with ⟨hres, hrel, -⟩ | ⟨f, -, why, -, hended, -⟩
  · exact ⟨hres, congrArg Prod.snd hrel⟩
  · exact hended.elim

/-! ## A run that goes on where another one was left -/

/-- How a run that starts with answers is compared with the run alone. The caller of the first one
has patience `p`. The second one, which is waited for and asks no more than `asked`, remembers
`whole` in the end ; when it fails for a reason that nobody handles, it ends there. -/
def Pairing.resumed (p : Patience) (start whole : Memo) (asked : List Query) :
    Pairing Fault (Patience × Settings.SolverState)
      (Patience × (Settings.SolverState × List Query)) where
  rel s t := t.1 = .unlimited ∧ p.Leaves s.1 ∧ t.2.1.2.Within s.2.2 ∧
    s.2.2.WithinEither start whole
  good o t := t.2.1.2.Within whole ∧ t.2.2 ⊆ asked ∧ ∀ f ∈ o, f.isFatal → whole.Within t.2.1.2
  ended f s := ∃ why : Withdrawal, f.root = why.fault ∧ s.1 = .times 0 why ∧ p.Leaves s.1 ∧
    s.2.2.WithinEither start whole
  good_none h := ⟨h.1, h.2.1, by simp⟩

theorem Withdrawal.root_fault (why : Withdrawal) : why.fault.root = why.fault := by
  cases why <;> rfl

theorem Pairing.waits_resumed (p : Patience) (start whole : Memo) (asked : List Query) :
    (resumed p start whole asked).Waits where
  ended_during := by
    rintro f s what ⟨why, hroot, hs⟩
    exact ⟨why, hroot, hs⟩
  good_during := by
    rintro f t what ⟨hwithin, hasked, hfatal⟩
    refine ⟨hwithin, hasked, ?_⟩
    rintro g ⟨⟩
    exact hfatal (.during what f) rfl
  withdrawn := by
    rintro f s ⟨why, hroot, hs, hrest⟩
    exact ⟨why, hroot, hs, why, why.root_fault, hs, hrest⟩
  good_of_handled := by
    rintro f t hhandled ⟨hwithin, hasked, -⟩
    exact ⟨hwithin, hasked, by simp [hhandled]⟩
  ask := by
    rintro ⟨q, t⟩ ht
    refine ⟨⟨ht.1, ht.2.1, by simp⟩, ?_⟩
    rintro ⟨p', s⟩ ⟨rfl, hp, hts, hs⟩
    obtain ⟨hleaves, hask | ⟨why, hask⟩⟩ := p'.ask_yields
    · exact Or.inl ⟨hask, rfl, hp.trans hleaves, hts, hs⟩
    · refine Or.inr ⟨why.fault, congrArg Prod.fst hask, why, why.root_fault, ?_, hp.trans hleaves, hs⟩
      exact congrArg Prod.snd hask

section Memo

variable {b : Bounds} {q : Query} {p : Patience} {m : Memo} {a : Answer}

theorem Solver.memo_bounded_of_hit (h : m.find? (Digest.ofText q.key) q.key = some a) :
    (Solver.memo Digest.ofText (.bounded b)).solve q (p, (), m) = (.ok a, p, (), m.hit) := by
  simp only [Solver.memo, h]

theorem Solver.memo_bounded_of_miss (h : m.find? (Digest.ofText q.key) q.key = none) :
    (Solver.memo Digest.ofText (.bounded b)).solve q (p, (), m) =
      ((b.normalize.search q p).1, (b.normalize.search q p).2, (),
        match (b.normalize.search q p).1 with
        | .ok a => m.miss.insert ⟨Digest.ofText q.key, q.key, a⟩
        | .error _ => m.miss) := by
  simp only [Solver.memo, h, Solver.bounded]
  rcases b.normalize.search q p with ⟨f | a, p'⟩ <;> rfl

/-- Nothing that was found is lost. -/
theorem Solver.within_memo_bounded :
    m.Within ((Solver.memo Digest.ofText (.bounded b)).solve q (p, (), m)).2.2.2 := by
  cases h : m.find? (Digest.ofText q.key) q.key with
  | some a =>
    rw [memo_bounded_of_hit h]
    exact .refl m
  | none =>
    rw [memo_bounded_of_miss h]
    cases (b.normalize.search q p).1 with
    | ok a => exact m.miss.within_insert _
    | error f => exact .refl m

end Memo

/-- The solver of an engine is in step with itself on queries with variables, if the first one
starts with more answers, and with none that the second one does not find for itself. -/
theorem Solver.inStep_memo_bounded (p : Patience) {start whole : Memo} {asked : List Query}
    (hstart : start.WithinOn asked whole) (b : Bounds) {q : Query}
    (hq : ∃ vars, q.variables = .ok vars) :
    (resumed p start whole asked).InStep ((Solver.memo Digest.ofText (.bounded b)).solve q)
      ((Solver.memo Digest.ofText (.bounded b)).recorded.solve q) := by
  rintro ⟨pt, ⟨⟨⟩, mt⟩, l⟩ ht
  have hrecorded : (Solver.memo Digest.ofText (.bounded b)).recorded.solve q (pt, ((), mt), l) =
      let r := (Solver.memo Digest.ofText (.bounded b)).solve q (pt, (), mt)
      (r.1, r.2.1, (r.2.2, q :: l)) := rfl
  rw [hrecorded] at ht ⊢
  obtain ⟨hwhole, hasked, hfatal⟩ := ht
  dsimp only at hwhole hasked hfatal ⊢
  obtain ⟨hqAsked, hl⟩ := List.cons_subset.mp hasked
  refine ⟨⟨within_memo_bounded.trans hwhole, hl, by simp⟩, ?_⟩
  rintro ⟨ps, ⟨⟩, ms⟩ ⟨rfl, hp, hts, hs⟩
  cases hmt : mt.find? (Digest.ofText q.key) q.key with
  | some a =>
    rw [memo_bounded_of_hit hmt, memo_bounded_of_hit (hts _ _ _ hmt)]
    exact Or.inl ⟨rfl, rfl, hp, hts, hs⟩
  | none =>
    have hunlimited : (b.normalize.search q .unlimited).2 = .unlimited :=
      b.normalize.search_unlimited q
    rw [memo_bounded_of_miss hmt] at hwhole hfatal ⊢
    rw [hunlimited]
    cases hms : ms.find? (Digest.ofText q.key) q.key with
    | some a =>
      have ha : whole.find? (Digest.ofText q.key) q.key = some a :=
        (hs _ _ _ hms).elim (hstart q hqAsked a) id
      rw [memo_bounded_of_hit hms]
      cases hr : (b.normalize.search q .unlimited).1 with
      | ok a' =>
        -- Both answers are the one that the whole run remembers.
        rw [hr] at hwhole
        have ha' := hwhole _ _ _ (Memo.find?_insert_self (e := ⟨_, _, a'⟩) hmt)
        rw [ha'] at ha
        cases ha
        exact Or.inl ⟨rfl, rfl, hp, hts.insert hms, hs⟩
      | error f =>
        obtain ⟨vars, hvars⟩ := hq
        rw [hr] at hfatal
        rcases Bounds.search_unlimited_eq_error hr with hv | hf
        · rw [hvars] at hv
          cases hv
        · have hmt' := hfatal f rfl hf _ _ _ ha
          rw [Memo.find?_miss, hmt] at hmt'
          cases hmt'
    | none =>
      rw [memo_bounded_of_miss hms]
      obtain ⟨hleaves, hall | ⟨why, hended⟩⟩ := b.normalize.search_yields q ps
      · rw [hall]
        refine Or.inl ⟨rfl, rfl, hp.trans hleaves, ?_⟩
        cases hr : (b.normalize.search q .unlimited).1 with
        | ok a =>
          rw [hr] at hwhole
          have ha := hwhole _ _ _ (Memo.find?_insert_self (e := ⟨_, _, a⟩) hmt)
          exact ⟨(hts.trans (ms.miss.within_insert _)).insert (Memo.find?_insert_self hms),
            Memo.WithinEither.insert hs ha⟩
        | error f => exact ⟨hts, hs⟩
      · rw [hended] at hleaves ⊢
        exact Or.inr ⟨why.fault, rfl, why, why.root_fault, rfl, hp.trans hleaves, hs⟩

/-! ## Runs -/

namespace Engine

variable {e : Engine Settings.SolverState}

/-- The run on a text that starts with nothing and is waited for. -/
def alone (e : Engine Settings.SolverState) (filename src : String) :
    Except RunFault FileOutcome × Workspace Settings.SolverState :=
  effect (e.workOut filename src) { patience := .unlimited, state := ((), {}) }

/-- The engine with its queries recorded. -/
def observed {σ : Type} (e : Engine σ) : Engine (σ × List Query) :=
  { settings := e.settings, solver := e.solver.recorded, funcs := e.funcs, quiet := e.quiet }

/-- The run alone, with its queries recorded. -/
def observedAlone (e : Engine Settings.SolverState) (filename src : String) :
    Except RunFault FileOutcome × Workspace (Settings.SolverState × List Query) :=
  effect (e.observed.workOut filename src) { patience := .unlimited, state := (((), {}), []) }

/-- What is remembered after the run alone. -/
def remembered (e : Engine Settings.SolverState) (filename src : String) : Memo :=
  (e.alone filename src).2.state.2

/-- The queries of the run alone. -/
def queries (e : Engine Settings.SolverState) (filename src : String) : List Query :=
  (e.observedAlone filename src).2.state.2

/-- Recording queries changes nothing else. -/
theorem alone_eq (e : Engine Settings.SolverState) (filename src : String) :
    (e.alone filename src).1 = (e.observedAlone filename src).1 ∧
      (e.alone filename src).2.state = (e.observedAlone filename src).2.state.1 := by
  have halike : e.Alike e.observed := ⟨rfl, rfl, rfl, rfl, fun _ => rfl⟩
  exact workOut_viewing Prod.fst halike (fun _ _ => rfl) filename src rfl

/-- A text is worked out from answers that the run alone finds too, as far as it asks for them : the
outcome is that of the run alone, or the caller was not willing to wait. Nothing else than a run's
answers is remembered, and nothing but that has changed. -/
theorem workOut_resumed {b : Bounds} (he : e.solver = Solver.memo Digest.ofText (.bounded b))
    (filename src : String) {w : Workspace Settings.SolverState}
    (hw : w.state.2.WithinOn (e.queries filename src) (e.remembered filename src)) :
    (effect (e.workOut filename src) w).2.rest = w.rest ∧
      (effect (e.workOut filename src) w).2.state.2.WithinEither w.state.2
        (e.remembered filename src) ∧
      ((effect (e.workOut filename src) w).1 = (e.alone filename src).1 ∨
        ∃ n why, w.patience = .times n why ∧
          (effect (e.workOut filename src) w).1 = .error (.stopped why.fault)) := by
  obtain ⟨hresult, hstate⟩ := alone_eq e filename src
  have hsteps : ((resumed w.patience w.state.2 (e.remembered filename src)
      (e.queries filename src)).onRuns w.rest).InStep
      (effect (e.workOut filename src)) (effect (e.observed.workOut filename src)) := by
    refine Engine.inStep_workOut (Pairing.waits_resumed _ _ _ _)
      ⟨rfl, rfl, rfl, rfl, fun _ => rfl⟩ ?_ filename src
    intro q hq
    rw [observed, he]
    exact Solver.inStep_memo_bounded _ hw b hq
  have hend : (e.observedAlone filename src).2.state.1.2 = e.remembered filename src :=
    congrArg Prod.snd hstate.symm
  obtain ⟨-, hall⟩ := hsteps { patience := .unlimited, state := (((), {}), []) }
    ⟨hend ▸ .refl _, List.Subset.refl _, fun _ _ _ => hend ▸ .refl _⟩
  rcases hall w ⟨⟨rfl, .refl _, Memo.within_of_empty _, fun _ _ _ h => Or.inl h⟩, rfl⟩ with
    ⟨hres, ⟨-, -, -, hmemo⟩, hrest⟩ | ⟨f, hres, why, rfl, ⟨why', hroot, hp, hleaves, hmemo⟩, hrest⟩
  · exact ⟨hrest, hmemo, Or.inl (hres.trans hresult.symm)⟩
  · have hwhy : why.fault = why'.fault := why.root_fault.symm.trans hroot
    rw [hp] at hleaves
    obtain ⟨n, hn⟩ : ∃ n, w.patience = .times n why' := by
      generalize w.patience = p at hleaves
      cases hleaves with
      | @times n _ _ hle => exact ⟨n, rfl⟩
    exact ⟨hrest, hmemo, Or.inr ⟨n, why', hn, by rw [hres, hwhy]⟩⟩

end Engine

end PathTree
