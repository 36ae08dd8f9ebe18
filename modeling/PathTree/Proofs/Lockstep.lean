import PathTree.Proofs.QueryVariables

/-!
# Programs in step

Two programs take the same steps on states of different kinds : one run goes on where another one
was left, one asks a solver that remembers and the other one does not. A `Pairing` says which states
belong together, and `Pairing.InStep` that the programs end alike in states that belong together, or
that the first one was ended before its time. The second program is the measure : what is known of
the end of its run (`Pairing.good`) goes back to all states on the way.

There is one rule for each way of putting programs together. `Function.inStep_paths` : if two solvers
are in step on all queries with variables, the paths of a lowered function are laid out in step.
-/

namespace PathTree

/-! ## Pairings -/

/-- The failure in a result. -/
def failure? {ε α : Type} : Except ε α → Option ε
  | .ok _ => none
  | .error f => some f

/-- What a program does to a state. -/
def effect {ε S α : Type} (x : ExceptT ε (StateM S) α) (s : S) : Except ε α × S := (x.run.run s).run

section Effect

variable {ε S α β : Type}

theorem effect_get_bind (f : S → ExceptT ε (StateM S) α) (s : S) :
    effect (get >>= f) s = effect (f s) s := rfl

theorem effect_bind (x : ExceptT ε (StateM S) α) (f : α → ExceptT ε (StateM S) β) :
    effect (x >>= f) = fun s => match (effect x s).1 with
      | .ok a => effect (f a) (effect x s).2
      | .error e => (.error e, (effect x s).2) := by
  funext s
  simp only [effect, ExceptT.run_bind, StateT.run_bind, Id.run_bind]
  rcases (StateT.run x.run s).run with ⟨e | a, s'⟩ <;> rfl

theorem effect_tryCatch (x : ExceptT Fault (StateM S) α) (what : String) :
    effect (tryCatch x fun f => throw (.during what f)) =
      fun s => ((effect x s).1.mapError (.during what), (effect x s).2) := by
  funext s
  simp only [effect, ExceptT.run_tryCatch, StateT.run_bind, Id.run_bind]
  rcases (StateT.run x.run s).run with ⟨f | a, s'⟩ <;> rfl

end Effect

/-- How two programs are compared. -/
structure Pairing (ε S T : Type) where
  /-- The states belong together. -/
  rel : S → T → Prop
  /-- The second program may come to a state, also if it fails there. -/
  good : Option ε → T → Prop
  /-- The first program was ended with a failure before its time. -/
  ended : ε → S → Prop
  good_none : ∀ {o t}, good o t → good none t

namespace Pairing

variable {ε S T α β : Type} (P : Pairing ε S T)

/-- The ends of two runs belong together, or the first run was ended before its time. -/
def Matches (p : Except ε α × S) (q : Except ε α × T) : Prop :=
  (p.1 = q.1 ∧ P.rel p.2 q.2) ∨ ∃ f, p.1 = .error f ∧ P.ended f p.2

/-- Two programs are in step : if the second may come to its end, it may come to its start, and
from any state that belongs to the start the first one comes to a matching end. -/
def InStep (x : S → Except ε α × S) (y : T → Except ε α × T) : Prop :=
  ∀ t, P.good (failure? (y t).1) (y t).2 →
    P.good none t ∧ ∀ s, P.rel s t → P.Matches (x s) (y t)

/-- The pairing of larger states by their parts. -/
def onParts {S' T' : Type} (p : S' → S) (q : T' → T) : Pairing ε S' T' where
  rel s t := P.rel (p s) (q t)
  good o t := P.good o (q t)
  ended f s := P.ended f (p s)
  good_none := P.good_none

variable {P}

theorem inStep_pure (a : α) : P.InStep (effect (pure a)) (effect (pure a)) :=
  fun _ ht => ⟨ht, fun _ hs => Or.inl ⟨rfl, hs⟩⟩

theorem inStep_throw (f : ε) :
    P.InStep (effect (throw f : ExceptT ε (StateM S) α)) (effect (throw f)) :=
  fun _ ht => ⟨P.good_none ht, fun _ hs => Or.inl ⟨rfl, hs⟩⟩

/-- Programs that go on with the result of others are in step, if what follows is. The failures of
what follows may be of another kind, and a run that was ended before its time stays ended. -/
theorem InStep.andThen {δ : Type} {Q : Pairing δ S T} {x : S → Except ε α × S}
    {y : T → Except ε α × T} (hx : P.InStep x y) {u : Except ε α → S → Except δ β × S}
    {v : Except ε α → T → Except δ β × T} (hstart : ∀ t, P.good none t → Q.good none t)
    (hrel : ∀ s t, Q.rel s t → P.rel s t)
    (hgood : ∀ r t, Q.good (failure? (v r t).1) (v r t).2 → P.good (failure? r) t)
    (hrest : ∀ r s t, P.rel s t → Q.good (failure? (v r t).1) (v r t).2 →
      Q.Matches (u r s) (v r t))
    (hended : ∀ f s, P.ended f s →
      ∃ g, (u (.error f) s).1 = .error g ∧ Q.ended g (u (.error f) s).2) :
    Q.InStep (fun s => u (x s).1 (x s).2) (fun t => v (y t).1 (y t).2) := by
  intro t ht
  obtain ⟨hy, hall⟩ := hx t (hgood _ _ ht)
  refine ⟨hstart t hy, fun s hs => ?_⟩
  dsimp only at ht ⊢
  rcases hall s (hrel s t hs) with ⟨hres, hend⟩ | ⟨f, hres, hend⟩
  · rw [hres]
    exact hrest _ _ _ hend ht
  · rw [hres]
    exact Or.inr (hended f _ hend)

/-- Two steps after each other are in step, if each of them is. -/
theorem InStep.bind {x : ExceptT ε (StateM S) α} {y : ExceptT ε (StateM T) α}
    (hx : P.InStep (effect x) (effect y)) {f : α → ExceptT ε (StateM S) β}
    {g : α → ExceptT ε (StateM T) β} (hf : ∀ a, P.InStep (effect (f a)) (effect (g a))) :
    P.InStep (effect (x >>= f)) (effect (y >>= g)) := by
  rw [effect_bind, effect_bind]
  refine hx.andThen (Q := P)
    (u := fun r s => match r with
      | .ok a => effect (f a) s
      | .error e => (.error e, s))
    (v := fun r t => match r with
      | .ok a => effect (g a) t
      | .error e => (.error e, t))
    (fun _ h => h) (fun _ _ h => h) ?_ ?_ (fun e s h => ⟨e, rfl, h⟩)
  · intro r t ht
    cases r with
    | ok a => exact (hf a t ht).1
    | error e => exact ht
  · intro r s t hs ht
    cases r with
    | ok a => exact (hf a t ht).2 s hs
    | error e => exact Or.inl ⟨rfl, hs⟩

theorem InStep.map {x : ExceptT ε (StateM S) α} {y : ExceptT ε (StateM T) α}
    (hx : P.InStep (effect x) (effect y)) (f : α → β) :
    P.InStep (effect (f <$> x)) (effect (f <$> y)) := by
  rw [← bind_pure_comp, ← bind_pure_comp]
  exact hx.bind fun a => inStep_pure (f a)

/-- A change of both states that keeps them together. -/
theorem inStep_modify {u : S → S} {v : T → T} (hrel : ∀ s t, P.rel s t → P.rel (u s) (v t))
    (hgood : ∀ t, P.good none (v t) → P.good none t) :
    P.InStep (effect (modify u : ExceptT ε (StateM S) PUnit)) (effect (modify v)) :=
  fun t ht => ⟨hgood t ht, fun s hs => Or.inl ⟨rfl, hrel s t hs⟩⟩

/-- Failures are told apart without the accounts around them. -/
structure SeesRoots (P : Pairing Fault S T) : Prop where
  ended_during : ∀ {f s} (what : String), P.ended f s → P.ended (.during what f) s
  good_during : ∀ {f t} {what : String}, P.good (some (.during what f)) t → P.good (some f) t

theorem SeesRoots.onParts {P : Pairing Fault S T} (h : P.SeesRoots) {S' T' : Type} (p : S' → S)
    (q : T' → T) : (P.onParts p q).SeesRoots :=
  ⟨fun what hf => h.ended_during what hf, fun hf => h.good_during hf⟩

/-- An account of what was being done leaves programs in step. -/
theorem InStep.account {P : Pairing Fault S T} (hP : P.SeesRoots) {x : S → Except Fault α × S}
    {y : T → Except Fault α × T} (hx : P.InStep x y) (what : String) :
    P.InStep (fun s => ((x s).1.mapError (.during what), (x s).2))
      (fun t => ((y t).1.mapError (.during what), (y t).2)) := by
  refine hx.andThen (Q := P) (u := fun r s => (r.mapError (.during what), s))
    (v := fun r t => (r.mapError (.during what), t)) (fun _ h => h) (fun _ _ h => h) ?_
    (fun r s t hs _ => Or.inl ⟨rfl, hs⟩) (fun f s h => ⟨_, rfl, hP.ended_during what h⟩)
  intro r t ht
  cases r with
  | ok a => exact ht
  | error f => exact hP.good_during ht

end Pairing

/-! ## Walks -/

namespace Walker

open Pairing

variable {σ τ α : Type} {P : Pairing Fault (Patience × σ) (Patience × τ)}

/-- What a question to the solver does. -/
theorem effect_ask (w : Walker σ) (path : List Expr) (s : Session σ) :
    effect (w.ask path) s =
      ((w.solver.solve ⟨w.params, path⟩ s.forSolver).1.mapError
          (.during ("solving " ++ traceOf path)),
        { s with patience := (w.solver.solve ⟨w.params, path⟩ s.forSolver).2.1,
                 state := (w.solver.solve ⟨w.params, path⟩ s.forSolver).2.2 }) := by
  unfold ask
  rw [effect_get_bind]
  unfold Session.forSolver
  rcases w.solver.solve ⟨w.params, path⟩ (s.patience, s.state) with ⟨f | a, p, t⟩ <;> rfl

variable {w : Walker σ} {v : Walker τ} (hP : P.SeesRoots)

/-- The pairing of sessions by what their solvers see. -/
abbrev paired (P : Pairing Fault (Patience × σ) (Patience × τ)) :
    Pairing Fault (Session σ) (Session τ) :=
  P.onParts Session.forSolver Session.forSolver

include hP in
theorem inStep_ask {path : List Expr}
    (h : P.InStep (w.solver.solve ⟨w.params, path⟩) (v.solver.solve ⟨v.params, path⟩)) :
    (paired P).InStep (effect (w.ask path)) (effect (v.ask path)) := by
  have haccount := h.account hP ("solving " ++ traceOf path)
  intro t ht
  rw [effect_ask] at ht
  obtain ⟨hgood, hall⟩ := haccount t.forSolver ht
  refine ⟨hgood, fun s hs => ?_⟩
  rw [effect_ask, effect_ask]
  exact hall s.forSolver hs

theorem inStep_tell {level : LogLevel} {message : String} {path : List Expr}
    {more : List (String × String)} :
    (paired P).InStep (effect (w.tell level message path more))
      (effect (v.tell level message path more)) := by
  intro t ht
  have hforSolver : ∀ {ρ : Type} (u : Walker ρ) (s : Session ρ),
      (effect (u.tell level message path more) s).1 = .ok () ∧
        (effect (u.tell level message path more) s).2.forSolver = s.forSolver := by
    intro ρ u s
    unfold tell
    split <;> exact ⟨rfl, rfl⟩
  obtain ⟨hv, hvs⟩ := hforSolver v t
  rw [hv] at ht
  have hgood : P.good none t.forSolver := by
    rw [← hvs]
    exact ht
  refine ⟨hgood, fun s hs => Or.inl ⟨?_, ?_⟩⟩
  · rw [hv, (hforSolver w s).1]
  · show P.rel _ _
    rw [hvs, (hforSolver w s).2]
    exact hs

theorem inStep_report {taken : Bool} {path : List Expr} {arm : Option (List Stmt)}
    {answer : Answer} :
    (paired P).InStep (effect (w.report taken path arm answer))
      (effect (v.report taken path arm answer)) := by
  unfold report
  split
  · exact inStep_tell
  · split
    · exact inStep_tell
    · exact inStep_pure ()

/-- What follows a computation that may fail starts from its value. -/
theorem inStep_liftExcept_bind {β : Type} {r : Except Fault α} {f : α → Walk σ β}
    {g : α → Walk τ β} (h : ∀ a, r = .ok a → (paired P).InStep (effect (f a)) (effect (g a))) :
    (paired P).InStep (effect (walk.liftExcept r >>= f)) (effect (walk.liftExcept r >>= g)) := by
  cases r with
  | ok a => exact h a rfl
  | error f => exact inStep_throw f

variable (hparams : w.params = v.params) (hvisit : w.visitUnsat = v.visitUnsat)
  {good : Query → Prop}
  (hsolve : ∀ q, good q → P.InStep (w.solver.solve q) (v.solver.solve q))

include hP hparams hvisit

theorem inStep_recordArm {taken : Bool} {path : List Expr} {arm : Option (List Stmt)}
    {descend : Walk σ Record} {descend' : Walk τ Record}
    (h : P.InStep (w.solver.solve ⟨w.params, path⟩) (v.solver.solve ⟨w.params, path⟩))
    (hd : (paired P).InStep (effect descend) (effect descend')) :
    (paired P).InStep (effect (w.recordArm taken path arm descend))
      (effect (v.recordArm taken path arm descend')) := by
  refine (inStep_ask hP (by rwa [← hparams])).bind fun answer => ?_
  refine inStep_report.bind fun _ => ?_
  cases arm with
  | none => exact inStep_pure _
  | some stmts =>
    dsimp only
    rw [hvisit]
    split
    · exact hd.bind fun r => inStep_pure _
    · exact inStep_pure _

include hsolve

/-- Walks are in step, if their solvers are on all queries that the tree can ask. -/
theorem inStep_record (t : Tree) {path : List Expr} {m : Memory}
    (ht : t.AsksOnly w.params good path m) :
    (paired P).InStep (effect (w.record t path m)) (effect (v.record t path m)) := by
  induction t generalizing path m with
  | stuck before f => exact inStep_liftExcept_bind fun _ _ => inStep_throw f
  | straight stmts => exact inStep_liftExcept_bind fun _ _ => inStep_pure _
  | branch before cond arm sub ih =>
    refine inStep_liftExcept_bind fun m' hm' => inStep_liftExcept_bind fun test htest => ?_
    have harm : ∀ taken, (paired P).InStep
        (effect (w.recordArm taken (path ++ [test.side taken]) (arm taken)
          (w.record (sub taken) (path ++ [test.side taken]) m')))
        (effect (v.recordArm taken (path ++ [test.side taken]) (arm taken)
          (v.record (sub taken) (path ++ [test.side taken]) m'))) := by
      intro taken
      obtain ⟨hgood, hsub⟩ := ht m' test hm' htest taken
      exact inStep_recordArm hP hparams hvisit (hsolve _ hgood) (ih taken hsub)
    exact (harm true).bind fun yes => (harm false).bind fun no => inStep_pure _

end Walker

/-- Functions are laid out in step with solvers that are in step. -/
theorem Function.inStep_paths {σ τ : Type} {P : Pairing Fault (Patience × σ) (Patience × τ)}
    (hP : P.SeesRoots) {solver : Solver σ} {solver' : Solver τ} {good : Query → Prop}
    (hsolve : ∀ q, good q → P.InStep (solver.solve q) (solver'.solve q)) {fn : Function}
    {e e' : Exploration} (hbound : e.bound = e'.bound) (hvisit : e.visitUnsat = e'.visitUnsat)
    (hfold : e.fold = e'.fold)
    (hfn : (Tree.ofStmts e.bound fn.body).AsksOnly fn.params good [] (.init fn.params e.fold)) :
    (Walker.paired P).InStep (effect (fn.paths solver e)) (effect (fn.paths solver' e')) := by
  unfold Function.paths
  refine Pairing.InStep.bind ?_ fun r => Pairing.inStep_pure _
  rw [effect_tryCatch, effect_tryCatch]
  refine Pairing.InStep.account (hP.onParts _ _) ?_ _
  rw [Walker.walk_eq_map_record, Walker.walk_eq_map_record, ← hbound, ← hfold]
  exact (Walker.inStep_record hP rfl hvisit hsolve _ hfn).map _

end PathTree
