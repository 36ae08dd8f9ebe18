import Mathlib.Data.List.Basic
import PathTree.Proofs.ArmPaths

/-!
# What the answers of a solver do not influence

A step of a walk is steady if what it returns, looked at through some function, is the same from
every session (`Walk.Steady`). Asking a solver that never fails is steady when the answer is not
looked at, and steadiness goes through whole walks : if unreachable arms are laid out too, the body
of a walk is that of `Tree.layout`, which knows no solver (`Walker.steady_record`).

`Function.paths_independent` : two solvers that never fail lead to the same failure, or to the same
body and the same queries. These are two for each branch of the body, one before everything in its
first arm and one between the two arms.
-/

namespace PathTree

/-! ## Steady steps -/

namespace Walk

variable {σ α β γ δ : Type} {ready : Patience × σ → Prop}

/-- What a step returns when it starts in a session. -/
def outcome (x : Walk σ α) (s : Session σ) : Except Fault α := (x.run.run s).run.1

theorem outcome_eq_ok {x : Walk σ α} {s : Session σ} {a : α} :
    x.outcome s = .ok a ↔ ∃ s', Gives x s a s' := by
  unfold outcome Gives
  rcases (x.run.run s).run with ⟨r, s'⟩
  simp

/-- From every session that is ready for the solver, what a step returns is `r` when looked at
through `g`, and the session stays ready. -/
def Steady (ready : Patience × σ → Prop) (x : Walk σ α) (g : α → β) (r : Except Fault β) : Prop :=
  ∀ s, ready s.forSolver → (x.outcome s).map g = r ∧ ready (x.run.run s).run.2.forSolver

theorem Steady.gives {x : Walk σ α} {a : α} (h : Steady ready x id (.ok a)) {s : Session σ}
    (hs : ready s.forSolver) : ∃ s', Gives x s a s' := by
  have hx := (h s hs).1
  cases ho : x.outcome s with
  | error f => simp [ho, Except.map] at hx
  | ok b =>
    obtain rfl : b = a := by simpa [ho, Except.map] using hx
    exact outcome_eq_ok.mp ho

theorem steady_of_gives {x : Walk σ α} {g : α → β} {b : β}
    (h : ∀ s, ready s.forSolver → ∃ a s', Gives x s a s' ∧ g a = b ∧ ready s'.forSolver) :
    Steady ready x g (.ok b) := by
  intro s hs
  obtain ⟨a, s', hx, hb, hs'⟩ := h s hs
  rw [outcome, show (StateT.run x.run s).run = _ from hx]
  exact ⟨congrArg Except.ok hb, hs'⟩

theorem steady_pure (a : α) (g : α → β) : Steady ready (pure a) g (.ok (g a)) :=
  fun _ hs => ⟨rfl, hs⟩

theorem steady_throw (f : Fault) (g : α → β) : Steady ready (throw f) g (.error f) :=
  fun _ hs => ⟨rfl, hs⟩

theorem steady_liftExcept (r : Except Fault α) :
    Steady ready (Walker.walk.liftExcept r) id r := by
  intro s hs
  cases r <;> exact ⟨rfl, hs⟩

theorem steady_of_eq_ok {r : Except Fault α} {a : α} (h : r = .ok a) :
    Steady ready (Walker.walk.liftExcept r) id (.ok a) := by
  rw [← h]
  exact steady_liftExcept r

/-- Two steady steps after each other are steady, if the second looks at the first in the same way
as the outside does. -/
theorem Steady.bind {x : Walk σ α} {g : α → β} {r : Except Fault β} (hx : Steady ready x g r)
    {k : α → Walk σ γ} {g' : γ → δ} {k' : β → Except Fault δ}
    (hk : ∀ a, r = .ok (g a) → Steady ready (k a) g' (k' (g a))) :
    Steady ready (x >>= k) g' (r >>= k') := by
  intro s hs
  obtain ⟨hr, hs'⟩ := hx s hs
  simp only [outcome, ExceptT.run_bind, StateT.run_bind, Id.run_bind] at hr ⊢
  rcases h : (StateT.run x.run s).run with ⟨f | a, s'⟩
  · rw [h] at hr hs'
    rw [← hr]
    exact ⟨rfl, hs'⟩
  · rw [h] at hr hs'
    rw [← hr]
    exact hk a hr.symm s' hs'

/-- What follows a step that returns one value from every session. -/
theorem Steady.andThen {x : Walk σ α} {g : α → β} {b : β} (hx : Steady ready x g (.ok b))
    {k : α → Walk σ γ} {g' : γ → δ} {r : Except Fault δ}
    (hk : ∀ a, g a = b → Steady ready (k a) g' r) : Steady ready (x >>= k) g' r := by
  have hb : Steady ready (x >>= k) g' (Except.ok b >>= fun _ => r) := by
    refine hx.bind fun a ha => hk a ?_
    injection ha with ha
    exact ha.symm
  exact hb

theorem Steady.map {x : Walk σ α} {f : α → β} {g : β → γ} {r : Except Fault γ}
    (hx : Steady ready x (g ∘ f) r) : Steady ready (f <$> x) g r := by
  have h : Steady ready (x >>= fun a => pure (f a)) g (r >>= pure) :=
    hx.bind fun a _ => steady_pure (f a) g
  rwa [bind_pure_comp, bind_pure] at h

/-- A handler that only throws leaves a step steady. -/
theorem Steady.tryCatch {x : Walk σ α} {g : α → β} {r : Except Fault β}
    (hx : Steady ready x g r) (wrap : Fault → Fault) :
    Steady ready (tryCatch x fun f => throw (wrap f)) g (r.mapError wrap) := by
  intro s hs
  obtain ⟨hr, hs'⟩ := hx s hs
  simp only [outcome, ExceptT.run_tryCatch, StateT.run_bind, Id.run_bind] at hr ⊢
  rcases h : (StateT.run x.run s).run with ⟨e | a, s'⟩
  · rw [h] at hr hs'
    rw [← hr]
    exact ⟨rfl, hs'⟩
  · rw [h] at hr hs'
    rw [← hr]
    exact ⟨rfl, hs'⟩

end Walk

/-- A solver that is ready answers without failing, whatever it answers, and stays ready. -/
def Solver.NeverFails {σ : Type} (solver : Solver σ) (ready : Patience × σ → Prop) : Prop :=
  ∀ q s, ready s → ∃ a s', solver.solve q s = (.ok a, s') ∧ ready s'

theorem Solver.NeverFails.recorded {σ : Type} {solver : Solver σ} {ready : Patience × σ → Prop}
    (h : solver.NeverFails ready) :
    solver.recorded.NeverFails fun s => ready (s.1, s.2.1) := by
  intro q s hs
  obtain ⟨a, s', ha, hs'⟩ := h q (s.1, s.2.1) hs
  refine ⟨a, (s'.1, s'.2, q :: s.2.2), ?_, hs'⟩
  simp only [Solver.recorded, ha]

namespace Walker

variable {σ : Type} {w : Walker σ} {ready : Patience × σ → Prop}

theorem steady_tell (level : LogLevel) (message : String) (path : List Expr)
    (more : List (String × String)) :
    Walk.Steady ready (w.tell level message path more) id (.ok ()) := by
  intro s hs
  unfold tell
  split <;> exact ⟨rfl, hs⟩

theorem steady_report (taken : Bool) (path : List Expr) (arm : Option (List Stmt))
    (answer : Answer) : Walk.Steady ready (w.report taken path arm answer) id (.ok ()) := by
  unfold report
  split
  · exact steady_tell _ _ _ _
  · split
    · exact steady_tell _ _ _ _
    · exact Walk.steady_pure _ _

theorem gives_ask_of_solve {path : List Expr} {a : Answer} {s : Session σ} {t : Patience × σ}
    (h : w.solver.solve ⟨w.params, path⟩ s.forSolver = (.ok a, t)) :
    Walk.Gives (w.ask path) s a { s with patience := t.1, state := t.2 } := by
  unfold ask
  refine Walk.gives_bind.mpr ⟨s, s, Walk.gives_get.mpr ⟨rfl, rfl⟩, ?_⟩
  rw [Session.forSolver] at h
  simp only [h]
  exact Walk.gives_bind.mpr ⟨(), _, Walk.gives_set.mpr rfl, Walk.gives_pure.mpr ⟨rfl, rfl⟩⟩

theorem steady_ask (hw : w.solver.NeverFails ready) (path : List Expr) :
    Walk.Steady ready (w.ask path) (fun _ => ()) (.ok ()) := by
  refine Walk.steady_of_gives fun s hs => ?_
  obtain ⟨a, s', ha, hs'⟩ := hw ⟨w.params, path⟩ s.forSolver hs
  exact ⟨a, _, gives_ask_of_solve ha, rfl, hs'⟩

end Walker

/-! ## Layouts -/

/-- The statements of a tree with every path laid out, or why they cannot be. -/
def Tree.layout : Tree → Memory → Except Fault (List Stmt)
  | .stuck before f, m => do
    let _ ← m.executeAll before
    .error f
  | .straight stmts, m => do
    let _ ← m.executeAll stmts
    .ok stmts
  | .branch before cond arm sub, m => do
    let m ← m.executeAll before
    let _ ← m.resolve cond
    let yes ← (arm true).elim (.ok []) fun _ => (sub true).layout m
    let no ← (arm false).elim (.ok []) fun _ => (sub false).layout m
    .ok (before ++ [.branch cond ((arm true).map fun _ => .block yes)
      ((arm false).map fun _ => .block no)])

namespace Walker

variable {σ : Type} {w : Walker σ} {ready : Patience × σ → Prop}

theorem steady_recordArm (hw : w.solver.NeverFails ready) (hall : w.visitUnsat = true)
    (taken : Bool) (path : List Expr) (arm : Option (List Stmt)) {descend : Walk σ Record}
    {below : Except Fault (List Stmt)} (hd : Walk.Steady ready descend Record.body below) :
    Walk.Steady ready (w.recordArm taken path arm descend) (fun p => p.2.body)
      (arm.elim (.ok []) fun _ => below) := by
  refine (steady_ask hw path).andThen fun answer _ => ?_
  refine (steady_report taken path arm answer).andThen fun _ _ => ?_
  cases arm with
  | none => exact Walk.steady_pure _ _
  | some stmts =>
    simp only [hall, Bool.or_true, if_true, bind_pure_comp]
    exact Walk.Steady.map (f := Prod.mk answer) hd

/-- The body of a walk through all arms is the layout of the tree. -/
theorem steady_record (hw : w.solver.NeverFails ready) (hall : w.visitUnsat = true) (t : Tree)
    (path : List Expr) (m : Memory) :
    Walk.Steady ready (w.record t path m) Record.body (t.layout m) := by
  induction t generalizing path m with
  | stuck before f =>
    exact (Walk.steady_liftExcept _).bind fun _ _ => Walk.steady_throw f _
  | straight stmts =>
    exact (Walk.steady_liftExcept _).bind fun _ _ => Walk.steady_pure _ _
  | branch before cond arm sub ih =>
    refine (Walk.steady_liftExcept _).bind fun m' _ => ?_
    refine (Walk.steady_liftExcept _).bind fun test _ => ?_
    refine (steady_recordArm hw hall true _ (arm true) (ih true _ m')).bind fun yes _ => ?_
    refine (steady_recordArm hw hall false _ (arm false) (ih false _ m')).bind fun no _ => ?_
    exact Walk.steady_pure _ _

end Walker

/-! ## Functions -/

namespace Function

/-- The body of a function with every path laid out, or why it cannot be. -/
def layout (fn : Function) (e : Exploration) : Except Fault (List Stmt) :=
  ((Tree.ofStmts e.bound fn.body).layout (.init fn.params e.fold)).mapError
    (.during ("rewriting " ++ fn.name))

theorem steady_paths {σ : Type} (fn : Function) {solver : Solver σ}
    {ready : Patience × σ → Prop} (hs : solver.NeverFails ready) {e : Exploration}
    (hall : e.visitUnsat = true) : Walk.Steady ready (fn.paths solver e) Paths.body (fn.layout e) := by
  let w : Walker σ :=
    { solver := solver, params := fn.params, visitUnsat := e.visitUnsat,
      logAs := if e.logFound then some fn.name else none }
  have hwalk : Walk.Steady ready (w.walk (.ofStmts e.bound fn.body) [] (.init fn.params e.fold))
      Prod.fst ((Tree.ofStmts e.bound fn.body).layout (.init fn.params e.fold)) := by
    rw [Walker.walk_eq_map_record]
    exact Walk.Steady.map (Walker.steady_record hs hall _ _ _)
  have hpaths : Walk.Steady ready (fn.paths solver e) Paths.body (fn.layout e >>= .ok) :=
    (hwalk.tryCatch _).bind fun p _ => Walk.steady_pure _ _
  cases hl : fn.layout e with
  | error f => rwa [hl] at hpaths
  | ok body => rwa [hl] at hpaths

/-- The queries that a walk through the paths of a function asks, in order. -/
def queries {σ : Type} (fn : Function) (solver : Solver σ) (e : Exploration) (s : Session σ) :
    List Query :=
  ((fn.paths solver.recorded e).run.run ⟨s.patience, (s.state, []), s.log⟩).run.2.state.2.reverse

/-- The queries are those of the arms of the body, in order : two for each branch. -/
theorem queries_eq_arms {σ : Type} {fn : Function} {solver : Solver σ}
    {ready : Patience × σ → Prop} (hsolver : solver.NeverFails ready) {e : Exploration}
    (hall : e.visitUnsat = true) {body : List Stmt} (hbody : fn.layout e = .ok body)
    {s : Session σ} (hs : ready s.forSolver) :
    fn.queries solver e s = (Stmt.armsOf body).filterMap (fun arm =>
        (Stmt.pathTo (.init fn.params e.fold) arm body).map (Query.mk fn.params)) ∧
      (fn.queries solver e s).length =
        2 * (Stmt.walkList (fun _ => true) body).countP Stmt.isBranch := by
  have hsteady := (fn.steady_paths hsolver.recorded hall
    ⟨s.patience, (s.state, []), s.log⟩ hs).1
  rw [hbody] at hsteady
  cases ho : (fn.paths solver.recorded e).outcome ⟨s.patience, (s.state, []), s.log⟩ with
  | error f => simp [ho, Except.map] at hsteady
  | ok p =>
    obtain ⟨s', hp⟩ := Walk.outcome_eq_ok.mp ho
    obtain ⟨r, hr, rfl⟩ := Function.gives_paths.mp hp
    have hrb : r.body = body := by
      rw [ho] at hsteady
      injection hsteady
    subst hrb
    have hlaid := Function.laid hr
    rw [hall] at hlaid
    have hqueries : fn.queries solver e s = r.visits.map fun v => ⟨fn.params, v.path⟩ := by
      rw [queries, show (StateT.run (fn.paths solver.recorded e).run _).run = _ from hp]
      exact Function.log_eq_visits hr rfl
    constructor
    · rw [hqueries, ← hlaid.map_arm_visits, List.filterMap_map, eq_comm,
        List.filterMap_eq_map_iff_forall_eq_some]
      intro v hv
      simp [hlaid.pathTo_visit hv]
    · rw [hqueries, List.length_map, ← Stmt.length_armsOf, ← hlaid.map_arm_visits,
        List.length_map]

end Function

/-- The answers of a solver do not influence the body. If unreachable arms are laid out too, two
solvers that never fail, whatever they answer, lead to the same failure, or to the same body by
the same queries : one for each arm of the body, about the conditions of the arm, in the order of
`Stmt.armsOf`, and so two for each branch. -/
theorem Function.paths_independent {σ τ : Type} {fn : Function} {e : Exploration}
    (hall : e.visitUnsat = true) {S : Solver σ} {T : Solver τ} {readyS : Patience × σ → Prop}
    {readyT : Patience × τ → Prop} (hS : S.NeverFails readyS) (hT : T.NeverFails readyT)
    {s : Session σ} {t : Session τ} (hs : readyS s.forSolver) (ht : readyT t.forSolver) :
    (∃ f, (fn.paths S e).outcome s = .error f ∧ (fn.paths T e).outcome t = .error f) ∨
      ∃ p p', (fn.paths S e).outcome s = .ok p ∧ (fn.paths T e).outcome t = .ok p' ∧
        p.body = p'.body ∧ fn.queries S e s = fn.queries T e t ∧
        fn.queries S e s = (Stmt.armsOf p.body).filterMap (fun arm =>
          (Stmt.pathTo (.init fn.params e.fold) arm p.body).map (Query.mk fn.params)) ∧
        (fn.queries S e s).length =
          2 * (Stmt.walkList (fun _ => true) p.body).countP Stmt.isBranch := by
  have hbodyS := (fn.steady_paths hS hall s hs).1
  have hbodyT := (fn.steady_paths hT hall t ht).1
  cases hp : (fn.paths S e).outcome s with
  | error f =>
    rw [hp] at hbodyS
    rw [← hbodyS] at hbodyT
    cases hq : (fn.paths T e).outcome t with
    | error g =>
      rw [hq] at hbodyT
      injection hbodyT with hfg
      exact Or.inl ⟨f, rfl, congrArg _ hfg⟩
    | ok p' => simp [hq, Except.map] at hbodyT
  | ok p =>
    rw [hp] at hbodyS
    have hlayout : fn.layout e = .ok p.body := hbodyS.symm
    rw [hlayout] at hbodyT
    cases hq : (fn.paths T e).outcome t with
    | error g => simp [hq, Except.map] at hbodyT
    | ok p' =>
      rw [hq] at hbodyT
      injection hbodyT with hbody
      obtain ⟨hqS, hlen⟩ := Function.queries_eq_arms hS hall hlayout hs
      obtain ⟨hqT, -⟩ := Function.queries_eq_arms hT hall hlayout ht
      exact Or.inr ⟨p, p', rfl, rfl, hbody.symm, hqS.trans hqT.symm, hqS, hlen⟩

/-- The solver that says yes and no in turn, without values. -/
def Solver.alternating : Solver Bool where
  solve _ s := (.ok ⟨s.2, none⟩, (s.1, !s.2))

theorem Function.paths_independent_countdown :
    ∃ p p', (countdown.paths (.always .unsat) {}).outcome ⟨.unlimited, (), #[]⟩ = .ok p ∧
      (countdown.paths .alternating {}).outcome ⟨.unlimited, true, #[]⟩ = .ok p' ∧
      p.body = p'.body ∧
      countdown.queries (.always .unsat) {} ⟨.unlimited, (), #[]⟩ =
        countdown.queries .alternating {} ⟨.unlimited, true, #[]⟩ := by
  have halways : (Solver.always .unsat : Solver Unit).NeverFails fun _ => True :=
    fun _ s _ => ⟨_, s, rfl, trivial⟩
  have halternating : Solver.alternating.NeverFails fun _ => True :=
    fun _ _ _ => ⟨_, _, rfl, trivial⟩
  have h := @Function.paths_independent Unit Bool countdown {} rfl _ _ _ _ halways halternating
    ⟨.unlimited, (), #[]⟩ ⟨.unlimited, true, #[]⟩ trivial trivial
  rcases h with ⟨f, hf, -⟩ | ⟨p, p', hp, hp', hb, hq, -⟩
  · have hok : ((countdown.paths (.always .unsat) {}).outcome
        ⟨.unlimited, (), #[]⟩).isOk := by with_unfolding_all decide
    rw [hf] at hok
    cases hok
  · exact ⟨p, p', hp, hp', hb, hq⟩

end PathTree
