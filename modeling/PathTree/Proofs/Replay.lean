import PathTree.Proofs.Independence

/-!
# Walks that are determined by the answers

If the answers of a solver depend on the query alone (`Solver.AnswersBy`), a walk is determined by
what it sees : `Laid.steady_record` says that a record of a list whose visits are answered as the
solver answers is the record of every walk through the list. So two walks are compared by comparing
two records, without the monad. `Function.queries_of_record` : the queries of such a walk are the
paths of the visits.
-/

namespace PathTree

/-- The answers of a solver that is ready depend on the query alone, and it stays ready. -/
def Solver.AnswersBy {σ : Type} (solver : Solver σ) (ready : Patience × σ → Prop)
    (answerTo : Query → Except Fault Answer) : Prop :=
  ∀ q s, ready s → (solver.solve q s).1 = answerTo q ∧ ready (solver.solve q s).2

section AnswersBy

variable {σ : Type} {ready : Patience × σ → Prop} {answerTo : Query → Except Fault Answer}

/-- Visits are answered as their queries are. -/
theorem Solver.AnswersBy.answer_of_mem {solver : Solver σ}
    (hsolver : solver.AnswersBy ready answerTo) {params : List Param} {vs : List Visit}
    {s s' : Patience × σ} (h : solver.Answers params vs s s') (hs : ready s) :
    ∀ v ∈ vs, answerTo ⟨params, v.path⟩ = .ok v.answer := by
  induction vs generalizing s with
  | nil => simp
  | cons x vs ih =>
    obtain ⟨s₁, hx, h⟩ := h
    obtain ⟨ha, hs₁⟩ := hsolver ⟨params, x.path⟩ s hs
    rw [hx] at ha hs₁
    exact List.forall_mem_cons.mpr ⟨ha.symm, ih h hs₁⟩

/-- A solver that keeps its queries answers as before. -/
theorem Solver.AnswersBy.recorded {solver : Solver σ} (hsolver : solver.AnswersBy ready answerTo) :
    solver.recorded.AnswersBy (fun s => ready (s.1, s.2.1)) answerTo := by
  intro q s hs
  exact hsolver q (s.1, s.2.1) hs

variable {w : Walker σ} (hw : w.solver.AnswersBy ready answerTo)

include hw

theorem Walker.steady_ask_of_answerTo {path : List Expr} {a : Answer}
    (ha : answerTo ⟨w.params, path⟩ = .ok a) : Walk.Steady ready (w.ask path) id (.ok a) := by
  refine Walk.steady_of_gives fun s hs => ?_
  obtain ⟨hsolve, hs'⟩ := hw ⟨w.params, path⟩ s.forSolver hs
  exact ⟨a, _, gives_ask_of_solve (Prod.ext (hsolve.trans ha) rfl), rfl, hs'⟩

/-- A visit to an arm gives its record, if the record is what the answer asks for : of a missing
arm, of an arm that is left as it stands, or of one that is entered. -/
theorem Walker.steady_recordArm_of_answerTo {taken : Bool} {path : List Expr}
    {arm : Option (List Stmt)} {descend : Walk σ Record} {a : Answer} {r : Record}
    (ha : answerTo ⟨w.params, path⟩ = .ok a) (habsent : arm = none → r = .absent)
    (hkept : ∀ stmts, arm = some stmts → (a.sat || w.visitUnsat) = false → r = .kept stmts)
    (hentered : ∀ stmts, arm = some stmts → (a.sat || w.visitUnsat) = true →
      Walk.Steady ready descend id (.ok r)) :
    Walk.Steady ready (w.recordArm taken path arm descend) id (.ok (a, r)) := by
  refine (steady_ask_of_answerTo hw ha).andThen fun a' ha' => ?_
  obtain rfl : a' = a := ha'
  refine (steady_report taken path arm a').andThen fun _ _ => ?_
  cases arm with
  | none =>
    rw [habsent rfl]
    exact Walk.steady_pure _ _
  | some stmts =>
    cases hv : a'.sat || w.visitUnsat with
    | true =>
      simp only [if_true]
      refine (hentered stmts rfl hv).andThen fun r' hr' => ?_
      obtain rfl : r' = r := hr'
      exact Walk.steady_pure _ _
    | false =>
      rw [hkept stmts rfl hv]
      exact Walk.steady_pure _ _

/-- A record of a list whose visits are answered as the solver answers is what a walk through the
list gives, from every session that is ready. -/
theorem Laid.steady_record {bound : Nat} {l : List Stmt} {m : Memory} {r : Record}
    (h : Laid bound w.visitUnsat l m r) {path : List Expr}
    (hr : ∀ v ∈ r.visits, answerTo ⟨w.params, path ++ v.path⟩ = .ok v.answer) :
    Walk.Steady ready (w.record (.ofStmts bound l) path m) id (.ok r) := by
  induction h generalizing path with
  | straight hc hs hm =>
    rw [Tree.ofStmts_straight hc hs]
    exact (Walk.steady_of_eq_ok hm).andThen fun _ _ => Walk.steady_pure _ _
  | @branch l before c test yes no m m' answer sub hc hb hm ht habsent hkept hentered ih =>
    have harm : ∀ taken, Walk.Steady ready
        (w.recordArm taken (path ++ [test.side taken]) (Shape.arms c yes no taken)
          (w.record (Tree.armTree bound (Shape.arms c yes no) taken)
            (path ++ [test.side taken]) m')) id (.ok (answer taken, sub taken)) := by
      intro taken
      refine Walker.steady_recordArm_of_answerTo hw
        (hr _ (Record.mem_visits_branch.mpr ⟨taken, Or.inl rfl⟩)) (habsent taken) (hkept taken)
        fun stmts hstmts hv => ?_
      rw [Tree.armTree_of_eq_some hstmts]
      refine ih taken stmts hstmts hv fun v hmem => ?_
      rw [List.append_assoc]
      exact hr _ (Record.mem_visits_branch.mpr ⟨taken, Or.inr ⟨v, hmem, rfl⟩⟩)
    rw [Tree.ofStmts_branch hc hb]
    refine (Walk.steady_of_eq_ok hm).andThen fun m₁ hm₁ => ?_
    obtain rfl : m₁ = m' := hm₁
    refine (Walk.steady_of_eq_ok ht).andThen fun test₁ ht₁ => ?_
    obtain rfl : test₁ = test := ht₁
    refine (harm true).andThen fun yes' hyes => (harm false).andThen fun no' hno => ?_
    have hrecord : Record.branch before (Stmt.splitCond c yes no).1 test₁ (Shape.arms c yes no)
        (fun b => if b then yes'.1 else no'.1) (fun b => if b then yes'.2 else no'.2) =
        .branch before (Stmt.splitCond c yes no).1 test₁ (Shape.arms c yes no) answer sub := by
      rw [show yes' = _ from hyes, show no' = _ from hno]
      congr 1
      · funext b
        cases b <;> rfl
      · funext b
        cases b <;> rfl
    rw [← hrecord]
    exact Walk.steady_pure _ _

end AnswersBy

namespace Function

variable {σ : Type} {fn : Function} {solver : Solver σ} {ready : Patience × σ → Prop}
  {answerTo : Query → Except Fault Answer} {e : Exploration} {r : Record}

/-- A record of a function's body whose visits are answered as the solver answers is the record of
the function. -/
theorem steady_record (hsolver : solver.AnswersBy ready answerTo)
    (h : Laid e.bound e.visitUnsat fn.body (.init fn.params e.fold) r)
    (hr : ∀ v ∈ r.visits, answerTo ⟨fn.params, v.path⟩ = .ok v.answer) :
    Walk.Steady ready (fn.record solver e) id (.ok r) := by
  let w : Walker σ :=
    { solver := solver, params := fn.params, visitUnsat := e.visitUnsat,
      logAs := if e.logFound then some fn.name else none }
  exact Laid.steady_record (w := w) hsolver h hr

/-- The queries of a walk are the paths of its visits. -/
theorem queries_of_record (hsolver : solver.AnswersBy ready answerTo)
    (h : Laid e.bound e.visitUnsat fn.body (.init fn.params e.fold) r)
    (hr : ∀ v ∈ r.visits, answerTo ⟨fn.params, v.path⟩ = .ok v.answer) {s : Session σ}
    (hs : ready s.forSolver) :
    fn.queries solver e s = r.visits.map fun v => ⟨fn.params, v.path⟩ := by
  obtain ⟨s', hrec⟩ := (steady_record hsolver.recorded h hr).gives
    (s := ⟨s.patience, (s.state, []), s.log⟩) hs
  have hpaths := Function.gives_paths.mpr ⟨r, hrec, rfl⟩
  rw [queries, show (StateT.run (fn.paths solver.recorded e).run _).run = _ from hpaths]
  exact Function.log_eq_visits hrec rfl

end Function

end PathTree
