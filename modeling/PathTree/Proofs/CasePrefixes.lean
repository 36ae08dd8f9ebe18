import PathTree.Proofs.Pruning
import PathTree.Proofs.SearchSpace

/-!
# The beginnings of a case's path

A walk through all arms goes on below an arm that a bounded search calls unsatisfiable, and may find
a case there, since a longer path mentions more literals and is searched among more candidates
(`Function.unsat_beginning_squareRoot`). The case is real all the same : its values satisfy every
beginning of its path. `Function.beginnings_of_cases` says when a beginning is answered satisfiable
and which cases a walk that leaves such arms as they stand has, whatever the patience of the two
callers.
-/

namespace PathTree

/-! ## Answers about beginnings -/

/-- Whether the search finds the conditions of a path satisfiable. -/
def Bounds.finds (b : Bounds) (params : List Param) (path : List Expr) : Bool :=
  (b.search ⟨params, path⟩ .unlimited).1.toOption.any Answer.sat

/-! ## Visits -/

/-- The beginnings of a visited path are visited. -/
theorem Record.exists_visit_take {r : Record} {v : Visit} (hv : v ∈ r.visits) {n : Nat}
    (hpos : 0 < n) (hn : n ≤ v.path.length) : ∃ u ∈ r.visits, u.path = v.path.take n := by
  induction r generalizing v n with
  | branch before cond test arm answer sub ih =>
    obtain ⟨b, rfl | ⟨u, hu, rfl⟩⟩ := mem_visits_branch.mp hv
    · refine ⟨_, hv, ?_⟩
      rw [List.take_of_length_le hpos]
    · obtain ⟨k, rfl⟩ : ∃ k, n = k + 1 := ⟨n - 1, by omega⟩
      rcases Nat.eq_zero_or_pos k with rfl | hk
      · exact ⟨_, mem_visits_branch.mpr ⟨b, Or.inl rfl⟩, rfl⟩
      · obtain ⟨w, hw, hpath⟩ := ih b hu hk (by simpa [Visit.after] using hn)
        refine ⟨_, mem_visits_branch.mpr ⟨b, Or.inr ⟨w, hw, rfl⟩⟩, ?_⟩
        simp [Visit.after, hpath]
  | _ => simp [visits] at hv

namespace Function

variable {σ : Type} {fn : Function} {b : Bounds} {e : Exploration} {s s' : Session σ} {r : Record}

/-- A visit is answered as the search answers, with the patience of any caller. -/
theorem search_of_visit (h : Walk.Gives (fn.record (.bounded b) e) s r s') {v : Visit}
    (hv : v ∈ r.visits) :
    (b.normalize.search ⟨fn.params, v.path⟩ .unlimited).1 = .ok v.answer := by
  obtain ⟨t, t', ht⟩ := Solver.solve_of_answers (Function.answers h) hv
  exact Bounds.search_of_patience (congrArg Prod.fst ht)

theorem finds_of_visit (h : Walk.Gives (fn.record (.bounded b) e) s r s') {v : Visit}
    (hv : v ∈ r.visits) : b.normalize.finds fn.params v.path = v.answer.sat := by
  rw [Bounds.finds, search_of_visit h hv]
  rfl

/-- With the patience to wait for ever, a walk that prunes gives the pruned record. -/
theorem steady_prune
    (h : Walk.Gives (fn.record (.bounded b) { e with visitUnsat := true }) s r s') :
    Walk.Steady (fun u : Patience × σ => u.1 = .unlimited)
      (fn.record (.bounded b) { e with visitUnsat := false }) id (.ok r.prune) :=
  steady_record (Solver.bounded_answersBy b) (Function.laid h).prune fun _ hv =>
    search_of_visit h (Record.visits_prune_subset hv)

/-- With any patience, a walk that prunes gives the pruned record if it gives one. -/
theorem eq_prune_of_record
    (h : Walk.Gives (fn.record (.bounded b) { e with visitUnsat := true }) s r s')
    {t t' : Session σ} {r' : Record}
    (h' : Walk.Gives (fn.record (.bounded b) { e with visitUnsat := false }) t r' t') :
    r' = r.prune := by
  have hr' : Walk.Steady (fun u : Patience × σ => u.1 = .unlimited)
      (fn.record (.bounded b) { e with visitUnsat := false }) id (.ok r') :=
    steady_record (Solver.bounded_answersBy b) (Function.laid h') fun v hv => search_of_visit h' hv
  let u : Session σ := ⟨.unlimited, t.state, t.log⟩
  exact Except.ok.inj ((hr' u rfl).1.symm.trans (steady_prune h u rfl).1)

end Function

/-! ## Cases -/

/-- The beginnings of the paths of cases, with a bounded search. A case's path is found satisfiable,
and there are candidates for its variables, among them the values of the case for the parameters,
that satisfy every beginning of it. Each beginning was visited, and it was found satisfiable if these
values are among the candidates of the search for it. A walk that leaves unreachable arms as they
stand succeeds, and has the cases, in the same order, all of whose proper beginnings were found
satisfiable. -/
theorem Function.beginnings_of_cases {σ : Type} {fn : Function} {b : Bounds} {e : Exploration}
    {s s' : Session σ} {p : Paths}
    (h : Walk.Gives (fn.paths (.bounded b) { e with visitUnsat := true }) s p s') :
    ∃ r, Walk.Gives (fn.record (.bounded b) { e with visitUnsat := true }) s r s' ∧ r.paths = p ∧
      (∀ v ∈ r.visits, v.answer.sat = b.normalize.finds fn.params v.path) ∧
      (∀ c ∈ p.cases, b.normalize.finds fn.params c.path ∧ ∃ env : Env,
        (∀ param ∈ fn.params, env.get? param.name = c.assignment.lookup param.name) ∧
        b.normalize.Draws ⟨fn.params, c.path⟩ env ∧
        ∀ n, 0 < n → n ≤ c.path.length →
          (∃ v ∈ r.visits, v.path = c.path.take n) ∧ env.holds (c.path.take n) = .ok true ∧
          (b.normalize.Draws ⟨fn.params, c.path.take n⟩ env →
            b.normalize.finds fn.params (c.path.take n))) ∧
      (∀ t : Session σ, t.patience = .unlimited → ∃ p' t',
        Walk.Gives (fn.paths (.bounded b) { e with visitUnsat := false }) t p' t') ∧
      ∀ (t : Session σ) p' t',
        Walk.Gives (fn.paths (.bounded b) { e with visitUnsat := false }) t p' t' →
        p'.cases = p.cases.filter fun c => c.Reached (b.normalize.finds fn.params) := by
  obtain ⟨r, hr, rfl⟩ := Function.gives_paths.mp h
  refine ⟨r, hr, rfl, fun v hv => (Function.finds_of_visit hr hv).symm, fun c hc => ?_,
    fun t ht => ?_, fun t p' t' h' => ?_⟩
  · obtain ⟨v, hv, hsat, hpath, hassignment, -⟩ := Record.exists_visit_of_mem_cases hc
    obtain ⟨env, hholds, hparams, hown, hdraws⟩ := Bounds.sat_of_draws b.radius_normalize
      (Function.search_of_visit hr hv) hsat
    rw [hpath, Function.finds_of_visit hr hv, hassignment]
    refine ⟨hsat, env, hparams, hown, fun n hpos hn => ?_⟩
    obtain ⟨u, hu, hupath⟩ := Record.exists_visit_take hv hpos hn
    refine ⟨⟨u, hu, hupath⟩, ?_, fun hd => ?_⟩
    · exact Env.holds_eq_true_iff.mpr fun x hx =>
        Env.holds_eq_true_iff.mp hholds x (List.mem_of_mem_take hx)
    · rw [← hupath] at hd ⊢
      rw [Function.finds_of_visit hr hu]
      exact hdraws n _ _ (hupath ▸ Function.search_of_visit hr hu) (hupath ▸ hd)
  · obtain ⟨t', hr'⟩ := (Function.steady_prune hr).gives (s := t) ht
    exact ⟨_, t', Function.gives_paths.mpr ⟨r.prune, hr', rfl⟩⟩
  · obtain ⟨r', hr', rfl⟩ := Function.gives_paths.mp h'
    rw [Function.eq_prune_of_record hr hr']
    exact r.cases_prune fun v hv => (Function.finds_of_visit hr hv).symm

/-- A test below another one, with values for both near the literals of the first. -/
def window : Function where
  name := "window"
  params := [⟨"n", "int"⟩]
  results := ["int"]
  body := [
    .branch (.binary .gt (.ident "n") (.int 3))
      (some (.branch (.binary .lt (.ident "n") (.int 9)) (some (.ret (some (.ident "n")))) none))
      none]

/-- The paths of the sample, with one case. -/
def windowPaths : Paths where
  body := [
    .branch (.binary .gt (.ident "n") (.int 3))
      (some (.block [.branch (.binary .lt (.ident "n") (.int 9))
        (some (.block [.ret (some (.ident "n"))])) none])) none]
  cases := [⟨true, [.binary .gt (.ident "n") (.int 3), .binary .lt (.ident "n") (.int 9)],
    [⟨"n", .ofInt 4⟩]⟩]

/-- The search for `n > 3` tries the value 4 of the case, and so it is satisfiable. -/
theorem Function.beginnings_of_cases_window :
    ∃ env : Env, env.get? "n" = some (.ofInt 4) ∧
      Bounds.Draws ⟨3, 50⟩ ⟨window.params, [.binary .gt (.ident "n") (.int 3)]⟩ env ∧
      Bounds.finds ⟨3, 50⟩ window.params [.binary .gt (.ident "n") (.int 3)] ∧
      ∃ p' t', Walk.Gives (window.paths (.bounded ⟨3, 50⟩) { visitUnsat := false })
        ⟨.unlimited, (), #[]⟩ p' t' ∧ p'.cases.map (·.assignment) = [[⟨"n", .ofInt 4⟩]] := by
  have h : Walk.Gives (window.paths (.bounded ⟨3, 50⟩) {}) ⟨.unlimited, (), #[]⟩ windowPaths
      ⟨.unlimited, (), #[]⟩ := by
    unfold Walk.Gives
    cbv
  obtain ⟨r, -, -, -, hcases, hexists, hpruned⟩ := Function.beginnings_of_cases (e := {}) h
  obtain ⟨-, env, hparams, -, hall⟩ := hcases windowPaths.cases[0] (by simp [windowPaths])
  obtain ⟨-, -, hfinds⟩ := hall 1 (by decide) (by decide)
  have hn : env.get? "n" = some (.ofInt 4) := hparams ⟨"n", "int"⟩ (by simp [window])
  have hdraws : Bounds.Draws ⟨3, 50⟩ ⟨window.params, [.binary .gt (.ident "n") (.int 3)]⟩ env := by
    refine ⟨[⟨"n", .int, none⟩], ⟨[3], []⟩, by rfl, by cbv, fun v hv => ?_⟩
    obtain rfl := List.mem_singleton.mp hv
    have hnear : 4 ∈ intCandidates 3 [3] :=
      (mem_intCandidates (by decide)).mpr (Or.inr ⟨3, by decide, by decide⟩)
    exact ⟨.ofInt 4, List.mem_map_of_mem hnear, hn⟩
  have hreached : ∀ c ∈ windowPaths.cases,
      c.Reached ((Bounds.normalize ⟨3, 50⟩).finds window.params) := by
    intro c hc n hlt hpos
    obtain rfl := List.mem_singleton.mp hc
    obtain rfl : n = 1 := Nat.le_antisymm (Nat.le_of_lt_succ hlt) hpos
    exact hfinds hdraws
  obtain ⟨p', t', h'⟩ := hexists ⟨.unlimited, (), #[]⟩ rfl
  refine ⟨env, hn, hdraws, hfinds hdraws, p', t', h', ?_⟩
  rw [hpruned _ _ _ h', List.filter_eq_self.mpr fun c hc => decide_eq_true (hreached c hc)]
  rfl

/-- With the radius 3, the search for `n * n == 49` finds nothing, but a case below that arm has the
value 7 : the search for the longer path tries the neighbours of 6. The walk that leaves the arm as
it stands has fewer cases. -/
theorem Function.unsat_beginning_squareRoot :
    ∃ p s' r p' t', Walk.Gives (squareRoot.paths (.bounded ⟨3, 50⟩) {}) ⟨.unlimited, (), #[]⟩ p s' ∧
      Walk.Gives (squareRoot.record (.bounded ⟨3, 50⟩) {}) ⟨.unlimited, (), #[]⟩ r s' ∧
      r.paths = p ∧
      (∃ c ∈ p.cases, ∃ v ∈ r.visits, 1 < c.path.length ∧ v.path = c.path.take 1 ∧
        v.answer.sat = false) ∧
      Walk.Gives (squareRoot.paths (.bounded ⟨3, 50⟩) { visitUnsat := false })
        ⟨.unlimited, (), #[]⟩ p' t' ∧
      p'.cases.length = 1 ∧ p.cases.length = 3 := by
  obtain ⟨r, hr, hpaths⟩ := Function.gives_paths.mp gives_squareRoot
  have hcases : r.cases = squareRootPaths.cases := congrArg Paths.cases hpaths
  have hunsat : Bounds.finds ⟨3, 50⟩ squareRoot.params [isRoot] = false :=
    congrArg (fun a => a.toOption.any Answer.sat) search_isRoot
  -- The visit of the outer arm, on the way to the case with the value 7.
  have hc : squareRootPaths.cases[1] ∈ squareRootPaths.cases := by simp [squareRootPaths]
  have hvisited : squareRootPaths.cases[1] ∈ r.cases := by rwa [hcases]
  obtain ⟨v, hv, -, hpath, -⟩ := Record.exists_visit_of_mem_cases hvisited
  obtain ⟨u, hu, hupath⟩ := Record.exists_visit_take hv (n := 1) (by decide) (hpath ▸ by decide)
  rw [← hpath] at hupath
  have hsat : ∀ v ∈ r.visits, v.answer.sat = Bounds.finds ⟨3, 50⟩ squareRoot.params v.path :=
    fun v hv => (Function.finds_of_visit hr hv).symm
  obtain ⟨t', hr'⟩ := (Function.steady_prune (e := {}) hr).gives (s := ⟨.unlimited, (), #[]⟩) rfl
  refine ⟨_, _, r, r.prune.paths, t', gives_squareRoot, hr, hpaths,
    ⟨_, hc, u, hu, by decide, hupath, ?_⟩, Function.gives_paths.mpr ⟨_, hr', rfl⟩, ?_, rfl⟩
  · rw [hsat u hu, hupath]
    exact hunsat
  · show r.prune.cases.length = 1
    rw [r.cases_prune hsat, hcases, reached_squareRootPaths hunsat]
    rfl

end PathTree
