import Mathlib
import PathTree.Proofs.Cases
import PathTree.Proofs.Replay
import PathTree.Proofs.Waiting

/-!
# Pruned walks

A walk that leaves unreachable arms as they stand sees a part of what a walk through all arms sees :
its record is the other one with everything below an unsatisfiable visit cut off
(`Laid.steady_prune`), if the solver's answers depend on the query alone. So it finds those cases on
whose way no arm is unreachable, in the same order (`Record.cases_prune`, `Function.paths_pruned`).
-/

namespace PathTree

/-! ## Cutting off -/

/-- What is left of a record when the arms that cannot be reached are kept as they stood. -/
def Record.prune : Record → Record
  | .branch before cond test arm answer sub =>
    .branch before cond test arm answer fun b =>
      if (answer b).sat then (sub b).prune else (arm b).elim .absent .kept
  | r => r

/-- Every proper non-empty beginning of a case's path is satisfiable. -/
def Case.Reached (sat : List Expr → Bool) (c : Case) : Prop :=
  ∀ n < c.path.length, 0 < n → sat (c.path.take n)

instance (sat : List Expr → Bool) (c : Case) : Decidable (c.Reached sat) :=
  inferInstanceAs (Decidable (∀ n < c.path.length, 0 < n → sat (c.path.take n)))

theorem Case.reached_of_length {sat : List Expr → Bool} {c : Case} (h : c.path.length = 1) :
    c.Reached sat := by
  intro n hn hpos
  omega

/-- A case below an arm is reached if the arm is and the case is from there. -/
theorem Case.reached_after {sat : List Expr → Bool} {x : Expr} {c : Case} (hc : c.path ≠ []) :
    (c.after [x]).Reached sat ↔ sat [x] ∧ c.Reached fun path => sat (x :: path) := by
  have hlen : 0 < c.path.length := List.length_pos_iff.mpr hc
  constructor
  · intro h
    refine ⟨h 1 (by simpa [Case.after] using hlen) (by omega), fun n hn hpos => ?_⟩
    exact h (n + 1) (by simpa [Case.after] using hn) (by omega)
  · rintro ⟨hx, h⟩ n hn hpos
    obtain ⟨k, rfl⟩ := Nat.exists_eq_add_of_lt hpos
    have hk : k + 1 < c.path.length + 1 := by simpa [Case.after] using hn
    rcases Nat.eq_zero_or_pos k with rfl | hpos'
    · exact hx
    · rw [Nat.zero_add]
      exact h k (by omega) hpos'

/-- The cases that are left are those that are reached. -/
theorem Record.cases_prune (r : Record) {sat : List Expr → Bool}
    (h : ∀ v ∈ r.visits, v.answer.sat = sat v.path) :
    r.prune.cases = r.cases.filter fun c => c.Reached sat := by
  induction r generalizing sat with
  | branch before cond test arm answer sub ih =>
    have hown : ∀ b, (ownCase test (arm b) (answer b) b).filter (fun c => c.Reached sat) =
        ownCase test (arm b) (answer b) b := by
      intro b
      refine List.filter_eq_self.mpr fun c hc => decide_eq_true (Case.reached_of_length ?_)
      rw [path_of_mem_ownCase hc]
      rfl
    have hbelow : ∀ b, ((sub b).cases.map (Case.after [test.side b])).filter
          (fun c => c.Reached sat) =
        (if (answer b).sat then (sub b).prune else (arm b).elim .absent .kept).cases.map
          (Case.after [test.side b]) := by
      intro b
      have hsat : (answer b).sat = sat [test.side b] :=
        h _ (mem_visits_branch.mpr ⟨b, Or.inl rfl⟩)
      rw [List.filter_map]
      congr 1
      cases hs : (answer b).sat with
      | true =>
        have hsub := @ih b (fun path => sat (test.side b :: path)) fun v hv =>
          h _ (mem_visits_branch.mpr ⟨b, Or.inr ⟨v, hv, rfl⟩⟩)
        rw [if_pos rfl, hsub]
        refine List.filter_congr fun c hc => decide_eq_decide.mpr ?_
        rw [Case.reached_after (path_ne_nil hc), ← hsat, hs]
        simp
      | false =>
        have hnone : (if false = true then (sub b).prune else
            (arm b).elim .absent .kept).cases = [] := by
          cases arm b <;> rfl
        rw [hnone, List.filter_eq_nil_iff]
        intro c hc
        simp [Case.reached_after (path_ne_nil hc), ← hsat, hs]
    simp only [prune, cases, List.filter_append, hown, hbelow]
  | _ => rfl

/-! ## Walks that prune -/

theorem Record.visits_prune_subset {r : Record} {v : Visit} (hv : v ∈ r.prune.visits) :
    v ∈ r.visits := by
  induction r generalizing v with
  | branch before cond test arm answer sub ih =>
    obtain ⟨b, rfl | ⟨u, hu, rfl⟩⟩ := mem_visits_branch.mp hv
    · exact mem_visits_branch.mpr ⟨b, Or.inl rfl⟩
    · refine mem_visits_branch.mpr ⟨b, Or.inr ⟨u, ?_, rfl⟩⟩
      split at hu
      · exact ih b hu
      · cases harm : arm b <;> simp [harm, visits] at hu
  | _ => exact hv

/-- What is left of a record of all arms is a record of those that can be reached. -/
theorem Laid.prune {bound : Nat} {l : List Stmt} {m : Memory} {r : Record}
    (h : Laid bound true l m r) : Laid bound false l m r.prune := by
  induction h with
  | straight hc hs hm => exact .straight hc hs hm
  | @branch l before c test yes no m m' answer sub hc hb hm ht habsent hkept hentered ih =>
    refine .branch hc hb hm ht ?_ ?_ ?_
    · intro b hnone
      rw [hnone, habsent b hnone]
      cases (answer b).sat <;> rfl
    · intro b stmts hstmts hv
      rw [Bool.or_false] at hv
      simp [hv, hstmts]
    · intro b stmts hstmts hv
      rw [Bool.or_false] at hv
      rw [if_pos hv]
      exact ih b stmts hstmts (Bool.or_true _)

/-- A walk that prunes gives the pruned record, from every session that is ready. -/
theorem Laid.steady_prune {σ : Type} {ready : Patience × σ → Prop}
    {answerTo : Query → Except Fault Answer} {w : Walker σ}
    (hw : w.solver.AnswersBy ready answerTo) (hfew : w.visitUnsat = false) {bound : Nat}
    {l : List Stmt} {m : Memory} {r : Record} (h : Laid bound true l m r) {path : List Expr}
    (hr : ∀ v ∈ r.visits, answerTo ⟨w.params, path ++ v.path⟩ = .ok v.answer) :
    Walk.Steady ready (w.record (.ofStmts bound l) path m) id (.ok r.prune) := by
  have hpruned : Laid bound w.visitUnsat l m r.prune := hfew ▸ h.prune
  exact hpruned.steady_record hw fun v hv => hr v (Record.visits_prune_subset hv)

/-! ## The bounded search as a function of the query -/

/-- If the caller waits for ever, the answers of the bounded search depend on the query alone. -/
theorem Solver.bounded_answersBy {σ : Type} (b : Bounds) :
    (Solver.bounded b : Solver σ).AnswersBy (fun s => s.1 = .unlimited)
      fun q => (b.normalize.search q .unlimited).1 := by
  rintro q ⟨p, s⟩ rfl
  exact ⟨rfl, b.normalize.search_unlimited q⟩

/-! ## Cases of pruned walks -/

/-- Pruning only removes cases. Where the answers of a solver depend on the query alone, a walk that
leaves unreachable arms as they stand succeeds if a walk through all arms does, and its cases are
those of the other, in the same order, on whose paths every proper non-empty beginning is answered
satisfiable. -/
theorem Function.paths_pruned {σ : Type} {fn : Function} {solver : Solver σ}
    {ready : Patience × σ → Prop} {answerTo : Query → Except Fault Answer}
    (hsolver : solver.AnswersBy ready answerTo) {e : Exploration} {s s' : Session σ} {p : Paths}
    (h : Walk.Gives (fn.paths solver { e with visitUnsat := true }) s p s')
    (hs : ready s.forSolver) {t : Session σ} (ht : ready t.forSolver) :
    ∃ p' t', Walk.Gives (fn.paths solver { e with visitUnsat := false }) t p' t' ∧
      p'.cases = p.cases.filter fun c =>
        c.Reached fun path => (answerTo ⟨fn.params, path⟩).toOption.any Answer.sat := by
  obtain ⟨r, hr, rfl⟩ := Function.gives_paths.mp h
  have hvisits := hsolver.answer_of_mem (Function.answers hr) hs
  let w : Walker σ :=
    { solver := solver, params := fn.params, visitUnsat := false,
      logAs := if e.logFound then some fn.name else none }
  have hprune : Walk.Steady ready (fn.record solver { e with visitUnsat := false }) id
      (.ok r.prune) := (Function.laid hr).steady_prune (w := w) hsolver rfl hvisits
  obtain ⟨t', hr'⟩ := hprune.gives ht
  refine ⟨r.prune.paths, t', Function.gives_paths.mpr ⟨r.prune, hr', rfl⟩, ?_⟩
  refine r.cases_prune fun v hv => ?_
  rw [hvisits v hv]
  rfl

/-- The search does not find a root of 49 by itself, but it does when 6 is mentioned too. -/
def squareRoot : Function where
  name := "squareRoot"
  params := [⟨"n", "int"⟩]
  results := ["int"]
  body := [
    .branch (.binary .eq (.binary .mul (.ident "n") (.ident "n")) (.int 49))
      (some (.branch (.binary .gt (.ident "n") (.int 6)) (some (.ret (some (.ident "n")))) none))
      none,
    .ret none]

/-- The outer test of the sample. -/
def isRoot : Expr := .binary .eq (.binary .mul (.ident "n") (.ident "n")) (.int 49)

/-- The paths of the sample, with cases below the arm for which the search finds nothing. -/
def squareRootPaths : Paths where
  body := [
    .branch isRoot
      (some (.block [
        .branch (.binary .gt (.ident "n") (.int 6)) (some (.block [.ret (some (.ident "n"))]))
          (some (.block [.ret none]))]))
      (some (.block [.ret none]))]
  cases := [⟨false, [.pre .not (.paren isRoot)], [⟨"n", .ofInt 0⟩]⟩,
    ⟨true, [isRoot, .binary .gt (.ident "n") (.int 6)], [⟨"n", .ofInt 7⟩]⟩,
    ⟨false, [isRoot, .pre .not (.paren (.binary .gt (.ident "n") (.int 6)))],
      [⟨"n", .ofInt (-7)⟩]⟩]

theorem gives_squareRoot : Walk.Gives (squareRoot.paths (.bounded ⟨3, 50⟩) {})
    ⟨.unlimited, (), #[]⟩ squareRootPaths ⟨.unlimited, (), #[]⟩ := by
  unfold Walk.Gives
  cbv

theorem search_isRoot :
    (Bounds.search ⟨3, 50⟩ ⟨squareRoot.params, [isRoot]⟩ .unlimited).1 = .ok .unsat := by cbv

/-- Of the three cases only the first one has no unsatisfiable beginning. -/
theorem reached_squareRootPaths {sat : List Expr → Bool} (h : sat [isRoot] = false) :
    (squareRootPaths.cases.filter fun c => c.Reached sat) =
      [⟨false, [.pre .not (.paren isRoot)], [⟨"n", .ofInt 0⟩]⟩] := by
  have hbelow : ∀ taken x a, ¬(⟨taken, [isRoot, x], a⟩ : Case).Reached sat :=
    fun _ _ _ hreached => by simpa [h] using hreached 1 (by simp) (by simp)
  simp [squareRootPaths, hbelow, Case.reached_of_length]

theorem Function.paths_pruned_squareRoot :
    ∃ p s', Walk.Gives (squareRoot.paths (.bounded ⟨3, 50⟩) {}) ⟨.unlimited, (), #[]⟩ p s' ∧
      p.cases.map (·.assignment) = [[⟨"n", .ofInt 0⟩], [⟨"n", .ofInt 7⟩], [⟨"n", .ofInt (-7)⟩]] ∧
      ∃ p' t', Walk.Gives (squareRoot.paths (.bounded ⟨3, 50⟩) { visitUnsat := false })
          ⟨.unlimited, (), #[]⟩ p' t' ∧
        p'.cases.map (·.assignment) = [[⟨"n", .ofInt 0⟩]] := by
  obtain ⟨p', t', h', hcases⟩ := Function.paths_pruned (e := {}) (Solver.bounded_answersBy _)
    gives_squareRoot rfl (t := ⟨.unlimited, (), #[]⟩) rfl
  refine ⟨squareRootPaths, _, gives_squareRoot, rfl, p', t', h', ?_⟩
  rw [hcases, reached_squareRootPaths (congrArg (fun r => r.toOption.any Answer.sat) search_isRoot)]
  rfl

end PathTree
