import PathTree.Proofs.BoundedSearch
import PathTree.Proofs.Cases
import PathTree.Proofs.PathConditions

/-!
# Recorded inputs

The values of a case make the conditions of its path true (`Bounds.holds_of_search`), and therefore
a run that starts with them goes down the path, as far as it goes. Only a value that cannot be
evaluated can stop it : `Function.enters_case_iff`.

Nothing prevents that. Values are kept as they are written until a condition reads them, so no query
asks that a value which no condition reads can be evaluated, and the search tries zero first.
`Function.fails_before_case_portion` : a division by zero ends a run before the branch of its case.
-/

namespace PathTree

/-- The assignment that a search finds makes conditions without unknowns true. -/
theorem Bounds.holds_of_search {b : Bounds} {q : Query} {p p' : Patience}
    {found : Option Assignment} (h : b.search q p = (.ok ⟨true, found⟩, p'))
    (hn : ∀ c ∈ q.conds, c.NoUnknowns) :
    Env.holds (found.getD []).env q.conds = .ok true := by
  obtain ⟨vars, env, hvars, hholds, rfl⟩ := Bounds.search_eq_sat h
  exact holds_assignmentOf hvars hholds hn

theorem Solver.holds_of_bounded {σ : Type} {b : Bounds} {q : Query} {s s' : Patience × σ}
    {a : Answer} (h : (Solver.bounded b).solve q s = (.ok a, s')) (hsat : a.sat)
    (hn : ∀ c ∈ q.conds, c.NoUnknowns) :
    Env.holds (a.assignment.getD []).env q.conds = .ok true := by
  obtain ⟨sat, found⟩ := a
  cases hsat
  simp only [Solver.bounded, Prod.mk.injEq] at h
  have hsearch : b.normalize.search q s.1 =
      (.ok ⟨true, found⟩, (b.normalize.search q s.1).2) := Prod.ext h.1 rfl
  exact Bounds.holds_of_search hsearch hn

/-- A run that fails before the branch of an arm does not enter the arm. -/
theorem Course.FailsBefore.not_enters {c : Course} {arm : List Bool} (h : c.FailsBefore arm) :
    ¬c.Enters arm := by
  obtain ⟨-, hp, hne⟩ := h
  intro he
  exact hne (hp.eq_of_length_le he.length_le)

namespace Function

/-- A recorded input reaches the arm that it was recorded for, unless a value on the way cannot be
evaluated. For each case of the bounded search whose path has no unknowns, a run of the paths that
starts with the values of the case enters the arm of the case's path if and only if it does not fail
before the branch of that arm. -/
theorem enters_case_iff {σ : Type} {fn : Function} {b : Bounds} {e : Exploration}
    {s s' : Session σ} {p : Paths} (h : Walk.Gives (fn.paths (.bounded b) e) s p s') {c : Case}
    (hc : c ∈ p.cases) (hn : ∀ x ∈ c.path, x.NoUnknowns) :
    ∃ arm, arm.getLast? = some c.taken ∧
      Stmt.pathTo (.init fn.params e.fold) arm p.body = some c.path ∧
      ((e.fold = true → (Memory.init fn.params e.fold).NoneFloat (Stmt.wayTo arm p.body)) →
        ((c.assignment.env.valuation.runList p.body).Enters arm ↔
          ¬(c.assignment.env.valuation.runList p.body).FailsBefore arm)) := by
  obtain ⟨r, hr, rfl⟩ := Function.gives_paths.mp h
  obtain ⟨v, hv, hsat, hpath, hvalues, htaken⟩ := Record.exists_visit_of_mem_cases hc
  have hlaid := Function.laid hr
  refine ⟨v.arm, htaken, hpath ▸ hlaid.pathTo_visit hv, fun hq => ?_⟩
  obtain ⟨t, t', hsolve⟩ := Solver.solve_of_answers (Function.answers hr) hv
  rw [hpath] at hn
  have hholds : Env.holds c.assignment.env v.path = .ok true :=
    hvalues ▸ Solver.holds_of_bounded hsolve hsat hn
  constructor
  · intro he hf
    exact hf.not_enters he
  · intro hf
    exact (hlaid.enters_iff (Memory.agrees_init _ _ _) hv (Or.inr hn)
      (Memory.noneFloat_of_imp hq) hf).mpr hholds

end Function

/-- A division on the way to the last branch, by a parameter that this branch does not mention. -/
def portion : Function where
  name := "portion"
  params := [⟨"n", "int"⟩, ⟨"d", "int"⟩]
  results := ["int"]
  body := [
    .branch (.binary .gt (.ident "d") (.int 2)) (some (.expr (.post .inc (.ident "n")))) none,
    .decl "q" "int" (some (.binary .div (.int 100) (.ident "d"))),
    .branch (.binary .gt (.ident "n") (.int 0)) (some (.ret (some (.ident "q")))) none]

/-- The paths of the sample, with two cases. -/
def portionPaths : Paths where
  body := [
    .branch (.binary .gt (.ident "d") (.int 2))
      (some (.block [
        .expr (.post .inc (.ident "n")),
        .decl "q" "int" (some (.binary .div (.int 100) (.ident "d"))),
        .branch (.binary .gt (.ident "n") (.int 0))
          (some (.block [.ret (some (.ident "q"))])) none]))
      (some (.block [
        .decl "q" "int" (some (.binary .div (.int 100) (.ident "d"))),
        .branch (.binary .gt (.ident "n") (.int 0))
          (some (.block [.ret (some (.ident "q"))])) none]))]
  cases := [
    ⟨true, [.binary .gt (.ident "d") (.int 2),
      .binary .gt (.binary .add (.ident "n") (.int 1)) (.int 0)],
      [⟨"n", .ofInt 0⟩, ⟨"d", .ofInt 3⟩]⟩,
    ⟨true, [.pre .not (.paren (.binary .gt (.ident "d") (.int 2))),
      .binary .gt (.ident "n") (.int 0)],
      [⟨"n", .ofInt 1⟩, ⟨"d", .ofInt 0⟩]⟩]

theorem gives_portion : Walk.Gives (portion.paths (.bounded ⟨3, 50⟩) {}) ⟨.unlimited, (), #[]⟩
    portionPaths ⟨.unlimited, (), #[]⟩ := by
  unfold Walk.Gives
  cbv

/-- The values `n = 0` and `d = 3` of the first case lead behind the division. -/
theorem Function.enters_case_iff_portion :
    ∃ c ∈ portionPaths.cases, c.assignment = [⟨"n", .ofInt 0⟩, ⟨"d", .ofInt 3⟩] ∧
      Stmt.pathTo (.init portion.params true) [true, true] portionPaths.body = some c.path ∧
      (c.assignment.env.valuation.runList portionPaths.body).Enters [true, true] := by
  have hc : portionPaths.cases[0] ∈ portionPaths.cases := by simp [portionPaths]
  obtain ⟨arm, -, harm, hiff⟩ := Function.enters_case_iff gives_portion hc
    (by simp [portionPaths, Expr.int])
  have hpath : Stmt.pathTo (.init portion.params true) [true, true] portionPaths.body =
      some portionPaths.cases[0].path := by rfl
  obtain rfl := Stmt.pathTo_injective harm hpath
  exact ⟨_, hc, rfl, hpath, (hiff (by decide)).mpr (by decide)⟩

/-- The values `n = 1` and `d = 0` of the second case satisfy its path, but lead to a division by
zero before the last branch. -/
theorem Function.fails_before_case_portion :
    Walk.Gives (portion.paths (.bounded ⟨3, 50⟩) {}) ⟨.unlimited, (), #[]⟩ portionPaths
        ⟨.unlimited, (), #[]⟩ ∧
      ∃ c ∈ portionPaths.cases, c.assignment = [⟨"n", .ofInt 1⟩, ⟨"d", .ofInt 0⟩] ∧
        (∀ x ∈ c.path, x.NoUnknowns) ∧
        Stmt.pathTo (.init portion.params true) [false, true] portionPaths.body = some c.path ∧
        (c.assignment.env.valuation.runList portionPaths.body).FailsBefore [false, true] ∧
        ¬(c.assignment.env.valuation.runList portionPaths.body).Enters [false, true] := by
  have hc : portionPaths.cases[1] ∈ portionPaths.cases := by simp [portionPaths]
  have hf : (portionPaths.cases[1].assignment.env.valuation.runList
      portionPaths.body).FailsBefore [false, true] := by decide
  exact ⟨gives_portion, _, hc, rfl, by simp [portionPaths, Expr.int], by rfl, hf, hf.not_enters⟩

end PathTree
