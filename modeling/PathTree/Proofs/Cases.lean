import Mathlib.Data.List.Nodup
import PathTree.Proofs.ArmPaths

/-!
# The cases of a function

A case is found at an arm before the arm is laid out, by looking for a statement that leaves the
function among the statements of the arm as they stand. Laying an arm out puts no such statement
into its list that was not there (`Laid.containsTerminal_of_body`) : what follows a branch goes into
the arms of the branch, and those are looked at when they are visited.

So the cases are the visits to reachable arms that leave the function, no two of them have the same
path, and none is missed (`Function.cases_sound_complete`).
-/

namespace PathTree

namespace Stmt

/-! ## Statements that leave the function -/

/-- Whether a statement is a block. -/
def isBlock : Stmt → Bool
  | .block _ => true
  | _ => false

mutual
theorem isBlock_of_mem_spliced (s : Stmt) : ∀ t ∈ spliced s, t.isBlock = false := by
  cases s with
  | block inner =>
    rw [spliced]
    exact isBlock_of_mem_flatten inner
  | _ => simp [spliced, isBlock]

/-- A list with nested blocks spliced has no block in it. -/
theorem isBlock_of_mem_flatten (l : List Stmt) : ∀ t ∈ flatten l, t.isBlock = false := by
  cases l with
  | nil => simp [flatten]
  | cons s rest =>
    intro t ht
    rcases List.mem_append.mp ht with ht | ht
    · exact isBlock_of_mem_spliced s t ht
    · exact isBlock_of_mem_flatten rest t ht
end

theorem containsTerminal_append (l l' : List Stmt) :
    containsTerminal (l ++ l') = (containsTerminal l || containsTerminal l') := by
  simp [containsTerminal]

theorem containsTerminal_cons (s : Stmt) (l : List Stmt) :
    containsTerminal (s :: l) = (s.isTerminal || containsTerminal l) := by
  simp [containsTerminal]

theorem containsTerminal_of_isSimple {l : List Stmt} (h : ∀ s ∈ l, s.isSimple) :
    containsTerminal l = false := by
  refine List.any_eq_false.mpr fun s hs => ?_
  have := h s hs
  cases s <;> simp_all [isSimple, isTerminal]

theorem isTerminal_unroll (c : Expr) (body : List Stmt) (n : Nat) :
    (unroll c body n).isTerminal = false := by
  fun_induction unroll c body n <;> rfl

/-- Unrolling loops leaves the statements that leave the function. -/
theorem containsTerminal_expand {b : Nat} {l out : List Stmt} (hl : ∀ s ∈ l, s.isBlock = false)
    (h : expand b l = .ok out) : containsTerminal out = containsTerminal l := by
  induction l generalizing out with
  | nil =>
    cases h
    rfl
  | cons s rest ih =>
    obtain ⟨first, more, h1, h2, rfl⟩ := expand_cons h
    have hs := hl s (by simp)
    have hfirst : containsTerminal first = s.isTerminal := by
      rcases expandOne_cases h1 with ⟨inner, rfl, -⟩ | ⟨c, body, rfl, rfl⟩ |
        ⟨init, c, step, body, pre, rfl, -, hi, rfl⟩ | ⟨-, rfl⟩
      · simp [isBlock] at hs
      · rw [containsTerminal_cons, isTerminal_unroll]
        rfl
      · rw [containsTerminal_append, containsTerminal_of_isSimple (isSimple_of_loopInit hi),
          containsTerminal_cons, isTerminal_unroll]
        rfl
      · simp [containsTerminal]
    rw [containsTerminal_append, containsTerminal_cons, hfirst,
      ih (fun t ht => hl t (List.mem_cons_of_mem _ ht)) h2]

/-- Copying tails into arms brings no statement that leaves the function into a list. -/
theorem containsTerminal_of_joinTails {l out : List Stmt} (h : joinTails l = .ok out)
    (ht : containsTerminal out) : containsTerminal l := by
  induction l generalizing out with
  | nil =>
    cases h
    exact ht
  | cons s rest ih =>
    obtain ⟨more, hr, ⟨-, rfl⟩ | ⟨-, -, rfl⟩ | ⟨c, yes, no, rfl, rfl⟩⟩ := joinTails_cons h
    · rw [containsTerminal_cons, Bool.or_eq_true] at ht ⊢
      exact ht.imp_right (ih hr)
    · rw [containsTerminal_cons, Bool.or_eq_true] at ht ⊢
      exact ht.imp_right (ih hr)
    · simp [containsTerminal, mergeTail, isTerminal] at ht

theorem containsTerminal_of_mergeLast {l : List Stmt} (ht : containsTerminal (mergeLast l)) :
    containsTerminal l := by
  fun_induction mergeLast l with
  | case1 => exact ht
  | case2 c yes no tail _ => simp [containsTerminal, isTerminal] at ht
  | case3 c yes no tail _ => simp [containsTerminal, mergeTail, isTerminal] at ht
  | case4 s rest _ _ ih =>
    rw [containsTerminal_cons, Bool.or_eq_true] at ht ⊢
    exact ht.imp_right ih
  | case5 s rest _ _ => exact ht

/-- A canonical form holds no statement that leaves the function but those of its list. -/
theorem containsTerminal_of_canonicalize {b : Nat} {l out : List Stmt}
    (hl : ∀ s ∈ l, s.isBlock = false) (h : canonicalize b l = .ok out)
    (ht : containsTerminal out) : containsTerminal l := by
  obtain ⟨flat, joined, he, hj, rfl⟩ := canonicalize_eq_ok h
  rw [← containsTerminal_expand hl he]
  exact containsTerminal_of_joinTails hj (containsTerminal_of_mergeLast ht)

end Stmt

theorem Shape.isBlock_of_mem_arms {c : Expr} {yes no : Option Stmt} {b : Bool} {stmts : List Stmt}
    (h : Shape.arms c yes no b = some stmts) : ∀ s ∈ stmts, s.isBlock = false := by
  unfold Shape.arms Shape.armStmts at h
  split at h
  · cases h
  · cases h
    exact Stmt.isBlock_of_mem_flatten _

theorem Laid.containsTerminal_of_body {bound : Nat} {all : Bool} {l : List Stmt} {m : Memory}
    {r : Record} (h : Laid bound all l m r) (hl : ∀ s ∈ l, s.isBlock = false)
    (ht : Stmt.containsTerminal r.body) : Stmt.containsTerminal l := by
  cases h with
  | straight hc hs hm => exact Stmt.containsTerminal_of_canonicalize hl hc ht
  | branch hc hb hm htest habsent hkept hentered =>
    rw [Record.body, Stmt.containsTerminal_append, Stmt.containsTerminal_of_isSimple hb] at ht
    simp [Stmt.containsTerminal, Stmt.isTerminal] at ht

/-! ## Cases and visits -/

namespace Record

variable {before : List Stmt} {cond test : Expr} {arm : Bool → Option (List Stmt)}
  {answer : Bool → Answer} {sub : Bool → Record}

theorem mem_ownCase {arm : Option (List Stmt)} {answer : Answer} {taken : Bool} {c : Case} :
    c ∈ ownCase test arm answer taken ↔ answer.sat ∧ arm.any Stmt.containsTerminal ∧
      c = ⟨taken, [test.side taken], answer.assignment.getD []⟩ := by
  unfold ownCase
  split
  · next h =>
    obtain ⟨hs, ha⟩ := Bool.and_eq_true_iff.mp h
    simp [hs, ha]
  · next h =>
    simp only [Bool.and_eq_true, not_and] at h
    simp only [List.not_mem_nil, false_iff]
    rintro ⟨hs, ha, -⟩
    exact h hs ha

/-- The cases of a branch are those of its two arms and those below them. -/
theorem mem_cases_branch {c : Case} :
    c ∈ (Record.branch before cond test arm answer sub).cases ↔
      ∃ b, c ∈ ownCase test (arm b) (answer b) b ∨
        ∃ d ∈ (sub b).cases, c = d.after [test.side b] := by
  simp only [cases, List.mem_append, List.mem_map, Bool.exists_bool, eq_comm (a := c)]
  grind

theorem path_ne_nil {r : Record} {c : Case} (h : c ∈ r.cases) : c.path ≠ [] := by
  cases r with
  | branch =>
    obtain ⟨b, hc | ⟨d, -, rfl⟩⟩ := mem_cases_branch.mp h
    · obtain ⟨-, -, rfl⟩ := mem_ownCase.mp hc
      simp
    · simp [Case.after]
  | _ => simp [cases] at h

/-- A case is found at a visit that is answered satisfiable, and has the answer's values. -/
theorem exists_visit_of_mem_cases {r : Record} {c : Case} (h : c ∈ r.cases) :
    ∃ v ∈ r.visits, v.answer.sat ∧ c.path = v.path ∧
      c.assignment = v.answer.assignment.getD [] ∧ v.arm.getLast? = some c.taken := by
  induction r generalizing c with
  | branch before cond test arm answer sub ih =>
    obtain ⟨b, hc | ⟨d, hd, rfl⟩⟩ := mem_cases_branch.mp h
    · obtain ⟨hs, -, rfl⟩ := mem_ownCase.mp hc
      exact ⟨_, mem_visits_branch.mpr ⟨b, Or.inl rfl⟩, hs, rfl, rfl, rfl⟩
    · obtain ⟨v, hv, hs, hp, ha, hl⟩ := ih b hd
      refine ⟨_, mem_visits_branch.mpr ⟨b, Or.inr ⟨v, hv, rfl⟩⟩, hs, ?_, ha, ?_⟩
      · simp [Case.after, Visit.after, hp]
      · rw [Visit.after, List.getLast?_append, hl]
        rfl
  | _ => simp [cases] at h

theorem path_of_mem_ownCase {arm : Option (List Stmt)} {answer : Answer} {taken : Bool} {c : Case}
    (h : c ∈ ownCase test arm answer taken) : c.path = [test.side taken] := by
  obtain ⟨-, -, rfl⟩ := mem_ownCase.mp h
  rfl

theorem path_of_mem_below {r : Record} {x : Expr} {c : Case}
    (h : c ∈ r.cases.map (Case.after [x])) : ∃ y ys, c.path = x :: y :: ys := by
  obtain ⟨d, hd, rfl⟩ := List.mem_map.mp h
  obtain ⟨y, ys, hy⟩ := List.exists_cons_of_ne_nil (path_ne_nil hd)
  exact ⟨y, ys, by simp [Case.after, hy]⟩

/-- No two cases have the same path. -/
theorem nodup_paths (r : Record) : (r.cases.map (·.path)).Nodup := by
  rw [List.Nodup, List.pairwise_map]
  induction r with
  | branch before cond test arm answer sub ih =>
    have hown : ∀ b, (ownCase test (arm b) (answer b) b).Pairwise fun c d => c.path ≠ d.path := by
      intro b
      unfold ownCase
      split <;> simp
    have hbelow : ∀ b, ((sub b).cases.map (Case.after [test.side b])).Pairwise
        fun c d => c.path ≠ d.path := by
      intro b
      rw [List.pairwise_map]
      simpa [Case.after] using ih b
    have hside : test.side true ≠ test.side false := fun h => by
      simpa using Expr.side_injective h
    -- The path of an arm's own case is shorter than those below the arms, and the paths of the two
    -- arms differ in the test.
    refine List.pairwise_append.mpr ⟨List.pairwise_append.mpr ⟨List.pairwise_append.mpr
      ⟨hown true, hown false, ?_⟩, hbelow true, ?_⟩, hbelow false, ?_⟩
    · intro c hc d hd
      rw [path_of_mem_ownCase hc, path_of_mem_ownCase hd]
      simpa using hside
    · intro c hc d hd
      obtain ⟨y, ys, hy⟩ := path_of_mem_below hd
      rcases List.mem_append.mp hc with hc | hc
      · simp [path_of_mem_ownCase hc, hy]
      · simp [path_of_mem_ownCase hc, hy]
    · intro c hc d hd
      obtain ⟨y, ys, hy⟩ := path_of_mem_below hd
      rcases List.mem_append.mp hc with hc | hc
      · rcases List.mem_append.mp hc with hc | hc
        · simp [path_of_mem_ownCase hc, hy]
        · simp [path_of_mem_ownCase hc, hy]
      · obtain ⟨z, zs, hz⟩ := path_of_mem_below hc
        simp [hz, hy, hside]
  | _ => simp [cases]

end Record

/-- A visit to a reachable arm whose list has a statement that leaves the function is a case. -/
theorem Laid.exists_case {bound : Nat} {all : Bool} {l : List Stmt} {m : Memory} {r : Record}
    (h : Laid bound all l m r) {v : Visit} (hv : v ∈ r.visits) (hs : v.answer.sat)
    {stmts : List Stmt} (ha : Stmt.armAt v.arm r.body = some stmts)
    (ht : Stmt.containsTerminal stmts) : ∃ c ∈ r.cases, c.path = v.path := by
  induction h generalizing v with
  | straight => simp [Record.visits] at hv
  | @branch l before c test yes no m m' answer sub hc hb hm htest habsent hkept hentered ih =>
    rw [Record.body] at ha
    obtain ⟨b, rfl | ⟨u, hu, rfl⟩⟩ := Record.mem_visits_branch.mp hv
    · rw [Stmt.armAt_append hb] at ha
      cases harm : Shape.arms c yes no b with
      | none => cases b <;> simp [harm] at ha
      | some list =>
        rw [arm_body harm] at ha
        cases ha
        have hentered := hentered b list harm (Bool.or_eq_true_iff.mpr (Or.inl hs))
        have hleaves := hentered.containsTerminal_of_body (Shape.isBlock_of_mem_arms harm) ht
        refine ⟨_, Record.mem_cases_branch.mpr ⟨b, Or.inl (Record.mem_ownCase.mpr
          ⟨hs, ?_, rfl⟩)⟩, rfl⟩
        rw [harm]
        exact hleaves
    · obtain ⟨list, harm, hsat⟩ := exists_entered habsent hkept hu
      rw [Visit.after, List.singleton_append, Stmt.armAt_append hb, arm_body harm] at ha
      obtain ⟨d, hd, hp⟩ := ih b list harm hsat hu hs ha
      exact ⟨_, Record.mem_cases_branch.mpr ⟨b, Or.inr ⟨d, hd, rfl⟩⟩, by
        simp [Case.after, Visit.after, hp]⟩

/-- The cases of a function are complete and without duplicates. Each case is a visit that the
solver answered satisfiable : it has the path of the visit, the values of the answer, and the label
of the last outcome on the way to the arm, which says whether the last condition of the path is the
resolved test of the branch or its negation. No two cases have the same path, and a reachable arm
in whose list a statement leaves the function has exactly one case. -/
theorem Function.cases_sound_complete {σ : Type} {fn : Function} {solver : Solver σ}
    {e : Exploration} {s s' : Session σ} {p : Paths}
    (h : Walk.Gives (fn.paths solver e) s p s') :
    ∃ r, Walk.Gives (fn.record solver e) s r s' ∧ r.paths = p ∧
      solver.Answers fn.params r.visits s.forSolver s'.forSolver ∧
      (∀ v ∈ r.visits,
        Stmt.pathTo (.init fn.params e.fold) v.arm p.body = some v.path) ∧
      (∀ c ∈ p.cases, ∃ v ∈ r.visits, v.answer.sat ∧ c.path = v.path ∧
        c.assignment = v.answer.assignment.getD [] ∧ v.arm.getLast? = some c.taken) ∧
      (p.cases.map (·.path)).Nodup ∧
      ∀ v ∈ r.visits, v.answer.sat → ∀ stmts, Stmt.armAt v.arm p.body = some stmts →
        Stmt.containsTerminal stmts → ∃! c, c ∈ p.cases ∧ c.path = v.path := by
  obtain ⟨r, hr, rfl⟩ := Function.gives_paths.mp h
  have hl := Function.laid hr
  have hnodup := r.nodup_paths
  refine ⟨r, hr, rfl, Function.answers hr, fun v hv => hl.pathTo_visit hv,
    fun c hc => Record.exists_visit_of_mem_cases hc, hnodup, fun v hv hs stmts ha ht => ?_⟩
  obtain ⟨c, hc, hp⟩ := hl.exists_case hv hs ha ht
  refine ⟨c, ⟨hc, hp⟩, fun d ⟨hd, hq⟩ => ?_⟩
  exact List.inj_on_of_nodup_map hnodup hd hc (hq.trans hp.symm)

/-- The last of six tests in the unrolled sample leads to what followed the loop. -/
theorem Function.cases_sound_complete_countdown :
    ∃ p s', ∃ r : Record, ∃ v ∈ r.visits,
      Walk.Gives (countdown.paths (.always ⟨true, some []⟩) {}) ⟨.unlimited, (), #[]⟩ p s' ∧
        r.paths = p ∧ v.arm = [true, false, false, true, false, false] ∧
        ∃! c, c ∈ p.cases ∧ c.path = v.path := by
  obtain ⟨p, s', h⟩ := Walk.exists_gives
    (x := countdown.paths (.always ⟨true, some []⟩) {}) (s := ⟨.unlimited, (), #[]⟩)
    (by with_unfolding_all decide)
  obtain ⟨r, hr, rfl, -, -, -, -, hall⟩ := Function.cases_sound_complete h
  have hgood := Walk.of_gives hr
    (fun r => r.visits.any fun v =>
      v.arm == [true, false, false, true, false, false] && v.answer.sat &&
        (Stmt.armAt v.arm r.body).any Stmt.containsTerminal)
    (by with_unfolding_all decide)
  obtain ⟨v, hv, hgood⟩ := List.any_eq_true.mp hgood
  simp only [Bool.and_eq_true, beq_iff_eq, Option.any_eq_true] at hgood
  obtain ⟨⟨harm, hs⟩, stmts, ha, ht⟩ := hgood
  exact ⟨_, s', r, v, hv, h, rfl, harm, hall v hv hs stmts ha ht⟩

end PathTree
