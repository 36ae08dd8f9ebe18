import Mathlib
import PathTree.Proofs.Independence

/-!
# What a walk asks

`Walk.Asks` bounds the number of queries of a step and says what they are like, in every run, also
in one that fails. `Walker.asks_record` follows a walk through the tree of a list : the number of
queries is below `2 ^ (w + 1)` where `w` is the weight of the list, and what holds of the memory and
of the path at the start, and is kept by statements and tests, holds of every query. Later files put
in what they need for the latter (`Function.asks`).
-/

namespace PathTree

/-- In every run, also one that fails, a step asks at most `k` queries, and all of them are good. -/
def Walk.Asks {σ α : Type} (k : Nat) (good : Query → Prop) (x : Walk (σ × List Query) α) : Prop :=
  ∀ s, ∃ asked, (x.run.run s).run.2.state.2 = asked ++ s.state.2 ∧ asked.length ≤ k ∧
    ∀ q ∈ asked, good q

namespace Walk

variable {σ α β : Type} {k j : Nat} {good : Query → Prop}

/-- A step that leaves the solver alone asks nothing. -/
theorem asks_of_state {x : Walk (σ × List Query) α}
    (h : ∀ s, (x.run.run s).run.2.state = s.state) : x.Asks k good := by
  intro s
  exact ⟨[], by rw [h s]; rfl, by simp, by simp⟩

theorem asks_pure (a : α) : Asks (σ := σ) k good (pure a) := asks_of_state fun _ => rfl

theorem asks_throw (f : Fault) : Asks (σ := σ) (α := α) k good (throw f) :=
  asks_of_state fun _ => rfl

theorem asks_liftExcept (r : Except Fault α) :
    Asks (σ := σ) k good (Walker.walk.liftExcept r) := by
  cases r with
  | error f => exact asks_throw f
  | ok a => exact asks_pure a

theorem Asks.mono {x : Walk (σ × List Query) α} (h : x.Asks k good) (hk : k ≤ j) :
    x.Asks j good := by
  intro s
  obtain ⟨asked, hs, hlen, hgood⟩ := h s
  exact ⟨asked, hs, Nat.le_trans hlen hk, hgood⟩

/-- The queries of two steps after each other, where the second starts from what the first gives. -/
theorem Asks.bind {x : Walk (σ × List Query) α} (hx : x.Asks k good)
    {f : α → Walk (σ × List Query) β}
    (hf : ∀ a s s', Walk.Gives x s a s' → (f a).Asks j good) : (x >>= f).Asks (k + j) good := by
  intro s
  obtain ⟨first, hfirst, hlen, hgood⟩ := hx s
  simp only [ExceptT.run_bind, StateT.run_bind, Id.run_bind]
  rcases h : (StateT.run x.run s).run with ⟨e | a, s'⟩
  · rw [h] at hfirst
    exact ⟨first, hfirst, by omega, hgood⟩
  · rw [h] at hfirst
    obtain ⟨second, hsecond, hlen', hgood'⟩ := hf a s s' h s'
    refine ⟨second ++ first, ?_, by simp; omega, ?_⟩
    · rw [List.append_assoc, ← hfirst]
      exact hsecond
    · intro q hq
      exact (List.mem_append.mp hq).elim (hgood' q) (hgood q)

theorem Asks.map {x : Walk (σ × List Query) α} (hx : x.Asks k good) (f : α → β) :
    (f <$> x).Asks k good := by
  rw [← bind_pure_comp]
  exact hx.bind (j := 0) fun a _ _ _ => asks_pure (f a)

/-- A handler that only throws asks nothing. -/
theorem Asks.tryCatch {x : Walk (σ × List Query) α} (hx : x.Asks k good) (wrap : Fault → Fault) :
    Asks k good (tryCatch x fun f => throw (wrap f)) := by
  intro s
  have hs := hx s
  simp only [ExceptT.run_tryCatch, StateT.run_bind, Id.run_bind]
  rcases h : (StateT.run x.run s).run with ⟨e | a, s'⟩
  · rwa [h] at hs
  · rwa [h] at hs

theorem run_get_bind (f : Session σ → Walk σ α) (s : Session σ) :
    ((get >>= f).run.run s).run = ((f s).run.run s).run := rfl

theorem run_set_bind (u : Session σ) (f : PUnit → Walk σ α) (s : Session σ) :
    ((set u >>= f).run.run s).run = ((f ⟨⟩).run.run u).run := rfl

end Walk

/-! ## Walks -/

namespace Stmt

variable {b : Nat}

theorem weight_le_of_mem {s : Stmt} {l : List Stmt} (h : s ∈ l) : weight b s ≤ weightList b l := by
  obtain ⟨before, after, rfl⟩ := List.append_of_mem h
  rw [weightList_append, weightList]
  omega

/-- An arm of a branch has a test less on its longest path than the branch. -/
theorem weightList_arms_lt {c : Expr} {yes no : Option Stmt} {taken : Bool} {arm : List Stmt}
    (h : Shape.arms c yes no taken = some arm) : weightList b arm < weight b (.branch c yes no) := by
  have hsplit := weight_splitCond (b := b) c yes no
  have hpos := Expr.tests_pos (splitCond c yes no).1
  have harm := Shape.weightList_armStmts (b := b) h
  rw [weight] at hsplit
  cases taken with
  | true =>
    rw [if_pos rfl] at harm
    omega
  | false =>
    rw [if_neg (by simp)] at harm
    omega

theorem weight_branch_pos (c : Expr) (yes no : Option Stmt) : 0 < weight b (.branch c yes no) := by
  have := Expr.tests_pos c
  rw [weight]
  omega

end Stmt

namespace Walker

variable {σ : Type} {solver : Solver σ} {w : Walker (σ × List Query)} {k : Nat}
  {good : Query → Prop}

theorem asks_tell (level : LogLevel) (message : String) (path : List Expr)
    (more : List (String × String)) : (w.tell level message path more).Asks k good := by
  unfold tell
  split
  · exact Walk.asks_pure ()
  · exact Walk.asks_of_state fun _ => rfl

theorem asks_report (taken : Bool) (path : List Expr) (arm : Option (List Stmt))
    (answer : Answer) : (w.report taken path arm answer).Asks k good := by
  unfold report
  split
  · exact asks_tell _ _ _ _
  · split
    · exact asks_tell _ _ _ _
    · exact Walk.asks_pure ()

/-- After a question the solver is in the state that it went to, also if it failed. -/
theorem state_ask {σ : Type} (w : Walker σ) (path : List Expr) (s : Session σ) :
    ((w.ask path).run.run s).run.2.state =
      (w.solver.solve ⟨w.params, path⟩ (s.patience, s.state)).2.2 := by
  rcases hs : w.solver.solve ⟨w.params, path⟩ (s.patience, s.state) with ⟨r, p, t⟩
  unfold ask
  rw [Walk.run_get_bind]
  simp only [hs]
  rw [Walk.run_set_bind]
  cases r <;> rfl

variable (hw : w.solver = solver.recorded)

include hw

/-- Asking keeps one query, whatever the answer is. -/
theorem asks_ask {path : List Expr} (hq : good ⟨w.params, path⟩) : (w.ask path).Asks 1 good := by
  intro s
  refine ⟨[⟨w.params, path⟩], ?_, by simp, by simpa using hq⟩
  rw [state_ask, hw]
  rfl

/-- A visit to an arm asks one query more than laying the arm out. -/
theorem asks_recordArm {taken : Bool} {path : List Expr} {arm : Option (List Stmt)}
    {descend : Walk (σ × List Query) Record} (hq : good ⟨w.params, path⟩)
    (hd : ∀ stmts, arm = some stmts → descend.Asks k good) :
    (w.recordArm taken path arm descend).Asks (1 + k) good := by
  refine (asks_ask hw hq).bind fun answer _ _ _ => ?_
  rw [← Nat.zero_add k]
  refine (asks_report taken path arm answer).bind fun _ _ _ _ => ?_
  cases arm with
  | none => exact Walk.asks_pure _
  | some stmts =>
    dsimp only
    split
    · exact (hd stmts rfl).bind (j := 0) fun r _ _ _ => Walk.asks_pure _
    · exact Walk.asks_pure _

/-- What a walk through the tree of a list asks. If `inv` is kept by statements and makes the tests
of a good path good, all queries are about good paths. -/
theorem asks_record {inv : Memory → Prop} {ok : List Expr → Prop}
    (hinv : ∀ m l m', inv m → m.executeAll l = .ok m' → inv m')
    (hok : ∀ m path c test, inv m → ok path → m.resolve c = .ok test →
      ∀ taken, ok (path ++ [test.side taken]))
    {b : Nat} {l : List Stmt} {path : List Expr} {m : Memory} (hm : inv m) (hp : ok path) :
    (w.record (.ofStmts b l) path m).Asks (2 ^ (Stmt.weightList b l + 1) - 2)
      fun q => q.params = w.params ∧ ok q.conds := by
  induction hn : Stmt.weightList b l using Nat.strongRecOn generalizing l path m with
  | ind n ih =>
  rcases Tree.ofStmts_cases b l with ⟨f, hc, ht⟩ | ⟨stmts, hc, hs, ht⟩ |
    ⟨before, c, yes, no, hc, hb, ht⟩
  · rw [ht]
    refine Walk.Asks.mono (k := 0 + 0) ?_ (Nat.zero_le _)
    exact (Walk.asks_liftExcept _).bind fun _ _ _ _ => Walk.asks_throw f
  · rw [ht]
    refine Walk.Asks.mono (k := 0 + 0) ?_ (Nat.zero_le _)
    exact (Walk.asks_liftExcept _).bind fun _ _ _ _ => Walk.asks_pure _
  · have hbranch : Stmt.weight b (.branch c yes no) ≤ n := by
      calc Stmt.weight b (.branch c yes no)
          ≤ Stmt.weightList b (before ++ [Stmt.branch c yes no]) := Stmt.weight_le_of_mem (by simp)
        _ ≤ Stmt.weightList b l := Stmt.weightList_canonicalize_le l hc
        _ = n := hn
    have hpos : 0 < n := Nat.lt_of_lt_of_le (Stmt.weight_branch_pos c yes no) hbranch
    -- An arm has a test less on its longest path, and so at most half of the queries.
    have harm : ∀ {m path} taken, inv m → ok path →
        (w.recordArm taken path (Shape.arms c yes no taken)
          (w.record (Tree.armTree b (Shape.arms c yes no) taken) path m)).Asks (1 + (2 ^ n - 2))
          fun q => q.params = w.params ∧ ok q.conds := by
      intro m path taken hm hp
      refine asks_recordArm hw ⟨rfl, hp⟩ fun stmts hstmts => ?_
      have hlt : Stmt.weightList b stmts < n :=
        Nat.lt_of_lt_of_le (Stmt.weightList_arms_lt hstmts) hbranch
      rw [Tree.armTree_of_eq_some hstmts]
      refine (ih _ hlt hm hp rfl).mono ?_
      have := Nat.pow_le_pow_right (n := 2) (by omega) (Nat.succ_le_of_lt hlt)
      omega
    rw [ht]
    refine Walk.Asks.mono (k := 0 + (0 + ((1 + (2 ^ n - 2)) + ((1 + (2 ^ n - 2)) + 0)))) ?_ ?_
    · refine (Walk.asks_liftExcept _).bind fun m' _ _ hm' => ?_
      have hinv' := hinv m before m' hm (gives_liftExcept.mp hm').1
      refine (Walk.asks_liftExcept _).bind fun test _ _ htest => ?_
      have hok' := hok m' path _ test hinv' hp (gives_liftExcept.mp htest).1
      refine (harm true hinv' (hok' true)).bind fun yes' _ _ _ => ?_
      refine (harm false hinv' (hok' false)).bind fun no' _ _ _ => ?_
      exact Walk.asks_pure _
    · have := Nat.pow_le_pow_right (n := 2) (by omega) hpos
      rw [Nat.pow_succ]
      omega

end Walker

/-- What the paths of a function ask. If `inv` holds at the start, is kept by statements and makes
the tests of a good path good, all queries are about good paths. -/
theorem Function.asks {σ : Type} (fn : Function) (solver : Solver σ) (e : Exploration)
    (s : Session σ) (inv : Memory → Prop) (ok : List Expr → Prop)
    (hinv : ∀ m l m', inv m → m.executeAll l = .ok m' → inv m')
    (hok : ∀ m path c test, inv m → ok path → m.resolve c = .ok test →
      ∀ taken, ok (path ++ [test.side taken]))
    (hm : inv (.init fn.params e.fold)) (hp : ok []) :
    (fn.queries solver e s).length ≤ 2 ^ (Stmt.weightList e.bound fn.body + 1) - 2 ∧
      ∀ q ∈ fn.queries solver e s, q.params = fn.params ∧ ok q.conds := by
  let w : Walker (σ × List Query) :=
    { solver := solver.recorded, params := fn.params, visitUnsat := e.visitUnsat,
      logAs := if e.logFound then some fn.name else none }
  have hwalk : (w.walk (.ofStmts e.bound fn.body) [] (.init fn.params e.fold)).Asks
      (2 ^ (Stmt.weightList e.bound fn.body + 1) - 2)
      fun q => q.params = fn.params ∧ ok q.conds := by
    rw [Walker.walk_eq_map_record]
    exact (Walker.asks_record (w := w) rfl hinv hok hm hp).map _
  have hpaths : (fn.paths solver.recorded e).Asks
      (2 ^ (Stmt.weightList e.bound fn.body + 1) - 2 + 0)
      fun q => q.params = fn.params ∧ ok q.conds :=
    (hwalk.tryCatch _).bind fun _ _ _ _ => Walk.asks_pure _
  obtain ⟨asked, hasked, hlen, hgood⟩ := hpaths ⟨s.patience, (s.state, []), s.log⟩
  have hqueries : fn.queries solver e s = asked.reverse := by
    rw [List.append_nil] at hasked
    exact congrArg List.reverse hasked
  rw [hqueries, List.length_reverse]
  exact ⟨hlen, fun q hq => hgood q (List.mem_reverse.mp hq)⟩

end PathTree
