import Mathlib.Logic.Function.Iterate
import PathTree.Proofs.Queries

/-!
# Laying out ends

Paths are laid out by a recursion : a list is brought into canonical form, the branch at its end is
split until its condition is a single test, and each arm is laid out in turn. `Walker.round` is one
round of this recursion, with the arms left to a function. No size of the statements gets smaller
from round to round, since loops are unrolled and tails are copied, but the number of tests on the
longest path does (`Stmt.Enters.weightList_lt`).

`Walker.iterate_round` : more rounds than the weight of a list give the walk through its tree,
whatever is put below the last round. `Function.paths_terminate` : the recursion is well-founded,
the paths of a function are those of so many rounds, and they take less than `2 ^ (w + 1)` queries
where `w` is the weight of the body.
-/

namespace PathTree

namespace Stmt

variable {b : Nat}

/-! ## Arms that a round goes on with -/

/-- Laying out a list goes on with laying out an arm of the branch in its canonical form, once the
condition of the branch is split. -/
def Enters (b : Nat) (arm l : List Stmt) : Prop :=
  ∃ stmts c yes no taken, canonicalize b l = .ok stmts ∧ .branch c yes no ∈ stmts ∧
    Shape.arms c yes no taken = some arm

/-- Entering an arm lowers the weight. -/
theorem Enters.weightList_lt {arm l : List Stmt} (h : Enters b arm l) :
    weightList b arm < weightList b l := by
  obtain ⟨stmts, c, yes, no, taken, hc, hmem, harm⟩ := h
  calc weightList b arm < weight b (.branch c yes no) := weightList_arms_lt harm
    _ ≤ weightList b stmts := weight_le_of_mem hmem
    _ ≤ weightList b l := weightList_canonicalize_le l hc

/-- A list without a branch has no arms. -/
theorem Straight.noArms {l : List Stmt} (h : Straight l) : ∀ s ∈ l, s.isSimple || s.isTerminal := by
  intro s hs
  rcases h with h | @⟨before, after, t, hb, ht, ha⟩
  · rw [h s hs, Bool.true_or]
  · rcases List.mem_append.mp hs with hs | hs
    · rw [hb s hs, Bool.true_or]
    · rcases List.mem_cons.mp hs with rfl | hs
      · rw [ht, Bool.or_true]
      · rw [ha s hs, Bool.true_or]

/-- No list has an infinite chain of arms below it. -/
theorem wellFounded_enters (b : Nat) : WellFounded (Enters b) := by
  refine Subrelation.wf ?_ (InvImage.wf (weightList b) Nat.lt_wfRel.wf)
  intro arm l h
  exact h.weightList_lt

end Stmt

/-! ## Rounds -/

namespace Walker

variable {σ : Type}

/-- A way of laying out lists, each behind a path and in a memory. -/
abbrev LayOut (σ : Type) : Type := List Stmt → List Expr → Memory → Walk σ (List Stmt × List Case)

/-- Visits the arm that `path` leads to and lays it out by `visit`. -/
def visitArmBy (w : Walker σ) (visit : LayOut σ) (taken : Bool) (path : List Expr)
    (arm : Option (List Stmt)) (m : Memory) : Walk σ ArmResult :=
  w.visitArm taken path arm (arm.elim (pure ([], [])) fun stmts => visit stmts path m)

/-- Visits the statements of a canonical list in order. The condition of a branch is split and
resolved, and its arms are laid out by `visit`. -/
def visitStmts (w : Walker σ) (visit : LayOut σ) (path : List Expr) :
    List Stmt → Memory → Walk σ (List Stmt × List Case)
  | [], _ => pure ([], [])
  | .branch c yes no :: rest, m => do
    let cond := (Stmt.splitCond c yes no).1
    let test ← walk.liftExcept (m.resolve cond)
    let first ← w.visitArmBy visit true (path ++ [test]) (Shape.arms c yes no true) m
    let second ← w.visitArmBy visit false (path ++ [test.negate]) (Shape.arms c yes no false) m
    let (body, cases) ← w.visitStmts visit path rest m
    pure (.branch cond first.stmt second.stmt :: body,
      first.own ++ second.own ++ first.below ++ second.below ++ cases)
  | s :: rest, m =>
    if s.isSimple || s.isTerminal then do
      let m ← walk.liftExcept (m.execute s)
      let (body, cases) ← w.visitStmts visit path rest m
      pure (s :: body, cases)
    else throw (.ofStmt s "statement")

/-- One round of laying out : the canonical form of the list is visited. -/
def round (w : Walker σ) (b : Nat) (visit : LayOut σ) : LayOut σ := fun l path m => do
  let stmts ← walk.liftExcept (Stmt.canonicalize b l)
  w.visitStmts visit path stmts m

theorem liftExcept_ok {α : Type} (a : α) : (walk.liftExcept (.ok a) : Walk σ α) = pure a := rfl

theorem liftExcept_error_bind {α β : Type} (f : Fault) (k : α → Walk σ β) :
    walk.liftExcept (.error f) >>= k = throw f := rfl

theorem liftExcept_bind {α β : Type} (x : Except Fault α) (f : α → Except Fault β) :
    (walk.liftExcept (x >>= f) : Walk σ β) =
      walk.liftExcept x >>= fun a => walk.liftExcept (f a) := by
  cases x <;> rfl

/-- A round depends only on how the arms that it goes on with are laid out. -/
theorem visitStmts_congr {w : Walker σ} {visit visit' : LayOut σ} {path : List Expr}
    {stmts : List Stmt} (h : ∀ c yes no taken arm, .branch c yes no ∈ stmts →
      Shape.arms c yes no taken = some arm → visit arm = visit' arm) (m : Memory) :
    w.visitStmts visit path stmts m = w.visitStmts visit' path stmts m := by
  induction stmts generalizing m with
  | nil => rfl
  | cons s rest ih =>
    have hrest := ih fun c yes no taken arm hmem =>
      h c yes no taken arm (List.mem_cons_of_mem _ hmem)
    cases s with
    | branch c yes no =>
      have harm : ∀ taken path, w.visitArmBy visit taken path (Shape.arms c yes no taken) m =
          w.visitArmBy visit' taken path (Shape.arms c yes no taken) m := by
        intro taken path
        unfold visitArmBy
        cases ha : Shape.arms c yes no taken with
        | none => rfl
        | some arm => rw [Option.elim_some, Option.elim_some, h c yes no taken arm (by simp) ha]
      simp only [visitStmts, harm, hrest]
    | _ => simp only [visitStmts, hrest]

theorem round_congr {w : Walker σ} {b : Nat} {visit visit' : LayOut σ} {l : List Stmt}
    (h : ∀ arm, Stmt.Enters b arm l → visit arm = visit' arm) (path : List Expr) (m : Memory) :
    w.round b visit l path m = w.round b visit' l path m := by
  unfold round
  cases hc : Stmt.canonicalize b l with
  | error f => rw [liftExcept_error_bind, liftExcept_error_bind]
  | ok stmts =>
    rw [liftExcept_ok, pure_bind, pure_bind]
    refine visitStmts_congr (fun c yes no taken arm hmem harm => ?_) m
    exact h arm ⟨stmts, c, yes, no, taken, hc, hmem, harm⟩

/-! ## Rounds and trees -/

/-- Statements without arms in front of a list are performed first. -/
theorem visitStmts_append {w : Walker σ} {visit : LayOut σ} {path : List Expr}
    {before : List Stmt} (hb : ∀ s ∈ before, s.isSimple || s.isTerminal) (l : List Stmt)
    (m : Memory) :
    w.visitStmts visit path (before ++ l) m =
      walk.liftExcept (m.executeAll before) >>= fun m =>
        (fun p => (before ++ p.1, p.2)) <$> w.visitStmts visit path l m := by
  induction before generalizing m with
  | nil => simp [Memory.executeAll, liftExcept_ok]
  | cons s before ih =>
    have hs : (s.isSimple || s.isTerminal) = true := hb s (by simp)
    have hvisit : w.visitStmts visit path (s :: (before ++ l)) m =
        walk.liftExcept (m.execute s) >>= fun m =>
          (fun p => (s :: p.1, p.2)) <$> w.visitStmts visit path (before ++ l) m := by
      cases s with
      | block | branch | whileLoop | forLoop => cases hs
      | _ => simp only [visitStmts, if_pos hs, map_eq_pure_bind]
    rw [List.cons_append, hvisit, Memory.executeAll, liftExcept_bind]
    simp [ih fun t ht => hb t (List.mem_cons_of_mem _ ht)]

/-- Laying out every arm by the walk through its tree is the walk through the tree of the list. -/
theorem round_walk (w : Walker σ) (b : Nat) (l : List Stmt) (path : List Expr) (m : Memory) :
    w.round b (fun l path m => w.walk (.ofStmts b l) path m) l path m =
      w.walk (.ofStmts b l) path m := by
  rcases Tree.ofStmts_cases b l with ⟨f, hc, ht⟩ | ⟨stmts, hc, hs, ht⟩ |
    ⟨before, c, yes, no, hc, hb, ht⟩
  · rw [round, hc, ht]
    rfl
  · have hvisit : w.visitStmts (fun l path m => w.walk (.ofStmts b l) path m) path (stmts ++ []) m =
        _ := visitStmts_append hs.noArms [] m
    rw [List.append_nil] at hvisit
    rw [round, hc, ht, liftExcept_ok, pure_bind, hvisit]
    simp [visitStmts, walk]
  · have harm : ∀ taken path m,
        (Shape.arms c yes no taken).elim (pure ([], [])) (fun l => w.walk (.ofStmts b l) path m) =
        w.walk (Tree.armTree b (Shape.arms c yes no) taken) path m := by
      intro taken path m
      cases ha : Shape.arms c yes no taken with
      | none =>
        rw [Tree.armTree, ha]
        rfl
      | some arm => rw [Tree.armTree_of_eq_some ha, Option.elim_some]
    rw [round, hc, ht, liftExcept_ok, pure_bind, visitStmts_append (fun s hs => by simp [hb s hs])]
    simp only [visitStmts, walk, visitArmBy, harm]
    simp

/-- More rounds than the weight of a list are a walk through its tree, whatever lays out the lists
that are left below them. -/
theorem iterate_round (w : Walker σ) (b : Nat) (bottom : LayOut σ) {n : Nat} {l : List Stmt}
    (h : Stmt.weightList b l < n) (path : List Expr) (m : Memory) :
    (w.round b)^[n] bottom l path m = w.walk (.ofStmts b l) path m := by
  induction n generalizing l path m with
  | zero => omega
  | succ n ih =>
    rw [Function.iterate_succ_apply', ← round_walk]
    refine round_congr (fun arm harm => ?_) path m
    funext path m
    have := harm.weightList_lt
    exact ih (by omega) path m

end Walker

/-! ## Functions -/

namespace Function

variable {σ : Type}

/-- The walker through a function's paths. -/
def walker (fn : Function) (solver : Solver σ) (e : Exploration) : Walker σ where
  solver := solver
  params := fn.params
  visitUnsat := e.visitUnsat
  logAs := if e.logFound then some fn.name else none

/-- The paths of a function, where `visit` lays out its body. -/
def pathsBy (fn : Function) (e : Exploration) (visit : Walker.LayOut σ) : Walk σ Paths := do
  let (body, cases) ← tryCatch (visit fn.body [] (.init fn.params e.fold))
    fun f => throw (.during ("rewriting " ++ fn.name) f)
  pure ⟨body, cases⟩

/-- The body of a function is laid out by the walk through its tree. -/
theorem pathsBy_walk (fn : Function) (solver : Solver σ) (e : Exploration) :
    fn.pathsBy e (fun l path m => (fn.walker solver e).walk (.ofStmts e.bound l) path m) =
      fn.paths solver e := rfl

theorem pathsBy_congr {fn : Function} {e : Exploration} {visit visit' : Walker.LayOut σ}
    (h : visit fn.body [] (.init fn.params e.fold) = visit' fn.body [] (.init fn.params e.fold)) :
    fn.pathsBy e visit = fn.pathsBy e visit' := by
  rw [pathsBy, h, pathsBy]

/-- Laying out the paths of a function ends, whatever its body, the bound for loops and the solver
are. The recursion from lists to arms is well-founded. The paths are those of as many rounds of it
as the longest path of the body has tests, and one more; further rounds change nothing, and neither
does what stands below the last round. A run asks less than `2 ^ (w + 1)` queries, where `w` is the
number of tests on the longest path. -/
theorem paths_terminate (fn : Function) (solver : Solver σ) (e : Exploration) :
    WellFounded (Stmt.Enters e.bound) ∧
      (∀ (more : Nat) (bottom : Walker.LayOut σ),
        fn.pathsBy e (((fn.walker solver e).round e.bound)^[
          Stmt.weightList e.bound fn.body + 1 + more] bottom) = fn.paths solver e) ∧
      ∀ s, (fn.queries solver e s).length ≤ 2 ^ (Stmt.weightList e.bound fn.body + 1) - 2 := by
  refine ⟨Stmt.wellFounded_enters e.bound, fun more bottom => ?_, fun s => ?_⟩
  · rw [← pathsBy_walk]
    exact pathsBy_congr (Walker.iterate_round _ e.bound bottom (by omega) [] _)
  · exact (fn.asks solver e s (fun _ => True) (fun _ => True)
      (fun _ _ _ _ _ => trivial) (fun _ _ _ _ _ _ _ _ => trivial) trivial trivial).1

end Function

end PathTree
