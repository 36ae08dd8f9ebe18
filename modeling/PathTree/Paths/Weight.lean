import PathTree.Paths.Canonical

/-!
# Path weight

The number of tests on the longest path through a statement list. Splicing, unrolling, copying
tails and splitting conditions do not raise it, and entering an arm of a branch whose condition is
a single test lowers it, so a list has finitely many arms below it (`Shape.weight_arm_lt`).
-/

namespace PathTree

/-- How many single tests a condition consists of. -/
def Expr.tests : Expr → Nat
  | .paren x => x.tests
  | .binary op x y => if op.isLogical then x.tests + y.tests else 1
  | _ => 1

/-- A condition has at least one test. -/
theorem Expr.tests_pos (x : Expr) : 0 < x.tests := by
  fun_induction Expr.tests x <;> omega

namespace Stmt

mutual
/-- The number of tests on the longest path through a statement, with loops going at most `b`
rounds. -/
def weight (b : Nat) : Stmt → Nat
  | .block list => weightList b list
  | .branch cond yes no => cond.tests + max (weightArm b yes) (weightArm b no)
  | .whileLoop cond body => max b 1 * (cond.tests + weightArm b body)
  | .forLoop _ cond _ body => max b 1 * ((loopCond cond).tests + weightArm b body)
  | .ret _ => 0
  | .throw _ => 0
  | .expr _ => 0
  | .decl _ _ _ => 0

/-- The number of tests on the longest path through a list. -/
def weightList (b : Nat) : List Stmt → Nat
  | [] => 0
  | s :: rest => weight b s + weightList b rest

/-- The number of tests on the longest path through an arm. -/
def weightArm (b : Nat) : Option Stmt → Nat
  | none => 0
  | some s => weight b s
end

variable {b : Nat}

/-! ## Lists and arms -/

@[simp] theorem weightList_append (l m : List Stmt) :
    weightList b (l ++ m) = weightList b l + weightList b m := by
  induction l with
  | nil => simp [weightList]
  | cons s l ih => simp [weightList, ih, Nat.add_assoc]

/-- What stands directly in an arm weighs as much as the arm. -/
@[simp] theorem weightList_statements (arm : Option Stmt) :
    weightList b (statements arm) = weightArm b arm := by
  cases arm with
  | none => rfl
  | some s => cases s <;> simp [statements, weightArm, weight, weightList]

mutual
/-- Splicing a statement keeps its weight. -/
theorem weightList_spliced (s : Stmt) : weightList b (spliced s) = weight b s := by
  cases s with
  | block inner => simp [spliced, weight, weightList_flatten inner]
  | _ => simp [spliced, weightList]

/-- Splicing nested blocks keeps the weight. -/
theorem weightList_flatten (l : List Stmt) : weightList b (flatten l) = weightList b l := by
  cases l with
  | nil => rfl
  | cons s rest =>
    simp [flatten, weightList, weightList_spliced s, weightList_flatten rest]
end

/-- A simple statement has no tests. -/
theorem weight_eq_zero_of_isSimple {s : Stmt} (h : s.isSimple) : weight b s = 0 := by
  cases s <;> simp_all [isSimple, weight]

/-- A list of expressions has no tests. -/
@[simp] theorem weightList_map_expr (xs : List Expr) : weightList b (xs.map .expr) = 0 := by
  induction xs with
  | nil => rfl
  | cons x xs ih => simp [weightList, weight, ih]

/-! ## Loops -/

/-- Each round of an unrolled loop weighs as much as its condition and body. -/
theorem weight_unroll (cond : Expr) (body : List Stmt) (n : Nat) :
    weight b (unroll cond body n) = max n 1 * (cond.tests + weightList b body) := by
  fun_induction unroll cond body n with
  | case1 n ih =>
    simp only [weight, weightArm, weightList_append, weightList, ih]
    have h1 : max (n + 1) 1 = n + 1 := by omega
    have h2 : max (n + 2) 1 = n + 2 := by omega
    rw [h1, h2, show n + 2 = (n + 1) + 1 from rfl, Nat.add_mul (n + 1) 1]
    omega
  | case2 n h =>
    have h1 : max n 1 = 1 := by
      match n, h with
      | 0, _ => rfl
      | 1, _ => rfl
      | n + 2, h => exact absurd rfl (h n)
    simp [weight, weightArm, h1]

/-- What runs before a loop has no tests. -/
theorem weightList_loopInit {init : Option Stmt} {first : List Stmt}
    (h : loopInit init = .ok first) : weightList b first = 0 := by
  cases init with
  | none => simp only [loopInit] at h; cases h; rfl
  | some s =>
    simp only [loopInit] at h
    split at h
    · next hs => cases h; simp [weightList, weight_eq_zero_of_isSimple hs]
    · cases h

mutual
/-- Expanding a statement keeps its weight. -/
theorem weightList_expandOne (s : Stmt) {out : List Stmt} (h : expandOne b s = .ok out) :
    weightList b out = weight b s := by
  cases s with
  | block inner =>
    simp only [expandOne] at h
    simp [weight, weightList_expand inner h]
  | whileLoop cond body =>
    simp only [expandOne] at h
    cases h
    simp [weightList, weight, weight_unroll]
  | forLoop init cond step body =>
    simp only [expandOne] at h
    split at h
    · cases h
    · cases hi : loopInit init with
      | error f => simp [hi, bind, Except.bind] at h
      | ok first =>
        simp only [hi, bind, Except.bind] at h
        cases h
        simp [weightList, weight, weight_unroll, weightList_loopInit hi]
  | branch cond yes no => simp only [expandOne] at h; cases h; simp [weightList]
  | ret v => simp only [expandOne] at h; cases h; simp [weightList]
  | throw v => simp only [expandOne] at h; cases h; simp [weightList]
  | expr x => simp only [expandOne] at h; cases h; simp [weightList]
  | decl n t v => simp only [expandOne] at h; cases h; simp [weightList]

/-- Expanding a list keeps its weight. -/
theorem weightList_expand (l : List Stmt) {out : List Stmt} (h : expand b l = .ok out) :
    weightList b out = weightList b l := by
  cases l with
  | nil => simp only [expand] at h; cases h; rfl
  | cons s rest =>
    simp only [expand] at h
    cases h1 : expandOne b s with
    | error f => simp [h1, bind, Except.bind] at h
    | ok first =>
      cases h2 : expand b rest with
      | error f => simp [h1, h2, bind, Except.bind] at h
      | ok more =>
        simp only [h1, h2, bind, Except.bind] at h
        cases h
        simp [weightList, weightList_expandOne s h1, weightList_expand rest h2]
end

/-! ## Tails -/

/-- An arm with a tail weighs at most as much as both. -/
theorem weightList_withTail_le (arm tail : List Stmt) :
    weightList b (withTail arm tail) ≤ weightList b arm + weightList b tail := by
  unfold withTail
  split <;> simp

/-- Copying a tail into the arms does not raise the weight. -/
theorem weight_mergeTail_le (cond : Expr) (yes no : Option Stmt) (tail : List Stmt) :
    weight b (mergeTail cond yes no tail) ≤
      weight b (.branch cond yes no) + weightList b tail := by
  have hy := weightList_withTail_le (b := b) (flatten (statements yes)) tail
  rw [weightList_flatten, weightList_statements] at hy
  have hn : ∀ l : List Stmt, l.isEmpty = true → weightList b l = 0 := by
    intro l hl
    cases l with
    | nil => rfl
    | cons s l => simp at hl
  cases no with
  | none =>
    simp only [mergeTail, weight, weightArm]
    split
    · next he => simp only [weightArm]; omega
    · simp only [weightArm, weight]; omega
  | some s =>
    have hs := weightList_withTail_le (b := b) (flatten (statements (some s))) tail
    rw [weightList_flatten, weightList_statements] at hs
    simp only [mergeTail, weight, weightArm] at hs ⊢
    split
    · simp only [weightArm]; omega
    · simp only [weightArm, weight]; omega

/-- Joining tails does not raise the weight. -/
theorem weightList_joinTails_le (l : List Stmt) {out : List Stmt}
    (h : joinTails l = .ok out) : weightList b out ≤ weightList b l := by
  induction l generalizing out with
  | nil => simp only [joinTails] at h; cases h; simp
  | cons s rest ih =>
    simp only [joinTails] at h
    cases hr : joinTails rest with
    | error f => simp [hr, bind, Except.bind] at h
    | ok more =>
      have := ih hr
      simp only [hr, bind, Except.bind] at h
      split at h
      · cases h; simp only [weightList]; omega
      · split at h
        · cases h
        · split at h
          · cases h; simp only [weightList]; omega
          · cases s with
            | branch cond yes no =>
              cases h
              have hm := weight_mergeTail_le (b := b) cond yes no more
              simp only [weightList]
              omega
            | _ => simp at h

/-- Merging what follows the last branch does not raise the weight. -/
theorem weightList_mergeLast_le (l : List Stmt) :
    weightList b (mergeLast l) ≤ weightList b l := by
  fun_induction mergeLast l with
  | case1 => simp
  | case2 cond yes no tail h => simp [weightList]
  | case3 cond yes no tail h =>
    have := weight_mergeTail_le (b := b) cond yes no tail
    simp only [weightList]
    omega
  | case4 s rest _ h ih => simp only [weightList]; omega
  | case5 s rest _ h => simp

/-- The canonical form of a list weighs at most as much as the list. -/
theorem weightList_canonicalize_le (l : List Stmt) {out : List Stmt}
    (h : canonicalize b l = .ok out) : weightList b out ≤ weightList b l := by
  unfold canonicalize at h
  cases he : expand b l with
  | error f => simp [he, bind, Except.bind] at h
  | ok stmts =>
    cases hj : joinTails stmts with
    | error f => simp [he, hj, bind, Except.bind] at h
    | ok joined =>
      simp only [he, hj, bind, Except.bind] at h
      cases h
      have h1 := weightList_expand l he
      have h2 := weightList_joinTails_le (b := b) stmts hj
      have h3 := weightList_mergeLast_le (b := b) joined
      omega

/-! ## Conditions -/

/-- Splitting a condition keeps the weight of the branch. -/
theorem weight_splitCond (cond : Expr) (yes no : Option Stmt) :
    weight b (.branch (splitCond cond yes no).1 (splitCond cond yes no).2.1
        (splitCond cond yes no).2.2) = weight b (.branch cond yes no) := by
  fun_induction splitCond cond yes no with
  | case1 yes no x y ih =>
    rw [ih]
    simp only [weight, weightArm, weightList, Expr.tests, BinaryOp.isLogical]
    simp only [↓reduceIte]
    omega
  | case2 yes no x y ih =>
    rw [ih]
    simp only [weight, weightArm, weightList, Expr.tests, BinaryOp.isLogical]
    simp only [↓reduceIte]
    omega
  | case3 yes no x h ih => rw [ih]; simp [weight, Expr.tests]
  | case4 yes no x h => rfl
  | case5 yes no x h1 h2 h3 => rfl

end Stmt

end PathTree
