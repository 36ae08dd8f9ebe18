import PathTree.Paths.Weight

/-!
# Path trees

The tree of execution paths of a statement list: straight pieces of code divided by branches, each
on a single test. A branch keeps the statements of its arms as they stood when the branch was
reached, and the trees of its arms as a function of the outcome of the test, so an arm that is never
looked at costs nothing.

`Tree.ofStmts` builds the tree of a list. It ends because entering an arm lowers the path weight
(`weight_arm_lt`).
-/

namespace PathTree

/-- What a statement list does first. -/
inductive Shape where
  /-- After the given statements, the list cannot be taken further. -/
  | stuck (before : List Stmt) (f : Fault)
  /-- No branch is left. -/
  | straight (stmts : List Stmt)
  /-- After the given statements, a test decides between two arms, of which each may be missing. -/
  | branch (before : List Stmt) (cond : Expr) (arm : Bool → Option (List Stmt))

namespace Shape

/-- The statements of an arm, with nested blocks spliced. -/
def armStmts : Option Stmt → Option (List Stmt)
  | none => none
  | some s => some (Stmt.flatten (Stmt.statements (some s)))

/-- The shape of a canonical list, where `before` has been passed already. -/
def ofCanonical (before : List Stmt) : List Stmt → Shape
  | [] => .straight before
  | .branch cond yes no :: _ =>
    let split := Stmt.splitCond cond yes no
    .branch before split.1 fun taken => armStmts (if taken then split.2.1 else split.2.2)
  | s :: rest =>
    if s.isSimple then ofCanonical (before ++ [s]) rest
    else if s.isTerminal then .straight (before ++ s :: rest)
    else .stuck before (.ofStmt s "statement")

/-- The shape of a statement list. -/
def ofStmts (bound : Nat) (list : List Stmt) : Shape :=
  match Stmt.canonicalize bound list with
  | .error f => .stuck [] f
  | .ok stmts => ofCanonical [] stmts

/-- The weight of the statements of an arm. -/
theorem weightList_armStmts {b : Nat} {arm : Option Stmt} {stmts : List Stmt}
    (h : armStmts arm = some stmts) : Stmt.weightList b stmts = Stmt.weightArm b arm := by
  cases arm with
  | none => simp [armStmts] at h
  | some s =>
    simp only [armStmts, Option.some.injEq] at h
    subst h
    rw [Stmt.weightList_flatten, Stmt.weightList_statements]

/-- Entering an arm of a canonical list lowers the weight. -/
theorem weight_arm_lt_ofCanonical {b : Nat} {before l : List Stmt} {out : List Stmt} {cond : Expr}
    {arm : Bool → Option (List Stmt)} (h : ofCanonical before l = .branch out cond arm)
    {taken : Bool} {stmts : List Stmt} (ha : arm taken = some stmts) :
    Stmt.weightList b stmts < Stmt.weightList b l := by
  fun_induction ofCanonical before l with
  | case1 => cases h
  | case2 before c yes no rest split =>
    injection h with _ hc hf
    subst hf
    have hw : Stmt.weight b (.branch split.1 split.2.1 split.2.2) = Stmt.weight b (.branch c yes no) :=
      Stmt.weight_splitCond c yes no
    have hp := Expr.tests_pos split.1
    simp only [Stmt.weight] at hw
    have hs := weightList_armStmts (b := b) ha
    cases taken with
    | true =>
      simp only [↓reduceIte] at hs
      simp only [Stmt.weightList, Stmt.weight]
      omega
    | false =>
      simp only [Bool.false_eq_true, ↓reduceIte] at hs
      simp only [Stmt.weightList, Stmt.weight]
      omega
  | case3 before s rest _ hs ih =>
    have := ih h
    simp only [Stmt.weightList]
    omega
  | case4 => cases h
  | case5 => cases h

/-- Entering an arm lowers the weight. -/
theorem weight_arm_lt {b : Nat} {l out : List Stmt} {cond : Expr}
    {arm : Bool → Option (List Stmt)} (h : ofStmts b l = .branch out cond arm) {taken : Bool}
    {stmts : List Stmt} (ha : arm taken = some stmts) :
    Stmt.weightList b stmts < Stmt.weightList b l := by
  unfold ofStmts at h
  split at h
  · cases h
  · next canonical hc =>
    exact Nat.lt_of_lt_of_le (weight_arm_lt_ofCanonical h ha)
      (Stmt.weightList_canonicalize_le l hc)

end Shape

/-- The tree of the execution paths of a statement list. -/
inductive Tree where
  /-- After the given statements, the paths cannot be taken further. -/
  | stuck (before : List Stmt) (f : Fault)
  /-- The end of a path. -/
  | straight (stmts : List Stmt)
  /-- After the given statements, a test decides between two arms. An arm that is not missing has
  its statements in `arm` and its tree in `sub`. -/
  | branch (before : List Stmt) (cond : Expr) (arm : Bool → Option (List Stmt))
      (sub : Bool → Tree)

/-- The tree of a statement list, with loops going at most `bound` rounds. -/
def Tree.ofStmts (bound : Nat) (list : List Stmt) : Tree :=
  match _h : Shape.ofStmts bound list with
  | .stuck before f => .stuck before f
  | .straight stmts => .straight stmts
  | .branch before cond arm =>
    .branch before cond arm fun taken =>
      match _ha : arm taken with
      | none => .straight []
      | some stmts => Tree.ofStmts bound stmts
termination_by Stmt.weightList bound list
decreasing_by exact Shape.weight_arm_lt _h _ha

end PathTree
