import PathTree.Paths.Tree

/-!
# Canonical lists and their trees

`canonical_of_canonicalize` : the canonical form of a list is simple statements with at most one
structural statement, which is a branch at the end or leaves the function. A list is therefore
taken apart in one of three ways (`Tree.ofStmts_cases`) : it has no canonical form, its canonical
form has no branch, or it is simple statements before a branch whose arms are lists with trees of
their own (`Tree.armTree`). Later files read a tree only through these three cases.
-/

namespace PathTree

namespace Stmt

/-! ## Lists without blocks and loops -/

/-- Neither a block nor a loop. -/
def isFlat : Stmt → Bool
  | .block _ | .whileLoop .. | .forLoop .. => false
  | _ => true

theorem isFlat_of_isSimple {s : Stmt} (h : s.isSimple) : s.isFlat := by
  cases s <;> simp_all [isSimple, isFlat]

/-- A flat statement is simple, leaves the function, or is a branch. -/
theorem isFlat_cases {s : Stmt} (h : s.isFlat) :
    s.isSimple ∨ s.isTerminal ∨ ∃ c yes no, s = .branch c yes no := by
  cases s <;> simp_all [isSimple, isFlat, isTerminal]

theorem isFlat_unroll (c : Expr) (body : List Stmt) (n : Nat) : (unroll c body n).isFlat := by
  fun_induction unroll c body n <;> rfl

theorem isSimple_of_loopInit {init : Option Stmt} {first : List Stmt}
    (h : loopInit init = .ok first) : ∀ s ∈ first, s.isSimple := by
  cases init with
  | none =>
    cases h
    simp
  | some s =>
    simp only [loopInit] at h
    split at h
    · next hs =>
      cases h
      simpa using hs
    · cases h

/-- What a statement expands to, case by case. -/
theorem expandOne_cases {b : Nat} {s : Stmt} {out : List Stmt} (h : expandOne b s = .ok out) :
    (∃ l, s = .block l ∧ expand b l = .ok out) ∨
      (∃ c body, s = .whileLoop c body ∧ out = [unroll c (statements body) b]) ∨
      (∃ init c step body first, s = .forLoop init c step body ∧ step.length ≤ 1 ∧
        loopInit init = .ok first ∧
        out = first ++ [unroll (loopCond c) (statements body ++ step.map .expr) b]) ∨
      (s.isFlat ∧ out = [s]) := by
  cases s with
  | block l => exact Or.inl ⟨l, rfl, by simpa only [expandOne] using h⟩
  | whileLoop c body =>
    simp only [expandOne] at h
    cases h
    exact Or.inr (Or.inl ⟨c, body, rfl, rfl⟩)
  | forLoop init c step body =>
    simp only [expandOne] at h
    split at h
    · cases h
    · next hs =>
      obtain ⟨first, hi, h⟩ := bind_eq_ok.mp h
      cases h
      exact Or.inr (Or.inr (Or.inl ⟨init, c, step, body, first, rfl, by omega, hi, rfl⟩))
  | _ =>
    simp only [expandOne] at h
    cases h
    exact Or.inr (Or.inr (Or.inr ⟨rfl, rfl⟩))

/-- A list expands to what its statements expand to, one after the other. -/
theorem expand_cons {b : Nat} {s : Stmt} {rest out : List Stmt}
    (h : expand b (s :: rest) = .ok out) :
    ∃ first more, expandOne b s = .ok first ∧ expand b rest = .ok more ∧ out = first ++ more := by
  simp only [expand] at h
  obtain ⟨first, h1, h⟩ := bind_eq_ok.mp h
  obtain ⟨more, h2, h⟩ := bind_eq_ok.mp h
  cases h
  exact ⟨first, more, h1, h2, rfl⟩

mutual
/-- What a statement expands to is flat. -/
theorem isFlat_of_expandOne {b : Nat} (s : Stmt) {out : List Stmt} (h : expandOne b s = .ok out) :
    ∀ t ∈ out, t.isFlat := by
  intro t ht
  rcases expandOne_cases h with ⟨l, rfl, hl⟩ | ⟨c, body, rfl, rfl⟩ |
    ⟨init, c, step, body, first, rfl, -, hi, rfl⟩ | ⟨hs, rfl⟩
  · exact isFlat_of_expand l hl t ht
  · rw [List.mem_singleton.mp ht]
    exact isFlat_unroll _ _ _
  · rcases List.mem_append.mp ht with ht | ht
    · exact isFlat_of_isSimple (isSimple_of_loopInit hi t ht)
    · rw [List.mem_singleton.mp ht]
      exact isFlat_unroll _ _ _
  · rwa [List.mem_singleton.mp ht]

/-- A list with blocks spliced and loops unrolled is flat. -/
theorem isFlat_of_expand {b : Nat} (l : List Stmt) {out : List Stmt} (h : expand b l = .ok out) :
    ∀ t ∈ out, t.isFlat := by
  cases l with
  | nil =>
    simp only [expand] at h
    cases h
    simp
  | cons s rest =>
    obtain ⟨first, more, h1, h2, rfl⟩ := expand_cons h
    intro t ht
    rcases List.mem_append.mp ht with ht | ht
    · exact isFlat_of_expandOne s h1 t ht
    · exact isFlat_of_expand rest h2 t ht
end

/-! ## Canonical lists -/

/-- Simple statements, with at most one statement among them that leaves the function. -/
inductive Straight : List Stmt → Prop
  | simple {l : List Stmt} (h : ∀ s ∈ l, s.isSimple) : Straight l
  | leaves (before : List Stmt) {after : List Stmt} {s : Stmt} (hb : ∀ t ∈ before, t.isSimple)
      (hs : s.isTerminal) (ha : ∀ t ∈ after, t.isSimple) : Straight (before ++ s :: after)

/-- A list that is straight, or simple statements and a branch at the end. -/
inductive Canonical : List Stmt → Prop
  | straight {l : List Stmt} (h : Straight l) : Canonical l
  | branch (before : List Stmt) {c : Expr} {yes no : Option Stmt}
      (hb : ∀ t ∈ before, t.isSimple) : Canonical (before ++ [.branch c yes no])

/-- A flat list with one structural statement at most. -/
inductive Joined : List Stmt → Prop
  | simple {l : List Stmt} (h : ∀ s ∈ l, s.isSimple) : Joined l
  | one (before after : List Stmt) {s : Stmt} (hb : ∀ t ∈ before, t.isSimple)
      (hs : s.isSimple = false) (hf : s.isFlat) (ha : ∀ t ∈ after, t.isSimple) :
      Joined (before ++ s :: after)

theorem Joined.cons {s : Stmt} (hs : s.isSimple) {l : List Stmt} (h : Joined l) :
    Joined (s :: l) := by
  rcases h with h | @⟨before, after, t, hb, ht, hf, ha⟩
  · exact .simple (List.forall_mem_cons.mpr ⟨hs, h⟩)
  · exact .one (s :: before) after (List.forall_mem_cons.mpr ⟨hs, hb⟩) ht hf ha

/-- What joining the tails of a list does with its first statement. -/
theorem joinTails_cons {s : Stmt} {rest out : List Stmt} (h : joinTails (s :: rest) = .ok out) :
    ∃ more, joinTails rest = .ok more ∧
      ((s.isSimple ∧ out = s :: more) ∨
        (s.isSimple = false ∧ (∀ t ∈ more, t.isSimple) ∧ out = s :: more) ∨
        ∃ c yes no, s = .branch c yes no ∧ out = [mergeTail c yes no more]) := by
  simp only [joinTails] at h
  obtain ⟨more, hr, h⟩ := bind_eq_ok.mp h
  refine ⟨more, hr, ?_⟩
  split at h
  · next hs =>
    cases h
    exact Or.inl ⟨hs, rfl⟩
  · next hs =>
    split at h
    · cases h
    · split at h
      · next ha =>
        cases h
        exact Or.inr (Or.inl ⟨by simpa using hs, List.all_eq_true.mp ha, rfl⟩)
      · cases s with
        | branch c yes no =>
          cases h
          exact Or.inr (Or.inr ⟨c, yes, no, rfl, rfl⟩)
        | _ => simp at h

/-- Joined tails leave one structural statement at most. -/
theorem joined_of_joinTails {l out : List Stmt} (hl : ∀ s ∈ l, s.isFlat)
    (h : joinTails l = .ok out) : Joined out := by
  induction l generalizing out with
  | nil =>
    simp only [joinTails] at h
    cases h
    exact .simple (by simp)
  | cons s rest ih =>
    obtain ⟨more, hr, hc⟩ := joinTails_cons h
    have hmore := ih (fun t ht => hl t (List.mem_cons_of_mem _ ht)) hr
    rcases hc with ⟨hs, rfl⟩ | ⟨hs, ha, rfl⟩ | ⟨c, yes, no, rfl, rfl⟩
    · exact hmore.cons hs
    · exact .one [] more (by simp) hs (hl s (by simp)) ha
    · exact .one [] [] (by simp) rfl rfl (by simp)

/-- Merging what follows the last branch skips the simple statements in front of it. -/
theorem mergeLast_append {before : List Stmt} (hb : ∀ t ∈ before, t.isSimple) (l : List Stmt) :
    mergeLast (before ++ l) = before ++ mergeLast l := by
  induction before with
  | nil => rfl
  | cons s before ih =>
    have hs : s.isSimple := hb s (by simp)
    have ih := ih fun t ht => hb t (List.mem_cons_of_mem _ ht)
    cases s <;> simp_all [mergeLast, isSimple]

theorem mergeLast_of_isTerminal {s : Stmt} (h : s.isTerminal) (after : List Stmt) :
    mergeLast (s :: after) = s :: after := by
  cases s <;> simp_all [mergeLast, isTerminal, isSimple]

theorem canonical_mergeLast {l : List Stmt} (h : Joined l) : Canonical (mergeLast l) := by
  rcases h with h | @⟨before, after, s, hb, hs, hf, ha⟩
  · have := mergeLast_append h []
    simp only [List.append_nil, mergeLast] at this
    rw [this]
    exact .straight (.simple h)
  · rw [mergeLast_append hb]
    rcases isFlat_cases hf with h | h | ⟨c, yes, no, rfl⟩
    · simp [h] at hs
    · rw [mergeLast_of_isTerminal h]
      exact .straight (.leaves before hb h ha)
    · simp only [mergeLast]
      split
      · exact .branch before hb
      · exact .branch before hb

theorem canonicalize_eq_ok {b : Nat} {l out : List Stmt} (h : canonicalize b l = .ok out) :
    ∃ flat joined, expand b l = .ok flat ∧ joinTails flat = .ok joined ∧
      out = mergeLast joined := by
  unfold canonicalize at h
  obtain ⟨flat, he, h⟩ := bind_eq_ok.mp h
  obtain ⟨joined, hj, h⟩ := bind_eq_ok.mp h
  cases h
  exact ⟨flat, joined, he, hj, rfl⟩

/-- The canonical form of a list is canonical. -/
theorem canonical_of_canonicalize {b : Nat} {l out : List Stmt}
    (h : canonicalize b l = .ok out) : Canonical out := by
  obtain ⟨flat, joined, he, hj, rfl⟩ := canonicalize_eq_ok h
  exact canonical_mergeLast (joined_of_joinTails (isFlat_of_expand l he) hj)

/-! ## Split conditions -/

/-- The outer condition of a split branch is a single test. -/
theorem isCompound_splitCond (c : Expr) (yes no : Option Stmt) :
    (splitCond c yes no).1.isCompound = false := by
  fun_induction splitCond c yes no with
  | case1 yes no x y ih => exact ih
  | case2 yes no x y ih => exact ih
  | case3 yes no x h ih => exact ih
  | case4 yes no x h => simpa [Expr.isCompound, Expr.unparen] using h
  | case5 x yes no h1 h2 h3 =>
    cases x with
    | binary op x y => cases op <;> simp_all [Expr.isCompound, Expr.unparen, BinaryOp.isLogical]
    | paren x => exact absurd rfl (h3 x)
    | _ => simp [Expr.isCompound, Expr.unparen]

end Stmt

/-! ## Taking a list apart -/

namespace Shape

/-- The arms of a branch on a condition, once the condition is split. -/
def arms (c : Expr) (yes no : Option Stmt) (taken : Bool) : Option (List Stmt) :=
  armStmts (if taken then (Stmt.splitCond c yes no).2.1 else (Stmt.splitCond c yes no).2.2)

theorem ofCanonical_append {pre : List Stmt} (hp : ∀ t ∈ pre, t.isSimple) (before l : List Stmt) :
    ofCanonical before (pre ++ l) = ofCanonical (before ++ pre) l := by
  induction pre generalizing before with
  | nil => simp
  | cons s pre ih =>
    have hs : s.isSimple := hp s (by simp)
    have ih := ih (fun t ht => hp t (List.mem_cons_of_mem _ ht)) (before ++ [s])
    cases s <;> simp_all [ofCanonical, Stmt.isSimple]

theorem ofCanonical_straight {l : List Stmt} (h : Stmt.Straight l) :
    ofCanonical [] l = .straight l := by
  rcases h with h | @⟨before, after, s, hb, hs, ha⟩
  · simpa [ofCanonical] using ofCanonical_append h [] []
  · rw [ofCanonical_append hb]
    cases s <;> simp_all [ofCanonical, Stmt.isSimple, Stmt.isTerminal]

theorem ofCanonical_branch {before : List Stmt} (hb : ∀ t ∈ before, t.isSimple) (c : Expr)
    (yes no : Option Stmt) : ofCanonical [] (before ++ [Stmt.branch c yes no]) =
      .branch before (Stmt.splitCond c yes no).1 (arms c yes no) := by
  rw [ofCanonical_append hb]
  rfl

end Shape

/-- The trees of the arms of a branch. -/
def Tree.armTree (b : Nat) (arm : Bool → Option (List Stmt)) (taken : Bool) : Tree :=
  match arm taken with
  | none => .straight []
  | some stmts => Tree.ofStmts b stmts

theorem Tree.armTree_of_eq_some {b : Nat} {arm : Bool → Option (List Stmt)} {taken : Bool}
    {stmts : List Stmt} (h : arm taken = some stmts) :
    Tree.armTree b arm taken = Tree.ofStmts b stmts := by
  rw [Tree.armTree, h]

theorem Tree.ofStmts_of_shape (b : Nat) (l : List Stmt) :
    Tree.ofStmts b l =
      match Shape.ofStmts b l with
      | .stuck before f => .stuck before f
      | .straight stmts => .straight stmts
      | .branch before c arm => .branch before c arm (Tree.armTree b arm) := by
  rw [Tree.ofStmts]
  split
  · next h => rw [h]
  · next h => rw [h]
  · next before c arm h =>
    rw [h]
    congr 1
    funext taken
    unfold Tree.armTree
    split <;> simp_all

theorem Tree.ofStmts_straight {b : Nat} {l stmts : List Stmt}
    (hc : Stmt.canonicalize b l = .ok stmts) (hs : Stmt.Straight stmts) :
    Tree.ofStmts b l = .straight stmts := by
  rw [Tree.ofStmts_of_shape]
  simp [Shape.ofStmts, hc, Shape.ofCanonical_straight hs]

theorem Tree.ofStmts_branch {b : Nat} {l before : List Stmt} {c : Expr} {yes no : Option Stmt}
    (hc : Stmt.canonicalize b l = .ok (before ++ [.branch c yes no]))
    (hb : ∀ t ∈ before, t.isSimple) :
    Tree.ofStmts b l = .branch before (Stmt.splitCond c yes no).1 (Shape.arms c yes no)
      (Tree.armTree b (Shape.arms c yes no)) := by
  rw [Tree.ofStmts_of_shape]
  simp [Shape.ofStmts, hc, Shape.ofCanonical_branch hb]

/-- A list is taken apart in one of three ways : it has no canonical form, its canonical form has
no branch, or it is simple statements before a branch. -/
theorem Tree.ofStmts_cases (b : Nat) (l : List Stmt) :
    (∃ f, Stmt.canonicalize b l = .error f ∧ Tree.ofStmts b l = .stuck [] f) ∨
      (∃ stmts, Stmt.canonicalize b l = .ok stmts ∧ Stmt.Straight stmts ∧
        Tree.ofStmts b l = .straight stmts) ∨
      ∃ before c yes no, Stmt.canonicalize b l = .ok (before ++ [.branch c yes no]) ∧
        (∀ t ∈ before, t.isSimple) ∧
        Tree.ofStmts b l = .branch before (Stmt.splitCond c yes no).1 (Shape.arms c yes no)
          (Tree.armTree b (Shape.arms c yes no)) := by
  cases hc : Stmt.canonicalize b l with
  | error f =>
    refine Or.inl ⟨f, rfl, ?_⟩
    rw [Tree.ofStmts_of_shape]
    simp [Shape.ofStmts, hc]
  | ok stmts =>
    rcases Stmt.canonical_of_canonicalize hc with h | @⟨before, c, yes, no, hb⟩
    · exact Or.inr (Or.inl ⟨stmts, rfl, h, Tree.ofStmts_straight hc h⟩)
    · exact Or.inr (Or.inr ⟨before, c, yes, no, rfl, hb, Tree.ofStmts_branch hc hb⟩)

end PathTree
