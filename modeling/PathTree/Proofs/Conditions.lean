import PathTree.Proofs.Canonical
import PathTree.Proofs.Environment

/-!
# The conditions of a list

The conditions of a list are those of its branches and loops at any depth (`Stmt.conditions`). A
list is known (`Stmt.Known`) if no call and no member access stands in a condition of it. The steps
that lay paths out copy conditions and take them apart, but make no new ones : the canonical form of
a known list is known (`known_canonicalize`), and so are the test and the arms of a branch whose
condition is split (`known_arms`).
-/

namespace PathTree

namespace Stmt

/-- The condition of a branch or loop. -/
def condition? : Stmt → Option Expr
  | .branch c _ _ => some c
  | .whileLoop c _ => some c
  | .forLoop _ c _ _ => c
  | _ => none

/-- The conditions in a list, at any depth. -/
def conditions (l : List Stmt) : List Expr :=
  (walkList (fun _ => true) l).filterMap condition?

/-- No condition in a list has a call or a member access in it. -/
def Known (l : List Stmt) : Prop := ∀ c ∈ conditions l, c.NoUnknowns

instance (l : List Stmt) : Decidable (Known l) :=
  inferInstanceAs (Decidable (∀ c ∈ conditions l, ∀ x ∈ c.walk fun _ => true, x.isUnknown = false))

/-! ## Lists and statements -/

@[simp] theorem known_nil : Known [] := by
  simp [Known, conditions, walkList]

theorem known_cons {s : Stmt} {l : List Stmt} : Known (s :: l) ↔ Known [s] ∧ Known l := by
  simp [Known, conditions, walkList, or_imp, forall_and]

@[simp] theorem known_append {l l' : List Stmt} : Known (l ++ l') ↔ Known l ∧ Known l' := by
  induction l with
  | nil => simp
  | cons s l ih => rw [List.cons_append, known_cons, ih, known_cons (l := l), and_assoc]

theorem walkArm_eq (enter : Stmt → Bool) (arm : Option Stmt) :
    walkArm enter arm = walkList enter arm.toList := by
  cases arm with
  | none => rfl
  | some s => exact (List.append_nil (walk enter s)).symm

/-- What it means for a statement to be known, by its form. -/
theorem known_iff (s : Stmt) : Known [s] ↔
    match s with
    | .block l => Known l
    | .branch c yes no => c.NoUnknowns ∧ Known yes.toList ∧ Known no.toList
    | .whileLoop c body => c.NoUnknowns ∧ Known body.toList
    | .forLoop init c _ body =>
      (loopCond c).NoUnknowns ∧ Known init.toList ∧ Known body.toList
    | .ret _ | .throw _ | .expr _ | .decl .. => True := by
  cases s with
  | forLoop init c step body =>
    cases c <;> simp [Known, conditions, walkList, walk, condition?, walkArm_eq, or_imp, forall_and,
      loopCond]
  | _ => simp [Known, conditions, walkList, walk, condition?, walkArm_eq, or_imp, forall_and]

@[simp] theorem known_block {l : List Stmt} : Known [.block l] ↔ Known l :=
  known_iff _

@[simp] theorem known_branch {c : Expr} {yes no : Option Stmt} :
    Known [.branch c yes no] ↔ c.NoUnknowns ∧ Known yes.toList ∧ Known no.toList :=
  known_iff _

theorem known_of_isSimple {l : List Stmt} (h : ∀ s ∈ l, s.isSimple) : Known l := by
  induction l with
  | nil => exact known_nil
  | cons s l ih =>
    have hs : s.isSimple := h s (by simp)
    refine known_cons.mpr ⟨(known_iff s).mpr ?_, ih fun t ht => h t (List.mem_cons_of_mem _ ht)⟩
    cases s <;> simp_all [isSimple]

@[simp] theorem known_statements {arm : Option Stmt} :
    Known (statements arm) ↔ Known arm.toList := by
  cases arm with
  | none => simp [statements]
  | some s => cases s <;> simp [statements]

mutual
theorem known_spliced (s : Stmt) : Known (spliced s) ↔ Known [s] := by
  cases s with
  | block inner => simp [spliced, known_flatten inner]
  | _ => simp [spliced]

@[simp] theorem known_flatten (l : List Stmt) : Known (flatten l) ↔ Known l := by
  cases l with
  | nil => simp [flatten]
  | cons s rest => rw [flatten, known_append, known_spliced s, known_flatten rest, ← known_cons]
end

/-! ## Canonical lists -/

theorem known_unroll {c : Expr} (hc : c.NoUnknowns) {body : List Stmt} (hb : Known body) (n : Nat) :
    Known [unroll c body n] := by
  fun_induction unroll c body n with
  | case1 n ih => simp [hc, hb, ih]
  | case2 n h => simp [hc, hb]

mutual
theorem known_expandOne {b : Nat} (s : Stmt) {out : List Stmt} (h : expandOne b s = .ok out)
    (hs : Known [s]) : Known out := by
  rcases expandOne_cases h with ⟨l, rfl, hl⟩ | ⟨c, body, rfl, rfl⟩ |
    ⟨init, c, step, body, first, rfl, -, hi, rfl⟩ | ⟨-, rfl⟩
  · exact known_expand l hl (known_block.mp hs)
  · obtain ⟨hc, hb⟩ := (known_iff _).mp hs
    exact known_unroll hc (known_statements.mpr hb) b
  · obtain ⟨hc, -, hb⟩ := (known_iff _).mp hs
    refine known_append.mpr ⟨?_, known_unroll hc ?_ b⟩
    · exact known_of_isSimple (isSimple_of_loopInit hi)
    · exact known_append.mpr ⟨known_statements.mpr hb, known_of_isSimple (by simp [isSimple])⟩
  · exact hs

theorem known_expand {b : Nat} (l : List Stmt) {out : List Stmt} (h : expand b l = .ok out)
    (hl : Known l) : Known out := by
  cases l with
  | nil =>
    simp only [expand] at h
    cases h
    exact known_nil
  | cons s rest =>
    obtain ⟨first, more, h1, h2, rfl⟩ := expand_cons h
    obtain ⟨hs, hr⟩ := known_cons.mp hl
    exact known_append.mpr ⟨known_expandOne s h1 hs, known_expand rest h2 hr⟩
end

theorem known_withTail {arm tail : List Stmt} (ha : Known arm) (ht : Known tail) :
    Known (withTail arm tail) := by
  unfold withTail
  split
  · exact ha
  · exact known_append.mpr ⟨ha, ht⟩

theorem known_mergeTail {c : Expr} {yes no : Option Stmt} {tail : List Stmt}
    (hb : Known [.branch c yes no]) (ht : Known tail) : Known [mergeTail c yes no tail] := by
  obtain ⟨hc, hy, hn⟩ := known_branch.mp hb
  have hyes := known_withTail (known_flatten _ |>.mpr (known_statements.mpr hy)) ht
  have hno := known_withTail (known_flatten _ |>.mpr (known_statements.mpr hn)) ht
  unfold mergeTail
  cases no with
  | none => by_cases he : tail.isEmpty <;> simp_all
  | some s => by_cases he : (withTail (flatten (statements (some s))) tail).isEmpty <;> simp_all

theorem known_joinTails {l out : List Stmt} (h : joinTails l = .ok out) (hl : Known l) :
    Known out := by
  induction l generalizing out with
  | nil =>
    cases h
    exact known_nil
  | cons s rest ih =>
    obtain ⟨more, hr, hc⟩ := joinTails_cons h
    obtain ⟨hs, hrest⟩ := known_cons.mp hl
    have hmore := ih hr hrest
    rcases hc with ⟨-, rfl⟩ | ⟨-, -, rfl⟩ | ⟨c, yes, no, rfl, rfl⟩
    · exact known_cons.mpr ⟨hs, hmore⟩
    · exact known_cons.mpr ⟨hs, hmore⟩
    · exact known_mergeTail hs hmore

theorem known_mergeLast {l : List Stmt} (hl : Known l) : Known (mergeLast l) := by
  fun_induction mergeLast l with
  | case1 => exact known_nil
  | case2 c yes no tail ht => exact (known_cons.mp hl).1
  | case3 c yes no tail ht =>
    obtain ⟨hb, ht⟩ := known_cons.mp hl
    exact known_mergeTail hb ht
  | case4 s rest _ hs ih =>
    obtain ⟨hs, hr⟩ := known_cons.mp hl
    exact known_cons.mpr ⟨hs, ih hr⟩
  | case5 s rest _ hs => exact hl

/-- The canonical form of a known list is known. -/
theorem known_canonicalize {b : Nat} {l out : List Stmt} (h : canonicalize b l = .ok out)
    (hl : Known l) : Known out := by
  obtain ⟨flat, joined, he, hj, rfl⟩ := canonicalize_eq_ok h
  exact known_mergeLast (known_joinTails hj (known_expand l he hl))

/-! ## Split conditions -/

/-- Splitting the condition of a branch leaves it known. -/
theorem known_splitCond {c : Expr} {yes no : Option Stmt} (h : Known [.branch c yes no]) :
    Known [.branch (splitCond c yes no).1 (splitCond c yes no).2.1 (splitCond c yes no).2.2] := by
  fun_induction splitCond c yes no with
  | case1 yes no x y ih => exact ih (by simp_all)
  | case2 yes no x y ih => exact ih (by simp_all)
  | case3 yes no x hx ih => exact ih (by simp_all)
  | case4 yes no x hx => exact h
  | case5 x yes no => exact h

theorem known_arms {c : Expr} {yes no : Option Stmt} (h : Known [.branch c yes no]) {taken : Bool}
    {stmts : List Stmt} (ha : Shape.arms c yes no taken = some stmts) : Known stmts := by
  obtain ⟨-, hy, hn⟩ := known_branch.mp (known_splitCond h)
  have harm : ∀ arm, Known arm.toList → Shape.armStmts arm = some stmts → Known stmts := by
    intro arm hk hs
    cases arm with
    | none => cases hs
    | some s =>
      cases hs
      exact (known_flatten _).mpr (known_statements.mpr hk)
  cases taken with
  | true => exact harm _ hy ha
  | false => exact harm _ hn ha

end Stmt

end PathTree
