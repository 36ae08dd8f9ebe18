import PathTree.Proofs.Idempotence

/-!
# Ways through a list

A way through a list of statements goes from its start to its end, into one arm of each branch and a
number of times round each loop. When the paths of the list are laid out, each way becomes a way
from the root to a leaf, and the statements between two tests of it become a block.

A `Scan` is a check that goes along ways. `Scan.waysList` checks every way through a list, and
`Scan.blocksList` goes through the blocks of a tree as they are nested. `LaidOut.blocksList_eq` : a
check of all blocks of what is laid out is a check of all ways through the list.
-/

namespace PathTree

namespace Stmt

theorem isEmpty_append (l l' : List Stmt) : (l ++ l').isEmpty = (l.isEmpty && l'.isEmpty) := by
  cases l <;> rfl

theorem flatten_append (l l' : List Stmt) : flatten (l ++ l') = flatten l ++ flatten l' := by
  induction l with
  | nil => rfl
  | cons s l ih => rw [List.cons_append, flatten, flatten, ih, List.append_assoc]

theorem flatten_flatten (l : List Stmt) : flatten (flatten l) = flatten l :=
  flatten_of_isBlock (isBlock_of_mem_flatten l)

theorem isBlock_of_isFlat {s : Stmt} (h : s.isFlat) : s.isBlock = false := by
  cases s <;> simp_all [isFlat, isBlock]

theorem isEmpty_expandOne_of_isBlock {b : Nat} {s : Stmt} {out : List Stmt}
    (h : expandOne b s = .ok out) (hs : s.isBlock = false) : out.isEmpty = (spliced s).isEmpty := by
  have hspliced : spliced s = [s] := by
    cases s with
    | block l => cases hs
    | _ => rfl
  rw [hspliced]
  rcases expandOne_cases h with ⟨l, rfl, -⟩ | ⟨c, body, -, rfl⟩ |
    ⟨init, c, step, body, first, -, -, -, rfl⟩ | ⟨-, rfl⟩
  · cases hs
  · rfl
  · cases first <;> rfl
  · rfl

mutual
theorem isEmpty_expandOne {b : Nat} (s : Stmt) {out : List Stmt} (h : expandOne b s = .ok out) :
    out.isEmpty = (spliced s).isEmpty := by
  cases s with
  | block l =>
    simp only [expandOne] at h
    rw [isEmpty_expand l h, spliced]
  | _ => exact isEmpty_expandOne_of_isBlock h rfl

/-- A list expands to nothing if nothing stands in its blocks. -/
theorem isEmpty_expand {b : Nat} (l : List Stmt) {out : List Stmt} (h : expand b l = .ok out) :
    out.isEmpty = (flatten l).isEmpty := by
  cases l with
  | nil =>
    simp only [expand] at h
    cases h
    rfl
  | cons s rest =>
    obtain ⟨first, more, h₁, h₂, rfl⟩ := expand_cons h
    rw [flatten, isEmpty_append, isEmpty_append, isEmpty_expandOne s h₁,
      isEmpty_expand rest h₂]
end

end Stmt

/-- A check that goes along a way and keeps a state of type `α` : which statements and tests it
allows, the state behind a declaration or expression, and the state at the start of an arm. A test
of two operands allows the second one at the start of an arm, because that is where it will stand.
-/
structure Scan (α : Type) where
  allows : α → Stmt → Bool
  allowsTest : α → Expr → Bool
  after : α → Stmt → α
  enter : α → α
  enter_enter : ∀ a, enter (enter a) = enter a
  allowsTest_logical : ∀ a op x y, op.isLogical →
    allowsTest a (.binary op x y) = (allowsTest a x && allowsTest (enter a) y)
  allowsTest_paren : ∀ a x, allowsTest a (.paren x) = allowsTest a x

namespace Scan

variable {α : Type} (S : Scan α) (bound : Nat)

/-! ## Checks of ways and blocks -/

/-- Checks the expressions behind the rounds of a loop, and then what follows. -/
def waysSteps : List Expr → (α → Bool) → α → Bool
  | [], k => k
  | x :: rest, k => fun a => S.allows a (.expr x) && waysSteps rest k (S.after a (.expr x))

/-- Checks at most `n` rounds of a loop, and one if `n` is 0, and then what follows. `round` checks
a round, where its first argument says whether it is the last one. -/
def waysRounds (c : Expr) (round : Bool → (α → Bool) → α → Bool) : Nat → (α → Bool) → α → Bool
  | n + 2, k => fun a =>
    S.allowsTest a c && round false (waysRounds c round (n + 1) k) (S.enter a) && k (S.enter a)
  | _, k => fun a => S.allowsTest a c && round true k (S.enter a) && k (S.enter a)

mutual
/-- Checks every way through a statement and what follows it. A way ends with a statement that
leaves the function if that is the last one of its list (`last`). -/
def ways (last : Bool) : Stmt → (α → Bool) → α → Bool
  | .block list, k => waysList last list k
  | .branch c yes no, k => fun a =>
    S.allowsTest a c && waysArm true yes k (S.enter a) && waysArm true no k (S.enter a)
  | .whileLoop c body, k => S.waysRounds c (fun last k => waysArm last body k) bound k
  | .forLoop init c step body, k =>
    waysArm false init (S.waysRounds (Stmt.loopCond c)
      (fun last k => waysArm (last && step.isEmpty) body (S.waysSteps step k)) bound k)
  | .ret v, k => fun a => S.allows a (.ret v) && (last || k a)
  | .throw v, k => fun a => S.allows a (.throw v) && (last || k a)
  | .expr x, k => fun a => S.allows a (.expr x) && k (S.after a (.expr x))
  | .decl n t v, k => fun a => S.allows a (.decl n t v) && k (S.after a (.decl n t v))

/-- Checks every way through an arm and what follows it. -/
def waysArm (last : Bool) : Option Stmt → (α → Bool) → α → Bool
  | none, k => k
  | some s, k => ways last s k

/-- Checks every way through a list and what follows it. -/
def waysList (last : Bool) : List Stmt → (α → Bool) → α → Bool
  | [], k => k
  | s :: rest, k => ways (last && (Stmt.flatten rest).isEmpty) s (waysList last rest k)
end

mutual
/-- Checks a statement and the blocks in it. What was known in front of a block, branch or loop is
known behind it too, and nothing more. -/
def blocks : Stmt → α → Bool
  | .block list, a => blocksList list (S.enter a)
  | .branch c yes no, a =>
    S.allowsTest a c && blocksArm yes (S.enter a) && blocksArm no (S.enter a)
  | .whileLoop c body, a => S.allowsTest a c && blocksArm body (S.enter a)
  | .forLoop init c step body, a =>
    blocksArm init (S.enter a) &&
      (let inner := init.elim (S.enter a) (S.after (S.enter a))
      S.allowsTest inner (Stmt.loopCond c) && S.waysSteps step (fun _ => true) inner &&
        blocksArm body (S.enter inner))
  | .ret v, a => S.allows a (.ret v)
  | .throw v, a => S.allows a (.throw v)
  | .expr x, a => S.allows a (.expr x)
  | .decl n t v, a => S.allows a (.decl n t v)

/-- Checks an arm and the blocks in it. -/
def blocksArm : Option Stmt → α → Bool
  | none, _ => true
  | some s, a => blocks s a

/-- Checks the statements of a block and the blocks in it. -/
def blocksList : List Stmt → α → Bool
  | [], _ => true
  | s :: rest, a => blocks s a && blocksList rest (if s.isSimple then S.after a s else a)
end

/-! ## Lists and arms -/

variable {S bound}

theorem ways_of_isSimple {s : Stmt} (h : s.isSimple) (last : Bool) (k : α → Bool) :
    S.ways bound last s k = fun a => S.allows a s && k (S.after a s) := by
  cases s with
  | expr x => rfl
  | decl name type v => rfl
  | _ => cases h

theorem ways_of_isTerminal {s : Stmt} (h : s.isTerminal) (last : Bool) (k : α → Bool) :
    S.ways bound last s k = fun a => S.allows a s && (last || k a) := by
  cases s with
  | ret v => rfl
  | throw v => rfl
  | _ => cases h

theorem waysList_singleton (last : Bool) (s : Stmt) (k : α → Bool) :
    S.waysList bound last [s] k = S.ways bound last s k := by
  simp [waysList, Stmt.flatten]

theorem waysList_append (last : Bool) (l l' : List Stmt) (k : α → Bool) :
    S.waysList bound last (l ++ l') k =
      S.waysList bound (last && (Stmt.flatten l').isEmpty) l (S.waysList bound last l' k) := by
  induction l with
  | nil => rfl
  | cons s l ih =>
    rw [List.cons_append, waysList, waysList, ih, Stmt.flatten_append, Stmt.isEmpty_append]
    congr 1
    cases last <;> cases (Stmt.flatten l).isEmpty <;> cases (Stmt.flatten l').isEmpty <;> rfl

theorem waysList_statements (last : Bool) (arm : Option Stmt) (k : α → Bool) :
    S.waysList bound last (Stmt.statements arm) k = S.waysArm bound last arm k := by
  cases arm with
  | none => rfl
  | some s =>
    cases s with
    | block l => rw [Stmt.statements, waysArm, ways]
    | _ => exact waysList_singleton last _ k

mutual
theorem waysList_spliced (last : Bool) (s : Stmt) (k : α → Bool) :
    S.waysList bound last (Stmt.spliced s) k = S.ways bound last s k := by
  cases s with
  | block inner => rw [Stmt.spliced, ways, waysList_flatten last inner]
  | _ => simp [Stmt.spliced, waysList_singleton]

/-- Splicing nested blocks keeps the ways through a list. -/
theorem waysList_flatten (last : Bool) (l : List Stmt) (k : α → Bool) :
    S.waysList bound last (Stmt.flatten l) k = S.waysList bound last l k := by
  cases l with
  | nil => rfl
  | cons s rest =>
    rw [Stmt.flatten, waysList_append, Stmt.flatten_flatten, waysList_flatten last rest,
      waysList_spliced _ s, waysList]
end

/-! ## Loops -/

theorem waysList_map_expr (last : Bool) (xs : List Expr) (k : α → Bool) :
    S.waysList bound last (xs.map .expr) k = S.waysSteps xs k := by
  induction xs with
  | nil => rfl
  | cons x xs ih => rw [List.map_cons, waysList, ih, ways_of_isSimple rfl, waysSteps]

/-- An unrolled loop has the ways of the loop. -/
theorem ways_unroll (last : Bool) (c : Expr) (body : List Stmt) (n : Nat) (k : α → Bool) :
    S.ways bound last (Stmt.unroll c body n) k =
      S.waysRounds c (fun last k => S.waysList bound last body k) n k := by
  fun_induction Stmt.unroll c body n generalizing last with
  | case1 n ih =>
    have hflag : (Stmt.flatten [Stmt.unroll c body (n + 1)]).isEmpty = false := by
      rw [Stmt.flatten_of_isBlock fun s hs => ?_]
      · rfl
      · rw [List.mem_singleton.mp hs]
        exact Stmt.isBlock_of_isFlat (Stmt.isFlat_unroll _ _ _)
    simp only [ways, waysArm, waysRounds, waysList_append, waysList_singleton, hflag,
      Bool.and_false, ih]
  | case2 n h =>
    have hone : S.waysRounds c (fun last k => S.waysList bound last body k) n k = fun a =>
        S.allowsTest a c && S.waysList bound true body k (S.enter a) && k (S.enter a) := by
      unfold waysRounds
      split
      · exact absurd rfl (h _)
      · rfl
    simp only [hone, ways, waysArm]

theorem waysList_loopInit {init : Option Stmt} {first : List Stmt}
    (h : Stmt.loopInit init = .ok first) (last : Bool) (k : α → Bool) :
    S.waysList bound last first k = S.waysArm bound false init k := by
  cases init with
  | none =>
    cases h
    rfl
  | some s =>
    simp only [Stmt.loopInit] at h
    split at h
    · next hs =>
      cases h
      rw [waysList_singleton, waysArm, ways_of_isSimple hs, ways_of_isSimple hs]
    · cases h

theorem waysList_expandOne_of_isBlock {s : Stmt} {out : List Stmt}
    (h : Stmt.expandOne bound s = .ok out) (hs : s.isBlock = false) (last : Bool) (k : α → Bool) :
    S.waysList bound last out k = S.ways bound last s k := by
  rcases Stmt.expandOne_cases h with ⟨l, rfl, -⟩ | ⟨c, body, rfl, rfl⟩ |
    ⟨init, c, step, body, first, rfl, -, hi, rfl⟩ | ⟨-, rfl⟩
  · cases hs
  · simp only [waysList_singleton, ways_unroll, waysList_statements, ways]
  · have hempty : (Stmt.flatten (step.map .expr)).isEmpty = step.isEmpty := by
      rw [Stmt.flatten_of_isBlock]
      · cases step <;> rfl
      · simp [Stmt.isBlock]
    simp only [waysList_append, waysList_singleton, ways_unroll, waysList_loopInit hi,
      waysList_statements, waysList_map_expr, hempty, ways]
  · exact waysList_singleton last s k

mutual
theorem waysList_expandOne (s : Stmt) {out : List Stmt} (h : Stmt.expandOne bound s = .ok out)
    (last : Bool) (k : α → Bool) : S.waysList bound last out k = S.ways bound last s k := by
  cases s with
  | block l =>
    simp only [Stmt.expandOne] at h
    rw [waysList_expand l h, ways]
  | _ => exact waysList_expandOne_of_isBlock h rfl last k

/-- Splicing blocks and unrolling loops keeps the ways through a list. -/
theorem waysList_expand (l : List Stmt) {out : List Stmt} (h : Stmt.expand bound l = .ok out)
    (last : Bool) (k : α → Bool) : S.waysList bound last out k = S.waysList bound last l k := by
  cases l with
  | nil =>
    simp only [Stmt.expand] at h
    cases h
    rfl
  | cons s rest =>
    obtain ⟨first, more, h₁, h₂, rfl⟩ := Stmt.expand_cons h
    have hflat : Stmt.flatten more = more :=
      Stmt.flatten_of_isBlock fun t ht =>
        Stmt.isBlock_of_isFlat (Stmt.isFlat_of_expand rest h₂ t ht)
    rw [waysList_append, waysList_expand rest h₂, waysList_expandOne s h₁, waysList, hflat,
      Stmt.isEmpty_expand rest h₂]
end

/-! ## Tails -/

/-- A list whose last statement leaves the function has nothing behind it. -/
theorem waysList_of_endsTerminal {l : List Stmt} (h : Stmt.endsTerminal l) (k k' : α → Bool) :
    S.waysList bound true l k = S.waysList bound true l k' := by
  obtain ⟨s, hs, ht⟩ : ∃ s, l.getLast? = some s ∧ s.isTerminal := by
    simpa [Stmt.endsTerminal, Option.any_eq_true] using h
  obtain ⟨init, rfl⟩ := List.getLast?_eq_some_iff.mp hs
  simp only [waysList_append, waysList_singleton, ways_of_isTerminal ht, Bool.true_or]

/-- What follows a list matters alike, wherever the list stands, if its last statement does not
leave the function. -/
theorem waysList_last {l : List Stmt} (hl : ∀ s ∈ l, s.isBlock = false)
    (h : Stmt.endsTerminal l = false) (last : Bool) (k : α → Bool) :
    S.waysList bound last l k = S.waysList bound true l k := by
  rcases List.eq_nil_or_concat l with rfl | ⟨init, s, rfl⟩
  · rfl
  · have hs : s.isTerminal = false := by simpa [Stmt.endsTerminal] using h
    have hb : s.isBlock = false := hl s (by simp)
    have hflat : (Stmt.flatten [s]).isEmpty = false := by
      rw [Stmt.flatten_of_isBlock (by simpa using hb)]
      rfl
    have hlast : S.ways bound last s k = S.ways bound true s k := by
      cases s with
      | block l => cases hb
      | ret v => cases hs
      | throw v => cases hs
      | _ => rfl
    simp only [List.concat_eq_append, waysList_append, waysList_singleton, hflat, Bool.and_false,
      hlast]

theorem waysList_withTail {arm : List Stmt} (ha : ∀ s ∈ arm, s.isBlock = false)
    (tail : List Stmt) (k : α → Bool) :
    S.waysList bound true (Stmt.withTail arm tail) k =
      S.waysList bound true arm (S.waysList bound true tail k) := by
  unfold Stmt.withTail
  split
  · next h => exact waysList_of_endsTerminal h _ _
  · next h => rw [waysList_append, waysList_last ha (by simpa using h)]

/-- A branch with a tail in its arms has the ways through the branch and then the tail. -/
theorem ways_mergeTail (last last' : Bool) (c : Expr) (yes no : Option Stmt) (tail : List Stmt)
    (k : α → Bool) :
    S.ways bound last (Stmt.mergeTail c yes no tail) k =
      S.ways bound last' (.branch c yes no) (S.waysList bound true tail k) := by
  have harm : ∀ arm : Option Stmt,
      S.waysList bound true (Stmt.withTail (Stmt.flatten (Stmt.statements arm)) tail) k =
        S.waysArm bound true arm (S.waysList bound true tail k) := by
    intro arm
    rw [waysList_withTail (Stmt.isBlock_of_mem_flatten _), waysList_flatten, waysList_statements]
  have hempty : ∀ l : List Stmt,
      S.waysArm bound true (if l.isEmpty then none else some (.block l)) k =
        S.waysList bound true l k := by
    intro l
    cases l <;> rfl
  simp only [Stmt.mergeTail, ways, waysArm, hempty, harm]
  cases no with
  | none => rfl
  | some s => simp only [harm]

theorem isEmpty_joinTails {l out : List Stmt} (h : Stmt.joinTails l = .ok out) :
    out.isEmpty = l.isEmpty := by
  cases l with
  | nil =>
    simp only [Stmt.joinTails] at h
    cases h
    rfl
  | cons s rest =>
    obtain ⟨more, -, ⟨-, rfl⟩ | ⟨-, -, rfl⟩ | ⟨c, yes, no, rfl, rfl⟩⟩ := Stmt.joinTails_cons h <;>
      rfl

theorem waysList_joinTails {l out : List Stmt} (hl : ∀ s ∈ l, s.isFlat)
    (h : Stmt.joinTails l = .ok out) (k : α → Bool) :
    S.waysList bound true out k = S.waysList bound true l k := by
  induction l generalizing out with
  | nil =>
    simp only [Stmt.joinTails] at h
    cases h
    rfl
  | cons s rest ih =>
    obtain ⟨-, hrest⟩ := List.forall_mem_cons.mp hl
    obtain ⟨more, hr, ⟨hs, rfl⟩ | ⟨-, hmore, rfl⟩ | ⟨c, yes, no, rfl, rfl⟩⟩ :=
      Stmt.joinTails_cons h
    · simp only [waysList, ways_of_isSimple hs, ih hrest hr]
    · -- What follows a statement that leaves the function is empty in both lists or in none.
      have hflat : ∀ l : List Stmt, (∀ s ∈ l, s.isFlat) → Stmt.flatten l = l := fun l hl =>
        Stmt.flatten_of_isBlock fun t ht => Stmt.isBlock_of_isFlat (hl t ht)
      rw [waysList, waysList, ih hrest hr, hflat rest hrest,
        hflat more fun t ht => Stmt.isFlat_of_isSimple (hmore t ht), isEmpty_joinTails hr]
    · rw [waysList_singleton, ways_mergeTail, ih hrest hr, waysList]

theorem waysList_mergeLast (l : List Stmt) (k : α → Bool) :
    S.waysList bound true (Stmt.mergeLast l) k = S.waysList bound true l k := by
  fun_induction Stmt.mergeLast l with
  | case1 => rfl
  | case2 c yes no tail h => rw [List.isEmpty_iff.mp h]
  | case3 c yes no tail h => rw [waysList_singleton, ways_mergeTail, waysList]
  | case4 s rest _ h ih => simp only [waysList, ways_of_isSimple h, ih]
  | case5 s rest _ h => rfl

/-- The canonical form of a list has the ways of the list. -/
theorem waysList_canonicalize {l out : List Stmt} (h : Stmt.canonicalize bound l = .ok out)
    (k : α → Bool) : S.waysList bound true out k = S.waysList bound true l k := by
  obtain ⟨flat, joined, he, hj, rfl⟩ := Stmt.canonicalize_eq_ok h
  rw [waysList_mergeLast, waysList_joinTails (Stmt.isFlat_of_expand l he) hj, waysList_expand l he]

/-! ## Conditions -/

/-- A branch on a split condition has the ways of the branch. -/
theorem ways_splitCond (last : Bool) (c : Expr) (yes no : Option Stmt) (k : α → Bool) (a : α) :
    S.ways bound last (.branch (Stmt.splitCond c yes no).1 (Stmt.splitCond c yes no).2.1
        (Stmt.splitCond c yes no).2.2) k a = S.ways bound last (.branch c yes no) k a := by
  fun_induction Stmt.splitCond c yes no with
  | case1 x y yes no ih =>
    rw [ih]
    simp only [ways, waysArm, waysList_singleton, S.enter_enter,
      S.allowsTest_logical a .and x y rfl]
    cases S.waysArm bound true no k (S.enter a) <;> simp [Bool.and_assoc]
  | case2 x y yes no ih =>
    rw [ih]
    simp only [ways, waysArm, waysList_singleton, S.enter_enter,
      S.allowsTest_logical a .or x y rfl]
    cases S.waysArm bound true yes k (S.enter a) <;> simp [Bool.and_assoc]
  | case3 x yes no h ih =>
    rw [ih]
    simp only [ways, S.allowsTest_paren]
  | case4 => rfl
  | case5 => rfl

theorem waysList_arms {c : Expr} {yes no : Option Stmt} {b : Bool} {stmts : List Stmt}
    (h : Shape.arms c yes no b = some stmts) (k : α → Bool) :
    S.waysList bound true stmts k = S.waysArm bound true
      (if b then (Stmt.splitCond c yes no).2.1 else (Stmt.splitCond c yes no).2.2) k := by
  unfold Shape.arms at h
  generalize (if b then (Stmt.splitCond c yes no).2.1 else (Stmt.splitCond c yes no).2.2) = arm at h
  cases arm with
  | none => cases h
  | some s =>
    cases h
    rw [waysList_flatten, waysList_statements]

/-! ## Blocks -/

theorem blocks_of_isSimple {s : Stmt} (h : s.isSimple) (a : α) : S.blocks s a = S.allows a s := by
  cases s with
  | expr x => rfl
  | decl name type v => rfl
  | _ => cases h

theorem blocks_of_isTerminal {s : Stmt} (h : s.isTerminal) (a : α) :
    S.blocks s a = S.allows a s := by
  cases s with
  | ret v => rfl
  | throw v => rfl
  | _ => cases h

/-- Simple statements are checked alike as the start of a way and as the start of a block. -/
theorem blocksList_append {before : List Stmt} (hb : ∀ s ∈ before, s.isSimple) {l l' : List Stmt}
    {k : α → Bool} (h : ∀ a, S.blocksList l a = S.waysList bound true l' k a) (a : α) :
    S.blocksList (before ++ l) a = S.waysList bound true (before ++ l') k a := by
  induction before generalizing a with
  | nil => exact h a
  | cons s before ih =>
    obtain ⟨hs, hbefore⟩ := List.forall_mem_cons.mp hb
    rw [List.cons_append, List.cons_append, blocksList, waysList, ways_of_isSimple hs, if_pos hs,
      blocks_of_isSimple hs, ih hbefore]

theorem blocksList_of_isSimple {l : List Stmt} (h : ∀ s ∈ l, s.isSimple) (a : α) :
    S.blocksList l a = S.waysList bound true l (fun _ => true) a := by
  have hnil : ∀ a, S.blocksList [] a = S.waysList bound true [] (fun _ => true) a := fun _ => rfl
  simpa using blocksList_append h hnil a

theorem blocksList_of_straight {l : List Stmt} (h : Stmt.Straight l) (a : α) :
    S.blocksList l a = S.waysList bound true l (fun _ => true) a := by
  cases h with
  | simple h => exact blocksList_of_isSimple h a
  | @leaves before after s hb hs ha =>
    refine blocksList_append hb (fun a => ?_) a
    have hsimple : s.isSimple = false := by
      cases s with
      | expr x => cases hs
      | decl name type v => cases hs
      | _ => rfl
    have hflat : Stmt.flatten after = after := Stmt.flatten_of_isBlock fun t ht =>
      Stmt.isBlock_of_isFlat (Stmt.isFlat_of_isSimple (ha t ht))
    rw [blocksList, waysList, ways_of_isTerminal hs, blocks_of_isTerminal hs, hsimple,
      if_neg (by simp), blocksList_of_isSimple ha, hflat]
    cases after <;> rfl

end Scan

/-! ## What is laid out -/

/-- A list with its paths laid out, where loops go at most `bound` rounds. An arm is laid out too,
or it is left as it stands if not all arms are laid out. -/
inductive LaidOut (bound : Nat) (all : Bool) : List Stmt → List Stmt → Prop
  | straight {l stmts : List Stmt} (hc : Stmt.canonicalize bound l = .ok stmts)
      (hs : Stmt.Straight stmts) : LaidOut bound all l stmts
  | branch {l before : List Stmt} {c : Expr} {yes no : Option Stmt} (sub : Bool → List Stmt)
      (kept : Bool → Bool) (hc : Stmt.canonicalize bound l = .ok (before ++ [.branch c yes no]))
      (hb : ∀ t ∈ before, t.isSimple) (hall : ∀ b, kept b → all = false)
      (hkept : ∀ b stmts, Shape.arms c yes no b = some stmts → kept b → sub b = stmts)
      (hsub : ∀ b stmts, Shape.arms c yes no b = some stmts → kept b = false →
        LaidOut bound all stmts (sub b)) :
      LaidOut bound all l (before ++ [.branch (Stmt.splitCond c yes no).1
        ((Shape.arms c yes no true).map fun _ => .block (sub true))
        ((Shape.arms c yes no false).map fun _ => .block (sub false))])

/-- What a walk lays out is the list with its paths laid out. -/
theorem Laid.laidOut {bound : Nat} {all : Bool} {l : List Stmt} {m : Memory} {r : Record}
    (h : Laid bound all l m r) : LaidOut bound all l r.body := by
  induction h with
  | straight hc hs hm => exact .straight hc hs
  | @branch l before c test yes no m m' answer sub hc hb _ _ _ hkept _ ih =>
    refine .branch (fun b => (sub b).body) (fun b => !((answer b).sat || all)) hc hb ?_ ?_ ?_
    · intro b hk
      cases all
      · rfl
      · simp at hk
    · intro b stmts ha hk
      rw [hkept b stmts ha (by simpa using hk)]
      rfl
    · intro b stmts ha hk
      exact ih b stmts ha (by simpa only [Bool.not_eq_eq_eq_not, Bool.not_false] using hk)

/-- A check of all blocks of what is laid out is a check of all ways through the list. -/
theorem LaidOut.blocksList_eq {α : Type} (S : Scan α) {bound : Nat} {l body : List Stmt}
    (h : LaidOut bound true l body) (a : α) :
    S.blocksList body a = S.waysList bound true l (fun _ => true) a := by
  induction h generalizing a with
  | straight hc hs => rw [S.blocksList_of_straight hs, S.waysList_canonicalize hc]
  | @branch l before c yes no sub kept hc hb hall hkept hsub ih =>
    have hkept : ∀ b, kept b = false := fun b => by
      cases hk : kept b
      · rfl
      · cases hall b hk
    -- The check of an arm as it was laid out is that of the arm of the split branch.
    have harm : ∀ b a,
        S.blocksArm ((Shape.arms c yes no b).map fun _ => .block (sub b)) (S.enter a) =
        S.waysArm bound true (if b then (Stmt.splitCond c yes no).2.1
          else (Stmt.splitCond c yes no).2.2) (fun _ => true) (S.enter a) := by
      intro b a
      cases ha : Shape.arms c yes no b with
      | none =>
        unfold Shape.arms Shape.armStmts at ha
        split at ha
        · next he => rw [he]; rfl
        · cases ha
      | some stmts =>
        rw [← S.waysList_arms ha, ← ih b stmts ha (hkept b)]
        simp only [Option.map_some, Scan.blocksArm, Scan.blocks, S.enter_enter]
    rw [← S.waysList_canonicalize hc]
    refine Scan.blocksList_append hb (fun a => ?_) a
    have hy := harm true a
    have hn := harm false a
    simp only [if_true, Bool.false_eq_true, if_false] at hy hn
    rw [S.waysList_singleton, ← S.ways_splitCond]
    simp only [Scan.blocksList, Scan.blocks, Scan.ways, hy, hn, Bool.and_true]

end PathTree
