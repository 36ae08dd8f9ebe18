import PathTree.Proofs.Record

/-!
# Runs of a function and of its paths

A `Meaning` says what declarations, expressions and single tests do to a state. `Meaning.exec` runs
statements by it : `&&` and `||` are tested from left to right as far as needed, and a loop goes at
most a given number of rounds, after the last of which it is left without another test.

Splicing, unrolling, copying tails and splitting conditions keep the run of a list
(`execList_canonicalize`, `exec_splitCond`), and so does a walk (`Laid.execList_body`) : a run of
the paths of a function ends as a run of the function does, in the same state
(`Function.execList_paths_body`).
-/

namespace PathTree

/-- How a run is left before its end. -/
inductive Exit (ε : Type) where
  | returned (value : Option Expr)
  | thrown (value : Option Expr)
  | failed (cause : ε)

/-- Runs over states of type `σ` : they fall through to what follows, or are left. -/
abbrev Exec (ε σ α : Type) := EStateM (Exit ε) σ α

/-- A meaning of declarations, expressions and single tests. Each may fail, and a failure leaves a
state behind too. A missing loop condition stands for the literal `true`, which succeeds. -/
structure Meaning (ε σ : Type) where
  effect : Stmt → EStateM ε σ Unit
  test : Expr → EStateM ε σ Bool
  test_true : test (.lit (.ofBool true)) = pure true

namespace Exec

variable {ε σ α β : Type}

/-- A step that may fail, as a run. -/
def attempt (x : EStateM ε σ α) : Exec ε σ α := x.adaptExcept .failed

/-- Decides between two runs by a test. -/
def choose (test : Exec ε σ Bool) (yes no : Exec ε σ α) : Exec ε σ α := do
  if ← test then yes else no

/-- At most `n` rounds of a loop. No test is made after the last one. -/
def rounds (test : Exec ε σ Bool) (body : Exec ε σ Unit) : (n : Nat) → Exec ε σ Unit
  | 0 => pure ()
  | n + 1 => choose test (do body; rounds test body n) (pure ())

@[simp] theorem attempt_pure (a : α) : attempt (pure a : EStateM ε σ α) = pure a := rfl

@[simp] theorem choose_pure_true (yes no : Exec ε σ α) : choose (pure true) yes no = yes := rfl

/-- What follows a choice follows both of its sides. -/
theorem choose_bind (test : Exec ε σ Bool) (yes no : Exec ε σ α) (f : α → Exec ε σ β) :
    choose test yes no >>= f = choose test (yes >>= f) (no >>= f) := by
  unfold choose
  rw [bind_assoc]
  refine bind_congr fun b => ?_
  cases b <;> rfl

theorem choose_and (a b : Exec ε σ Bool) (yes no : Exec ε σ α) :
    choose (choose a b (pure false)) yes no = choose a (choose b yes no) no := by
  exact choose_bind a b (pure false) fun x => if x then yes else no

theorem choose_or (a b : Exec ε σ Bool) (yes no : Exec ε σ α) :
    choose (choose a (pure true) b) yes no = choose a yes (choose b yes no) := by
  exact choose_bind a (pure true) b fun x => if x then yes else no

/-- Nothing follows a run that is left. -/
@[simp] theorem throw_bind (e : Exit ε) (f : α → Exec ε σ β) :
    (throw e : Exec ε σ α) >>= f = throw e := rfl

end Exec

namespace Meaning

variable {ε σ : Type} (M : Meaning ε σ) (bound : Nat)

/-- The outcome of a condition. -/
def holds : Expr → Exec ε σ Bool
  | .binary .and x y => Exec.choose (holds x) (holds y) (pure false)
  | .binary .or x y => Exec.choose (holds x) (pure true) (holds y)
  | .paren x => if x.isCompound then holds x else Exec.attempt (M.test (.paren x))
  | x => Exec.attempt (M.test x)

/-- The outcome of a loop's condition; a missing one is true. -/
def loopHolds : Option Expr → Exec ε σ Bool
  | none => pure true
  | some c => M.holds c

mutual
/-- The run of a statement, where loops go at most `bound` rounds. -/
def exec : Stmt → Exec ε σ Unit
  | .block list => execList list
  | .branch c yes no => Exec.choose (M.holds c) (execArm yes) (execArm no)
  | .whileLoop c body => Exec.rounds (M.holds c) (execArm body) bound
  | .forLoop init c step body => do
    execArm init
    Exec.rounds (M.loopHolds c)
      (do execArm body; step.forM fun x => Exec.attempt (M.effect (.expr x))) bound
  | .ret v => throw (.returned v)
  | .throw v => throw (.thrown v)
  | .expr x => Exec.attempt (M.effect (.expr x))
  | .decl n t v => Exec.attempt (M.effect (.decl n t v))

/-- The run of an arm; a missing one does nothing. -/
def execArm : Option Stmt → Exec ε σ Unit
  | none => pure ()
  | some s => exec s

/-- The run of a list, one statement after the other. -/
def execList : List Stmt → Exec ε σ Unit
  | [] => pure ()
  | s :: rest => do exec s; execList rest
end

/-! ## Lists and arms -/

@[simp] theorem execList_nil : M.execList bound [] = pure () := rfl

@[simp] theorem execList_cons (s : Stmt) (rest : List Stmt) :
    M.execList bound (s :: rest) = (do M.exec bound s; M.execList bound rest) := rfl

theorem execList_append (l l' : List Stmt) :
    M.execList bound (l ++ l') = (do M.execList bound l; M.execList bound l') := by
  induction l with
  | nil => simp
  | cons s l ih => simp [ih]

theorem execList_singleton (s : Stmt) : M.execList bound [s] = M.exec bound s := by
  simp

theorem execList_statements (arm : Option Stmt) :
    M.execList bound (Stmt.statements arm) = M.execArm bound arm := by
  cases arm with
  | none => rfl
  | some s =>
    cases s with
    | block list => rfl
    | _ => exact M.execList_singleton bound _

theorem execList_map_expr (xs : List Expr) :
    M.execList bound (xs.map .expr) = xs.forM fun x => Exec.attempt (M.effect (.expr x)) := by
  induction xs with
  | nil => rfl
  | cons x xs ih =>
    rw [List.map_cons, execList_cons, ih]
    rfl

mutual
theorem execList_spliced (s : Stmt) : M.execList bound (Stmt.spliced s) = M.exec bound s := by
  cases s with
  | block inner => exact execList_flatten inner
  | _ => exact M.execList_singleton bound _

/-- Splicing nested blocks keeps the run of a list. -/
theorem execList_flatten (l : List Stmt) :
    M.execList bound (Stmt.flatten l) = M.execList bound l := by
  cases l with
  | nil => rfl
  | cons s rest =>
    rw [Stmt.flatten, execList_append, execList_spliced s, execList_flatten rest, execList_cons]
end

/-! ## Loops -/

/-- An unrolled loop runs as the loop does, with one round at least. -/
theorem exec_unroll (c : Expr) (body : List Stmt) (n : Nat) :
    M.exec bound (Stmt.unroll c body n) =
      Exec.rounds (M.holds c) (M.execList bound body) (max n 1) := by
  fun_induction Stmt.unroll c body n with
  | case1 n ih =>
    have h1 : max (n + 1) 1 = n + 1 := by omega
    have h2 : max (n + 2) 1 = n + 1 + 1 := by omega
    rw [h1] at ih
    rw [h2]
    simp only [exec, execArm, execList_append, execList_singleton, ih]
    rfl
  | case2 n h =>
    have hn : n < 2 := Nat.lt_of_not_le fun hn => h (n - 2) (by omega)
    have h1 : max n 1 = 1 := by omega
    simp [h1, exec, execArm, Exec.rounds]

theorem holds_loopCond (c : Option Expr) : M.holds (Stmt.loopCond c) = M.loopHolds c := by
  cases c with
  | none => simp [Stmt.loopCond, loopHolds, holds, M.test_true]
  | some c => rfl

theorem execList_loopInit {init : Option Stmt} {first : List Stmt}
    (h : Stmt.loopInit init = .ok first) : M.execList bound first = M.execArm bound init := by
  cases init with
  | none =>
    cases h
    rfl
  | some s =>
    simp only [Stmt.loopInit] at h
    split at h
    · cases h
      exact M.execList_singleton bound s
    · cases h

mutual
theorem execList_expandOne (hb : 1 ≤ bound) (s : Stmt) {out : List Stmt}
    (h : Stmt.expandOne bound s = .ok out) : M.execList bound out = M.exec bound s := by
  have hmax : max bound 1 = bound := by omega
  rcases Stmt.expandOne_cases h with ⟨l, rfl, hl⟩ | ⟨c, body, rfl, rfl⟩ |
    ⟨init, c, step, body, first, rfl, -, hi, rfl⟩ | ⟨-, rfl⟩
  · rw [execList_expand hb l hl, exec]
  · rw [execList_singleton, exec_unroll, hmax, execList_statements, exec]
  · rw [execList_append, execList_singleton, exec_unroll, hmax, execList_append,
      execList_statements, execList_map_expr, execList_loopInit M bound hi, holds_loopCond, exec]
  · exact M.execList_singleton bound s

/-- Splicing blocks and unrolling loops keeps the run of a list. -/
theorem execList_expand (hb : 1 ≤ bound) (l : List Stmt) {out : List Stmt}
    (h : Stmt.expand bound l = .ok out) : M.execList bound out = M.execList bound l := by
  cases l with
  | nil =>
    simp only [Stmt.expand] at h
    cases h
    rfl
  | cons s rest =>
    obtain ⟨first, more, h1, h2, rfl⟩ := Stmt.expand_cons h
    rw [execList_append, execList_expandOne hb s h1, execList_expand hb rest h2, execList_cons]
end

/-! ## Tails -/

/-- Nothing that follows a list whose last statement leaves the function is run. -/
theorem execList_bind_of_endsTerminal {l : List Stmt} (h : Stmt.endsTerminal l)
    (k : Unit → Exec ε σ Unit) : M.execList bound l >>= k = M.execList bound l := by
  obtain ⟨s, hs, ht⟩ : ∃ s, l.getLast? = some s ∧ s.isTerminal := by
    simpa [Stmt.endsTerminal, Option.any_eq_true] using h
  obtain ⟨init, rfl⟩ := List.getLast?_eq_some_iff.mp hs
  rw [execList_append, execList_singleton, bind_assoc]
  cases s <;> simp_all [Stmt.isTerminal, exec]

theorem execList_withTail (arm tail : List Stmt) :
    M.execList bound (Stmt.withTail arm tail) =
      (do M.execList bound arm; M.execList bound tail) := by
  unfold Stmt.withTail
  split
  · next h => exact (M.execList_bind_of_endsTerminal bound h _).symm
  · exact M.execList_append bound arm tail

/-- A branch with a tail in its arms runs as the branch and then the tail. -/
theorem exec_mergeTail (c : Expr) (yes no : Option Stmt) (tail : List Stmt) :
    M.exec bound (Stmt.mergeTail c yes no tail) =
      (do M.exec bound (.branch c yes no); M.execList bound tail) := by
  have hempty : ∀ l : List Stmt,
      M.execArm bound (if l.isEmpty then none else some (.block l)) = M.execList bound l := by
    intro l
    cases l <;> rfl
  simp only [Stmt.mergeTail, exec, Exec.choose_bind, execArm, hempty, execList_withTail,
    execList_flatten, execList_statements]
  congr 1
  cases no with
  | none => simp [execArm]
  | some s => simp [execList_withTail, execList_flatten, execList_statements, execArm]

theorem execList_joinTails {l out : List Stmt} (h : Stmt.joinTails l = .ok out) :
    M.execList bound out = M.execList bound l := by
  induction l generalizing out with
  | nil =>
    simp only [Stmt.joinTails] at h
    cases h
    rfl
  | cons s rest ih =>
    obtain ⟨more, hr, ⟨-, rfl⟩ | ⟨-, -, rfl⟩ | ⟨c, yes, no, rfl, rfl⟩⟩ := Stmt.joinTails_cons h
    · rw [execList_cons, execList_cons, ih hr]
    · rw [execList_cons, execList_cons, ih hr]
    · rw [execList_singleton, exec_mergeTail, execList_cons, ih hr]

theorem execList_mergeLast (l : List Stmt) :
    M.execList bound (Stmt.mergeLast l) = M.execList bound l := by
  fun_induction Stmt.mergeLast l with
  | case1 => rfl
  | case2 c yes no tail h => rw [List.isEmpty_iff.mp h]
  | case3 c yes no tail h => rw [execList_singleton, exec_mergeTail, execList_cons]
  | case4 s rest _ h ih => rw [execList_cons, execList_cons, ih]
  | case5 s rest _ h => rfl

/-- The canonical form of a list runs as the list does. -/
theorem execList_canonicalize (hb : 1 ≤ bound) {l out : List Stmt}
    (h : Stmt.canonicalize bound l = .ok out) : M.execList bound out = M.execList bound l := by
  obtain ⟨flat, joined, he, hj, rfl⟩ := Stmt.canonicalize_eq_ok h
  rw [execList_mergeLast, execList_joinTails M bound hj, execList_expand M bound hb l he]

/-! ## Conditions -/

/-- A branch on a split condition runs as the branch does. -/
theorem exec_splitCond (c : Expr) (yes no : Option Stmt) :
    M.exec bound (.branch (Stmt.splitCond c yes no).1 (Stmt.splitCond c yes no).2.1
        (Stmt.splitCond c yes no).2.2) = M.exec bound (.branch c yes no) := by
  fun_induction Stmt.splitCond c yes no with
  | case1 yes no x y ih =>
    rw [ih]
    simp only [exec, holds, Exec.choose_and, execArm, execList_singleton]
  | case2 yes no x y ih =>
    rw [ih]
    simp only [exec, holds, Exec.choose_or, execArm, execList_singleton]
  | case3 yes no x h ih =>
    rw [ih]
    simp only [exec, holds, h, if_true]
  | case4 yes no x h => rfl
  | case5 x yes no h1 h2 h3 => rfl

theorem execList_armStmts {arm : Option Stmt} {stmts : List Stmt}
    (h : Shape.armStmts arm = some stmts) : M.execList bound stmts = M.execArm bound arm := by
  cases arm with
  | none => simp [Shape.armStmts] at h
  | some s =>
    simp only [Shape.armStmts, Option.some.injEq] at h
    rw [← h, execList_flatten, execList_statements]

end Meaning

/-! ## Walks -/

/-- What is laid out for a list runs as the list does. -/
theorem Laid.execList_body {ε σ : Type} (M : Meaning ε σ) {bound : Nat} (hb : 1 ≤ bound)
    {all : Bool} {l : List Stmt} {m : Memory} {r : Record} (h : Laid bound all l m r) :
    M.execList bound r.body = M.execList bound l := by
  induction h with
  | straight hc hs hm => exact M.execList_canonicalize bound hb hc
  | @branch l before c test yes no m m' answer sub hc _ _ _ habsent hkept _ ih =>
    -- The run of an arm as it was laid out is the run of the arm of the split branch.
    have harm : ∀ b, M.execArm bound ((Shape.arms c yes no b).map fun _ => .block (sub b).body) =
        M.execArm bound (if b then (Stmt.splitCond c yes no).2.1
          else (Stmt.splitCond c yes no).2.2) := by
      intro b
      cases ha : Shape.arms c yes no b with
      | none =>
        unfold Shape.arms Shape.armStmts at ha
        split at ha
        · next he => rw [he]; rfl
        · cases ha
      | some stmts =>
        rw [← M.execList_armStmts bound ha]
        simp only [Option.map_some, Meaning.execArm, Meaning.exec]
        cases hv : (answer b).sat || all with
        | false => rw [hkept b stmts ha hv, Record.body]
        | true => exact ih b stmts ha hv
    have hy := harm true
    have hn := harm false
    simp only [if_true, Bool.false_eq_true, if_false] at hy hn
    rw [← M.execList_canonicalize bound hb hc, Record.body, M.execList_append, M.execList_append,
      M.execList_singleton, M.execList_singleton, ← M.exec_splitCond bound c yes no]
    simp only [Meaning.exec, hy, hn]

theorem Exploration.one_le_bound (e : Exploration) : 1 ≤ e.bound := by
  unfold Exploration.bound
  omega

/-- The paths of a function keep its meaning : from every state, a run of the body with its paths
laid out and a run of the body itself fall through, return or throw the same expression, or fail
alike, and end in the same state. Loops go as many rounds as they are unrolled to. -/
theorem Function.execList_paths_body {τ ε σ : Type} {fn : Function} {solver : Solver τ}
    {e : Exploration} {s s' : Session τ} {p : Paths}
    (h : Walk.Gives (fn.paths solver e) s p s') (M : Meaning ε σ) (st : σ) :
    M.execList e.bound p.body st = M.execList e.bound fn.body st := by
  obtain ⟨r, hr, rfl⟩ := Function.gives_paths.mp h
  exact congrFun ((Function.laid hr).execList_body M e.one_le_bound) st

theorem Function.execList_paths_body_countdown :
    ∃ p s', Walk.Gives (countdown.paths (σ := Unit) (.always ⟨true, some []⟩) {})
        ⟨.unlimited, (), #[]⟩ p s' ∧
      ∀ (M : Meaning String Int) (st : Int),
        M.execList 2 p.body st = M.execList 2 countdown.body st := by
  obtain ⟨p, s', h⟩ := Walk.exists_gives
    (x := countdown.paths (σ := Unit) (.always ⟨true, some []⟩) {})
    (s := ⟨.unlimited, (), #[]⟩) (by with_unfolding_all decide)
  exact ⟨p, s', h, fun M st => Function.execList_paths_body h M st⟩

end PathTree
