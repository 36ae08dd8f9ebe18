import PathTree.Proofs.Record

/-!
# The arms of laid out paths

An arm is named by the outcomes of the tests that lead to it. `Stmt.armAt` is the list that stands
in an arm, and `Stmt.pathTo` are the conditions of an arm : one for each test on the way, resolved
in the memory at its branch, and negated where the test fails. Different arms have different
conditions (`pathTo_injective`).

The visits of a walk are to arms of what it lays out, and the path of a visit is that of its arm
(`Laid.pathTo_visit`). If unreachable arms are entered too, every arm is visited once, in the order
of `Stmt.armsOf` (`Laid.map_arm_visits`).
-/

namespace PathTree

/-- A test and its negation are different. -/
theorem Expr.side_injective {test : Expr} {b b' : Bool} (h : test.side b = test.side b') :
    b = b' := by
  have hne : test ≠ test.negate := by
    intro h
    have := congrArg sizeOf h
    cases test <;> simp [negate] at this <;> omega
  cases b <;> cases b'
  · rfl
  · exact absurd h.symm hne
  · exact absurd h hne
  · rfl

namespace Stmt

/-! ## Arms by name -/

/-- The simple statements in front of the first structural one, if that is a branch, with its
condition and its arms. -/
def fork? (l : List Stmt) : Option (List Stmt × Expr × (Bool → Option Stmt)) :=
  match l.dropWhile isSimple with
  | .branch c yes no :: _ => some (l.takeWhile isSimple, c, fun b => if b then yes else no)
  | _ => none

/-- The list that stands in an arm, if there is such an arm and it is not missing. -/
def armAt : List Bool → List Stmt → Option (List Stmt)
  | [], l => some l
  | b :: arm, l => do
    let (_, _, arms) ← fork? l
    let s ← arms b
    armAt arm (statements (some s))

/-- The conditions of an arm in terms of the parameters. -/
def pathTo (m : Memory) : List Bool → List Stmt → Option (List Expr)
  | [], _ => some []
  | b :: arm, l => do
    let (before, c, arms) ← fork? l
    let m ← (m.executeAll before).toOption
    let test ← (m.resolve c).toOption
    let below ← pathTo m arm (statements (arms b))
    some (test.side b :: below)

mutual
/-- The arms of a statement, each before those inside it, and the first arm of a branch before the
second. A loop counts as what stands in it. -/
def armsIn : Stmt → List (List Bool)
  | .block l => armsOf l
  | .branch _ yes no =>
    [true] :: (armsUnder yes).map (true :: ·) ++ [false] :: (armsUnder no).map (false :: ·)
  | .whileLoop _ body => armsUnder body
  | .forLoop init _ _ body => armsUnder init ++ armsUnder body
  | .ret _ => []
  | .throw _ => []
  | .expr _ => []
  | .decl .. => []

/-- The arms inside an arm. -/
def armsUnder : Option Stmt → List (List Bool)
  | none => []
  | some s => armsIn s

/-- The arms of a list. -/
def armsOf : List Stmt → List (List Bool)
  | [] => []
  | s :: rest => armsIn s ++ armsOf rest
end

/-- Whether a statement is a branch. -/
def isBranch : Stmt → Bool
  | .branch .. => true
  | _ => false

mutual
theorem length_armsIn (s : Stmt) :
    (armsIn s).length = 2 * (walk (fun _ => true) s).countP isBranch := by
  cases s with
  | block l => simp [armsIn, walk, isBranch, length_armsOf l]
  | branch c yes no =>
    have hc : (branch c yes no).isBranch := rfl
    rw [armsIn, walk, if_pos rfl, List.countP_cons_of_pos hc, List.countP_append]
    simp only [List.length_append, List.length_cons, List.length_map, length_armsUnder yes,
      length_armsUnder no]
    omega
  | whileLoop c body => simp [armsIn, walk, isBranch, length_armsUnder body]
  | forLoop init c step body =>
    simp [armsIn, walk, isBranch, length_armsUnder init, length_armsUnder body, Nat.mul_add]
  | _ => simp [armsIn, walk, isBranch]

theorem length_armsUnder (arm : Option Stmt) :
    (armsUnder arm).length = 2 * (walkArm (fun _ => true) arm).countP isBranch := by
  cases arm with
  | none => simp [armsUnder, walkArm]
  | some s => simp [armsUnder, walkArm, length_armsIn s]

/-- Every branch has two arms. -/
theorem length_armsOf (l : List Stmt) :
    (armsOf l).length = 2 * (walkList (fun _ => true) l).countP isBranch := by
  cases l with
  | nil => simp [armsOf, walkList]
  | cons s rest =>
    simp [armsOf, walkList, length_armsIn s, length_armsOf rest, Nat.mul_add]
end

/-! ## Lists with a branch at the end -/

section Fork

variable {before : List Stmt} (hb : ∀ t ∈ before, t.isSimple) (c : Expr) (yes no : Option Stmt)

include hb

theorem takeWhile_append_branch : (before ++ [branch c yes no]).takeWhile isSimple = before := by
  rw [List.takeWhile_append_of_pos hb]
  simp [isSimple]

theorem dropWhile_append_branch :
    (before ++ [branch c yes no]).dropWhile isSimple = [.branch c yes no] := by
  rw [List.dropWhile_append_of_pos hb]
  simp [isSimple]

theorem fork?_append : fork? (before ++ [.branch c yes no]) =
    some (before, c, fun b => if b then yes else no) := by
  rw [fork?, takeWhile_append_branch hb, dropWhile_append_branch hb]

theorem armAt_append (b : Bool) (arm : List Bool) :
    armAt (b :: arm) (before ++ [.branch c yes no]) =
      (if b then yes else no).bind fun s => armAt arm (statements (some s)) := by
  rw [armAt, fork?_append hb]
  rfl

theorem pathTo_append {m m' : Memory} {test : Expr} (hm : m.executeAll before = .ok m')
    (ht : m'.resolve c = .ok test) (b : Bool) (arm : List Bool) :
    pathTo m (b :: arm) (before ++ [.branch c yes no]) =
      (pathTo m' arm (statements (if b then yes else no))).map (test.side b :: ·) := by
  rw [pathTo, fork?_append hb]
  simp only [Option.bind_eq_bind, Option.bind_some, hm, ht, Except.toOption]
  cases pathTo m' arm (statements (if b then yes else no)) <;> rfl

end Fork

@[simp] theorem armsOf_append (l l' : List Stmt) : armsOf (l ++ l') = armsOf l ++ armsOf l' := by
  induction l with
  | nil => rfl
  | cons s l ih => rw [List.cons_append, armsOf, ih, armsOf, List.append_assoc]

theorem armsOf_of_isSimple {l : List Stmt} (h : ∀ s ∈ l, s.isSimple) : armsOf l = [] := by
  induction l with
  | nil => rfl
  | cons s l ih =>
    have hs : armsIn s = [] := by
      have : s.isSimple := h s (by simp)
      cases s <;> simp_all [isSimple, armsIn]
    rw [armsOf, hs, ih fun t ht => h t (List.mem_cons_of_mem _ ht)]
    rfl

theorem armsOf_of_straight {l : List Stmt} (h : Straight l) : armsOf l = [] := by
  rcases h with h | @⟨before, after, s, hb, hs, ha⟩
  · exact armsOf_of_isSimple h
  · have : armsIn s = [] := by cases s <;> simp_all [isTerminal, armsIn]
    rw [armsOf_append, armsOf, this, armsOf_of_isSimple hb, armsOf_of_isSimple ha]
    rfl

/-- Different arms have different conditions. -/
theorem pathTo_injective {arm arm' : List Bool} {m : Memory} {l : List Stmt} {path : List Expr}
    (h : pathTo m arm l = some path) (h' : pathTo m arm' l = some path) : arm = arm' := by
  induction arm generalizing arm' m l path with
  | nil =>
    cases h
    cases arm' with
    | nil => rfl
    | cons b arm' => simp [pathTo, Option.bind_eq_some_iff] at h'
  | cons b arm ih =>
    simp only [pathTo, Option.bind_eq_bind, Option.bind_eq_some_iff] at h
    obtain ⟨⟨before, c, arms⟩, hfork, m₁, hm, test, ht, below, hbelow, h⟩ := h
    cases h
    cases arm' with
    | nil => simp [pathTo] at h'
    | cons b' arm' =>
      simp only [pathTo, hfork, hm, ht, Option.bind_eq_bind, Option.bind_some,
        Option.bind_eq_some_iff] at h'
      obtain ⟨below', hbelow', h'⟩ := h'
      simp only [Option.some.injEq, List.cons.injEq] at h'
      obtain ⟨hside, rfl⟩ := h'
      obtain rfl := Expr.side_injective hside
      rw [ih hbelow hbelow']

end Stmt

/-! ## Visits -/

namespace Laid

section Arms

variable {all : Bool} {arms : Bool → Option (List Stmt)} {answer : Bool → Answer}
  {sub : Bool → Record} {b : Bool}

/-- An arm with visits below it was entered. -/
theorem exists_entered (habsent : ∀ b, arms b = none → sub b = .absent)
    (hkept : ∀ b stmts, arms b = some stmts → ((answer b).sat || all) = false →
      sub b = .kept stmts) {v : Visit} (hv : v ∈ (sub b).visits) :
    ∃ stmts, arms b = some stmts ∧ ((answer b).sat || all) = true := by
  cases ha : arms b with
  | none => simp [habsent b ha, Record.visits] at hv
  | some stmts =>
    cases hs : (answer b).sat || all with
    | false => simp [hkept b stmts ha hs, Record.visits] at hv
    | true => exact ⟨stmts, rfl, rfl⟩

/-- What is laid out for an arm that is not missing. -/
theorem arm_body {stmts : List Stmt} (h : arms b = some stmts) :
    (if b then (arms true).map fun _ => Stmt.block (sub true).body
      else (arms false).map fun _ => .block (sub false).body) = some (.block (sub b).body) := by
  cases b <;> simp [h]

end Arms

variable {bound : Nat} {all : Bool} {l : List Stmt} {m : Memory} {r : Record}

/-- The path of a visit is that of its arm. -/
theorem pathTo_visit (h : Laid bound all l m r) {v : Visit} (hv : v ∈ r.visits) :
    Stmt.pathTo m v.arm r.body = some v.path := by
  induction h generalizing v with
  | straight => simp [Record.visits] at hv
  | @branch l before c test yes no m m' answer sub hc hb hm ht habsent hkept hentered ih =>
    obtain ⟨b, rfl | ⟨u, hu, rfl⟩⟩ := Record.mem_visits_branch.mp hv
    · rw [Record.body, Stmt.pathTo_append hb _ _ _ hm ht]
      rfl
    · obtain ⟨stmts, hs, hsat⟩ := exists_entered habsent hkept hu
      rw [Record.body, Visit.after, List.singleton_append, Stmt.pathTo_append hb _ _ _ hm ht,
        arm_body hs, Stmt.statements, ih b stmts hs hsat hu]
      rfl

/-- If unreachable arms are entered too, each arm is visited once, in order. -/
theorem map_arm_visits (h : Laid bound true l m r) :
    r.visits.map (·.arm) = Stmt.armsOf r.body := by
  induction h with
  | straight hc hs hm => simp [Record.visits, Record.body, Stmt.armsOf_of_straight hs]
  | @branch l before c test yes no m m' answer sub hc hb hm ht habsent hkept hentered ih =>
    have harm : ∀ b, (sub b).visits.map (·.arm) =
        Stmt.armsUnder ((Shape.arms c yes no b).map fun _ => .block (sub b).body) := by
      intro b
      cases hs : Shape.arms c yes no b with
      | none => simp [habsent b hs, Record.visits, Stmt.armsUnder]
      | some stmts =>
        rw [ih b stmts hs (by simp)]
        rfl
    rw [Record.body, Stmt.armsOf_append, Stmt.armsOf_of_isSimple hb, Stmt.armsOf, Stmt.armsIn,
      ← harm true, ← harm false]
    simp [Record.visits, Visit.after, Stmt.armsOf, Function.comp_def]

end Laid

end PathTree
