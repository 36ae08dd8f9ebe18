import PathTree.Solver.Env

/-!
# What conditions depend on

A condition reads the names in it that stand outside calls and member accesses (`Expr.Reads`), and
takes calls and member accesses as unknowns, named by their text. `Env.bind_mono` : an environment
that knows more gives the same value. `Env.bind_congr` : without unknowns, only the names that are
read matter. `Env.holds_eq_true_iff` and `Assignment.check_eq_true_iff` are the one way in which
conditions hold, namely each has the value `true`.
-/

namespace PathTree

/-! ## Reading names -/

namespace Expr

/-- Calls and member accesses. -/
def isUnknown : Expr → Bool
  | .call .. | .member .. => true
  | _ => false

/-- A name stands in an expression, outside calls and member accesses. -/
def Reads (x : Expr) (name : String) : Prop :=
  .ident name ∈ x.walk fun y => !y.isUnknown

/-- No call and no member access stands in an expression. -/
def NoUnknowns (x : Expr) : Prop :=
  ∀ y ∈ x.walk fun _ => true, y.isUnknown = false

/-- The names that an expression reads, by its form. -/
theorem reads_iff (x : Expr) (name : String) : x.Reads name ↔
    match x with
    | .lit _ | .call .. | .member .. => False
    | .ident n => name = n
    | .binary _ x y => x.Reads name ∨ y.Reads name
    | .pre _ x | .post _ x | .paren x | .cast _ x | .assign _ _ x => x.Reads name := by
  cases x <;> simp [Reads, walk, isUnknown]

/-- The walk through all nodes, by the form of the root. -/
theorem walk_all (x : Expr) : (x.walk fun _ => true) = x ::
    match x with
    | .lit _ | .ident _ => []
    | .binary _ x y => (x.walk fun _ => true) ++ y.walk fun _ => true
    | .call f args => (f.walk fun _ => true) ++ walkList (fun _ => true) args
    | .pre _ x | .post _ x | .paren x | .cast _ x | .member x _ | .assign _ _ x =>
      x.walk fun _ => true := by
  cases x <;> rfl

/-- Whether an expression has calls or member accesses in it, by its form. -/
theorem noUnknowns_iff (x : Expr) : x.NoUnknowns ↔
    match x with
    | .lit _ | .ident _ => True
    | .call .. | .member .. => False
    | .binary _ x y => x.NoUnknowns ∧ y.NoUnknowns
    | .pre _ x | .post _ x | .paren x | .cast _ x | .assign _ _ x => x.NoUnknowns := by
  unfold NoUnknowns
  rw [walk_all]
  cases x <;> simp [isUnknown, or_imp, forall_and]

@[simp] theorem reads_ident {n name : String} : (Expr.ident n).Reads name ↔ name = n :=
  reads_iff _ name

@[simp] theorem reads_paren {x : Expr} {name : String} : (paren x).Reads name ↔ x.Reads name :=
  reads_iff _ name

@[simp] theorem reads_cast {t : String} {x : Expr} {name : String} :
    (cast t x).Reads name ↔ x.Reads name :=
  reads_iff _ name

@[simp] theorem reads_pre {op : UnaryOp} {x : Expr} {name : String} :
    (pre op x).Reads name ↔ x.Reads name :=
  reads_iff _ name

@[simp] theorem reads_binary {op : BinaryOp} {x y : Expr} {name : String} :
    (binary op x y).Reads name ↔ x.Reads name ∨ y.Reads name :=
  reads_iff _ name

@[simp] theorem noUnknowns_lit (l : Literal) : (lit l).NoUnknowns :=
  (noUnknowns_iff _).mpr trivial

@[simp] theorem noUnknowns_ident (n : String) : (ident n).NoUnknowns :=
  (noUnknowns_iff _).mpr trivial

@[simp] theorem noUnknowns_paren {x : Expr} : (paren x).NoUnknowns ↔ x.NoUnknowns :=
  noUnknowns_iff _

@[simp] theorem noUnknowns_cast {t : String} {x : Expr} :
    (cast t x).NoUnknowns ↔ x.NoUnknowns :=
  noUnknowns_iff _

@[simp] theorem noUnknowns_pre {op : UnaryOp} {x : Expr} :
    (pre op x).NoUnknowns ↔ x.NoUnknowns :=
  noUnknowns_iff _

@[simp] theorem noUnknowns_binary {op : BinaryOp} {x y : Expr} :
    (binary op x y).NoUnknowns ↔ x.NoUnknowns ∧ y.NoUnknowns :=
  noUnknowns_iff _

theorem not_noUnknowns {x : Expr} (h : x.isUnknown) : ¬x.NoUnknowns := by
  rw [noUnknowns_iff]
  cases x <;> simp_all [isUnknown]

end Expr

/-! ## Binding -/

namespace Env

variable {env env' : Env}

theorem value_eq_ok {key : String} {x : Expr} :
    env.value key = .ok x ↔ ∃ l, env.get? key = some l ∧ x = .lit l := by
  unfold value
  split
  · next l h => simp [h, eq_comm]
  · next h => simp [h]

/-- An environment that knows more binds what the other one does. -/
theorem bind_mono (h : ∀ key l, env.get? key = some l → env'.get? key = some l) (x : Expr)
    {y : Expr} (hx : env.bind x = .ok y) : env'.bind x = .ok y := by
  have hvalue : ∀ {key y}, env.value key = .ok y → env'.value key = .ok y := by
    intro key y hk
    obtain ⟨l, hl, rfl⟩ := value_eq_ok.mp hk
    exact value_eq_ok.mpr ⟨l, h key l hl, rfl⟩
  fun_induction Env.bind env x generalizing y with
  | case1 l => exact hx
  | case2 name => exact hvalue hx
  | case3 f args => exact hvalue hx
  | case4 x s => exact hvalue hx
  | case5 x ih => exact ih hx
  | case6 t x ih => exact ih hx
  | case7 op x ih =>
    obtain ⟨u, hu, hy⟩ := bind_eq_ok.mp hx
    exact bind_eq_ok.mpr ⟨u, ih hu, hy⟩
  | case8 op x y ihx ihy =>
    obtain ⟨u, hu, hx⟩ := bind_eq_ok.mp hx
    obtain ⟨v, hv, hy⟩ := bind_eq_ok.mp hx
    exact bind_eq_ok.mpr ⟨u, ihx hu, bind_eq_ok.mpr ⟨v, ihy hv, hy⟩⟩
  | case9 x => simp at hx

/-- Names that are read have a value, if there is one of the whole. -/
theorem get?_of_reads {x y : Expr} (hx : env.bind x = .ok y) {name : String}
    (h : x.Reads name) : ∃ l, env.get? name = some l := by
  fun_induction Env.bind env x generalizing y with
  | case1 l => exact ((Expr.reads_iff _ name).mp h).elim
  | case2 n =>
    obtain ⟨l, hl, -⟩ := value_eq_ok.mp hx
    exact ⟨l, Expr.reads_ident.mp h ▸ hl⟩
  | case3 f args => exact ((Expr.reads_iff _ name).mp h).elim
  | case4 x s => exact ((Expr.reads_iff _ name).mp h).elim
  | case5 x ih => exact ih hx (Expr.reads_paren.mp h)
  | case6 t x ih => exact ih hx (Expr.reads_cast.mp h)
  | case7 op x ih =>
    obtain ⟨u, hu, -⟩ := bind_eq_ok.mp hx
    exact ih hu (Expr.reads_pre.mp h)
  | case8 op x y ihx ihy =>
    obtain ⟨u, hu, hx⟩ := bind_eq_ok.mp hx
    obtain ⟨v, hv, -⟩ := bind_eq_ok.mp hx
    rcases Expr.reads_binary.mp h with h | h
    · exact ihx hu h
    · exact ihy hv h
  | case9 x => simp at hx

/-- Without unknowns, environments that agree on the names that are read bind alike. -/
theorem bind_congr (x : Expr) (hn : x.NoUnknowns)
    (h : ∀ name, x.Reads name → env.get? name = env'.get? name) : env.bind x = env'.bind x := by
  fun_induction Env.bind env x with
  | case1 l => rfl
  | case2 name => rw [Env.bind, value, value, h name (by simp)]
  | case3 f args => exact absurd hn (Expr.not_noUnknowns rfl)
  | case4 x s => exact absurd hn (Expr.not_noUnknowns rfl)
  | case5 x ih => exact ih (Expr.noUnknowns_paren.mp hn) fun n hr => h n (by simpa using hr)
  | case6 t x ih => exact ih (Expr.noUnknowns_cast.mp hn) fun n hr => h n (by simpa using hr)
  | case7 op x ih =>
    rw [Env.bind, ih (Expr.noUnknowns_pre.mp hn) fun n hr => h n (by simpa using hr)]
  | case8 op x y ihx ihy =>
    obtain ⟨hnx, hny⟩ := Expr.noUnknowns_binary.mp hn
    rw [Env.bind, ihx hnx fun n hr => h n (by simp [hr]), ihy hny fun n hr => h n (by simp [hr])]
  | case9 x h1 h2 h3 h4 h5 h6 h7 h8 =>
    cases x <;> simp_all [Env.bind]

end Env

/-! ## Conditions that hold -/

theorem Env.eval_eq_ok {env : Env} {x : Expr} {v : Value} :
    env.eval x = .ok v ↔ ∃ y, env.bind x = .ok y ∧ y.constant = .ok v :=
  bind_eq_ok

/-- Conditions hold if each of them is true. -/
theorem Env.holds_eq_true_iff {env : Env} {conds : List Expr} :
    env.holds conds = .ok true ↔ ∀ c ∈ conds, env.eval c = .ok (.bool true) := by
  fun_induction Env.holds env conds with
  | case1 => simp
  | case2 c cs h ih => simp [h, ih]
  | case3 c cs v h hv => simp_all
  | case4 c cs f h hf => simp [h]
  | case5 c cs f h hf => simp [h]

theorem Assignment.check_eq_true_iff {env : Env} {conds : List Expr} :
    Assignment.check env conds = .ok true ↔ ∀ c ∈ conds, env.eval c = .ok (.bool true) := by
  fun_induction Assignment.check env conds with
  | case1 => simp
  | case2 c cs h ih => simp [h, ih]
  | case3 c cs h => simp [h]
  | case4 c cs v h1 h2 h => simp_all
  | case5 c cs f h => simp [h]

/-- An environment that knows more makes the same conditions true. -/
theorem Env.holds_mono {env env' : Env}
    (h : ∀ key l, env.get? key = some l → env'.get? key = some l) {conds : List Expr}
    (hc : env.holds conds = .ok true) : env'.holds conds = .ok true := by
  rw [Env.holds_eq_true_iff] at hc ⊢
  intro c hmem
  obtain ⟨y, hy, hv⟩ := Env.eval_eq_ok.mp (hc c hmem)
  exact Env.eval_eq_ok.mpr ⟨y, Env.bind_mono h c hy, hv⟩

end PathTree
