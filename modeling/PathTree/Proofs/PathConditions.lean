import PathTree.Proofs.ArmPaths
import PathTree.Proofs.Conditions
import PathTree.Proofs.Literals

/-!
# Path conditions

A walk asks about a path by its conditions in terms of the parameters. Beside it stands the run of
the laid out paths on a valuation, which gives names exact values (`Valuation.runList`) : tests are
evaluated as they are written, `++` and `--` add or take away one, and a variable without a value
gets the zero value of its type.

`Memory.Agrees` is what the two have in common : the symbolic value of a name, evaluated in the
environment of the parameters, is the value of the name. It holds at the start (`agrees_init`), each
statement keeps it (`Agrees.execute`), and under it a test has the value of its resolved form
(`Agrees.eval_resolve`). So a run enters an arm exactly if the conditions of the arm's query hold
(`Laid.enters_iff`).
-/

namespace PathTree

/-! ## Runs on exact values -/

/-- Exact values of names. -/
abbrev Valuation := String → Option Value

/-- The variable that an expression is, in parentheses or not. -/
def Expr.ident? (x : Expr) : Option String :=
  match x.unparen with
  | .ident name => some name
  | _ => none

/-- The name and the value that a statement assigns, if it assigns one. The value is missing if the
type has no zero value. -/
def Stmt.assigned? : Stmt → Option (String × Option Expr)
  | .decl name type value => some (name, value <|> (zeroValue type).toOption)
  | .expr (.assign op name value) =>
    match op.binary? with
    | some op => some (name, some (.binary op (.ident name) value))
    | none => some (name, some value)
  | .expr (.post op x) => x.ident?.map fun name => (name, some (.post op x))
  | .expr (.pre op x) =>
    if op.isStep then x.ident?.map fun name => (name, some (.pre op x)) else none
  | _ => none

namespace Valuation

/-- The value of a variable after one `++` or `--`; nothing else can be counted up or down. -/
def step (st : Valuation) (op : UnaryOp) (x : Expr) : Option Value := do
  let v ← st (← x.ident?)
  (Value.binary (if op = .dec then .sub else .add) v (.int 1)).toOption

/-- The value of an expression. Both operands of an operator are always evaluated, and conversions
have no effect. -/
def eval (st : Valuation) : Expr → Option Value
  | .lit l => l.value.toOption
  | .ident name => st name
  | .paren x => st.eval x
  | .cast _ x => st.eval x
  | .pre op x =>
    if op.isStep then st.step op x else do (Value.unary op (← st.eval x)).toOption
  | .post op x => if op.isStep then st.step op x else none
  | .binary op x y => do
    let l ← st.eval x
    let r ← st.eval y
    (Value.binary op l r).toOption
  | _ => none

theorem eval_unparen {st : Valuation} (x : Expr) : st.eval x.unparen = st.eval x := by
  fun_induction Expr.unparen x with
  | case1 x ih => exact ih
  | case2 x => rfl

/-- Gives a name a value. -/
def put (st : Valuation) (name : String) (v : Value) : Valuation :=
  fun other => if other = name then some v else st other

/-- The valuation after a statement without branches; there is none if the value that it assigns
cannot be evaluated. -/
def perform (st : Valuation) (s : Stmt) : Option Valuation :=
  match s.assigned? with
  | none => some st
  | some (name, value) => (value.bind st.eval).map (st.put name)

end Valuation

/-- How a run ends : at the end of the statements, at one that leaves the function, at a value that
cannot be evaluated, or at a test without a truth value or a loop. -/
inductive Ending where
  | through (st : Valuation)
  | left
  | failed
  | stuck

/-- Whether a run ends at a value that cannot be evaluated. -/
def Ending.isFailed : Ending → Bool
  | .failed => true
  | _ => false

/-- The course of a run : the outcomes of its tests in order, and its ending. -/
structure Course where
  outcomes : List Bool
  ending : Ending

/-- The course behind a test. -/
def Course.after (b : Bool) (c : Course) : Course := { c with outcomes := b :: c.outcomes }

/-- The course with what is run behind it, if it goes through. -/
def Course.andThen (c : Course) (next : Valuation → Course) : Course :=
  match c.ending with
  | .through st => { next st with outcomes := c.outcomes ++ (next st).outcomes }
  | _ => c

namespace Valuation

mutual
/-- The run of a statement. Loops are not run : laid out paths have none outside the arms that were
left as they stood. -/
def run (st : Valuation) : Stmt → Course
  | .block list => st.runList list
  | .branch c yes no =>
    match st.eval c with
    | some (.bool true) => (st.runArm yes).after true
    | some (.bool false) => (st.runArm no).after false
    | _ => ⟨[], .stuck⟩
  | .whileLoop .. => ⟨[], .stuck⟩
  | .forLoop .. => ⟨[], .stuck⟩
  | .ret _ => ⟨[], .left⟩
  | .throw _ => ⟨[], .left⟩
  | .expr x => ⟨[], (st.perform (.expr x)).elim .failed .through⟩
  | .decl n t v => ⟨[], (st.perform (.decl n t v)).elim .failed .through⟩

/-- The run of an arm; a missing one does nothing. -/
def runArm (st : Valuation) : Option Stmt → Course
  | none => ⟨[], .through st⟩
  | some s => st.run s

/-- The run of a list, one statement after the other. -/
def runList (st : Valuation) : List Stmt → Course
  | [] => ⟨[], .through st⟩
  | s :: rest => (st.run s).andThen fun st => st.runList rest
end

end Valuation

/-- A run enters an arm if its tests go the way that leads there. -/
def Course.Enters (c : Course) (arm : List Bool) : Prop := arm <+: c.outcomes

/-- On the way to the branch of an arm, a run meets a value that cannot be evaluated. -/
def Course.FailsBefore (c : Course) (arm : List Bool) : Prop :=
  c.ending.isFailed ∧ c.outcomes <+: arm ∧ c.outcomes ≠ arm

instance (c : Course) (arm : List Bool) : Decidable (c.FailsBefore arm) :=
  inferInstanceAs (Decidable (_ ∧ _ ∧ _))

/-! ## Values in an environment -/

namespace Env

/-- The value of an expression, if it has one. -/
def eval? (rho : Env) (x : Expr) : Option Value := (rho.eval x).toOption

/-- The values that an environment gives to names. -/
def valuation (rho : Env) : Valuation := fun name => rho.eval? (.ident name)

variable {rho : Env}

theorem eval?_eq_some {x : Expr} {v : Value} : rho.eval? x = some v ↔ rho.eval x = .ok v := by
  unfold eval?
  cases rho.eval x <;> simp [Except.toOption]

theorem eval?_lit (l : Literal) : rho.eval? (.lit l) = l.value.toOption := rfl

theorem eval?_paren (x : Expr) : rho.eval? (.paren x) = rho.eval? x := rfl

theorem eval?_cast (t : String) (x : Expr) : rho.eval? (.cast t x) = rho.eval? x := rfl

theorem eval?_pre (op : UnaryOp) (x : Expr) :
    rho.eval? (.pre op x) = (rho.eval? x).bind fun v => (Value.unary op v).toOption := by
  unfold eval? Env.eval
  rw [Env.bind]
  cases rho.bind x with
  | error f => rfl
  | ok y =>
    change (y.constant >>= Value.unary op).toOption = (y.constant).toOption.bind _
    cases y.constant <;> rfl

theorem eval?_binary (op : BinaryOp) (x y : Expr) :
    rho.eval? (.binary op x y) =
      (rho.eval? x).bind fun l => (rho.eval? y).bind fun r => (Value.binary op l r).toOption := by
  unfold eval? Env.eval
  rw [Env.bind]
  cases rho.bind x with
  | error f => rfl
  | ok x' =>
    cases rho.bind y with
    | error f =>
      change none = (x'.constant).toOption.bind fun _ => none
      cases x'.constant <;> rfl
    | ok y' =>
      change (x'.constant >>= fun l => y'.constant >>= Value.binary op l).toOption =
        (x'.constant).toOption.bind fun l => (y'.constant).toOption.bind _
      cases x'.constant with
      | error f => rfl
      | ok l => cases y'.constant <;> rfl

theorem eval?_negate (x : Expr) :
    rho.eval? x.negate = (rho.eval? x).bind fun v => (Value.unary .not v).toOption := by
  cases x <;> exact eval?_pre _ _

/-- The side of a test in the conditions of a path is true if the test goes this way. -/
theorem eval_side {test : Expr} {b : Bool} :
    rho.eval (test.side b) = .ok (.bool true) ↔ rho.eval? test = some (.bool b) := by
  rw [← eval?_eq_some]
  cases b with
  | true => rfl
  | false =>
    rw [Expr.side, eval?_negate]
    cases rho.eval? test with
    | none => simp
    | some v => cases v <;> simp [Value.unary, Except.toOption]

theorem holds_cons {c : Expr} {cs : List Expr} :
    rho.holds (c :: cs) = .ok true ↔ rho.eval c = .ok (.bool true) ∧ rho.holds cs = .ok true := by
  simp only [holds_eq_true_iff, List.forall_mem_cons]

/-- A closed expression has the same value in all environments. -/
theorem eval?_of_isClosed (x : Expr) (h : x.isClosed) : rho.eval? x = x.constant.toOption := by
  cases x with
  | lit l => rfl
  | paren x => exact eval?_of_isClosed x h
  | pre op x =>
    rw [eval?_pre, eval?_of_isClosed x h]
    change _ = (x.constant >>= Value.unary op).toOption
    cases x.constant <;> rfl
  | binary op x y =>
    obtain ⟨hx, hy⟩ := Bool.and_eq_true_iff.mp h
    rw [eval?_binary, eval?_of_isClosed x hx, eval?_of_isClosed y hy]
    change _ = (x.constant >>= fun l => y.constant >>= Value.binary op l).toOption
    cases x.constant with
    | error f => rfl
    | ok l => cases y.constant <;> rfl
  | _ => simp [Expr.isClosed] at h

end Env

/-! ## Symbolic and exact values -/

namespace Memory

/-- The value that is computed in place of an assigned value, if one is. -/
def folded? (m : Memory) (value : Expr) : Option Value :=
  match m.substitute value with
  | .ok x => if m.fold && x.isClosed then x.constant.toOption else none
  | .error _ => none

/-- The values that are computed while statements are performed. -/
def foldedAll (m : Memory) : List Stmt → List Value
  | [] => []
  | s :: rest =>
    let own := (s.assigned?.bind Prod.snd).bind m.folded?
    own.toList ++
      match m.execute s with
      | .ok m' => m'.foldedAll rest
      | .error _ => []

/-- No rational is computed while statements are performed. -/
def NoneFloat (m : Memory) (l : List Stmt) : Prop := ∀ v ∈ m.foldedAll l, v.isFloat = false

instance (m : Memory) (l : List Stmt) : Decidable (m.NoneFloat l) :=
  inferInstanceAs (Decidable (∀ v ∈ m.foldedAll l, v.isFloat = false))

/-- The symbolic value of each name in scope has the value that the name has. -/
def Agrees (m : Memory) (rho : Env) (st : Valuation) : Prop :=
  ∀ name x, m.vars.get? name = some x → rho.eval? x = st name

variable {m m' : Memory} {rho : Env} {st st' : Valuation}

theorem lookup_eq_ok {name : String} {x : Expr} :
    m.lookup name = .ok x ↔ m.vars.get? name = some x := by
  unfold lookup
  split
  · next h => simp [h]
  · next h => simp [h]

/-- What one `++` or `--` in an assigned value is replaced by. -/
theorem step_eq_ok {node x y : Expr} {op : UnaryOp} (h : m.step node op x = .ok y) :
    ((∃ l, x.unparen = .lit l) ∧ y = node) ∨ ∃ name v, x.ident? = some name ∧
      m.vars.get? name = some v ∧ y = .binary (if op = .dec then .sub else .add) v (.int 1) := by
  unfold step at h
  split at h
  · next l hx =>
    cases h
    exact Or.inl ⟨⟨l, hx⟩, rfl⟩
  · next name hx =>
    obtain ⟨v, hv, h⟩ := bind_eq_ok.mp h
    cases h
    exact Or.inr ⟨name, v, by simp [Expr.ident?, hx], lookup_eq_ok.mp hv, rfl⟩
  · cases h

theorem substitute_pre {op : UnaryOp} {x y : Expr} (h : m.substitute (.pre op x) = .ok y) :
    (op.isStep ∧ m.step (.pre op x) op x = .ok y) ∨
      (op.isStep = false ∧ ∃ l, x.unparen = .lit l ∧ y = .pre op (.lit l)) := by
  unfold substitute at h
  split at h
  · exact Or.inl ⟨rfl, h⟩
  · exact Or.inl ⟨rfl, h⟩
  case h_6 => cases h
  all_goals
    next hx =>
      cases h
      exact Or.inr ⟨rfl, _, hx, rfl⟩

/-- A value after `++` or `--` is evaluated as its replacement. -/
theorem Agrees.eval_step (h : m.Agrees rho st) {node x y : Expr} {op : UnaryOp} {v : Value}
    (hy : m.step node op x = .ok y) (hv : st.step op x = some v) : rho.eval? y = some v := by
  rcases step_eq_ok hy with ⟨⟨l, hx⟩, rfl⟩ | ⟨name, w, hx, hw, rfl⟩
  · simp [Valuation.step, Expr.ident?, hx] at hv
  · have h1 : rho.eval? (.int 1) = some (.int 1) := rfl
    rw [Env.eval?_binary, h name w hw, h1]
    simpa [Valuation.step, hx] using hv

/-- A substituted value has the value of the assigned one. Only this direction holds : whatever
operator stands behind a variable is replaced by a sum or a difference, also one without a value. -/
theorem Agrees.eval_substitute (h : m.Agrees rho st) (x : Expr) {y : Expr} {v : Value}
    (hy : m.substitute x = .ok y) (hv : st.eval x = some v) : rho.eval? y = some v := by
  cases x with
  | lit l =>
    cases hy
    exact hv
  | ident name =>
    rw [h name y (lookup_eq_ok.mp hy)]
    exact hv
  | paren x => exact h.eval_substitute x hy hv
  | binary op x z =>
    obtain ⟨l, hl, hy⟩ := bind_eq_ok.mp hy
    obtain ⟨r, hr, hy⟩ := bind_eq_ok.mp hy
    cases hy
    obtain ⟨a, ha, hv⟩ := Option.bind_eq_some_iff.mp hv
    obtain ⟨b, hb, hv⟩ := Option.bind_eq_some_iff.mp hv
    rw [Env.eval?_binary, h.eval_substitute x hl ha, h.eval_substitute z hr hb]
    exact hv
  | pre op x =>
    rcases substitute_pre hy with ⟨hop, hy⟩ | ⟨hop, l, hx, rfl⟩
    · exact h.eval_step hy (by simpa [Valuation.eval, hop] using hv)
    · rw [Env.eval?_pre, Env.eval?_lit]
      simpa [Valuation.eval, hop, ← Valuation.eval_unparen x, hx] using hv
  | post op x =>
    cases hop : op.isStep with
    | true => exact h.eval_step hy (by simpa [Valuation.eval, hop] using hv)
    | false => simp [Valuation.eval, hop] at hv
  | cast type x => cases hy
  | call f args => cases hy
  | member x s => cases hy
  | assign op name value => cases hy

theorem resolve_pre {op : UnaryOp} {x t : Expr} (h : m.resolve (.pre op x) = .ok t) :
    op.isStep = false ∧ ∃ y, m.resolve x = .ok y ∧ t = .pre op y := by
  have hop : op = .not ∨ op = .neg ∨ op = .plus := by
    cases op <;> simp_all [resolve]
  rcases hop with rfl | rfl | rfl
  all_goals
    obtain ⟨y, hy, h⟩ := bind_eq_ok.mp h
    cases h
    exact ⟨rfl, y, hy, rfl⟩

/-- A resolved test is evaluated as the test itself is. -/
theorem Agrees.eval_resolve (h : m.Agrees rho st) (c : Expr) (hc : c.NoUnknowns) {t : Expr}
    (ht : m.resolve c = .ok t) : rho.eval? t = st.eval c := by
  cases c with
  | lit l =>
    cases ht
    rfl
  | ident name => exact h name t (lookup_eq_ok.mp ht)
  | binary op x y =>
    obtain ⟨l, hl, ht⟩ := bind_eq_ok.mp ht
    obtain ⟨r, hr, ht⟩ := bind_eq_ok.mp ht
    cases ht
    obtain ⟨hx, hy⟩ := Expr.noUnknowns_binary.mp hc
    rw [Env.eval?_binary, h.eval_resolve x hx hl, h.eval_resolve y hy hr]
    rfl
  | pre op x =>
    obtain ⟨hop, y, hy, rfl⟩ := resolve_pre ht
    rw [Env.eval?_pre, h.eval_resolve x (Expr.noUnknowns_pre.mp hc) hy]
    simp [Valuation.eval, hop]
  | paren x =>
    obtain ⟨y, hy, ht⟩ := bind_eq_ok.mp ht
    cases ht
    rw [Env.eval?_paren, h.eval_resolve x (Expr.noUnknowns_paren.mp hc) hy]
    rfl
  | cast type x =>
    obtain ⟨y, hy, ht⟩ := bind_eq_ok.mp ht
    cases ht
    rw [Env.eval?_cast, h.eval_resolve x (Expr.noUnknowns_cast.mp hc) hy]
    rfl
  | call f args => exact absurd hc (Expr.not_noUnknowns rfl)
  | member x s => exact absurd hc (Expr.not_noUnknowns rfl)
  | post op x => cases ht
  | assign op name value => cases ht

/-- A test whose resolved form has no unknowns has none itself. -/
theorem noUnknowns_of_resolve (c : Expr) {t : Expr} (ht : m.resolve c = .ok t)
    (hn : t.NoUnknowns) : c.NoUnknowns := by
  cases c with
  | lit l => exact Expr.noUnknowns_lit l
  | ident name => exact Expr.noUnknowns_ident name
  | binary op x y =>
    obtain ⟨l, hl, ht⟩ := bind_eq_ok.mp ht
    obtain ⟨r, hr, ht⟩ := bind_eq_ok.mp ht
    cases ht
    obtain ⟨hx, hy⟩ := Expr.noUnknowns_binary.mp hn
    exact Expr.noUnknowns_binary.mpr ⟨noUnknowns_of_resolve x hl hx, noUnknowns_of_resolve y hr hy⟩
  | pre op x =>
    obtain ⟨-, y, hy, rfl⟩ := resolve_pre ht
    exact Expr.noUnknowns_pre.mpr (noUnknowns_of_resolve x hy (Expr.noUnknowns_pre.mp hn))
  | paren x =>
    obtain ⟨y, hy, ht⟩ := bind_eq_ok.mp ht
    cases ht
    exact Expr.noUnknowns_paren.mpr (noUnknowns_of_resolve x hy (Expr.noUnknowns_paren.mp hn))
  | cast type x =>
    obtain ⟨y, hy, ht⟩ := bind_eq_ok.mp ht
    cases ht
    exact Expr.noUnknowns_cast.mpr (noUnknowns_of_resolve x hy (Expr.noUnknowns_cast.mp hn))
  | call f args =>
    obtain ⟨args', -, ht⟩ := bind_eq_ok.mp ht
    cases ht
    exact absurd hn (Expr.not_noUnknowns rfl)
  | member x s =>
    cases ht
    exact absurd hn (Expr.not_noUnknowns rfl)
  | post op x => cases ht
  | assign op name value => cases ht

/-! ## Statements -/

theorem simplify_eq_ok {x y : Expr} (h : m.simplify x = .ok y) :
    y = x ∨ (m.fold && x.isClosed) = true ∧ ∃ v, x.constant = .ok v ∧ y = .lit v.literal := by
  unfold simplify at h
  split at h
  · next hf =>
    split at h
    · cases h
      exact Or.inl rfl
    · next v _ hv =>
      cases h
      exact Or.inr ⟨hf, v, hv, rfl⟩
    · split at h
      · cases h
      · cases h
        exact Or.inl rfl
  · cases h
    exact Or.inl rfl

/-- Computing a value in place of an expression keeps its value, unless it is a rational. -/
theorem eval_simplify {x y : Expr} (h : m.simplify x = .ok y)
    (hq : (m.fold && x.isClosed) = true → ∀ v, x.constant = .ok v → v.isFloat = false) :
    rho.eval? y = rho.eval? x := by
  rcases simplify_eq_ok h with rfl | ⟨hf, v, hv, rfl⟩
  · rfl
  · have hc : x.isClosed := (Bool.and_eq_true_iff.mp hf).2
    rw [Env.eval?_lit, Value.value_literal (hq hf v hv), Env.eval?_of_isClosed x hc, hv]

/-- What is stored for an assigned value is its substitute, or computed from it. Behind the store a
name has this value, or the one that it had. -/
theorem get?_of_store {name : String} {x : Expr} (hm : m.store name x = .ok m') :
    ∃ y z, m.substitute x = .ok y ∧ m.simplify y = .ok z ∧ ∀ other w,
      m'.vars.get? other = some w →
        other = name ∧ w = z ∨ other ≠ name ∧ m.vars.get? other = some w := by
  obtain ⟨y, hy, hm⟩ := bind_eq_ok.mp hm
  obtain ⟨z, hz, hm⟩ := bind_eq_ok.mp hm
  cases hm
  refine ⟨y, z, hy, hz, fun other w hw => ?_⟩
  rw [Table.get?_put] at hw
  split at hw
  · next ho => exact Or.inl ⟨ho, (Option.some.inj hw).symm⟩
  · next ho => exact Or.inr ⟨ho, hw⟩

/-- What holds of every stored value is kept by a store, if it holds of computed values and of the
substitute of the assigned one. -/
theorem forall_store {good : Expr → Prop} (h : ∀ name x, m.vars.get? name = some x → good x)
    {name : String} {x : Expr} (hm : m.store name x = .ok m')
    (hcomputed : ∀ v : Value, good (.lit v.literal))
    (hx : ∀ y, m.substitute x = .ok y → good y) :
    ∀ name x, m'.vars.get? name = some x → good x := by
  obtain ⟨y, z, hy, hz, hvars⟩ := get?_of_store hm
  intro other w hw
  rcases hvars other w hw with ⟨-, rfl⟩ | ⟨-, hold⟩
  · rcases simplify_eq_ok hz with rfl | ⟨-, v, -, rfl⟩
    · exact hx w hy
    · exact hcomputed v
  · exact h other w hold

/-- Storing a value keeps the agreement. -/
theorem Agrees.store (h : m.Agrees rho st) {name : String} {x : Expr} {v : Value}
    (hm : m.store name x = .ok m') (hv : st.eval x = some v)
    (hq : ∀ w, m.folded? x = some w → w.isFloat = false) : m'.Agrees rho (st.put name v) := by
  obtain ⟨y, z, hy, hz, hvars⟩ := get?_of_store hm
  have hvalue : rho.eval? z = some v := by
    rw [eval_simplify hz, h.eval_substitute x hy hv]
    intro hf w hc
    refine hq w ?_
    simp [folded?, hy, hf, hc, Except.toOption]
  intro other w hw
  rcases hvars other w hw with ⟨rfl, rfl⟩ | ⟨ho, hold⟩
  · simpa [Valuation.put] using hvalue
  · simpa [Valuation.put, ho] using h other w hold

theorem store_of_update {name : String} {x : Expr} (h : m.update name x = .ok m') :
    m.store name x = .ok m' := by
  unfold update at h
  split at h
  · exact h
  · cases h

theorem store_of_increment {node x : Expr} (h : m.increment node x = .ok m') :
    ∃ name, x.ident? = some name ∧ m.store name node = .ok m' := by
  unfold increment at h
  split at h
  · next name hx => exact ⟨name, by simp [Expr.ident?, hx], store_of_update h⟩
  · cases h

theorem store_of_declare {name type : String} {value : Option Expr}
    (h : m.declare name type value = .ok m') :
    ∃ x, (value <|> (zeroValue type).toOption) = some x ∧ m.store name x = .ok m' := by
  unfold declare at h
  cases value with
  | none =>
    obtain ⟨x, hx, h⟩ := bind_eq_ok.mp h
    exact ⟨x, by simp [hx, Except.toOption], h⟩
  | some v => exact ⟨v, rfl, h⟩

/-- An expression statement stores the value that it assigns, if it assigns one. -/
theorem store_of_perform {x : Expr} (h : m.perform x = .ok m') :
    ((Stmt.expr x).assigned? = none ∧ m' = m) ∨
      ∃ name y, (Stmt.expr x).assigned? = some (name, some y) ∧ m.store name y = .ok m' := by
  unfold perform at h
  split at h
  · next op name value =>
    split at h
    · next hop => exact Or.inr ⟨name, _, by simp [Stmt.assigned?, hop], store_of_update h⟩
    · next hop => exact Or.inr ⟨name, _, by simp [Stmt.assigned?, hop], store_of_update h⟩
  · obtain ⟨name, hx, hm⟩ := store_of_increment h
    exact Or.inr ⟨name, _, by simp [Stmt.assigned?, hx], hm⟩
  · split at h
    · next hop =>
      obtain ⟨name, hx, hm⟩ := store_of_increment h
      exact Or.inr ⟨name, _, by simp [Stmt.assigned?, hop, hx], hm⟩
    · cases h
  · cases h
    exact Or.inl ⟨rfl, rfl⟩
  · cases h

/-- A statement stores the value that it assigns, if it assigns one. -/
theorem store_of_execute {s : Stmt} (h : m.execute s = .ok m') :
    (s.assigned? = none ∧ m' = m) ∨
      ∃ name x, s.assigned? = some (name, some x) ∧ m.store name x = .ok m' := by
  unfold execute at h
  split at h
  · next name type value =>
    obtain ⟨x, hx, hm⟩ := store_of_declare h
    exact Or.inr ⟨name, x, by simp [Stmt.assigned?, hx], hm⟩
  · exact store_of_perform h
  · next s hd he =>
    cases h
    cases s <;> simp_all [Stmt.assigned?]

@[simp] theorem foldedAll_nil (m : Memory) : m.foldedAll [] = [] := rfl

theorem foldedAll_cons {s : Stmt} (hm : m.execute s = .ok m') (rest : List Stmt) :
    m.foldedAll (s :: rest) =
      ((s.assigned?.bind Prod.snd).bind m.folded?).toList ++ m'.foldedAll rest := by
  simp only [foldedAll, hm]

/-- A statement keeps the agreement. -/
theorem Agrees.execute (h : m.Agrees rho st) {s : Stmt} (hm : m.execute s = .ok m')
    (hst : st.perform s = some st') (hq : m.NoneFloat [s]) :
    m'.Agrees rho st' := by
  unfold Valuation.perform at hst
  rcases store_of_execute hm with ⟨hs, rfl⟩ | ⟨name, x, hs, hstore⟩
  · rw [hs] at hst
    cases hst
    exact h
  · simp only [hs, Option.bind_some] at hst
    obtain ⟨v, hv, rfl⟩ := Option.map_eq_some_iff.mp hst
    refine h.store hstore hv fun v hf => hq v ?_
    simp [foldedAll_cons hm, hs, hf]

theorem noneFloat_cons {s : Stmt} (hm : m.execute s = .ok m') (rest : List Stmt) :
    m.NoneFloat (s :: rest) ↔ m.NoneFloat [s] ∧ m'.NoneFloat rest := by
  simp [NoneFloat, foldedAll_cons hm, or_imp, forall_and]

theorem noneFloat_append {l l' : List Stmt} (hm : m.executeAll l = .ok m') :
    m.NoneFloat (l ++ l') ↔ m.NoneFloat l ∧ m'.NoneFloat l' := by
  induction l generalizing m with
  | nil =>
    cases hm
    simp [NoneFloat]
  | cons s l ih =>
    obtain ⟨m₁, hs, hm⟩ := bind_eq_ok.mp hm
    rw [List.cons_append, noneFloat_cons hs, ih hm, noneFloat_cons hs l, and_assoc]

theorem fold_execute {s : Stmt} (h : m.execute s = .ok m') : m'.fold = m.fold := by
  rcases store_of_execute h with ⟨-, rfl⟩ | ⟨name, x, -, hm⟩
  · rfl
  · obtain ⟨y, hy, hm⟩ := bind_eq_ok.mp hm
    obtain ⟨z, hz, hm⟩ := bind_eq_ok.mp hm
    cases hm
    rfl

/-- Without folding no value is computed. -/
theorem noneFloat_of_fold (hf : m.fold = false) (l : List Stmt) : m.NoneFloat l := by
  have : m.foldedAll l = [] := by
    induction l generalizing m with
    | nil => rfl
    | cons s l ih =>
      have hown : (s.assigned?.bind Prod.snd).bind m.folded? = none := by
        cases s.assigned?.bind Prod.snd with
        | none => rfl
        | some x => cases hx : m.substitute x <;> simp [folded?, hx, hf]
      rw [foldedAll, hown]
      cases hm : m.execute s with
      | error f => rfl
      | ok m' => exact ih (fold_execute hm ▸ hf)
  simp [NoneFloat, this]

theorem noneFloat_of_imp {l : List Stmt} (h : m.fold = true → m.NoneFloat l) : m.NoneFloat l := by
  cases hf : m.fold with
  | true => exact h hf
  | false => exact noneFloat_of_fold hf l

/-- At the start only parameters have values, and each is itself. -/
theorem eq_ident_of_get?_init {params : List Param} {fold : Bool} {name : String} {x : Expr}
    (h : (init params fold).vars.get? name = some x) :
    x = .ident name ∧ ∃ p ∈ params, p.name = name := by
  rcases Table.mem_of_get?_putAll h with h | h
  · cases h
  · obtain ⟨p, hp, he⟩ := List.mem_map.mp h
    cases he
    exact ⟨rfl, p, hp, rfl⟩

theorem agrees_init (params : List Param) (fold : Bool) (rho : Env) :
    (init params fold).Agrees rho rho.valuation := by
  intro name x hx
  obtain ⟨rfl, -⟩ := eq_ident_of_get?_init hx
  rfl

end Memory

/-! ## Runs of laid out paths -/

namespace Valuation

/-- The valuation after a list of statements without branches. -/
def performAll (st : Valuation) : List Stmt → Option Valuation
  | [] => some st
  | s :: rest => (st.perform s).bind fun st => st.performAll rest

theorem runList_nil (st : Valuation) : st.runList [] = ⟨[], .through st⟩ := rfl

theorem runList_cons (st : Valuation) (s : Stmt) (rest : List Stmt) :
    st.runList (s :: rest) = (st.run s).andThen fun st => st.runList rest := rfl

theorem run_branch (st : Valuation) (c : Expr) (yes no : Option Stmt) :
    st.run (.branch c yes no) =
      match st.eval c with
      | some (.bool true) => (st.runArm yes).after true
      | some (.bool false) => (st.runArm no).after false
      | _ => ⟨[], .stuck⟩ := rfl

theorem run_of_isSimple (st : Valuation) {s : Stmt} (h : s.isSimple) :
    st.run s = ⟨[], (st.perform s).elim .failed .through⟩ := by
  cases s with
  | expr x => rfl
  | decl name type value => rfl
  | _ => cases h

/-- Statements without branches in front of a list are performed first. -/
theorem runList_append (st : Valuation) {before : List Stmt} (hb : ∀ t ∈ before, t.isSimple)
    (l : List Stmt) :
    st.runList (before ++ l) =
      (st.performAll before).elim ⟨[], .failed⟩ fun st => st.runList l := by
  induction before generalizing st with
  | nil => rfl
  | cons s before ih =>
    rw [List.cons_append, runList_cons, run_of_isSimple st (hb s (by simp)), performAll]
    cases hs : st.perform s with
    | none => rfl
    | some st' =>
      have := ih st' fun t ht => hb t (List.mem_cons_of_mem _ ht)
      simp [Course.andThen, this]

theorem runList_singleton (st : Valuation) (s : Stmt) : st.runList [s] = st.run s := by
  rw [runList_cons, Course.andThen]
  split
  · next st' h =>
    rcases hc : st.run s with ⟨outcomes, ending⟩
    simp_all [runList_nil]
  · rfl

/-- A test decides which arm a run goes into. -/
theorem run_branch_of_eval {st : Valuation} {c : Expr} {b : Bool} (h : st.eval c = some (.bool b))
    (yes no : Option Stmt) :
    st.run (.branch c yes no) = (st.runArm (if b then yes else no)).after b := by
  cases b <;> simp [run_branch, h]

theorem eval_of_enters {st : Valuation} {c : Expr} {yes no : Option Stmt} {b : Bool}
    {arm : List Bool} (h : (st.run (.branch c yes no)).Enters (b :: arm)) :
    st.eval c = some (.bool b) := by
  rw [run_branch] at h
  split at h
  · next hc => simp_all [Course.Enters, Course.after]
  · next hc => simp_all [Course.Enters, Course.after]
  · simp [Course.Enters] at h

theorem enters_branch {st : Valuation} {c : Expr} {yes no : Option Stmt} {b : Bool}
    {arm : List Bool} : (st.run (.branch c yes no)).Enters (b :: arm) ↔
      st.eval c = some (.bool b) ∧ (st.runArm (if b then yes else no)).Enters arm := by
  constructor
  · intro h
    have hc := eval_of_enters h
    rw [run_branch_of_eval hc] at h
    exact ⟨hc, by simpa [Course.Enters, Course.after] using h⟩
  · rintro ⟨hc, h⟩
    rw [run_branch_of_eval hc]
    simpa [Course.Enters, Course.after] using h

theorem failsBefore_branch {st : Valuation} {c : Expr} {yes no : Option Stmt} {b : Bool}
    {arm : List Bool} (hc : st.eval c = some (.bool b))
    (h : (st.runArm (if b then yes else no)).FailsBefore arm) :
    (st.run (.branch c yes no)).FailsBefore (b :: arm) := by
  rw [run_branch_of_eval hc]
  obtain ⟨he, hp, hne⟩ := h
  exact ⟨he, by simpa [Course.after] using hp, by simpa [Course.after] using hne⟩

end Valuation

/-- The statements on the way to the branch of an arm. -/
def Stmt.wayTo : List Bool → List Stmt → List Stmt
  | [], _ => []
  | b :: arm, l =>
    l.takeWhile isSimple ++
      match l.dropWhile isSimple with
      | .branch _ yes no :: _ => wayTo arm (statements (if b then yes else no))
      | _ => []

theorem Stmt.wayTo_append {before : List Stmt} (hb : ∀ t ∈ before, t.isSimple) (b : Bool)
    (arm : List Bool) (c : Expr) (yes no : Option Stmt) :
    wayTo (b :: arm) (before ++ [branch c yes no]) =
      before ++ wayTo arm (statements (if b then yes else no)) := by
  rw [wayTo, takeWhile_append_branch hb, dropWhile_append_branch hb]

namespace Memory

theorem Agrees.executeAll {m m' : Memory} {rho : Env} {st st' : Valuation} (h : m.Agrees rho st)
    {l : List Stmt} (hm : m.executeAll l = .ok m') (hst : st.performAll l = some st')
    (hq : m.NoneFloat l) : m'.Agrees rho st' := by
  induction l generalizing m st with
  | nil =>
    cases hm
    cases hst
    exact h
  | cons s l ih =>
    obtain ⟨m₁, hs, hm⟩ := bind_eq_ok.mp hm
    obtain ⟨st₁, hp, hst⟩ := Option.bind_eq_some_iff.mp hst
    obtain ⟨hq₁, hq⟩ := (noneFloat_cons hs l).mp hq
    exact ih (h.execute hs hp hq₁) hm hst hq

end Memory

/-- A visit at a branch is to one of its arms, or goes on below it. -/
theorem Record.exists_of_mem_visits_branch {before : List Stmt} {cond test : Expr}
    {arms : Bool → Option (List Stmt)} {answer : Bool → Answer} {sub : Bool → Record} {v : Visit}
    (hv : v ∈ (Record.branch before cond test arms answer sub).visits) :
    ∃ b arm path, v.arm = b :: arm ∧ v.path = test.side b :: path ∧
      (arm = [] ∧ path = [] ∨ ∃ u ∈ (sub b).visits, u.arm = arm ∧ u.path = path) := by
  obtain ⟨b, hv⟩ := Record.mem_visits_branch.mp hv
  rcases hv with rfl | ⟨u, hu, rfl⟩
  · exact ⟨b, [], [], rfl, rfl, Or.inl ⟨rfl, rfl⟩⟩
  · exact ⟨b, u.arm, u.path, rfl, rfl, Or.inr ⟨u, hu, rfl, rfl⟩⟩

theorem Expr.noUnknowns_side {test : Expr} {b : Bool} :
    (test.side b).NoUnknowns ↔ test.NoUnknowns := by
  cases b with
  | true => rfl
  | false => cases test <;> simp [side, negate]

/-- A run enters an arm exactly if the conditions of the arm's query hold, where the conditions of
the list or those of the query have no unknowns. -/
theorem Laid.enters_iff {bound : Nat} {all : Bool} {l : List Stmt} {m : Memory} {r : Record}
    (h : Laid bound all l m r) {rho : Env} {st : Valuation} (ha : m.Agrees rho st) {v : Visit}
    (hv : v ∈ r.visits) (hk : Stmt.Known l ∨ ∀ x ∈ v.path, x.NoUnknowns)
    (hq : m.NoneFloat (Stmt.wayTo v.arm r.body))
    (hf : ¬(st.runList r.body).FailsBefore v.arm) :
    (st.runList r.body).Enters v.arm ↔ rho.holds v.path = .ok true := by
  induction h generalizing st v with
  | straight => simp [Record.visits] at hv
  | @branch l before c test yes no m m' answer sub hc hb hm ht habsent hkept hentered ih =>
    obtain ⟨b, arm, path, harm, hpath, hbelow⟩ := Record.exists_of_mem_visits_branch hv
    rw [harm, Record.body] at hf hq ⊢
    rw [Stmt.wayTo_append hb, Memory.noneFloat_append hm] at hq
    rw [hpath] at hk
    rw [hpath, Env.holds_cons, Env.eval_side, Valuation.runList_append st hb]
    rw [Valuation.runList_append st hb] at hf
    cases hp : st.performAll before with
    | none =>
      rw [hp] at hf
      exact absurd ⟨rfl, List.nil_prefix, by simp⟩ hf
    | some st' =>
      rw [hp] at hf
      simp only [Option.elim_some, Valuation.runList_singleton] at hf ⊢
      have ha' := ha.executeAll hm hp hq.1
      have hknown (hk : Stmt.Known l) := (Stmt.known_append.mp (Stmt.known_canonicalize hc hk)).2
      have htest : (Stmt.splitCond c yes no).1.NoUnknowns := by
        rcases hk with hk | hk
        · exact (Stmt.known_branch.mp (Stmt.known_splitCond (hknown hk))).1
        · exact Memory.noUnknowns_of_resolve _ ht
            (Expr.noUnknowns_side.mp (hk _ List.mem_cons_self))
      have heval := ha'.eval_resolve _ htest ht
      -- Both sides say first that the test goes to `b`, and then the same about what is below.
      rw [Valuation.enters_branch, ← heval]
      refine and_congr_right fun htaken => ?_
      rw [heval] at htaken
      have hf' := fun hfails => hf (Valuation.failsBefore_branch htaken hfails)
      rcases hbelow with ⟨rfl, rfl⟩ | ⟨u, hu, rfl, rfl⟩
      · simp [Course.Enters, Env.holds]
      · obtain ⟨stmts, hs, hsat⟩ := exists_entered habsent hkept hu
        rw [arm_body hs] at hf' hq ⊢
        have hk' := hk.imp (fun hk => Stmt.known_arms (hknown hk) hs)
          (fun hk => (List.forall_mem_cons.mp hk).2)
        exact ih b stmts hs hsat ha' hu hk' hq.2 hf'

/-- The same for lists whose conditions have no unknowns, at all visits. -/
theorem Laid.enters_visit_iff {bound : Nat} {all : Bool} {l : List Stmt} {m : Memory} {r : Record}
    (h : Laid bound all l m r) (hk : Stmt.Known l) {rho : Env} {st : Valuation}
    (ha : m.Agrees rho st) {v : Visit} (hv : v ∈ r.visits)
    (hq : m.NoneFloat (Stmt.wayTo v.arm r.body))
    (hf : ¬(st.runList r.body).FailsBefore v.arm) :
    (st.runList r.body).Enters v.arm ↔ rho.holds v.path = .ok true :=
  h.enters_iff ha hv (Or.inl hk) hq hf

/-- Path conditions are exact : where no condition of a function has a call or a member access, a
run of its paths enters the arm of a query if and only if the conditions of the query hold for the
values that the run starts with. -/
theorem Function.enters_iff_holds {σ : Type} {fn : Function} {solver : Solver σ} {e : Exploration}
    {s s' : Session σ} {p : Paths} (h : Walk.Gives (fn.paths solver e) s p s')
    (hk : Stmt.Known fn.body) :
    ∃ r, Walk.Gives (fn.record solver e) s r s' ∧ r.paths = p ∧
      ∀ v ∈ r.visits, ∀ rho : Env,
        (e.fold = true → (Memory.init fn.params e.fold).NoneFloat (Stmt.wayTo v.arm p.body)) →
        ¬(rho.valuation.runList p.body).FailsBefore v.arm →
        ((rho.valuation.runList p.body).Enters v.arm ↔ rho.holds v.path = .ok true) := by
  obtain ⟨r, hr, rfl⟩ := Function.gives_paths.mp h
  refine ⟨r, hr, rfl, fun v hv rho hq hf => ?_⟩
  have hq' : (Memory.init fn.params e.fold).NoneFloat (Stmt.wayTo v.arm r.body) := by
    cases hfold : e.fold with
    | true => exact hfold ▸ hq hfold
    | false => exact Memory.noneFloat_of_fold rfl _
  exact (Function.laid hr).enters_visit_iff hk (Memory.agrees_init _ _ rho) hv hq' hf

/-- A local variable without a value, changed twice before a compound test. -/
def surplus : Function where
  name := "surplus"
  params := [⟨"n", "int"⟩]
  results := ["int"]
  body := [
    .decl "k" "int" none,
    .expr (.assign .sub "k" (.ident "n")),
    .expr (.post .inc (.ident "k")),
    .branch
      (.binary .and (.binary .gt (.ident "k") (.int 3))
        (.pre .not (.paren (.binary .eq (.ident "n") (.int (-7))))))
      (some (.ret (some (.ident "k")))) none,
    .ret none]

/-- For `n = -4` the run of the sample enters the arm behind its two tests. -/
theorem Function.enters_iff_holds_surplus :
    ∃ p s', ∃ r : Record, ∃ v ∈ r.visits,
      Walk.Gives (surplus.paths (.always ⟨true, some []⟩) {}) ⟨.unlimited, (), #[]⟩ p s' ∧
        r.paths = p ∧ v.arm = [true, true] ∧
        ((Env.valuation [("n", .ofInt (-4))]).runList p.body).Enters v.arm := by
  obtain ⟨p, s', h⟩ := Walk.exists_gives
    (x := surplus.paths (.always ⟨true, some []⟩) {}) (s := ⟨.unlimited, (), #[]⟩)
    (by with_unfolding_all decide)
  obtain ⟨r, hr, rfl, hall⟩ := Function.enters_iff_holds h (by decide)
  let rho : Env := [("n", .ofInt (-4))]
  have hgood := Walk.of_gives hr
    (fun r => r.visits.any fun v =>
      decide (v.arm = [true, true] ∧
        (Memory.init surplus.params true).NoneFloat (Stmt.wayTo v.arm r.body) ∧
        ¬(rho.valuation.runList r.body).FailsBefore v.arm ∧
        (rho.holds v.path).toOption = some true))
    (by with_unfolding_all decide)
  obtain ⟨v, hv, hgood⟩ := List.any_eq_true.mp hgood
  obtain ⟨harm, hq, hf, hholds⟩ := of_decide_eq_true hgood
  refine ⟨_, s', r, v, hv, h, rfl, harm, (hall v hv rho (fun _ => hq) hf).mpr ?_⟩
  cases hr : rho.holds v.path with
  | error f => simp [hr, Except.toOption] at hholds
  | ok b => simpa [hr, Except.toOption] using hholds

end PathTree
