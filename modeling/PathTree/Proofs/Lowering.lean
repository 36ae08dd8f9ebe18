import PathTree.Source.Lower

/-!
# What lowering can give

Each form of a source expression or statement is lowered in one way if it is lowered at all.
`Node.LowersTo` and `Statement.LowersTo` say for each form what was lowered on the way, in which
scopes, and what the result is; later files read a lowering only through their cases
(`Node.lowersTo`, `Statement.lowersTo`) and through those of the lists and optional parts.
-/

namespace PathTree

namespace Source

namespace Lower

variable {α β : Type}

/-- A step of lowering returns `a` and leads from the scopes `sc` to `sc'`. -/
def Gives (x : Lower α) (sc : Scopes) (a : α) (sc' : Scopes) : Prop := x.run sc = .ok (a, sc')

theorem gives_pure {a b : α} {sc sc' : Scopes} :
    Gives (pure a) sc b sc' ↔ a = b ∧ sc = sc' := by
  rw [Gives, StateT.run_pure]
  constructor
  · intro h
    cases h
    exact ⟨rfl, rfl⟩
  · rintro ⟨rfl, rfl⟩
    rfl

theorem gives_throw {f : Fault} {a : α} {sc sc' : Scopes} :
    ¬Gives (throw f : Lower α) sc a sc' := by
  simp [Gives, throw, throwThe, MonadExceptOf.throw, StateT.run, StateT.lift, bind, Except.bind]

theorem gives_bind {x : Lower α} {f : α → Lower β} {b : β} {sc sc'' : Scopes} :
    Gives (x >>= f) sc b sc'' ↔ ∃ a sc', Gives x sc a sc' ∧ Gives (f a) sc' b sc'' := by
  simp only [Gives, StateT.run_bind, bind_eq_ok]
  constructor
  · rintro ⟨⟨a, sc'⟩, hx, hf⟩
    exact ⟨a, sc', hx, hf⟩
  · rintro ⟨a, sc', hx, hf⟩
    exact ⟨(a, sc'), hx, hf⟩

theorem gives_map {x : Lower α} {f : α → β} {b : β} {sc sc' : Scopes} :
    Gives (f <$> x) sc b sc' ↔ ∃ a, Gives x sc a sc' ∧ f a = b := by
  rw [← bind_pure_comp, gives_bind]
  constructor
  · rintro ⟨a, sc₁, h, hb⟩
    obtain ⟨rfl, rfl⟩ := gives_pure.mp hb
    exact ⟨a, h, rfl⟩
  · rintro ⟨a, h, rfl⟩
    exact ⟨a, sc', h, gives_pure.mpr ⟨rfl, rfl⟩⟩

/-- A computation without scopes leaves them as they are. -/
theorem gives_lift {r : Except Fault α} {a : α} {sc sc' : Scopes} :
    Gives (liftM r : Lower α) sc a sc' ↔ r = .ok a ∧ sc = sc' := by
  cases r <;> simp [Gives, liftM, monadLift, MonadLift.monadLift, StateT.lift, StateT.run, bind,
    Except.bind, pure, Except.pure]

/-- A scope is gone when the step inside it is done. -/
theorem gives_inScope {x : Lower α} {a : α} {sc sc' : Scopes} :
    Gives (inScope x) sc a sc' ↔ ∃ inner, Gives x ([] :: sc) a inner ∧ sc' = inner.drop 1 := by
  unfold inScope
  rw [gives_bind]
  constructor
  · rintro ⟨_, sc₁, h₁, h⟩
    cases h₁
    obtain ⟨b, sc₂, hx, h⟩ := gives_bind.mp h
    obtain ⟨_, sc₃, h₃, h⟩ := gives_bind.mp h
    cases h₃
    obtain ⟨rfl, rfl⟩ := gives_pure.mp h
    exact ⟨sc₂, hx, rfl⟩
  · rintro ⟨inner, hx, rfl⟩
    exact ⟨(), [] :: sc, rfl, gives_bind.mpr ⟨a, inner, hx,
      gives_bind.mpr ⟨(), inner.drop 1, rfl, gives_pure.mpr ⟨rfl, rfl⟩⟩⟩⟩

theorem gives_mapM_nil {f : α → Lower β} {ys : List β} {sc sc' : Scopes} :
    Gives (([] : List α).mapM f) sc ys sc' ↔ [] = ys ∧ sc = sc' := by
  rw [List.mapM_nil]
  exact gives_pure

theorem gives_mapM_cons {f : α → Lower β} {x : α} {xs : List α} {ys : List β} {sc sc' : Scopes} :
    Gives ((x :: xs).mapM f) sc ys sc' ↔
      ∃ y sc₁ more, Gives (f x) sc y sc₁ ∧ Gives (xs.mapM f) sc₁ more sc' ∧ ys = y :: more := by
  rw [List.mapM_cons, gives_bind]
  constructor
  · rintro ⟨y, sc₁, hx, h⟩
    obtain ⟨more, sc₂, hxs, h⟩ := gives_bind.mp h
    obtain ⟨rfl, rfl⟩ := gives_pure.mp h
    exact ⟨y, sc₁, more, hx, hxs, rfl⟩
  · rintro ⟨y, sc₁, more, hx, hxs, rfl⟩
    exact ⟨y, sc₁, hx, gives_bind.mpr ⟨more, sc', hxs, gives_pure.mpr ⟨rfl, rfl⟩⟩⟩

end Lower

open Lower

/-! ## Declarations -/

theorem Scopes.declare_blank (what : String) (sc : Scopes) : sc.declare what "_" = .ok sc := by
  simp [Scopes.declare]

/-- A new name goes into the innermost scope. -/
theorem Scopes.declare_of_notMem (what : String) {name : String} {sc : Scopes} (hb : name ≠ "_")
    (h : name ∉ sc.flatten) : sc.declare what name = .ok (sc.bind name) := by
  have hany : ∀ scope ∈ sc, name ∉ scope := fun scope hs hn =>
    h (List.mem_flatten.mpr ⟨scope, hs, hn⟩)
  have hhead : ∀ scope, sc.head? = some scope → name ∉ scope := fun scope hs =>
    hany scope (List.mem_of_mem_head? hs)
  unfold Scopes.declare
  rw [if_neg hb, if_neg, if_neg]
  · simpa using hany
  · simpa [Option.any_eq_true] using hhead

/-- A name of an open scope is refused. -/
theorem Scopes.declare_of_mem (what : String) {name : String} {sc : Scopes} (hb : name ≠ "_")
    (h : name ∈ sc.flatten) :
    sc.declare what name = .error (.unsupported what ("redeclared variable " ++ name)) ∨
      sc.declare what name = .error (.unsupported what ("shadowed variable " ++ name)) := by
  obtain ⟨scope, hs, hn⟩ := List.mem_flatten.mp h
  unfold Scopes.declare
  rw [if_neg hb]
  by_cases hhead : (sc.head?.any (·.contains name)) = true
  · exact Or.inl (if_pos hhead)
  · refine Or.inr ?_
    rw [if_neg hhead, if_pos]
    exact List.any_eq_true.mpr ⟨scope, hs, by simpa using hn⟩

/-- A name that may be declared is the blank name, which is not noted, or it is not in any open
scope and goes into the innermost one. -/
theorem Scopes.declare_eq_ok {what name : String} {sc sc' : Scopes} :
    sc.declare what name = .ok sc' ↔
      (name = "_" ∧ sc' = sc) ∨ (name ≠ "_" ∧ name ∉ sc.flatten ∧ sc' = sc.bind name) := by
  by_cases hb : name = "_"
  · subst hb
    simp [Scopes.declare_blank, eq_comm]
  · by_cases hm : name ∈ sc.flatten
    · rcases Scopes.declare_of_mem what hb hm with h | h <;> simp [h, hb, hm]
    · simp [Scopes.declare_of_notMem what hb hm, hb, hm, eq_comm]

theorem gives_declareName {what name : String} {u : Unit} {sc sc' : Scopes} :
    Gives (declareName what name) sc u sc' ↔ sc.declare what name = .ok sc' := by
  unfold declareName
  rw [gives_bind]
  constructor
  · rintro ⟨_, sc₁, h₁, h⟩
    cases h₁
    obtain ⟨new, sc₂, hlift, h⟩ := gives_bind.mp h
    obtain ⟨hd, rfl⟩ := gives_lift.mp hlift
    cases h
    exact hd
  · intro h
    exact ⟨sc, sc, rfl, gives_bind.mpr ⟨sc', sc, gives_lift.mpr ⟨h, rfl⟩, rfl⟩⟩

/-! ## Expressions -/

/-- Whether a node is a number without a sign. -/
def Node.isNumber : Node → Bool
  | .literal .int _ => true
  | .literal .float _ => true
  | _ => false

/-- An operator in front of an operand that is no number is kept. -/
theorem Node.lower_unary {op : PrefixOp} {un : UnaryOp} {x : Node} (hun : op.unary? = some un)
    (h : op = .neg → x.isNumber = false) :
    (Node.unary op x).lower = (do pure (.pre un (← x.lower))) := by
  cases op with
  | neg =>
    cases x with
    | literal form text => cases form <;> simp_all [Node.isNumber, Node.lower, PrefixOp.unary?]
    | _ => simp_all [Node.lower, PrefixOp.unary?]
  | _ => simp_all [Node.lower, PrefixOp.unary?]

theorem Node.lower_unary_eq_error {op : PrefixOp} {x : Node} (h : op.unary? = none) :
    (Node.unary op x).lower = (Node.unary op x).refuse ("operator " ++ op.symbol) := by
  cases op <;> simp_all [Node.lower, PrefixOp.unary?]

/-- The ways in which an expression is lowered. -/
inductive Node.LowersTo : Node → Expr → Prop
  | name (name : String) : LowersTo (.ident name) (nameExpr name)
  | literal {form : LiteralForm} {kind : LitKind} (text : String) (hk : form.kind? = some kind) :
      LowersTo (.literal form text) (.lit ⟨kind, text⟩)
  | signed {form : LiteralForm} {kind : LitKind} {text : String}
      (hn : (Node.literal form text).isNumber) (hk : form.kind? = some kind) :
      LowersTo (.unary .neg (.literal form text)) (.lit ⟨kind, "-" ++ text⟩)
  | unary {op : PrefixOp} {un : UnaryOp} {x : Node} {y : Expr} (hop : op.unary? = some un)
      (hn : op = .neg → x.isNumber = false) (hx : x.lower = .ok y) :
      LowersTo (.unary op x) (.pre un y)
  | binary {op : InfixOp} {bin : BinaryOp} {x₁ x₂ : Node} {y₁ y₂ : Expr}
      (hop : op.binary? = some bin) (h₁ : x₁.lower = .ok y₁) (h₂ : x₂.lower = .ok y₂) :
      LowersTo (.binary op x₁ x₂) (.binary bin y₁ y₂)
  | paren {x : Node} {y : Expr} (hx : x.lower = .ok y) : LowersTo (.paren x) (.paren y)
  | member {x : Node} {y : Expr} (sel : String) (hx : x.lower = .ok y) :
      LowersTo (.selector x sel) (.member y sel)
  | named (name : String) {args : List Node} {ys : List Expr} (ha : lowerArgs args = .ok ys) :
      LowersTo (.call (.ident name) args false) (namedCall name ys)
  | method {x : Node} {y : Expr} (sel : String) {args : List Node} {ys : List Expr}
      (hx : x.lower = .ok y) (ha : lowerArgs args = .ok ys) :
      LowersTo (.call (.selector x sel) args false) (.call (.member y sel) ys)

theorem Node.lowersTo {n : Node} {y : Expr} (h : n.lower = .ok y) : n.LowersTo y := by
  cases n with
  | ident name =>
    simp only [Node.lower] at h
    cases h
    exact .name name
  | literal form text =>
    simp only [Node.lower] at h
    split at h
    · next kind hk =>
      cases h
      exact .literal text hk
    · cases h
  | unary op x =>
    by_cases hnum : op = .neg → x.isNumber = false
    · cases hop : op.unary? with
      | none => simp [Node.lower_unary_eq_error hop, Node.refuse] at h
      | some un =>
        rw [Node.lower_unary hop hnum] at h
        obtain ⟨z, hz, h⟩ := bind_eq_ok.mp h
        cases h
        exact .unary hop hnum hz
    · obtain ⟨rfl, hx⟩ := Classical.not_imp.mp hnum
      cases x with
      | literal form text =>
        cases form with
        | int =>
          simp only [Node.lower] at h
          cases h
          exact .signed rfl rfl
        | float =>
          simp only [Node.lower] at h
          cases h
          exact .signed rfl rfl
        | _ => simp [Node.isNumber] at hx
      | _ => simp [Node.isNumber] at hx
  | binary op x₁ x₂ =>
    simp only [Node.lower] at h
    split at h
    · next bin hop =>
      obtain ⟨y₁, h₁, h⟩ := bind_eq_ok.mp h
      obtain ⟨y₂, h₂, h⟩ := bind_eq_ok.mp h
      cases h
      exact .binary hop h₁ h₂
    · cases h
  | paren x =>
    simp only [Node.lower] at h
    obtain ⟨y, hx, h⟩ := bind_eq_ok.mp h
    cases h
    exact .paren hx
  | selector x sel =>
    simp only [Node.lower] at h
    obtain ⟨y, hx, h⟩ := bind_eq_ok.mp h
    cases h
    exact .member sel hx
  | call callee args spread =>
    cases spread with
    | true => simp [Node.lower, Node.refuse] at h
    | false =>
      cases callee with
      | ident name =>
        simp only [Node.lower] at h
        obtain ⟨ys, ha, h⟩ := bind_eq_ok.mp h
        cases h
        exact .named name ha
      | selector x sel =>
        simp only [Node.lower] at h
        obtain ⟨ys, ha, h⟩ := bind_eq_ok.mp h
        obtain ⟨y, hx, h⟩ := bind_eq_ok.mp h
        cases h
        exact .method sel hx ha
      | _ =>
        simp only [Node.lower] at h
        obtain ⟨ys, -, h⟩ := bind_eq_ok.mp h
        cases h
  | _ => simp [Node.lower, Node.refuse] at h

theorem Node.LowersTo.lower {n : Node} {y : Expr} (h : n.LowersTo y) : n.lower = .ok y := by
  cases h with
  | name name => rw [Node.lower]
  | literal text hk => simp only [Node.lower, hk]
  | @signed form kind text hn hk => cases form <;> cases hk <;> first | rfl | cases hn
  | unary hop hn hx =>
    rw [Node.lower_unary hop hn, hx]
    rfl
  | binary hop h₁ h₂ =>
    simp only [Node.lower, hop, h₁, h₂]
    rfl
  | paren hx =>
    simp only [Node.lower, hx]
    rfl
  | member sel hx =>
    simp only [Node.lower, hx]
    rfl
  | named name ha =>
    simp only [Node.lower, ha]
    rfl
  | method sel hx ha =>
    simp only [Node.lower, hx, ha]
    rfl

theorem lowerOption_eq_ok {x : Option Node} {y : Option Expr} (h : lowerOption x = .ok y) :
    (x = none ∧ y = none) ∨ ∃ n z, x = some n ∧ n.lower = .ok z ∧ y = some z := by
  cases x with
  | none =>
    cases h
    exact Or.inl ⟨rfl, rfl⟩
  | some n =>
    simp only [lowerOption] at h
    obtain ⟨z, hz, h⟩ := bind_eq_ok.mp h
    cases h
    exact Or.inr ⟨n, z, rfl, hz, rfl⟩

theorem lowerArgs_cons {x : Node} {rest : List Node} {ys : List Expr}
    (h : lowerArgs (x :: rest) = .ok ys) :
    ∃ y more, x.lower = .ok y ∧ lowerArgs rest = .ok more ∧ ys = y :: more := by
  simp only [lowerArgs] at h
  obtain ⟨y, hx, h⟩ := bind_eq_ok.mp h
  obtain ⟨more, hr, h⟩ := bind_eq_ok.mp h
  cases h
  exact ⟨y, more, hx, hr, rfl⟩

theorem length_lowerArgs {args : List Node} {ys : List Expr} (h : lowerArgs args = .ok ys) :
    ys.length = args.length := by
  induction args generalizing ys with
  | nil =>
    simp only [lowerArgs] at h
    cases h
    rfl
  | cons x rest ih =>
    obtain ⟨y, more, -, hr, rfl⟩ := lowerArgs_cons h
    simp [ih hr]

/-- A call by name is a conversion, or a call whose one argument is not to be converted. -/
theorem namedCall_cases (name : String) (args : List Expr) :
    (∃ x, args = [x] ∧ name ∈ conversionTypes ∧ namedCall name args = .cast name x) ∨
      ((∀ x, args = [x] → name ∉ conversionTypes) ∧
        namedCall name args = .call (.ident name) args) := by
  unfold namedCall
  split
  · next x =>
    split
    · next hn => exact Or.inl ⟨x, rfl, by simpa using hn, rfl⟩
    · next hn => exact Or.inr ⟨fun _ _ => by simpa using hn, rfl⟩
  · next args hne => exact Or.inr ⟨fun x hx => absurd hx (hne x), rfl⟩

/-! ## Declarations of several names -/

theorem gives_lowerNames_nil {type : String} {values : List Node} {l : List Stmt}
    {sc sc' : Scopes} : Gives (lowerNames type [] values) sc l sc' ↔ [] = l ∧ sc = sc' := by
  unfold lowerNames
  exact gives_pure

/-- A name is declared once its value is lowered, and then the others are. -/
theorem gives_lowerNames_cons {type name : String} {names : List String} {values : List Node}
    {l : List Stmt} {sc sc' : Scopes}
    (h : Gives (lowerNames type (name :: names) values) sc l sc') :
    ∃ value sc₁ rest, lowerOption values.head? = .ok value ∧
      sc.declare "ValueSpec" name = .ok sc₁ ∧
      Gives (lowerNames type names (values.drop 1)) sc₁ rest sc' ∧
      l = .decl name type value :: rest := by
  unfold lowerNames at h
  obtain ⟨value, sc₁, hlift, h⟩ := gives_bind.mp h
  obtain ⟨hv, rfl⟩ := gives_lift.mp hlift
  obtain ⟨_, sc₂, hd, h⟩ := gives_bind.mp h
  obtain ⟨rest, sc₃, hr, h⟩ := gives_bind.mp h
  obtain ⟨rfl, rfl⟩ := gives_pure.mp h
  exact ⟨value, sc₂, rest, hv, gives_declareName.mp hd, hr, rfl⟩

/-- A list of variables has a value for each of them or none at all. -/
theorem gives_lowerSpec {spec : ValueSpec} {l : List Stmt} {sc sc' : Scopes}
    (h : Gives (lowerSpec spec) sc l sc') :
    (spec.values = [] ∨ spec.values.length = spec.names.length) ∧
      Gives (lowerNames (spec.type.elim "" Node.typeText) spec.names spec.values) sc l sc' := by
  unfold lowerSpec at h
  split at h
  · exact absurd h gives_throw
  · next hlen =>
    refine ⟨?_, h⟩
    by_cases hv : spec.values = []
    · exact Or.inl hv
    · exact Or.inr (by simpa [hv] using hlen)

/-! ## Statements -/

theorem lowerCall_eq_ok {x : Node} {t : Stmt} (h : lowerCall x = .ok t) :
    (∃ v spread y, x = .call (.ident "panic") [v] spread ∧ v.lower = .ok y ∧
        t = .throw (some y)) ∨
      ∃ callee args spread y, x = .call callee args spread ∧
        (∀ v, callee = .ident "panic" → args ≠ [v]) ∧ x.lower = .ok y ∧ t = .expr y := by
  unfold lowerCall at h
  split at h
  · next v spread =>
    obtain ⟨y, hy, h⟩ := bind_eq_ok.mp h
    cases h
    exact Or.inl ⟨v, spread, y, rfl, hy, rfl⟩
  · next callee args spread hne =>
    obtain ⟨y, hy, h⟩ := bind_eq_ok.mp h
    cases h
    refine Or.inr ⟨callee, args, spread, y, rfl, ?_, hy, rfl⟩
    rintro v rfl rfl
    exact hne v rfl rfl
  · cases h

/-- What is evaluated after a round is the one expression that the step of the loop is. -/
theorem gives_stepExpr {step : Option Statement} {next : Option Stmt} {post : List Expr}
    {sc sc' : Scopes} (h : Gives (stepExpr step next) sc post sc') :
    sc = sc' ∧ ((step = none ∧ post = []) ∨ ∃ x, next = some (.expr x) ∧ post = [x]) := by
  unfold stepExpr at h
  split at h
  · obtain ⟨rfl, rfl⟩ := gives_pure.mp h
    exact ⟨rfl, Or.inl ⟨rfl, rfl⟩⟩
  · obtain ⟨rfl, rfl⟩ := gives_pure.mp h
    exact ⟨rfl, Or.inr ⟨_, rfl, rfl⟩⟩
  · exact absurd h gives_throw

/-- An assignment has one target, which is a name, and one value. -/
theorem gives_lowerAssign {targets values : List Node} {op : SetOp} {t : Stmt} {sc sc' : Scopes}
    (h : Gives (lowerAssign targets op values) sc t sc') :
    ∃ name x y, targets = [.ident name] ∧ values = [x] ∧ x.lower = .ok y ∧
      ((op = .define ∧ sc.declare "AssignStmt" name = .ok sc' ∧ t = .declare name (some y)) ∨
        ∃ aop, op.assign? = some aop ∧ sc = sc' ∧ t = .expr (.assign aop name y)) := by
  unfold lowerAssign at h
  split at h
  · next target x =>
    split at h
    · next name =>
      obtain ⟨y, sc₁, hlift, h⟩ := gives_bind.mp h
      obtain ⟨hx, rfl⟩ := gives_lift.mp hlift
      refine ⟨name, x, y, rfl, rfl, hx, ?_⟩
      split at h
      · next hop =>
        obtain ⟨_, sc₂, hd, h⟩ := gives_bind.mp h
        obtain ⟨rfl, rfl⟩ := gives_pure.mp h
        exact Or.inl ⟨hop, gives_declareName.mp hd, rfl⟩
      · split at h
        · next aop hop =>
          obtain ⟨rfl, rfl⟩ := gives_pure.mp h
          exact Or.inr ⟨aop, hop, rfl, rfl⟩
        · exact absurd h gives_throw
    · obtain ⟨hr, -⟩ := gives_lift.mp h
      cases hr
  · exact absurd h gives_throw

/-- The ways in which a statement is lowered. -/
inductive Statement.LowersTo : Statement → Scopes → Option Stmt → Scopes → Prop
  | block {l : List Statement} {out : List Stmt} {sc sc' : Scopes}
      (hl : Gives (lowerList l) sc out sc') : LowersTo (.block l) sc (some (.block out)) sc'
  | branch {init other : Option Statement} {cond : Node} {body : List Statement}
      {start no : Option Stmt} {c : Expr} {yes : List Stmt} {sc sc₁ sc₂ sc₃ : Scopes}
      (hi : Gives (lowerSimple init) ([] :: sc) start sc₁) (hc : cond.lower = .ok c)
      (hb : Gives (lowerList body) ([] :: sc₁) yes sc₂)
      (ho : Gives (lowerElse other) (sc₂.drop 1) no sc₃) :
      LowersTo (.branch init cond body other) sc
        (some (.hoist start (.branch c (some (.block yes)) no))) (sc₃.drop 1)
  | loop {init step : Option Statement} {cond : Option Node} {body : List Statement}
      {start next : Option Stmt} {c : Option Expr} {post : List Expr} {list : List Stmt}
      {sc sc₁ sc₂ sc₃ : Scopes}
      (hi : Gives (lowerSimple init) ([] :: sc) start sc₁) (hc : lowerOption cond = .ok c)
      (hb : Gives (lowerList body) ([] :: sc₁) list sc₂)
      (hs : Gives (lowerSimple step) (sc₂.drop 1) next sc₃)
      (hp : (step = none ∧ post = []) ∨ ∃ x, next = some (.expr x) ∧ post = [x]) :
      LowersTo (.loop init cond step body) sc (some (.ofLoop start c post list)) (sc₃.drop 1)
  | retNone {sc : Scopes} : LowersTo (.ret []) sc (some (.ret none)) sc
  | ret {x : Node} {y : Expr} {sc : Scopes} (hx : x.lower = .ok y) :
      LowersTo (.ret [x]) sc (some (.ret (some y))) sc
  | define {name : String} {x : Node} {y : Expr} {sc sc' : Scopes} (hx : x.lower = .ok y)
      (hd : sc.declare "AssignStmt" name = .ok sc') :
      LowersTo (.assign [.ident name] .define [x]) sc (some (.declare name (some y))) sc'
  | assign {op : SetOp} {aop : AssignOp} {name : String} {x : Node} {y : Expr} {sc : Scopes}
      (hop : op.assign? = some aop) (hx : x.lower = .ok y) :
      LowersTo (.assign [.ident name] op [x]) sc (some (.expr (.assign aop name y))) sc
  | count {x : Node} {y : Expr} (up : Bool) {sc : Scopes} (hx : x.lower = .ok y) :
      LowersTo (.count x up) sc (some (.expr (.post (if up then .inc else .dec) y))) sc
  | vars {specs : List ValueSpec} {decls : List (List Stmt)} {sc sc' : Scopes}
      (hd : Gives (specs.mapM lowerSpec) sc decls sc') :
      LowersTo (.vars specs) sc (some (.single decls.flatten)) sc'
  | throw {v : Node} (spread : Bool) {y : Expr} {sc : Scopes} (hv : v.lower = .ok y) :
      LowersTo (.expr (.call (.ident "panic") [v] spread)) sc (some (.throw (some y))) sc
  | call {callee : Node} {args : List Node} {spread : Bool} {y : Expr} {sc : Scopes}
      (hp : ∀ v, callee = .ident "panic" → args ≠ [v])
      (hx : (Node.call callee args spread).lower = .ok y) :
      LowersTo (.expr (.call callee args spread)) sc (some (.expr y)) sc
  | empty {sc : Scopes} : LowersTo .empty sc none sc

theorem Statement.lowersTo {s : Statement} {r : Option Stmt} {sc sc' : Scopes}
    (h : Gives s.lower sc r sc') : s.LowersTo sc r sc' := by
  cases s with
  | block l =>
    unfold Statement.lower at h
    obtain ⟨out, sc₁, hl, h⟩ := gives_bind.mp h
    obtain ⟨rfl, rfl⟩ := gives_pure.mp h
    exact .block hl
  | branch init cond body other =>
    unfold Statement.lower at h
    obtain ⟨sc₀, h₀, rfl⟩ := gives_inScope.mp h
    obtain ⟨start, sc₁, hi, h₁⟩ := gives_bind.mp h₀
    obtain ⟨c, sc₂, hlift, h₂⟩ := gives_bind.mp h₁
    obtain ⟨hc, rfl⟩ := gives_lift.mp hlift
    obtain ⟨yes, sc₃, hscope, h₃⟩ := gives_bind.mp h₂
    obtain ⟨sc₄, hb, rfl⟩ := gives_inScope.mp hscope
    obtain ⟨no, sc₅, ho, h₄⟩ := gives_bind.mp h₃
    obtain ⟨rfl, rfl⟩ := gives_pure.mp h₄
    exact .branch hi hc hb ho
  | loop init cond step body =>
    unfold Statement.lower at h
    obtain ⟨sc₀, h₀, rfl⟩ := gives_inScope.mp h
    obtain ⟨start, sc₁, hi, h₁⟩ := gives_bind.mp h₀
    obtain ⟨c, sc₂, hlift, h₂⟩ := gives_bind.mp h₁
    obtain ⟨hc, rfl⟩ := gives_lift.mp hlift
    obtain ⟨list, sc₃, hscope, h₃⟩ := gives_bind.mp h₂
    obtain ⟨sc₄, hb, rfl⟩ := gives_inScope.mp hscope
    obtain ⟨next, sc₅, hs, h₄⟩ := gives_bind.mp h₃
    obtain ⟨post, sc₆, hstep, h₅⟩ := gives_bind.mp h₄
    obtain ⟨rfl, rfl⟩ := gives_pure.mp h₅
    obtain ⟨rfl, hp⟩ := gives_stepExpr hstep
    exact .loop hi hc hb hs hp
  | ret results =>
    unfold Statement.lower lowerReturn at h
    obtain ⟨t, ht, rfl⟩ := gives_map.mp h
    split at ht
    · obtain ⟨rfl, rfl⟩ := gives_pure.mp ht
      exact .retNone
    · obtain ⟨y, sc₁, hlift, ht⟩ := gives_bind.mp ht
      obtain ⟨hx, rfl⟩ := gives_lift.mp hlift
      obtain ⟨rfl, rfl⟩ := gives_pure.mp ht
      exact .ret hx
    · exact absurd ht gives_throw
  | assign targets op values =>
    unfold Statement.lower at h
    obtain ⟨t, ht, rfl⟩ := gives_map.mp h
    obtain ⟨name, x, y, rfl, rfl, hx, ⟨rfl, hd, rfl⟩ | ⟨aop, hop, rfl, rfl⟩⟩ :=
      gives_lowerAssign ht
    · exact .define hx hd
    · exact .assign hop hx
  | count x up =>
    unfold Statement.lower at h
    obtain ⟨y, sc₁, hlift, h⟩ := gives_bind.mp h
    obtain ⟨hx, rfl⟩ := gives_lift.mp hlift
    obtain ⟨rfl, rfl⟩ := gives_pure.mp h
    exact .count up hx
  | vars specs =>
    unfold Statement.lower lowerVars at h
    obtain ⟨t, ht, rfl⟩ := gives_map.mp h
    obtain ⟨decls, sc₁, hd, ht⟩ := gives_bind.mp ht
    obtain ⟨rfl, rfl⟩ := gives_pure.mp ht
    exact .vars hd
  | constants =>
    unfold Statement.lower at h
    exact absurd h gives_throw
  | expr x =>
    unfold Statement.lower at h
    obtain ⟨t, hlift, rfl⟩ := gives_map.mp h
    obtain ⟨hcall, rfl⟩ := gives_lift.mp hlift
    rcases lowerCall_eq_ok hcall with ⟨v, spread, y, rfl, hv, rfl⟩ |
      ⟨callee, args, spread, y, rfl, hp, hx, rfl⟩
    · exact .throw spread hv
    · exact .call hp hx
  | empty =>
    unfold Statement.lower at h
    obtain ⟨rfl, rfl⟩ := gives_pure.mp h
    exact .empty
  | other form =>
    unfold Statement.lower at h
    exact absurd h gives_throw

/-- Whether other statements stand in a statement. -/
def Statement.isCompound : Statement → Bool
  | .block _ | .branch .. | .loop .. => true
  | _ => false

namespace Statement.LowersTo

/-! A statement with others in it by its parts. Recursions over statements use these, because they
leave the parts as they are. -/

theorem of_block {l : List Statement} {r : Option Stmt} {sc sc' : Scopes}
    (h : (Statement.block l).LowersTo sc r sc') :
    ∃ out, Gives (lowerList l) sc out sc' ∧ r = some (.block out) := by
  cases h with
  | block hl => exact ⟨_, hl, rfl⟩

theorem of_branch {init other : Option Statement} {cond : Node} {body : List Statement}
    {r : Option Stmt} {sc sc' : Scopes}
    (h : (Statement.branch init cond body other).LowersTo sc r sc') :
    ∃ start c yes no sc₁ sc₂ sc₃, Gives (lowerSimple init) ([] :: sc) start sc₁ ∧
      cond.lower = .ok c ∧ Gives (lowerList body) ([] :: sc₁) yes sc₂ ∧
      Gives (lowerElse other) (sc₂.drop 1) no sc₃ ∧
      r = some (.hoist start (.branch c (some (.block yes)) no)) ∧ sc' = sc₃.drop 1 := by
  cases h with
  | branch hi hc hb ho => exact ⟨_, _, _, _, _, _, _, hi, hc, hb, ho, rfl, rfl⟩

theorem of_loop {init step : Option Statement} {cond : Option Node} {body : List Statement}
    {r : Option Stmt} {sc sc' : Scopes}
    (h : (Statement.loop init cond step body).LowersTo sc r sc') :
    ∃ start c list next post sc₁ sc₂ sc₃, Gives (lowerSimple init) ([] :: sc) start sc₁ ∧
      lowerOption cond = .ok c ∧ Gives (lowerList body) ([] :: sc₁) list sc₂ ∧
      Gives (lowerSimple step) (sc₂.drop 1) next sc₃ ∧
      ((step = none ∧ post = []) ∨ ∃ x, next = some (.expr x) ∧ post = [x]) ∧
      r = some (.ofLoop start c post list) ∧ sc' = sc₃.drop 1 := by
  cases h with
  | loop hi hc hb hs hp => exact ⟨_, _, _, _, _, _, _, _, hi, hc, hb, hs, hp, rfl, rfl⟩

end Statement.LowersTo

/-! ## Lists and parts of statements -/

theorem gives_lowerList_nil {l : List Stmt} {sc sc' : Scopes} :
    Gives (lowerList []) sc l sc' ↔ [] = l ∧ sc = sc' := by
  unfold lowerList
  exact gives_pure

theorem gives_lowerList_cons {s : Statement} {rest : List Statement} {l : List Stmt}
    {sc sc' : Scopes} (h : Gives (lowerList (s :: rest)) sc l sc') :
    ∃ t sc₁ more, s.LowersTo sc t sc₁ ∧ Gives (lowerList rest) sc₁ more sc' ∧
      l = t.toList ++ more := by
  unfold lowerList at h
  obtain ⟨t, sc₁, hs, h⟩ := gives_bind.mp h
  obtain ⟨more, sc₂, hr, h⟩ := gives_bind.mp h
  obtain ⟨rfl, rfl⟩ := gives_pure.mp h
  exact ⟨t, sc₁, more, Statement.lowersTo hs, hr, rfl⟩

/-- The second arm of a branch is missing, a block with a scope of its own, or another branch. -/
theorem gives_lowerElse {other : Option Statement} {no : Option Stmt} {sc sc' : Scopes}
    (h : Gives (lowerElse other) sc no sc') :
    (other = none ∧ no = none ∧ sc = sc') ∨
      (∃ list out inner, other = some (.block list) ∧ Gives (lowerList list) ([] :: sc) out inner ∧
        no = some (.block out) ∧ sc' = inner.drop 1) ∨
      ∃ s t, other = some s ∧ (∀ list, s ≠ .block list) ∧ s.LowersTo sc t sc' ∧
        no = some (.block (Stmt.statements t)) := by
  unfold lowerElse at h
  split at h
  · obtain ⟨rfl, rfl⟩ := gives_pure.mp h
    exact Or.inl ⟨rfl, rfl, rfl⟩
  · next list =>
    obtain ⟨out, sc₁, hscope, h⟩ := gives_bind.mp h
    obtain ⟨inner, hl, rfl⟩ := gives_inScope.mp hscope
    obtain ⟨rfl, rfl⟩ := gives_pure.mp h
    exact Or.inr (Or.inl ⟨list, out, inner, rfl, hl, rfl, rfl⟩)
  · next s hs =>
    obtain ⟨t, sc₁, hl, h⟩ := gives_bind.mp h
    obtain ⟨rfl, rfl⟩ := gives_pure.mp h
    exact Or.inr (Or.inr ⟨s, t, rfl, hs, Statement.lowersTo hl, rfl⟩)

theorem gives_lowerElse_block {l : List Statement} {no : Option Stmt} {sc sc' : Scopes}
    (h : Gives (lowerElse (some (.block l))) sc no sc') :
    ∃ out inner, Gives (lowerList l) ([] :: sc) out inner ∧ no = some (.block out) ∧
      sc' = inner.drop 1 := by
  rcases gives_lowerElse h with ⟨⟨⟩, -⟩ | ⟨list, out, inner, he, hl, hno, hsc⟩ | ⟨s, t, he, hs, -⟩
  · cases he
    exact ⟨out, inner, hl, hno, hsc⟩
  · cases he
    exact absurd rfl (hs l)

theorem gives_lowerElse_statement {s : Statement} {no : Option Stmt} {sc sc' : Scopes}
    (hs : ∀ list, s ≠ .block list) (h : Gives (lowerElse (some s)) sc no sc') :
    ∃ t, s.LowersTo sc t sc' ∧ no = some (.block (Stmt.statements t)) := by
  rcases gives_lowerElse h with ⟨⟨⟩, -⟩ | ⟨list, -, -, he, -⟩ | ⟨s', t, he, -, hl, hno⟩
  · cases he
    exact absurd rfl (hs list)
  · cases he
    exact ⟨t, hl, hno⟩

/-- What a branch or loop starts with is missing or a simple statement. -/
theorem gives_lowerSimple {init : Option Statement} {start : Option Stmt} {sc sc' : Scopes}
    (h : Gives (lowerSimple init) sc start sc') :
    (init = none ∧ start = none ∧ sc = sc') ∨
      ∃ s, init = some s ∧ s.isSimple ∧ s.LowersTo sc start sc' := by
  unfold lowerSimple at h
  split at h
  · obtain ⟨rfl, rfl⟩ := gives_pure.mp h
    exact Or.inl ⟨rfl, rfl, rfl⟩
  · next s =>
    split at h
    · next hs => exact Or.inr ⟨s, rfl, hs, Statement.lowersTo h⟩
    · exact absurd h gives_throw

/-! ## The cases are all that is needed -/

theorem gives_stepExpr_of_step {step : Option Statement} {next : Option Stmt} {post : List Expr}
    {sc sc' : Scopes} (hs : Gives (lowerSimple step) sc next sc')
    (hp : (step = none ∧ post = []) ∨ ∃ x, next = some (.expr x) ∧ post = [x]) :
    Gives (stepExpr step next) sc' post sc' := by
  rcases gives_lowerSimple hs with ⟨rfl, rfl, -⟩ | ⟨s, rfl, -, -⟩
  · obtain ⟨-, rfl⟩ | ⟨x, ⟨⟩, -⟩ := hp
    exact gives_pure.mpr ⟨rfl, rfl⟩
  · obtain ⟨⟨⟩, -⟩ | ⟨x, rfl, rfl⟩ := hp
    exact gives_pure.mpr ⟨rfl, rfl⟩

theorem gives_lowerNames_of_cons {type name : String} {names : List String} {values : List Node}
    {value : Option Expr} {rest : List Stmt} {sc sc₁ sc' : Scopes}
    (hv : lowerOption values.head? = .ok value) (hd : sc.declare "ValueSpec" name = .ok sc₁)
    (hr : Gives (lowerNames type names (values.drop 1)) sc₁ rest sc') :
    Gives (lowerNames type (name :: names) values) sc (.decl name type value :: rest) sc' := by
  unfold lowerNames
  exact gives_bind.mpr ⟨_, _, gives_lift.mpr ⟨hv, rfl⟩, gives_bind.mpr ⟨(), _,
    gives_declareName.mpr hd, gives_bind.mpr ⟨_, _, hr, gives_pure.mpr ⟨rfl, rfl⟩⟩⟩⟩

theorem gives_lowerSpec_of_names {spec : ValueSpec} {l : List Stmt} {sc sc' : Scopes}
    (hlen : spec.values = [] ∨ spec.values.length = spec.names.length)
    (h : Gives (lowerNames (spec.type.elim "" Node.typeText) spec.names spec.values) sc l sc') :
    Gives (lowerSpec spec) sc l sc' := by
  unfold lowerSpec
  rw [if_neg (by rcases hlen with hlen | hlen <;> simp [hlen])]
  exact h

theorem gives_lowerList_of_cons {s : Statement} {rest : List Statement} {t : Option Stmt}
    {more : List Stmt} {sc sc₁ sc' : Scopes} (hs : Gives s.lower sc t sc₁)
    (hr : Gives (lowerList rest) sc₁ more sc') :
    Gives (lowerList (s :: rest)) sc (t.toList ++ more) sc' := by
  unfold lowerList
  exact gives_bind.mpr ⟨_, _, hs, gives_bind.mpr ⟨_, _, hr, gives_pure.mpr ⟨rfl, rfl⟩⟩⟩

theorem Statement.LowersTo.gives {s : Statement} {r : Option Stmt} {sc sc' : Scopes}
    (h : s.LowersTo sc r sc') : Gives s.lower sc r sc' := by
  cases h with
  | block hl =>
    unfold Statement.lower
    exact gives_bind.mpr ⟨_, _, hl, gives_pure.mpr ⟨rfl, rfl⟩⟩
  | branch hi hc hb ho =>
    unfold Statement.lower
    exact gives_inScope.mpr ⟨_, gives_bind.mpr ⟨_, _, hi,
      gives_bind.mpr ⟨_, _, gives_lift.mpr ⟨hc, rfl⟩,
        gives_bind.mpr ⟨_, _, gives_inScope.mpr ⟨_, hb, rfl⟩,
          gives_bind.mpr ⟨_, _, ho, gives_pure.mpr ⟨rfl, rfl⟩⟩⟩⟩⟩, rfl⟩
  | loop hi hc hb hs hp =>
    unfold Statement.lower
    exact gives_inScope.mpr ⟨_, gives_bind.mpr ⟨_, _, hi,
      gives_bind.mpr ⟨_, _, gives_lift.mpr ⟨hc, rfl⟩,
        gives_bind.mpr ⟨_, _, gives_inScope.mpr ⟨_, hb, rfl⟩,
          gives_bind.mpr ⟨_, _, hs, gives_bind.mpr ⟨_, _, gives_stepExpr_of_step hs hp,
            gives_pure.mpr ⟨rfl, rfl⟩⟩⟩⟩⟩⟩, rfl⟩
  | retNone =>
    unfold Statement.lower lowerReturn
    exact gives_map.mpr ⟨_, gives_pure.mpr ⟨rfl, rfl⟩, rfl⟩
  | ret hx =>
    unfold Statement.lower lowerReturn
    exact gives_map.mpr ⟨_, gives_bind.mpr ⟨_, _, gives_lift.mpr ⟨hx, rfl⟩,
      gives_pure.mpr ⟨rfl, rfl⟩⟩, rfl⟩
  | define hx hd =>
    unfold Statement.lower lowerAssign
    exact gives_map.mpr ⟨_, gives_bind.mpr ⟨_, _, gives_lift.mpr ⟨hx, rfl⟩,
      gives_bind.mpr ⟨(), _, gives_declareName.mpr hd, gives_pure.mpr ⟨rfl, rfl⟩⟩⟩, rfl⟩
  | @assign op aop name x y sc hop hx =>
    have hne : op ≠ .define := by
      rintro rfl
      cases hop
    unfold Statement.lower lowerAssign
    refine gives_map.mpr ⟨_, gives_bind.mpr ⟨_, _, gives_lift.mpr ⟨hx, rfl⟩, ?_⟩, rfl⟩
    rw [if_neg hne]
    simp only [hop]
    exact gives_pure.mpr ⟨rfl, rfl⟩
  | count up hx =>
    unfold Statement.lower
    exact gives_bind.mpr ⟨_, _, gives_lift.mpr ⟨hx, rfl⟩, gives_pure.mpr ⟨rfl, rfl⟩⟩
  | vars hd =>
    unfold Statement.lower lowerVars
    exact gives_map.mpr ⟨_, gives_bind.mpr ⟨_, _, hd, gives_pure.mpr ⟨rfl, rfl⟩⟩, rfl⟩
  | throw spread hv =>
    unfold Statement.lower
    refine gives_map.mpr ⟨_, gives_lift.mpr ⟨?_, rfl⟩, rfl⟩
    simp only [lowerCall, hv]
    rfl
  | @call callee args spread y sc hp hx =>
    unfold Statement.lower
    refine gives_map.mpr ⟨_, gives_lift.mpr ⟨?_, rfl⟩, rfl⟩
    unfold lowerCall
    split
    · next v spread' he =>
      cases he
      exact absurd rfl (hp v rfl)
    · simp only [hx]
      rfl
    · next hne => exact absurd rfl (hne callee args spread)
  | empty =>
    unfold Statement.lower
    exact gives_pure.mpr ⟨rfl, rfl⟩

theorem gives_lowerElse_of_lowersTo {s : Statement} {t : Option Stmt} {sc sc' : Scopes}
    (hs : ∀ list, s ≠ .block list) (h : s.LowersTo sc t sc') :
    Gives (lowerElse (some s)) sc (some (.block (Stmt.statements t))) sc' := by
  unfold lowerElse
  split
  · next he => cases he
  · next list he =>
    cases he
    exact absurd rfl (hs list)
  · next s' _ he =>
    cases he
    exact gives_bind.mpr ⟨_, _, h.gives, gives_pure.mpr ⟨rfl, rfl⟩⟩

/-! ## Functions -/

namespace FuncDecl

/-- A function is lowered by lowering its statements, where the names of its head are visible. -/
theorem lower_eq_ok {f : FuncDecl} {fn : Function} (h : f.lower = .ok fn) :
    ∃ body sc, f.body = some body ∧ Gives (lowerList body.list) [f.headNames] fn.body sc := by
  unfold lower at h
  cases hb : f.body with
  | none => simp [hb] at h
  | some body =>
    simp only [hb] at h
    split at h
    · next list sc hrun =>
      cases h
      exact ⟨body, sc, rfl, hrun⟩
    · cases h

theorem lower_of_gives {f : FuncDecl} {body : Body} {out : List Stmt} {sc : Scopes}
    (hb : f.body = some body) (h : Gives (lowerList body.list) [f.headNames] out sc) :
    f.lower = .ok ⟨f.qualifiedName, f.namedParams, f.resultTypes, out⟩ := by
  have hrun : (lowerList body.list).run [f.headNames] = .ok (out, sc) := h
  simp only [lower, hb, hrun]

/-- What a declaration is lowered to. One that is refused gives a function that does nothing. -/
def lowered (f : FuncDecl) : Function :=
  f.lower.toOption.getD ⟨f.qualifiedName, f.namedParams, f.resultTypes, []⟩

theorem lower_eq_lowered {f : FuncDecl} (h : f.lower.toOption.isSome) :
    f.lower = .ok f.lowered := by
  unfold lowered
  cases hf : f.lower with
  | error fault => simp [hf, Except.toOption] at h
  | ok fn => rfl

/-- A function of a number `a` that gives a number. -/
def ofStatements (name : String) (list : List Statement) : FuncDecl where
  doc := none
  place := .start
  receiver := none
  name := name
  params := [.field ["a"] (.ident "int")]
  results := [.field [] (.ident "int")]
  body := some ⟨.start, .start, list⟩
  decisions := 1

end FuncDecl

end Source

end PathTree
