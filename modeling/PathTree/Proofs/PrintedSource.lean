import PathTree.Proofs.Printable

/-!
# Sources that are read back

A printable statement has a source form, and lowering that form gives the statement again, up to
parentheses, unless a declaration in it is refused because its name is visible there. So the body of
a function that was lowered can be printed and lowered again, and so can each body with its paths
laid out (`FuncDecl.lower_printed`).
-/

namespace PathTree

open Source Lower

/-! ## Trees without parentheses -/

mutual
/-- An expression without parentheses. -/
def Expr.bare : Expr → Expr
  | .lit l => .lit l
  | .ident name => .ident name
  | .binary op x y => .binary op x.bare y.bare
  | .pre op x => .pre op x.bare
  | .post op x => .post op x.bare
  | .paren x => x.bare
  | .cast type x => .cast type x.bare
  | .call f args => .call f.bare (Expr.bareList args)
  | .member x sel => .member x.bare sel
  | .assign op name value => .assign op name value.bare

/-- Expressions without parentheses. -/
def Expr.bareList : List Expr → List Expr
  | [] => []
  | x :: rest => x.bare :: Expr.bareList rest
end

mutual
/-- A statement with all expressions in it without parentheses. -/
def Stmt.bare : Stmt → Stmt
  | .block list => .block (Stmt.bareList list)
  | .branch c yes no => .branch c.bare (Stmt.bareArm yes) (Stmt.bareArm no)
  | .whileLoop c body => .whileLoop c.bare (Stmt.bareArm body)
  | .forLoop init c step body =>
    .forLoop (Stmt.bareArm init) (c.map Expr.bare) (Expr.bareList step) (Stmt.bareArm body)
  | .ret v => .ret (v.map Expr.bare)
  | .throw v => .throw (v.map Expr.bare)
  | .expr x => .expr x.bare
  | .decl name type v => .decl name type (v.map Expr.bare)

/-- An arm without parentheses. -/
def Stmt.bareArm : Option Stmt → Option Stmt
  | none => none
  | some s => some s.bare

/-- Statements without parentheses. -/
def Stmt.bareList : List Stmt → List Stmt
  | [] => []
  | s :: rest => s.bare :: Stmt.bareList rest
end

/-! ## Expressions -/

/-- A node is lowered to an expression, up to parentheses. -/
def Source.Node.ReadsAs (n : Node) (x : Expr) : Prop := ∃ y, n.lower = .ok y ∧ y.bare = x.bare

/-- Whether a source expression is a name and nothing else. -/
def Source.Node.isName (name : String) : Node → Bool
  | .ident n => n == name
  | _ => false

/-- The name of a type that converts is read as a name. -/
theorem typeNode_conversion {type : String} (h : type ∈ conversionTypes) :
    typeNode type = .ok (.ident type) := by
  have hall : ∀ t ∈ conversionTypes, (typeNode t).toOption.any (Node.isName t) := by
    with_unfolding_all decide
  have ht := hall type h
  cases hn : typeNode type with
  | error fault =>
    rw [hn] at ht
    cases ht
  | ok n =>
    rw [hn] at ht
    cases n with
    | ident name => rw [eq_of_beq (show (name == type) = true from ht)]
    | _ => cases ht

/-- The sign of a number is printed as an operator, and becomes part of the number again. -/
theorem Literal.toSource_signed (form : LiteralForm) {kind : LitKind} (text : String)
    (hn : (Node.literal form text).isNumber) (hk : form.kind? = some kind) :
    ∃ n, Literal.toSource ⟨kind, text⟩ = .ok n ∧ n.lower = .ok (.lit ⟨kind, text⟩) ∧
      ((Expr.lit ⟨kind, text⟩).isPlainNumber = false → n.isNumber = false) := by
  by_cases hs : ∃ rest, text.toList = '-' :: rest
  · obtain ⟨rest, ht⟩ := hs
    have htext : "-" ++ String.ofList rest = text := by
      apply String.toList_inj.mp
      simp [ht]
    refine ⟨.unary .neg (.literal form (String.ofList rest)), ?_, ?_, fun _ => rfl⟩
    · cases form <;> cases hk <;> simp_all [Node.isNumber, toSource]
    · cases form <;> cases hk <;> simp_all [Node.isNumber, Node.lower]
  · have hhead : (text.toList.head? != some '-') = true := by
      cases hl : text.toList with
      | nil => rfl
      | cons c rest =>
        have : c ≠ '-' := fun hc => hs ⟨rest, by rw [hl, hc]⟩
        simpa using this
    refine ⟨.literal form text, ?_, by rw [Node.lower, hk], fun hplain => ?_⟩
    · cases form with
      | int | float =>
        cases hk
        simp only [toSource]
        split
        · next rest ht => exact absurd ⟨rest, ht⟩ hs
        · rfl
      | _ => cases hn
    · cases form <;> cases hk <;> simp_all [Node.isNumber, Expr.isPlainNumber]

theorem Literal.toSource_printable {l : Literal} (h : l.isPrintable) :
    ∃ n, l.toSource = .ok n ∧ n.lower = .ok (.lit l) ∧
      ((Expr.lit l).isPlainNumber = false → n.isNumber = false) := by
  obtain ⟨kind, text⟩ := l
  cases kind with
  | int => exact toSource_signed .int text rfl rfl
  | float => exact toSource_signed .float text rfl rfl
  | string =>
    simp only [Literal.toSource]
    split
    · next rest ht => simp [isPrintable, ht] at h
    · exact ⟨_, rfl, rfl, fun _ => rfl⟩
  | char =>
    simp only [Literal.toSource]
    split
    · next rest ht => simp [isPrintable, ht] at h
    · exact ⟨_, rfl, rfl, fun _ => rfl⟩
  | bool =>
    simp only [isPrintable, Bool.or_eq_true, beq_iff_eq] at h
    rcases h with rfl | rfl <;> exact ⟨_, rfl, rfl, fun _ => rfl⟩
  | nil =>
    simp only [isPrintable, beq_iff_eq] at h
    subst h
    exact ⟨_, rfl, rfl, fun _ => rfl⟩
  | invalid => cases h

/-- Parentheses around a node do not matter. -/
theorem Source.Node.ReadsAs.paren {n : Node} {x : Expr} (h : n.ReadsAs x) :
    (Node.paren n).ReadsAs x := by
  obtain ⟨y, hy, he⟩ := h
  exact ⟨.paren y, by simp only [Node.lower, hy]; rfl, by rw [Expr.bare, he]⟩

theorem Source.Node.ReadsAs.wrapNode {n : Node} {x : Expr} (h : n.ReadsAs x) (least : Nat)
    (y : Expr) : (wrapNode least y n).ReadsAs x := by
  unfold PathTree.wrapNode
  split
  · split
    · exact h
    · exact h.paren
  · exact h

theorem isNumber_wrapNode {n : Node} (h : n.isNumber = false) (least : Nat) (x : Expr) :
    (wrapNode least x n).isNumber = false := by
  unfold wrapNode
  split
  · split
    · exact h
    · rfl
  · exact h

theorem nameExpr_of_notMem {name : String} (h : name ∉ literalNames) :
    nameExpr name = .ident name := by
  simp only [literalNames, List.mem_cons, List.not_mem_nil, or_false, not_or] at h
  simp [nameExpr, h]

theorem toSource_args {args : List Expr} (h : ∀ x ∈ args, ∃ n, x.toSource = .ok n ∧ n.ReadsAs x) :
    ∃ ns ys, Expr.listToSource args = .ok ns ∧ lowerArgs ns = .ok ys ∧
      Expr.bareList ys = Expr.bareList args := by
  induction args with
  | nil => exact ⟨[], [], rfl, rfl, rfl⟩
  | cons x rest ih =>
    obtain ⟨⟨n, hn, y, hy, he⟩, hrest⟩ := List.forall_mem_cons.mp h
    obtain ⟨ns, ys, hns, hys, hes⟩ := ih hrest
    exact ⟨n :: ns, y :: ys, by simp only [Expr.listToSource, hn, hns]; rfl,
      by simp only [lowerArgs, hy, hys]; rfl, by rw [Expr.bareList, Expr.bareList, he, hes]⟩

theorem length_listToSource {args : List Expr} {ns : List Node}
    (h : Expr.listToSource args = .ok ns) : ns.length = args.length := by
  induction args generalizing ns with
  | nil =>
    cases h
    rfl
  | cons x rest ih =>
    simp only [Expr.listToSource] at h
    obtain ⟨n, -, h⟩ := bind_eq_ok.mp h
    obtain ⟨more, hmore, h⟩ := bind_eq_ok.mp h
    cases h
    simp [ih hmore]

/-- A call of a name that converts nothing is read as a call. -/
theorem bare_namedCall {name : String} {args ys : List Expr}
    (hn : ∀ x, args = [x] → name ∉ conversionTypes)
    (h : Expr.bareList ys = Expr.bareList args) :
    (namedCall name ys).bare = (Expr.call (.ident name) args).bare := by
  obtain ⟨y, rfl, hconv, -⟩ | ⟨-, hc⟩ := namedCall_cases name ys
  · -- One argument is read, so one was printed.
    cases args with
    | nil => cases h
    | cons x rest =>
      cases rest with
      | nil => exact absurd hconv (hn x rfl)
      | cons x' rest => simp [Expr.bareList] at h
  · simp only [hc, Expr.bare, h]

/-- A printable expression has a source form that is read as the expression. -/
theorem Expr.Printable.toSource {x : Expr} (h : x.Printable) :
    ∃ n, x.toSource = .ok n ∧ n.ReadsAs x ∧ (x.isPlainNumber = false → n.isNumber = false) := by
  induction h with
  | lit h =>
    obtain ⟨n, hn, hl, hnum⟩ := Literal.toSource_printable h
    exact ⟨n, by simpa only [Expr.toSource] using hn, ⟨_, hl, rfl⟩, hnum⟩
  | @ident name h =>
    exact ⟨.ident name, rfl, ⟨_, rfl, by rw [nameExpr_of_notMem h]⟩, fun _ => rfl⟩
  | @binary op x y hop hx hy ihx ihy =>
    obtain ⟨l, hl, hlx, -⟩ := ihx
    obtain ⟨r, hr, hry, -⟩ := ihy
    obtain ⟨l', hl', hel⟩ := hlx.wrapNode op.precedence x
    obtain ⟨r', hr', her⟩ := hry.wrapNode (op.precedence + 1) y
    have hbin : (InfixOp.base op).binary? = some op := by
      cases op <;> first | rfl | exact absurd rfl hop
    exact ⟨_, by simp only [Expr.toSource, hl, hr]; rfl, ⟨.binary op l' r', by
      simp only [Node.lower, hbin, hl', hr']; rfl, by rw [Expr.bare, Expr.bare, hel, her]⟩,
      fun _ => rfl⟩
  | @pre op x hop hneg hx ih =>
    obtain ⟨n, hn, hnx, hnum⟩ := ih
    obtain ⟨pop, hpop⟩ := Option.isSome_iff_exists.mp hop
    have hun : pop.unary? = some op := by cases op <;> cases hpop <;> rfl
    have hin := hnx.wrapNode Expr.primaryPrecedence x
    have hinner : ∃ inner, (if x.isSigned then .paren (wrapNode Expr.primaryPrecedence x n)
          else wrapNode Expr.primaryPrecedence x n) = inner ∧ inner.ReadsAs x ∧
        (pop = .neg → inner.isNumber = false) := by
      refine ⟨_, rfl, ?_, fun hp => ?_⟩
      · split
        · exact hin.paren
        · exact hin
      · split
        · rfl
        · refine isNumber_wrapNode (hnum (hneg ?_)) _ _
          subst hp
          cases hun
          rfl
    obtain ⟨inner, hi, ⟨y, hy, he⟩, hnumber⟩ := hinner
    refine ⟨.unary pop inner, by rw [← hi]; simp only [Expr.toSource, hpop, hn]; rfl,
      ⟨.pre op y, ?_, ?_⟩, fun _ => rfl⟩
    · rw [Node.lower_unary hun hnumber, hy]
      rfl
    · rw [Expr.bare, Expr.bare, he]
  | @paren x hx ih =>
    obtain ⟨n, hn, ⟨y, hy, he⟩, -⟩ := ih
    exact ⟨.paren n, by simp only [Expr.toSource, hn]; rfl,
      ⟨.paren y, by simp only [Node.lower, hy]; rfl, by rw [Expr.bare, Expr.bare, he]⟩,
      fun _ => rfl⟩
  | @cast type x ht hx ih =>
    obtain ⟨n, hn, ⟨y, hy, he⟩, -⟩ := ih
    have hcast : namedCall type [y] = .cast type y := by simp [namedCall, ht]
    refine ⟨.call (.ident type) [n] false, ?_, ⟨.cast type y, ?_, ?_⟩, fun _ => rfl⟩
    · simp only [Expr.toSource, typeNode_conversion ht, hn]
      rfl
    · rw [← hcast]
      simp only [Node.lower, lowerArgs, hy]
      rfl
    · rw [Expr.bare, Expr.bare, he]
  | @named name args hn ha ih =>
    obtain ⟨ns, ys, hns, hys, he⟩ := toSource_args fun x hx =>
      (ih x hx).imp fun n h => ⟨h.1, h.2.1⟩
    exact ⟨.call (.ident name) ns false, by simp only [Expr.toSource, hns]; rfl,
      ⟨namedCall name ys, by simp only [Node.lower, hys]; rfl, bare_namedCall hn he⟩, fun _ => rfl⟩
  | @method x sel args hx ha ihx ih =>
    obtain ⟨n, hn, ⟨y, hy, hey⟩, -⟩ := ihx
    obtain ⟨ns, ys, hns, hys, he⟩ := toSource_args fun x hx =>
      (ih x hx).imp fun n h => ⟨h.1, h.2.1⟩
    exact ⟨.call (.selector n sel) ns false, by simp only [Expr.toSource, hn, hns]; rfl,
      ⟨.call (.member y sel) ys, by simp only [Node.lower, hys, hy]; rfl, by
        rw [Expr.bare, Expr.bare, Expr.bare, Expr.bare, hey, he]⟩, fun _ => rfl⟩
  | @member x sel hx ih =>
    obtain ⟨n, hn, ⟨y, hy, he⟩, -⟩ := ih
    exact ⟨.selector n sel, by simp only [Expr.toSource, hn]; rfl,
      ⟨.member y sel, by simp only [Node.lower, hy]; rfl, by rw [Expr.bare, Expr.bare, he]⟩,
      fun _ => rfl⟩

/-! ## Steps that only a clash of names can stop -/

/-- The faults of a declaration whose name is visible where it stands. -/
inductive Fault.Clash : Fault → Prop
  | redeclared (what name : String) : Clash (.unsupported what ("redeclared variable " ++ name))
  | shadowed (what name : String) : Clash (.unsupported what ("shadowed variable " ++ name))

namespace Source.Lower

variable {α β : Type}

/-- In all scopes, a step of lowering gives what it should or is stopped by a clash of names. -/
def Reads (x : Lower α) (p : α → Prop) : Prop :=
  ∀ sc, (∃ a sc', Gives x sc a sc' ∧ p a) ∨ ∃ f, x.run sc = .error f ∧ f.Clash

theorem reads_pure {a : α} {p : α → Prop} (h : p a) : Reads (pure a) p :=
  fun sc => Or.inl ⟨a, sc, gives_pure.mpr ⟨rfl, rfl⟩, h⟩

theorem reads_lift {r : Except Fault α} {a : α} {p : α → Prop} (hr : r = .ok a) (h : p a) :
    Reads (liftM r) p :=
  fun sc => Or.inl ⟨a, sc, gives_lift.mpr ⟨hr, rfl⟩, h⟩

theorem Reads.bind {x : Lower α} {f : α → Lower β} {p : α → Prop} {q : β → Prop} (hx : Reads x p)
    (hf : ∀ a, p a → Reads (f a) q) : Reads (x >>= f) q := by
  intro sc
  rcases hx sc with ⟨a, sc₁, ha, hp⟩ | ⟨fault, he, hclash⟩
  · rcases hf a hp sc₁ with ⟨b, sc₂, hb, hq⟩ | ⟨fault, he, hclash⟩
    · exact Or.inl ⟨b, sc₂, gives_bind.mpr ⟨a, sc₁, ha, hb⟩, hq⟩
    · refine Or.inr ⟨fault, ?_, hclash⟩
      rw [StateT.run_bind, bind_eq_error]
      exact Or.inr ⟨(a, sc₁), ha, he⟩
  · refine Or.inr ⟨fault, ?_, hclash⟩
    rw [StateT.run_bind, bind_eq_error]
    exact Or.inl he

theorem Reads.map {x : Lower α} {f : α → β} {p : α → Prop} {q : β → Prop} (hx : Reads x p)
    (hf : ∀ a, p a → q (f a)) : Reads (f <$> x) q := by
  rw [← bind_pure_comp]
  exact hx.bind fun a ha => reads_pure (hf a ha)

/-- A step in a scope of its own reads what it reads anywhere. -/
theorem Reads.inScope {x : Lower α} {p : α → Prop} (hx : Reads x p) : Reads (inScope x) p := by
  intro sc
  rcases hx ([] :: sc) with ⟨a, inner, ha, hp⟩ | ⟨fault, he, hclash⟩
  · exact Or.inl ⟨a, inner.drop 1, gives_inScope.mpr ⟨inner, ha, rfl⟩, hp⟩
  · refine Or.inr ⟨fault, ?_, hclash⟩
    unfold Source.inScope
    rw [StateT.run_bind, bind_eq_error]
    refine Or.inr ⟨((), [] :: sc), rfl, ?_⟩
    rw [StateT.run_bind, bind_eq_error]
    exact Or.inl he

theorem reads_declareName (what name : String) : Reads (declareName what name) fun _ => True := by
  intro sc
  have hrun : ∀ f, sc.declare what name = .error f → (declareName what name).run sc = .error f := by
    intro f hf
    unfold declareName
    rw [StateT.run_bind, bind_eq_error]
    refine Or.inr ⟨(sc, sc), rfl, ?_⟩
    rw [StateT.run_bind, bind_eq_error]
    exact Or.inl (by rw [hf]; rfl)
  by_cases hd : ∃ sc', sc.declare what name = .ok sc'
  · obtain ⟨sc', hd⟩ := hd
    exact Or.inl ⟨(), sc', gives_declareName.mpr hd, trivial⟩
  · by_cases hb : name = "_"
    · exact absurd ⟨sc, by rw [hb, Scopes.declare_blank]⟩ hd
    · by_cases hm : name ∈ sc.flatten
      · rcases Scopes.declare_of_mem what hb hm with he | he
        · exact Or.inr ⟨_, hrun _ he, .redeclared what name⟩
        · exact Or.inr ⟨_, hrun _ he, .shadowed what name⟩
      · exact absurd ⟨_, Scopes.declare_of_notMem what hb hm⟩ hd

end Source.Lower

/-! ## Statements -/

/-- A statement is lowered to a statement, up to parentheses. -/
def Source.Statement.ReadsAs (st : Statement) (s : Stmt) : Prop :=
  Reads st.lower fun r => ∃ t, r = some t ∧ t.bare = s.bare

/-- A call in source form that is not one of `panic` with one argument is lowered as it stands. -/
theorem lowerCall_call {callee : Node} {args : List Node} {spread : Bool} {y : Expr}
    (hp : ∀ v, callee = .ident "panic" → args ≠ [v])
    (h : (Node.call callee args spread).lower = .ok y) :
    lowerCall (.call callee args spread) = .ok (.expr y) := by
  unfold lowerCall
  split
  · next v spread' hc =>
    cases hc
    exact absurd rfl (hp v rfl)
  · rw [h]
    rfl
  · next hne => exact absurd rfl (hne callee args spread)

theorem readsAs_expr {n : Node} {s t : Stmt} (h : lowerCall n = .ok t) (he : t.bare = s.bare) :
    (Statement.expr n).ReadsAs s := by
  unfold Statement.ReadsAs Statement.lower
  exact (reads_lift (p := fun t => t.bare = s.bare) h he).map fun t ht => ⟨t, rfl, ht⟩

/-- The value of a declaration, return or throw in source form. -/
theorem optToSource_printable {v : Option Expr} (h : ∀ x ∈ v, x.Printable) :
    ∃ (n : Option Node) (y : Option Expr), Expr.optToSource v = .ok n ∧ lowerOption n = .ok y ∧
      y.map Expr.bare = v.map Expr.bare := by
  cases v with
  | none => exact ⟨none, none, rfl, rfl, rfl⟩
  | some x =>
    obtain ⟨n, hn, ⟨y, hy, he⟩, -⟩ := (h x rfl).toSource
    exact ⟨some n, some y, by simp only [Expr.optToSource, hn]; rfl,
      by simp only [lowerOption, hy]; rfl, by simp [he]⟩

/-- An expression that is a statement has a source form that is simple and is read as it. -/
theorem Expr.Performed.toStatement {x : Expr} (h : x.Performed) :
    ∃ st, x.toStatement = .ok st ∧ st.isSimple ∧ st.ReadsAs (.expr x) := by
  cases h with
  | @assign op name value hop hv =>
    obtain ⟨n, hn, ⟨y, hy, he⟩, -⟩ := hv.toSource
    have hset : (SetOp.base op).assign? = some op := by
      cases op <;> first | rfl | exact absurd rfl hop
    refine ⟨.assign [.ident name] (.base op) [n], by simp only [Expr.toStatement, hn]; rfl, rfl, ?_⟩
    unfold Statement.ReadsAs Statement.lower lowerAssign
    refine Reads.map (p := fun t => t.bare = (Stmt.expr (.assign op name value)).bare) ?_
      fun t ht => ⟨t, rfl, ht⟩
    refine (reads_lift (p := fun z => z = y) hy rfl).bind ?_
    rintro _ rfl
    simp only [hset, reduceCtorEq, if_false]
    exact reads_pure (by simp only [Stmt.bare, Expr.bare, he])
  | @post op x hop hx =>
    obtain ⟨n, hn, ⟨y, hy, he⟩, -⟩ := hx.toSource
    refine ⟨.count n (op != .dec), by simp only [Expr.toStatement, hn]; rfl, rfl, ?_⟩
    unfold Statement.ReadsAs Statement.lower
    refine (reads_lift (p := fun z => z = y) hy rfl).bind ?_
    rintro _ rfl
    refine reads_pure ⟨_, rfl, ?_⟩
    simp only [Stmt.bare, Expr.bare, he]
    cases op <;> first | rfl | cases hop
  | @cast type x h =>
    obtain ⟨n, hn, ⟨y, hy, he⟩, -⟩ := h.toSource
    cases h with
    | cast ht hx =>
      have hpanic : type ≠ "panic" := by
        rintro rfl
        revert ht
        decide
      refine ⟨.expr n, by simp only [Expr.toStatement, hn]; rfl, rfl, ?_⟩
      simp only [Expr.toSource, typeNode_conversion ht] at hn
      obtain ⟨callee, hcallee, hn⟩ := bind_eq_ok.mp hn
      obtain ⟨inner, -, hnode⟩ := bind_eq_ok.mp hn
      cases hcallee
      cases hnode
      refine readsAs_expr (lowerCall_call (fun _ hc => ?_) hy) (by simp only [Stmt.bare, he])
      cases hc
      exact absurd rfl hpanic
  | @call f args h hp =>
    obtain ⟨n, hn, ⟨y, hy, he⟩, -⟩ := h.toSource
    refine ⟨.expr n, by simp only [Expr.toStatement, hn]; rfl, rfl, ?_⟩
    simp only [Expr.toSource] at hn
    obtain ⟨callee, hcallee, hn⟩ := bind_eq_ok.mp hn
    obtain ⟨ns, hns, hnode⟩ := bind_eq_ok.mp hn
    cases hnode
    refine readsAs_expr (lowerCall_call (fun v hc hv => ?_) hy) (by simp only [Stmt.bare, he])
    -- The callee is printed as the name `panic` only if it is that name.
    have hlen := length_listToSource hns
    rw [hv] at hlen
    obtain ⟨x, rfl⟩ := List.length_eq_one_iff.mp hlen.symm
    cases h with
    | named =>
      cases hcallee
      cases hc
      exact hp x rfl rfl
    | method hx ha =>
      simp only [Expr.toSource] at hcallee
      obtain ⟨z, -, hsel⟩ := bind_eq_ok.mp hcallee
      rw [hc] at hsel
      cases hsel

theorem reads_lowerList {l : List Stmt}
    (h : ∀ s ∈ l, ∃ st, s.toSource = .ok st ∧ st.ReadsAs s) :
    ∃ out, Stmt.listToSource l = .ok out ∧
      Reads (lowerList out) fun l' => Stmt.bareList l' = Stmt.bareList l := by
  induction l with
  | nil =>
    refine ⟨[], rfl, ?_⟩
    unfold lowerList
    exact reads_pure rfl
  | cons s rest ih =>
    obtain ⟨⟨st, hst, hs⟩, hrest⟩ := List.forall_mem_cons.mp h
    obtain ⟨out, hout, hreads⟩ := ih hrest
    refine ⟨st :: out, by simp only [Stmt.listToSource, hst, hout]; rfl, ?_⟩
    unfold lowerList
    refine hs.bind ?_
    rintro _ ⟨t, rfl, ht⟩
    refine hreads.bind fun l' hl' => reads_pure ?_
    simp only [Option.toList_some, List.singleton_append, Stmt.bareList, ht, hl']

/-- A short declaration is read as the declaration of its name. -/
theorem readsAs_define {name : String} {n : Node} {y : Expr} (hy : n.lower = .ok y) :
    (Statement.assign [.ident name] .define [n]).ReadsAs (.declare name (some y)) := by
  unfold Statement.ReadsAs Statement.lower lowerAssign
  refine Reads.map (p := fun t => t.bare = (Stmt.declare name (some y)).bare) ?_
    fun t ht => ⟨t, rfl, ht⟩
  refine (reads_lift (p := fun z => z = y) hy rfl).bind ?_
  rintro _ rfl
  simp only [if_true]
  exact (reads_declareName _ _).bind fun _ _ => reads_pure rfl

/-- The declaration of one variable with a type is read as the declaration of its name. -/
theorem readsAs_vars {name : String} {type : Node} {n : Option Node} {y : Option Expr}
    (hy : lowerOption n = .ok y) :
    (Statement.vars [⟨[name], some type, n.toList⟩]).ReadsAs (.decl name type.typeText y) := by
  unfold Statement.ReadsAs Statement.lower lowerVars
  have hhead : n.toList.head? = n := by cases n <;> rfl
  have hlen : (!n.toList.isEmpty && n.toList.length != [name].length) = false := by
    cases n <;> rfl
  have hspec : Reads (lowerSpec ⟨[name], some type, n.toList⟩) fun l =>
      l = [.decl name type.typeText y] := by
    unfold lowerSpec
    simp only [hlen, Bool.false_eq_true, if_false, Option.elim_some]
    unfold lowerNames
    rw [hhead]
    refine (reads_lift (p := fun z => z = y) hy rfl).bind ?_
    rintro _ rfl
    refine (reads_declareName _ _).bind fun _ _ => ?_
    unfold lowerNames
    exact (reads_pure (p := fun l => l = []) rfl).bind fun l hl => reads_pure (by rw [hl])
  refine Reads.map (p := fun t => t = .decl name type.typeText y) ?_
    fun t ht => ⟨t, rfl, by rw [ht]⟩
  refine Reads.bind (p := fun decls => decls = [[.decl name type.typeText y]]) ?_ fun decls hd =>
    reads_pure (by rw [hd]; rfl)
  rw [List.mapM_cons, List.mapM_nil]
  exact hspec.bind fun l hl => (reads_pure (p := fun l => l = []) rfl).bind fun more hmore =>
    reads_pure (by rw [hl, hmore])

theorem readsAs_congr {st : Statement} {s t : Stmt} (h : st.ReadsAs s) (he : s.bare = t.bare) :
    st.ReadsAs t := by
  unfold Statement.ReadsAs at h ⊢
  rwa [← he]

theorem declToSource_printable (name : String) {type : String} {v : Option Expr}
    (ht : type = "" → v.isSome) (hr : type ≠ "" → rendersBack type) (hv : ∀ x ∈ v, x.Printable) :
    ∃ st, declToSource name type v = .ok st ∧ st.ReadsAs (.decl name type v) ∧
      (type = "" → st.isSimple) := by
  obtain ⟨n, y, hn, hy, he⟩ := optToSource_printable hv
  by_cases hempty : type = ""
  · subst hempty
    obtain ⟨x, rfl⟩ := Option.isSome_iff_exists.mp (ht rfl)
    obtain ⟨-, rfl⟩ | ⟨n, z, rfl, hz, rfl⟩ := lowerOption_eq_ok hy
    · cases he
    · refine ⟨.assign [.ident name] .define [n], by simp only [declToSource, hn]; rfl,
        readsAs_congr (readsAs_define hz) ?_, fun _ => rfl⟩
      simp only [Stmt.declare, Stmt.bare, he]
  · obtain ⟨node, hnode, hback⟩ : ∃ node, typeNode type = .ok node ∧ node.typeText = type := by
      have := hr hempty
      unfold rendersBack at this
      cases hnode : typeNode type with
      | error f => simp [hnode, Except.toOption] at this
      | ok node => exact ⟨node, rfl, by simpa [hnode, Except.toOption] using this⟩
    refine ⟨.vars [⟨[name], some node, n.toList⟩], ?_, readsAs_congr (readsAs_vars hy) ?_,
      fun h => absurd h hempty⟩
    · simp only [declToSource, hn, hnode, hempty, if_false]
      rfl
    · simp only [Stmt.bare, hback, he]

/-- Loops with equal parts are equal up to parentheses, where a while loop is none with other parts
than a condition. -/
theorem bare_ofLoop {init init' : Option Stmt} {c c' : Option Expr} {step step' : List Expr}
    {body body' : List Stmt} (hne : init = none → c.isSome → step ≠ [])
    (hi : Stmt.bareArm init' = Stmt.bareArm init) (hc : c'.map Expr.bare = c.map Expr.bare)
    (hs : Expr.bareList step' = Expr.bareList step)
    (hb : Stmt.bareList body' = Stmt.bareList body) :
    (Stmt.ofLoop init' c' step' body').bare =
      (Stmt.forLoop init c step (some (.block body))).bare := by
  unfold Stmt.ofLoop
  split
  · next c' =>
    have hnone : init = none := by
      cases init with
      | none => rfl
      | some s => cases hi
    have hsome : c.isSome := by
      cases c with
      | none => cases hc
      | some c => rfl
    have hempty : step = [] := by
      cases step with
      | nil => rfl
      | cons x step => cases hs
    exact absurd hempty (hne hnone hsome)
  · simp only [Stmt.bare, Stmt.bareArm, hi, hc, hs, hb]

/-- Statements that may start a loop have a simple source form. -/
theorem isSimple_toSource {s : Stmt} {st : Statement} (hs : s.isStart) (hp : s.Printable)
    (h : s.toSource = .ok st) : st.isSimple := by
  cases hp with
  | throw hx =>
    simp only [Stmt.toSource] at h
    obtain ⟨n, -, h⟩ := bind_eq_ok.mp h
    cases h
    rfl
  | expr hx =>
    obtain ⟨st', hst', hsimple, -⟩ := hx.toStatement
    simp only [Stmt.toSource, hst'] at h
    cases h
    exact hsimple
  | @decl name type v ht hr hv =>
    obtain ⟨st', hst', -, hsimple⟩ := declToSource_printable name ht hr hv
    simp only [Stmt.toSource, hst'] at h
    cases h
    exact hsimple (by simpa [Stmt.isStart] using hs)
  | _ => simp [Stmt.isStart] at hs

theorem reads_lowerSimple {init : Option Stmt} (hstart : ∀ s ∈ init, s.isStart)
    (hp : ∀ s ∈ init, s.Printable) (h : ∀ s ∈ init, ∃ st, s.toSource = .ok st ∧ st.ReadsAs s) :
    ∃ start, Stmt.initToSource init = .ok start ∧
      Reads (lowerSimple start) fun r => Stmt.bareArm r = Stmt.bareArm init := by
  cases init with
  | none =>
    refine ⟨none, rfl, ?_⟩
    unfold lowerSimple
    exact reads_pure rfl
  | some s =>
    obtain ⟨st, hst, hreads⟩ := h s rfl
    have hsimple := isSimple_toSource (hstart s rfl) (hp s rfl) hst
    refine ⟨some st, by simp only [Stmt.initToSource, hst]; rfl, ?_⟩
    unfold lowerSimple
    rw [if_pos hsimple]
    intro sc
    rcases hreads sc with ⟨_, sc', hg, t, rfl, ht⟩ | hclash
    · exact Or.inl ⟨some t, sc', hg, by simp only [Stmt.bareArm, ht]⟩
    · exact Or.inr hclash

/-- The step of a loop is read as the expression that it is. -/
theorem reads_step (loop : Stmt) {step : List Expr} (hlen : step.length ≤ 1)
    (hs : ∀ x ∈ step, x.Performed) :
    ∃ next, stepToSource loop step = .ok next ∧ Reads (lowerSimple next) fun r =>
      Reads (stepExpr next r) fun post => Expr.bareList post = Expr.bareList step := by
  match step with
  | [] =>
    refine ⟨none, rfl, ?_⟩
    unfold lowerSimple
    exact reads_pure (reads_pure rfl)
  | [x] =>
    obtain ⟨st, hst, hsimple, hreads⟩ := (hs x (by simp)).toStatement
    refine ⟨some st, by simp only [stepToSource, hst]; rfl, ?_⟩
    unfold lowerSimple
    rw [if_pos hsimple]
    intro sc
    rcases hreads sc with ⟨_, sc', hg, t, rfl, ht⟩ | hclash
    · refine Or.inl ⟨some t, sc', hg, ?_⟩
      cases t with
      | expr y =>
        simp only [Stmt.bare, Stmt.expr.injEq] at ht
        exact reads_pure (by simp only [Expr.bareList, ht])
      | _ => simp [Stmt.bare] at ht
    · exact Or.inr hclash
  | x :: y :: rest => simp at hlen

/-- A printable statement has a source form that is read as the statement. -/
theorem Stmt.Printable.toSource {s : Stmt} (h : s.Printable) :
    ∃ st, s.toSource = .ok st ∧ st.ReadsAs s := by
  induction h with
  | @block l h ih =>
    obtain ⟨out, hout, hreads⟩ := reads_lowerList ih
    refine ⟨.block out, by simp only [Stmt.toSource, hout]; rfl, ?_⟩
    unfold Statement.ReadsAs Statement.lower
    exact hreads.bind fun l' hl' => reads_pure ⟨_, rfl, by simp only [Stmt.bare, hl']⟩
  | @branch c yes no hc hy hn ihy ihn =>
    obtain ⟨n, hn, ⟨c', hc', hce⟩, -⟩ := hc.toSource
    obtain ⟨out, hout, hyes⟩ := reads_lowerList ihy
    have hother : ∃ other, Stmt.otherToSource (no.map .block) = .ok other ∧
        Reads (lowerElse other) fun r => Stmt.bareArm r = Stmt.bareArm (no.map .block) := by
      cases no with
      | none =>
        refine ⟨none, rfl, ?_⟩
        unfold lowerElse
        exact reads_pure rfl
      | some l =>
        obtain ⟨out', hout', hno⟩ := reads_lowerList (ihn l rfl)
        refine ⟨some (.block out'), by
          simp only [Option.map_some, Stmt.otherToSource, hout']; rfl, ?_⟩
        unfold lowerElse
        exact hno.inScope.bind fun l' hl' => reads_pure (by
          simp only [Option.map_some, Stmt.bareArm, Stmt.bare, hl'])
    obtain ⟨other, hother, hreads⟩ := hother
    refine ⟨.branch none n out other, by
      simp only [Stmt.toSource, hn, Stmt.armToSource, hout, hother]; rfl, ?_⟩
    unfold Statement.ReadsAs Statement.lower
    refine Reads.inScope ?_
    unfold lowerSimple
    refine (reads_pure (p := fun r => r = none) rfl).bind ?_
    rintro _ rfl
    refine (reads_lift (p := fun z => z = c') hc' rfl).bind ?_
    rintro _ rfl
    exact hyes.inScope.bind fun l' hl' => hreads.bind fun r hr => reads_pure ⟨_, rfl, by
      simp only [Stmt.hoist, Stmt.bare, Stmt.bareArm, hce, hl', hr]⟩
  | @whileLoop c body hc hb ih =>
    obtain ⟨n, hn, ⟨c', hc', hce⟩, -⟩ := hc.toSource
    obtain ⟨out, hout, hbody⟩ := reads_lowerList ih
    refine ⟨.loop none (some n) none out, by
      simp only [Stmt.toSource, hn, Stmt.armToSource, hout]; rfl, ?_⟩
    unfold Statement.ReadsAs Statement.lower
    refine Reads.inScope ?_
    unfold lowerSimple stepExpr
    refine (reads_pure (p := fun r => r = none) rfl).bind ?_
    rintro _ rfl
    have hlift : lowerOption (some n) = .ok (some c') := by simp only [lowerOption, hc']; rfl
    refine (reads_lift (p := fun z => z = some c') hlift rfl).bind ?_
    rintro _ rfl
    refine hbody.inScope.bind fun l' hl' => (reads_pure (p := fun _ => True) trivial).bind
      fun _ _ => (reads_pure (p := fun post => post = []) rfl).bind ?_
    rintro _ rfl
    exact reads_pure ⟨_, rfl, by simp only [Stmt.ofLoop, Stmt.bare, Stmt.bareArm, hce, hl']⟩
  | @forLoop init c step body hne hstart hi hc hlen hs hb ihi ihb =>
    obtain ⟨start, hstartSource, hreadsStart⟩ := reads_lowerSimple hstart hi ihi
    obtain ⟨n, c', hn, hc', hce⟩ := optToSource_printable hc
    obtain ⟨next, hnext, hreadsNext⟩ :=
      reads_step (.forLoop init c step (some (.block body))) hlen hs
    obtain ⟨out, hout, hbody⟩ := reads_lowerList ihb
    refine ⟨.loop start n next out, by
      simp only [Stmt.toSource, hstartSource, hn, hnext, Stmt.armToSource, hout]; rfl, ?_⟩
    unfold Statement.ReadsAs Statement.lower
    refine Reads.inScope (hreadsStart.bind fun init' hinit' => ?_)
    refine (reads_lift (p := fun z => z = c') hc' rfl).bind ?_
    rintro _ rfl
    exact hbody.inScope.bind fun l' hl' => hreadsNext.bind fun r hr => hr.bind fun post hpost =>
      reads_pure ⟨_, rfl, bare_ofLoop hne hinit' hce hpost hl'⟩
  | @ret v hv =>
    cases v with
    | none =>
      refine ⟨.ret [], rfl, ?_⟩
      unfold Statement.ReadsAs Statement.lower lowerReturn
      exact (reads_pure (p := fun t => t = .ret none) rfl).map fun t ht => ⟨t, rfl, by rw [ht]⟩
    | some x =>
      obtain ⟨n, hn, ⟨y, hy, he⟩, -⟩ := (hv x rfl).toSource
      refine ⟨.ret [n], by simp only [Stmt.toSource, Expr.optToSource, hn]; rfl, ?_⟩
      unfold Statement.ReadsAs Statement.lower lowerReturn
      refine Reads.map (p := fun t => t = .ret (some y)) ?_
        fun t ht => ⟨t, rfl, by simp only [ht, Stmt.bare, Option.map_some, he]⟩
      exact (reads_lift (p := fun z => z = y) hy rfl).bind fun z hz => reads_pure (by rw [hz])
  | @throw x hx =>
    obtain ⟨n, hn, ⟨y, hy, he⟩, -⟩ := hx.toSource
    refine ⟨.expr (.call (.ident "panic") [n] false), by
      simp only [Stmt.toSource, Expr.optToSource, hn]; rfl, ?_⟩
    exact readsAs_expr (t := .throw (some y)) (by simp only [lowerCall, hy]; rfl)
      (by simp only [Stmt.bare, Option.map_some, he])
  | @expr x hx =>
    obtain ⟨st, hst, -, hreads⟩ := hx.toStatement
    exact ⟨st, by simp only [Stmt.toSource, hst], hreads⟩
  | @decl name type v ht hr hv =>
    obtain ⟨st, hst, hreads, -⟩ := declToSource_printable name ht hr hv
    exact ⟨st, by simp only [Stmt.toSource, hst], hreads⟩

/-! ## Functions -/

namespace Source.FuncDecl

/-- The function with another body. -/
def withBody (f : FuncDecl) (list : List Statement) : FuncDecl :=
  { f with body := f.body.map fun body => { body with list := list } }

/-- Statements can be printed as the body of a function, and the printed function is lowered to one
with the same statements up to parentheses, or it is refused because the name of a declaration is
visible where it stands. -/
def PrintsBack (f : FuncDecl) (l : List Stmt) : Prop :=
  ∃ out, Stmt.listToSource l = .ok out ∧
    ((∃ fn, (f.withBody out).lower = .ok fn ∧ Stmt.bareList fn.body = Stmt.bareList l) ∨
      ∃ fault, (f.withBody out).lower = .error (.during f.qualifiedName fault) ∧ fault.Clash)

theorem printsBack_of_printable {f : FuncDecl} (hf : f.body.isSome) {l : List Stmt}
    (h : ∀ s ∈ l, s.Printable) : f.PrintsBack l := by
  obtain ⟨body, hbody⟩ := Option.isSome_iff_exists.mp hf
  obtain ⟨out, hout, hreads⟩ := reads_lowerList fun s hs => (h s hs).toSource
  refine ⟨out, hout, ?_⟩
  have hnew : (f.withBody out).body = some { body with list := out } := by
    simp [withBody, hbody]
  rcases hreads [f.headNames] with ⟨l', sc, hgives, hl'⟩ | ⟨fault, herror, hclash⟩
  · exact Or.inl ⟨_, lower_of_gives hnew hgives, hl'⟩
  · have hrun : (lowerList out).run [(f.withBody out).headNames] = .error fault := herror
    exact Or.inr ⟨fault, by simp only [lower, hnew, hrun]; rfl, hclash⟩

/-- Printing is undone by lowering : the body of a function that was lowered, and each body with its
paths laid out, whatever the solver and the exploration, has a source form. Lowered again as the
body of the function, it is the same up to parentheses, unless a declaration in it is refused
because its name is visible where it stands. -/
theorem lower_printed {f : FuncDecl} {fn : Function} (hw : f.isWellFormed) (h : f.lower = .ok fn) :
    f.PrintsBack fn.body ∧
      ∀ {σ : Type} {solver : Solver σ} {e : Exploration} {s s' : Session σ} {p : Paths},
        Walk.Gives (fn.paths solver e) s p s' → f.PrintsBack p.body := by
  obtain ⟨body, sc, hbody, -⟩ := lower_eq_ok h
  have hsome : f.body.isSome := by rw [hbody]; rfl
  have hprint := printable_lower hw h
  refine ⟨printsBack_of_printable hsome hprint, fun hp => ?_⟩
  obtain ⟨r, hr, rfl⟩ := Function.gives_paths.mp hp
  exact printsBack_of_printable hsome ((Function.laid hr).printable_body hprint)

/-- A function with a loop, a variable with a type, a conversion and a number with two signs. -/
def tally : FuncDecl where
  doc := none
  place := .start
  receiver := none
  name := "tally"
  params := [.field ["n"] (.ident "int")]
  results := [.field [] (.ident "int")]
  body := some ⟨.start, .start, [
    .vars [⟨["sum"], some (.ident "int"), []⟩],
    .loop (some (.assign [.ident "i"] .define [.literal .int "0"]))
      (some (.binary (.base .lt) (.ident "i") (.ident "n")))
      (some (.count (.ident "i") true))
      [.branch none
        (.binary (.base .gt) (.ident "i") (.unary .neg (.unary .neg (.literal .int "1"))))
        [.assign [.ident "sum"] (.base .add) [.ident "i"]]
        (some (.block [.expr (.call (.ident "panic") [.ident "i"] false)]))],
    .ret [.call (.ident "int8") [.ident "sum"] false]]⟩
  decisions := 2

theorem lower_printed_tally :
    ∃ fn, tally.lower = .ok fn ∧ tally.PrintsBack fn.body ∧
      ∃ p s', Walk.Gives (fn.paths (.always ⟨true, some []⟩) {}) ⟨.unlimited, (), #[]⟩ p s' ∧
        tally.PrintsBack p.body := by
  have hw : tally.isWellFormed := by with_unfolding_all decide
  have hf := lower_eq_lowered (f := tally) rfl
  obtain ⟨hbody, hpaths⟩ := lower_printed hw hf
  obtain ⟨p, s', hp⟩ := Walk.exists_gives
    (x := tally.lowered.paths (σ := Unit) (.always ⟨true, some []⟩) {})
    (s := ⟨.unlimited, (), #[]⟩) (by with_unfolding_all decide)
  exact ⟨_, hf, hbody, p, s', hp, hpaths hp⟩

end Source.FuncDecl

end PathTree
