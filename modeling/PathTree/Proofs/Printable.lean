import PathTree.Proofs.Lowering
import PathTree.Proofs.Record
import PathTree.Source.Emit

/-!
# The trees that lowering gives

Not every statement tree has a source form : a missing arm, a value of an unknown kind or a step
with two expressions has none, and the name `true` would be read back as a literal. `Stmt.Printable`
describes the trees that have one which is read back as the tree. Lowering gives no others
(`FuncDecl.printable_lower`), and laying out the paths of a list keeps them (`Laid.printable_body`).
-/

namespace PathTree

open Source Lower

/-! ## Expressions -/

/-- Literals that can be written down and read back. -/
def Literal.isPrintable (l : Literal) : Bool :=
  match l.kind with
  | .bool => l.text == "true" || l.text == "false"
  | .nil => l.text == "nil"
  | .int | .float => true
  | .string | .char => l.text.toList.head? != some '-'
  | .invalid => false

/-- Numbers without a sign. -/
def Expr.isPlainNumber : Expr → Bool
  | .lit ⟨.int, text⟩ => text.toList.head? != some '-'
  | .lit ⟨.float, text⟩ => text.toList.head? != some '-'
  | _ => false

/-- The names that are literals. -/
def literalNames : List String := ["true", "false", "nil"]

/-- Expressions that can be written down and read back. A minus sign in front of a number would
become part of it, and a call of a type with one argument would become a conversion. -/
inductive Expr.Printable : Expr → Prop
  | lit {l : Literal} (h : l.isPrintable) : Printable (.lit l)
  | ident {name : String} (h : name ∉ literalNames) : Printable (.ident name)
  | binary {op : BinaryOp} {x y : Expr} (hop : op ≠ .invalid) (hx : Printable x)
      (hy : Printable y) : Printable (.binary op x y)
  | pre {op : UnaryOp} {x : Expr} (hop : op.toSource?.isSome)
      (hn : op = .neg → x.isPlainNumber = false) (hx : Printable x) : Printable (.pre op x)
  | paren {x : Expr} (hx : Printable x) : Printable (.paren x)
  | cast {type : String} {x : Expr} (ht : type ∈ conversionTypes) (hx : Printable x) :
      Printable (.cast type x)
  | named {name : String} {args : List Expr} (hn : ∀ x, args = [x] → name ∉ conversionTypes)
      (ha : ∀ x ∈ args, Printable x) : Printable (.call (.ident name) args)
  | method {x : Expr} {sel : String} {args : List Expr} (hx : Printable x)
      (ha : ∀ x ∈ args, Printable x) : Printable (.call (.member x sel) args)
  | member {x : Expr} {sel : String} (hx : Printable x) : Printable (.member x sel)

/-- Expressions that are statements : assignments, counts and calls. A call of `panic` with one
argument leaves the function and is none of them. -/
inductive Expr.Performed : Expr → Prop
  | assign {op : AssignOp} {name : String} {value : Expr} (hop : op ≠ .invalid)
      (hv : value.Printable) : Performed (.assign op name value)
  | post {op : UnaryOp} {x : Expr} (hop : op.isStep) (hx : x.Printable) : Performed (.post op x)
  | cast {type : String} {x : Expr} (h : (Expr.cast type x).Printable) : Performed (.cast type x)
  | call {f : Expr} {args : List Expr} (h : (Expr.call f args).Printable)
      (hp : ∀ x, f = .ident "panic" → args ≠ [x]) : Performed (.call f args)

/-! ## Statements -/

/-- Whether the text of a type can be read and is the text of what is read. -/
def rendersBack (type : String) : Bool := (typeNode type).toOption.any (·.typeText == type)

/-- Statements that may start a loop. -/
def Stmt.isStart : Stmt → Bool
  | .decl _ type _ => type == ""
  | .throw _ | .expr _ => true
  | _ => false

/-- Statements that can be written down and read back. Arms and bodies of loops are blocks, a loop
with nothing but a condition is a while loop, and a declaration has a type or a value. -/
inductive Stmt.Printable : Stmt → Prop
  | block {l : List Stmt} (h : ∀ s ∈ l, Printable s) : Printable (.block l)
  | branch {c : Expr} {yes : List Stmt} {no : Option (List Stmt)} (hc : c.Printable)
      (hy : ∀ s ∈ yes, Printable s) (hn : ∀ l ∈ no, ∀ s ∈ l, Printable s) :
      Printable (.branch c (some (.block yes)) (no.map .block))
  | whileLoop {c : Expr} {body : List Stmt} (hc : c.Printable) (hb : ∀ s ∈ body, Printable s) :
      Printable (.whileLoop c (some (.block body)))
  | forLoop {init : Option Stmt} {c : Option Expr} {step : List Expr} {body : List Stmt}
      (hne : init = none → c.isSome → step ≠ []) (hstart : ∀ s ∈ init, s.isStart)
      (hi : ∀ s ∈ init, Printable s) (hc : ∀ x ∈ c, x.Printable) (hlen : step.length ≤ 1)
      (hs : ∀ x ∈ step, x.Performed) (hb : ∀ s ∈ body, Printable s) :
      Printable (.forLoop init c step (some (.block body)))
  | ret {v : Option Expr} (hv : ∀ x ∈ v, x.Printable) : Printable (.ret v)
  | throw {x : Expr} (hx : x.Printable) : Printable (.throw (some x))
  | expr {x : Expr} (hx : x.Performed) : Printable (.expr x)
  | decl {name type : String} {v : Option Expr} (ht : type = "" → v.isSome)
      (hr : type ≠ "" → rendersBack type) (hv : ∀ x ∈ v, x.Printable) :
      Printable (.decl name type v)

/-! ## Well-formed sources -/

namespace Source

mutual
/-- Whether texts and single characters are written as the grammar has it, in quotes. -/
def Node.isGrammatical : Node → Bool
  | .literal .char text => text.toList.head? != some '-'
  | .literal .string text => text.toList.head? != some '-'
  | .paren x => x.isGrammatical
  | .unary _ x => x.isGrammatical
  | .selector x _ => x.isGrammatical
  | .binary _ x y => x.isGrammatical && y.isGrammatical
  | .call callee args _ => callee.isGrammatical && allGrammatical args
  | _ => true

/-- Whether all nodes of a list are written as the grammar has it. -/
def allGrammatical : List Node → Bool
  | [] => true
  | x :: rest => x.isGrammatical && allGrammatical rest
end

/-- Whether variables have a type or values, as the grammar has it, and the type's text can be read
back. -/
def ValueSpec.isWellFormed (spec : ValueSpec) : Bool :=
  (spec.type.isSome || !spec.values.isEmpty) && spec.type.all (rendersBack ·.typeText) &&
    allGrammatical spec.values

mutual
/-- Whether a statement is as the grammar has it, with types whose texts can be read back. -/
def Statement.isWellFormed : Statement → Bool
  | .block list => allWellFormed list
  | .branch init cond body other =>
    optWellFormed init && cond.isGrammatical && allWellFormed body && optWellFormed other
  | .loop init cond step body =>
    optWellFormed init && cond.all Node.isGrammatical && optWellFormed step && allWellFormed body
  | .ret results => allGrammatical results
  | .assign _ _ values => allGrammatical values
  | .count x _ => x.isGrammatical
  | .vars specs => specs.all ValueSpec.isWellFormed
  | .expr x => x.isGrammatical
  | _ => true

/-- Whether all statements of a list are well formed. -/
def allWellFormed : List Statement → Bool
  | [] => true
  | s :: rest => s.isWellFormed && allWellFormed rest

/-- Whether a statement that may be missing is well formed. -/
def optWellFormed : Option Statement → Bool
  | none => true
  | some s => s.isWellFormed
end

/-- Whether a function is well formed. -/
def FuncDecl.isWellFormed (f : FuncDecl) : Bool := f.body.all fun body => allWellFormed body.list

/-! ## Lowering -/

theorem nameExpr_printable (name : String) : (nameExpr name).Printable := by
  unfold nameExpr
  split
  · exact .lit (by decide)
  · split
    · exact .lit (by decide)
    · split
      · exact .lit (by decide)
      · exact .ident (by simp_all [literalNames])

theorem isPrintable_of_kind? {form : LiteralForm} {kind : LitKind} {text : String}
    (hg : (Node.literal form text).isGrammatical) (hk : form.kind? = some kind) :
    Literal.isPrintable ⟨kind, text⟩ := by
  cases form <;> cases hk <;> simp_all [Literal.isPrintable, Node.isGrammatical]

theorem isPrintable_of_isNumber {form : LiteralForm} {kind : LitKind} {text t : String}
    (hn : (Node.literal form text).isNumber) (hk : form.kind? = some kind) :
    Literal.isPrintable ⟨kind, t⟩ := by
  cases form <;> cases hk <;> simp_all [Literal.isPrintable, Node.isNumber]

theorem namedCall_printable {name : String} {args : List Expr} (ha : ∀ x ∈ args, x.Printable) :
    (namedCall name args).Printable := by
  obtain ⟨x, rfl, ht, hc⟩ | ⟨hn, hc⟩ := namedCall_cases name args
  · rw [hc]
    exact .cast ht (ha x (by simp))
  · rw [hc]
    exact .named hn ha

/-- What a node that is no number becomes is no number without a sign. -/
theorem isPlainNumber_lower {n : Node} {y : Expr} (hn : n.isNumber = false) (h : n.lower = .ok y) :
    y.isPlainNumber = false := by
  cases Node.lowersTo h with
  | name name =>
    unfold nameExpr
    repeat' split
    all_goals rfl
  | @literal form kind text hk => cases form <;> cases hk <;> simp_all [Node.isNumber] <;> rfl
  | @signed form kind text hnum hk =>
    cases form <;> cases hk <;> simp_all [Node.isNumber, Expr.isPlainNumber]
  | @named name args ys ha =>
    obtain ⟨x, rfl, -, hc⟩ | ⟨-, hc⟩ := namedCall_cases name ys <;> rw [hc] <;> rfl
  | _ => rfl

/-- What a call other than that of `panic` with one argument becomes is a statement. -/
theorem performed_of_call {callee : Node} {args : List Node} {spread : Bool} {y : Expr}
    (hp : ∀ v, callee = .ident "panic" → args ≠ [v])
    (h : (Node.call callee args spread).lower = .ok y) (hy : y.Printable) : y.Performed := by
  cases Node.lowersTo h with
  | @named name _ ys ha =>
    obtain ⟨x, rfl, -, hc⟩ | ⟨-, hc⟩ := namedCall_cases name ys
    · rw [hc] at hy ⊢
      exact .cast hy
    · rw [hc] at hy ⊢
      refine .call hy fun x hf hys => ?_
      cases hf
      obtain ⟨v, hv⟩ := List.length_eq_one_iff.mp (by rw [← length_lowerArgs ha, hys]; rfl)
      exact hp v rfl hv
  | method sel hx ha => exact .call hy (by simp)

theorem toSource?_of_unary? {op : PrefixOp} {un : UnaryOp} (h : op.unary? = some un) :
    un.toSource? = some op := by
  cases op <;> cases h <;> rfl

theorem base_of_binary? {op : InfixOp} {bin : BinaryOp} (h : op.binary? = some bin) :
    op = .base bin ∧ bin ≠ .invalid := by
  cases op with
  | base b => cases b <;> cases h <;> exact ⟨rfl, by decide⟩
  | bits b => cases h

theorem base_of_assign? {op : SetOp} {aop : AssignOp} (h : op.assign? = some aop) :
    op = .base aop ∧ aop ≠ .invalid := by
  cases op with
  | base b => cases b <;> cases h <;> exact ⟨rfl, by decide⟩
  | _ => cases h

mutual
/-- Lowering an expression gives a printable one. -/
theorem Node.printable_lower (n : Node) {y : Expr} (hg : n.isGrammatical) (h : n.lower = .ok y) :
    y.Printable := by
  cases Node.lowersTo h with
  | name name => exact nameExpr_printable name
  | literal text hk => exact .lit (isPrintable_of_kind? hg hk)
  | signed hn hk => exact .lit (isPrintable_of_isNumber hn hk)
  | @unary op un x y hop hn hx =>
    refine .pre (by simp [toSource?_of_unary? hop]) (fun hneg => ?_) (x.printable_lower ?_ hx)
    · subst hneg
      refine isPlainNumber_lower (hn ?_) hx
      cases op <;> cases hop
      rfl
    · simpa only [Node.isGrammatical] using hg
  | @binary op bin x₁ x₂ y₁ y₂ hop h₁ h₂ =>
    simp only [Node.isGrammatical, Bool.and_eq_true] at hg
    exact .binary (base_of_binary? hop).2 (x₁.printable_lower hg.1 h₁) (x₂.printable_lower hg.2 h₂)
  | @paren x y hx =>
    exact .paren (x.printable_lower (by simpa only [Node.isGrammatical] using hg) hx)
  | @member x y sel hx =>
    exact .member (x.printable_lower (by simpa only [Node.isGrammatical] using hg) hx)
  | @named name args ys ha =>
    simp only [Node.isGrammatical, Bool.and_eq_true] at hg
    exact namedCall_printable (printable_lowerArgs args hg.2 ha)
  | @method x y sel args ys hx ha =>
    simp only [Node.isGrammatical, Bool.and_eq_true] at hg
    exact .method (x.printable_lower hg.1 hx) (printable_lowerArgs args hg.2 ha)

theorem printable_lowerArgs (args : List Node) {ys : List Expr} (hg : allGrammatical args)
    (h : lowerArgs args = .ok ys) : ∀ y ∈ ys, y.Printable := by
  cases args with
  | nil =>
    simp only [lowerArgs] at h
    cases h
    simp
  | cons x rest =>
    obtain ⟨y, more, hx, hr, rfl⟩ := lowerArgs_cons h
    simp only [allGrammatical, Bool.and_eq_true] at hg
    exact List.forall_mem_cons.mpr ⟨x.printable_lower hg.1 hx, printable_lowerArgs rest hg.2 hr⟩
end

theorem printable_lowerOption {x : Option Node} {y : Option Expr} (hg : x.all Node.isGrammatical)
    (h : lowerOption x = .ok y) : ∀ z ∈ y, z.Printable := by
  obtain ⟨-, rfl⟩ | ⟨n, z, rfl, hn, rfl⟩ := lowerOption_eq_ok h
  · simp
  · simpa using n.printable_lower (by simpa using hg) hn

theorem allGrammatical_eq_all (l : List Node) : allGrammatical l = l.all Node.isGrammatical := by
  induction l with
  | nil => rfl
  | cons x l ih => rw [allGrammatical, ih, List.all_cons]

/-- The declarations of names are printable : without a type there is a value for each name. -/
theorem printable_lowerNames {type : String} {names : List String} {values : List Node}
    {l : List Stmt} {sc sc' : Scopes} (h : Gives (lowerNames type names values) sc l sc')
    (hlen : type = "" → names.length ≤ values.length) (hr : type ≠ "" → rendersBack type)
    (hg : values.all Node.isGrammatical) : ∀ s ∈ l, s.Printable := by
  induction names generalizing values l sc with
  | nil =>
    obtain ⟨rfl, -⟩ := gives_lowerNames_nil.mp h
    simp
  | cons name names ih =>
    obtain ⟨value, sc₁, rest, hv, -, hrest, rfl⟩ := gives_lowerNames_cons h
    have hhead : values.head?.all Node.isGrammatical := by
      cases values <;> simp_all
    have hdrop : (values.drop 1).all Node.isGrammatical := by
      cases values <;> simp_all
    refine List.forall_mem_cons.mpr ⟨.decl (fun ht => ?_) hr (printable_lowerOption hhead hv),
      ih hrest (fun ht => ?_) hdrop⟩
    · cases values with
      | nil => simp at hlen; exact absurd ht hlen
      | cons x values =>
        obtain ⟨hx, -⟩ | ⟨n, z, -, -, rfl⟩ := lowerOption_eq_ok hv
        · simp at hx
        · rfl
    · have := hlen ht
      simp only [List.length_cons, List.length_drop] at this ⊢
      omega

theorem printable_lowerSpec {spec : ValueSpec} {l : List Stmt} {sc sc' : Scopes}
    (hw : spec.isWellFormed) (h : Gives (lowerSpec spec) sc l sc') : ∀ s ∈ l, s.Printable := by
  obtain ⟨hlen, h⟩ := gives_lowerSpec h
  obtain ⟨⟨hsome, htype⟩, hg⟩ : ((spec.type.isSome || !spec.values.isEmpty) = true ∧
      spec.type.all (rendersBack ·.typeText) = true) ∧ allGrammatical spec.values = true := by
    simpa only [ValueSpec.isWellFormed, Bool.and_eq_true] using hw
  rw [allGrammatical_eq_all] at hg
  have hempty : rendersBack "" = false := by with_unfolding_all decide
  cases ht : spec.type with
  | none =>
    rw [ht] at h hsome
    refine printable_lowerNames h (fun _ => ?_) (by simp) hg
    rcases hlen with hlen | hlen
    · simp [hlen] at hsome
    · omega
  | some n =>
    rw [ht] at h htype
    have hn : rendersBack n.typeText := by simpa using htype
    refine printable_lowerNames h (fun he => ?_) (fun _ => hn) hg
    have he : n.typeText = "" := he
    rw [he, hempty] at hn
    cases hn

theorem printable_lowerSpecs {specs : List ValueSpec} {decls : List (List Stmt)}
    {sc sc' : Scopes} (hw : specs.all ValueSpec.isWellFormed)
    (h : Gives (specs.mapM lowerSpec) sc decls sc') : ∀ s ∈ decls.flatten, s.Printable := by
  induction specs generalizing decls sc with
  | nil =>
    obtain ⟨rfl, -⟩ := gives_mapM_nil.mp h
    simp
  | cons spec specs ih =>
    obtain ⟨l, sc₁, more, hl, hmore, rfl⟩ := gives_mapM_cons.mp h
    simp only [List.all_cons, Bool.and_eq_true] at hw
    rw [List.flatten_cons]
    exact List.forall_mem_append.mpr ⟨printable_lowerSpec hw.1 hl, ih hw.2 hmore⟩

end Source

namespace Stmt

theorem printable_single {l : List Stmt} (h : ∀ s ∈ l, s.Printable) : (single l).Printable := by
  unfold single
  split
  · exact h _ (by simp)
  · exact .block h

theorem printable_hoist {init : Option Stmt} {s : Stmt} (hi : ∀ t ∈ init, t.Printable)
    (hs : s.Printable) : (hoist init s).Printable := by
  cases init with
  | none => exact hs
  | some t => exact .block (by simpa using ⟨hi t rfl, hs⟩)

/-- What stands directly in a printable statement is printable. -/
theorem Printable.statements {arm : Option Stmt} (h : ∀ s ∈ arm, s.Printable) :
    ∀ s ∈ Stmt.statements arm, s.Printable := by
  cases arm with
  | none => simp [Stmt.statements]
  | some s =>
    have hs := h s rfl
    cases hs with
    | block hl => exact hl
    | _ => simpa [Stmt.statements] using h

end Stmt

namespace Source

/-- A simple statement becomes one that may start a loop. -/
theorem isStart_of_isSimple {s : Statement} {t : Stmt} {sc sc' : Scopes} (hs : s.isSimple)
    (h : s.LowersTo sc (some t) sc') : t.isStart := by
  generalize hr : some t = r at h
  cases h <;> first | cases hr; rfl | simp [Statement.isSimple] at hs

/-- Lowering a statement without others in it gives a printable one. -/
theorem printable_lower_of_not_isCompound {s : Statement} {r : Option Stmt} {sc sc' : Scopes}
    (hw : s.isWellFormed) (h : s.LowersTo sc r sc') (hs : s.isCompound = false) :
    ∀ t ∈ r, t.Printable := by
  rintro t rfl
  generalize hr : some t = r at h
  cases h with
  | block => cases hs
  | branch => cases hs
  | loop => cases hs
  | retNone =>
    cases hr
    exact .ret (by simp)
  | @ret x y _ hx =>
    cases hr
    simp only [Statement.isWellFormed, allGrammatical, Bool.and_eq_true] at hw
    exact .ret (by simpa using x.printable_lower hw.1 hx)
  | @define name x y _ _ hx hd =>
    cases hr
    simp only [Statement.isWellFormed, allGrammatical, Bool.and_eq_true] at hw
    exact .decl (fun _ => rfl) (by simp) (by simpa using x.printable_lower hw.1 hx)
  | @assign op aop name x y _ hop hx =>
    cases hr
    simp only [Statement.isWellFormed, allGrammatical, Bool.and_eq_true] at hw
    exact .expr (.assign (base_of_assign? hop).2 (x.printable_lower hw.1 hx))
  | @count x y up _ hx =>
    cases hr
    refine .expr (.post ?_ (x.printable_lower (by simpa only [Statement.isWellFormed] using hw) hx))
    cases up <;> rfl
  | vars hd =>
    cases hr
    exact Stmt.printable_single
      (printable_lowerSpecs (by simpa only [Statement.isWellFormed] using hw) hd)
  | @throw v spread y _ hv =>
    cases hr
    simp only [Statement.isWellFormed, Node.isGrammatical, allGrammatical, Bool.and_eq_true] at hw
    exact .throw (v.printable_lower hw.2.1 hv)
  | @call callee args spread y _ hp hx =>
    cases hr
    have hy := Node.printable_lower _ (by simpa only [Statement.isWellFormed] using hw) hx
    exact .expr (performed_of_call hp hx hy)
  | empty => cases hr

mutual
/-- Lowering a statement gives a printable one. -/
theorem Statement.printable_lower (s : Statement) {r : Option Stmt} {sc sc' : Scopes}
    (hw : s.isWellFormed) (h : s.LowersTo sc r sc') : ∀ t ∈ r, t.Printable := by
  cases s with
  | block l =>
    obtain ⟨out, hl, rfl⟩ := h.of_block
    rintro t ⟨⟩
    exact .block (printable_lowerList l (by simpa only [Statement.isWellFormed] using hw) hl)
  | branch init cond body other =>
    obtain ⟨start, c, yes, no, sc₁, sc₂, sc₃, hi, hc, hb, ho, rfl, rfl⟩ := h.of_branch
    rintro t ⟨⟩
    simp only [Statement.isWellFormed, Bool.and_eq_true] at hw
    obtain ⟨⟨⟨hwi, hwc⟩, hwb⟩, hwo⟩ := hw
    obtain ⟨out, rfl, hout⟩ := printable_lowerElse other hwo ho
    exact Stmt.printable_hoist (printable_lowerSimple init hwi hi).2
      (.branch (cond.printable_lower hwc hc) (printable_lowerList body hwb hb) hout)
  | loop init cond step body =>
    obtain ⟨start, c, list, next, post, sc₁, sc₂, sc₃, hi, hc, hb, hs, hp, rfl, rfl⟩ := h.of_loop
    rintro t ⟨⟩
    simp only [Statement.isWellFormed, Bool.and_eq_true] at hw
    obtain ⟨⟨⟨hwi, hwc⟩, hws⟩, hwb⟩ := hw
    obtain ⟨hstart, hinit⟩ := printable_lowerSimple init hwi hi
    have hbody := printable_lowerList body hwb hb
    have hcond := printable_lowerOption hwc hc
    have hpost : post.length ≤ 1 ∧ ∀ x ∈ post, x.Performed := by
      rcases hp with ⟨-, rfl⟩ | ⟨x, rfl, rfl⟩
      · simp
      · have hx := (printable_lowerSimple step hws hs).2 _ rfl
        cases hx with
        | expr hx => simpa using hx
    unfold Stmt.ofLoop
    split
    · exact .whileLoop (hcond _ rfl) hbody
    · next hne =>
      refine .forLoop (fun hnone hsome => ?_) hstart hinit hcond hpost.1 hpost.2 hbody
      subst hnone
      obtain ⟨x, rfl⟩ := Option.isSome_iff_exists.mp hsome
      exact hne x rfl rfl
  | _ => exact printable_lower_of_not_isCompound hw h rfl

theorem printable_lowerList (list : List Statement) {out : List Stmt} {sc sc' : Scopes}
    (hw : allWellFormed list) (h : Gives (lowerList list) sc out sc') :
    ∀ t ∈ out, t.Printable := by
  cases list with
  | nil =>
    obtain ⟨rfl, -⟩ := gives_lowerList_nil.mp h
    simp
  | cons s rest =>
    obtain ⟨t, sc₁, more, hs, hr, rfl⟩ := gives_lowerList_cons h
    simp only [allWellFormed, Bool.and_eq_true] at hw
    refine List.forall_mem_append.mpr ⟨?_, printable_lowerList rest hw.2 hr⟩
    simpa using s.printable_lower hw.1 hs

theorem printable_lowerElse (other : Option Statement) {no : Option Stmt} {sc sc' : Scopes}
    (hw : optWellFormed other) (h : Gives (lowerElse other) sc no sc') :
    ∃ out : Option (List Stmt), no = out.map .block ∧ ∀ l ∈ out, ∀ t ∈ l, t.Printable := by
  cases other with
  | none =>
    obtain ⟨-, rfl, -⟩ | ⟨-, -, -, ⟨⟩, -⟩ | ⟨-, -, ⟨⟩, -⟩ := gives_lowerElse h
    exact ⟨none, rfl, by simp⟩
  | some s =>
    cases s with
    | block l =>
      obtain ⟨out, inner, hl, rfl, -⟩ := gives_lowerElse_block h
      simp only [optWellFormed, Statement.isWellFormed] at hw
      exact ⟨some out, rfl, by simpa using printable_lowerList l hw hl⟩
    | _ =>
      obtain ⟨t, hs, rfl⟩ := gives_lowerElse_statement (by simp) h
      exact ⟨some (Stmt.statements t), rfl, by
        simpa using Stmt.Printable.statements (Statement.printable_lower _ hw hs)⟩

theorem printable_lowerSimple (init : Option Statement) {start : Option Stmt} {sc sc' : Scopes}
    (hw : optWellFormed init) (h : Gives (lowerSimple init) sc start sc') :
    (∀ t ∈ start, t.isStart) ∧ ∀ t ∈ start, t.Printable := by
  cases init with
  | none =>
    obtain ⟨-, rfl, -⟩ | ⟨-, ⟨⟩, -⟩ := gives_lowerSimple h
    simp
  | some s =>
    obtain ⟨⟨⟩, -⟩ | ⟨s', he, hs, hl⟩ := gives_lowerSimple h
    cases he
    refine ⟨?_, s.printable_lower hw hl⟩
    rintro t rfl
    exact isStart_of_isSimple hs hl
end

/-- Lowering a function gives printable statements. -/
theorem FuncDecl.printable_lower {f : FuncDecl} {fn : Function} (hw : f.isWellFormed)
    (h : f.lower = .ok fn) : ∀ s ∈ fn.body, s.Printable := by
  obtain ⟨body, sc, hb, hl⟩ := FuncDecl.lower_eq_ok h
  exact printable_lowerList body.list (by simpa [FuncDecl.isWellFormed, hb] using hw) hl

end Source

/-! ## Laying out -/

namespace Stmt

theorem printable_branch_iff {c : Expr} {yes no : Option Stmt} :
    (Stmt.branch c yes no).Printable ↔ c.Printable ∧
      ∃ (y : List Stmt) (n : Option (List Stmt)), yes = some (.block y) ∧ no = n.map .block ∧
        (∀ s ∈ y, s.Printable) ∧ ∀ l ∈ n, ∀ s ∈ l, s.Printable := by
  constructor
  · intro h
    generalize hs : Stmt.branch c yes no = s at h
    cases h with
    | branch hc hy hn =>
      cases hs
      exact ⟨hc, _, _, rfl, rfl, hy, hn⟩
    | _ => cases hs
  · rintro ⟨hc, y, n, rfl, rfl, hy, hn⟩
    exact .branch hc hy hn

mutual
theorem printable_spliced (s : Stmt) (h : s.Printable) : ∀ t ∈ spliced s, t.Printable := by
  cases h with
  | @block l hl => exact printable_flatten l hl
  | branch hc hy hn => simpa [spliced] using .branch hc hy hn
  | whileLoop hc hb => simpa [spliced] using .whileLoop hc hb
  | forLoop hne hstart hi hc hlen hs hb =>
    simpa [spliced] using .forLoop hne hstart hi hc hlen hs hb
  | ret hv => simpa [spliced] using .ret hv
  | throw hx => simpa [spliced] using .throw hx
  | expr hx => simpa [spliced] using .expr hx
  | decl ht hr hv => simpa [spliced] using .decl ht hr hv

theorem printable_flatten (l : List Stmt) (h : ∀ s ∈ l, s.Printable) :
    ∀ t ∈ flatten l, t.Printable := by
  cases l with
  | nil => simp [flatten]
  | cons s rest =>
    obtain ⟨hs, hrest⟩ := List.forall_mem_cons.mp h
    rw [flatten]
    exact List.forall_mem_append.mpr ⟨printable_spliced s hs, printable_flatten rest hrest⟩
end

theorem printable_unroll {c : Expr} {body : List Stmt} (hc : c.Printable)
    (hb : ∀ s ∈ body, s.Printable) (n : Nat) : (unroll c body n).Printable := by
  fun_induction unroll c body n with
  | case1 n ih =>
    exact printable_branch_iff.mpr ⟨hc, _, none, rfl, rfl,
      List.forall_mem_append.mpr ⟨hb, by simpa using ih⟩, by simp⟩
  | case2 n h => exact printable_branch_iff.mpr ⟨hc, _, none, rfl, rfl, hb, by simp⟩

theorem printable_loopCond {c : Option Expr} (h : ∀ x ∈ c, x.Printable) :
    (loopCond c).Printable := by
  cases c with
  | none => exact .lit (by decide)
  | some x => exact h x rfl

theorem printable_loopInit {init : Option Stmt} {first : List Stmt}
    (hi : ∀ s ∈ init, s.Printable) (h : loopInit init = .ok first) :
    ∀ s ∈ first, s.Printable := by
  cases init with
  | none =>
    cases h
    simp
  | some s =>
    simp only [loopInit] at h
    split at h
    · cases h
      simpa using hi s rfl
    · cases h

mutual
theorem printable_expandOne {b : Nat} (s : Stmt) {out : List Stmt} (hs : s.Printable)
    (h : expandOne b s = .ok out) : ∀ t ∈ out, t.Printable := by
  rcases expandOne_cases h with ⟨l, rfl, hl⟩ | ⟨c, body, rfl, rfl⟩ |
    ⟨init, c, step, body, first, rfl, -, hi, rfl⟩ | ⟨-, rfl⟩
  · cases hs with
    | block hprint => exact printable_expand l hprint hl
  · cases hs with
    | whileLoop hc hb => simpa [statements] using printable_unroll hc hb b
  · cases hs with
    | forLoop _ _ hinit hc _ hstep hb =>
      have hround := List.forall_mem_append.mpr ⟨hb, fun s (hs : s ∈ step.map .expr) => by
        obtain ⟨x, hx, rfl⟩ := List.mem_map.mp hs
        exact .expr (hstep x hx)⟩
      exact List.forall_mem_append.mpr ⟨printable_loopInit hinit hi, by
        simpa [statements] using printable_unroll (printable_loopCond hc) hround b⟩
  · simpa using hs

theorem printable_expand {b : Nat} (l : List Stmt) {out : List Stmt} (hl : ∀ s ∈ l, s.Printable)
    (h : expand b l = .ok out) : ∀ t ∈ out, t.Printable := by
  cases l with
  | nil =>
    simp only [expand] at h
    cases h
    simp
  | cons s rest =>
    obtain ⟨first, more, h₁, h₂, rfl⟩ := expand_cons h
    obtain ⟨hs, hrest⟩ := List.forall_mem_cons.mp hl
    exact List.forall_mem_append.mpr ⟨printable_expandOne s hs h₁, printable_expand rest hrest h₂⟩
end

theorem printable_withTail {arm tail : List Stmt} (ha : ∀ s ∈ arm, s.Printable)
    (ht : ∀ s ∈ tail, s.Printable) : ∀ s ∈ withTail arm tail, s.Printable := by
  unfold withTail
  split
  · exact ha
  · exact List.forall_mem_append.mpr ⟨ha, ht⟩

theorem printable_mergeTail {c : Expr} {yes no : Option Stmt} {tail : List Stmt}
    (h : (Stmt.branch c yes no).Printable) (ht : ∀ s ∈ tail, s.Printable) :
    (mergeTail c yes no tail).Printable := by
  obtain ⟨hc, y, n, rfl, rfl, hy, hn⟩ := printable_branch_iff.mp h
  have hno : ∀ l : List Stmt, (∀ s ∈ l, s.Printable) →
      ∃ n : Option (List Stmt), (if l.isEmpty then none else some (Stmt.block l)) = n.map .block ∧
        ∀ l' ∈ n, ∀ s ∈ l', s.Printable := by
    intro l hl
    cases l with
    | nil => exact ⟨none, rfl, by simp⟩
    | cons s l => exact ⟨some (s :: l), rfl, by simpa using hl⟩
  have hyes := printable_withTail (printable_flatten y hy) ht
  cases n with
  | none =>
    obtain ⟨n', he, hn'⟩ := hno tail ht
    exact printable_branch_iff.mpr ⟨hc, _, n', rfl, he, hyes, hn'⟩
  | some l =>
    obtain ⟨n', he, hn'⟩ := hno _ (printable_withTail (printable_flatten l (hn l rfl)) ht)
    exact printable_branch_iff.mpr ⟨hc, _, n', rfl, he, hyes, hn'⟩

theorem printable_joinTails {l out : List Stmt} (hl : ∀ s ∈ l, s.Printable)
    (h : joinTails l = .ok out) : ∀ s ∈ out, s.Printable := by
  induction l generalizing out with
  | nil =>
    simp only [joinTails] at h
    cases h
    simp
  | cons s rest ih =>
    obtain ⟨hs, hrest⟩ := List.forall_mem_cons.mp hl
    obtain ⟨more, hr, ⟨-, rfl⟩ | ⟨-, -, rfl⟩ | ⟨c, yes, no, rfl, rfl⟩⟩ := joinTails_cons h
    · exact List.forall_mem_cons.mpr ⟨hs, ih hrest hr⟩
    · exact List.forall_mem_cons.mpr ⟨hs, ih hrest hr⟩
    · simpa using printable_mergeTail hs (ih hrest hr)

theorem printable_mergeLast {l : List Stmt} (hl : ∀ s ∈ l, s.Printable) :
    ∀ s ∈ mergeLast l, s.Printable := by
  fun_induction mergeLast l with
  | case1 => exact hl
  | case2 c yes no tail h => simpa using hl _ (by simp)
  | case3 c yes no tail h =>
    obtain ⟨hs, hrest⟩ := List.forall_mem_cons.mp hl
    simpa using printable_mergeTail hs hrest
  | case4 s rest _ h ih =>
    obtain ⟨hs, hrest⟩ := List.forall_mem_cons.mp hl
    exact List.forall_mem_cons.mpr ⟨hs, ih hrest⟩
  | case5 s rest _ h => exact hl

/-- The canonical form of printable statements is printable. -/
theorem printable_canonicalize {b : Nat} {l out : List Stmt} (hl : ∀ s ∈ l, s.Printable)
    (h : canonicalize b l = .ok out) : ∀ s ∈ out, s.Printable := by
  obtain ⟨flat, joined, he, hj, rfl⟩ := canonicalize_eq_ok h
  exact printable_mergeLast (printable_joinTails (printable_expand l hl he) hj)

/-- A branch on a split condition is printable if the branch is. -/
theorem printable_splitCond {c : Expr} {yes no : Option Stmt}
    (h : (Stmt.branch c yes no).Printable) :
    (Stmt.branch (splitCond c yes no).1 (splitCond c yes no).2.1
      (splitCond c yes no).2.2).Printable := by
  fun_induction splitCond c yes no with
  | case1 x y yes no ih =>
    obtain ⟨hc, ys, ns, rfl, rfl, hy, hn⟩ := printable_branch_iff.mp h
    cases hc with
    | binary _ hx hy' =>
      exact ih (printable_branch_iff.mpr
        ⟨hx, _, ns, rfl, rfl, by simpa using .branch hy' hy hn, hn⟩)
  | case2 x y yes no ih =>
    obtain ⟨hc, ys, ns, rfl, rfl, hy, hn⟩ := printable_branch_iff.mp h
    cases hc with
    | binary _ hx hy' =>
      exact ih (printable_branch_iff.mpr
        ⟨hx, ys, some _, rfl, rfl, hy, by simpa using .branch hy' hy hn⟩)
  | case3 x yes no hx ih =>
    obtain ⟨hc, harms⟩ := printable_branch_iff.mp h
    cases hc with
    | paren hx' => exact ih (printable_branch_iff.mpr ⟨hx', harms⟩)
  | case4 => exact h
  | case5 => exact h

end Stmt

/-- The arms of a printable branch are printable, and the first one is not missing. -/
theorem Shape.printable_arms {c : Expr} {yes no : Option Stmt}
    (h : (Stmt.branch c yes no).Printable) :
    (Stmt.splitCond c yes no).1.Printable ∧ (arms c yes no true).isSome ∧
      ∀ b, ∀ l ∈ arms c yes no b, ∀ s ∈ l, s.Printable := by
  obtain ⟨hc, y, n, hy, hn, hyes, hno⟩ := Stmt.printable_branch_iff.mp (Stmt.printable_splitCond h)
  refine ⟨hc, by simp [arms, hy, armStmts], fun b => ?_⟩
  cases b with
  | true =>
    have : arms c yes no true = some (Stmt.flatten y) := by
      simp [arms, hy, armStmts, Stmt.statements]
    rw [this]
    simpa using Stmt.printable_flatten y hyes
  | false =>
    have : arms c yes no false = n.map Stmt.flatten := by
      cases n <;> simp [arms, hn, armStmts, Stmt.statements]
    rw [this]
    intro l hl
    obtain ⟨l', hl', rfl⟩ := Option.map_eq_some_iff.mp hl
    exact Stmt.printable_flatten l' (hno l' hl')

/-- What is laid out for printable statements is printable. -/
theorem Laid.printable_body {bound : Nat} {all : Bool} {l : List Stmt} {m : Memory} {r : Record}
    (h : Laid bound all l m r) (hl : ∀ s ∈ l, s.Printable) : ∀ s ∈ r.body, s.Printable := by
  induction h with
  | straight hc hs hm => exact Stmt.printable_canonicalize hl hc
  | @branch l before c test yes no m m' answer sub hc _ _ _ _ hkept _ ih =>
    obtain ⟨hbefore, hbranch⟩ :=
      List.forall_mem_append.mp (Stmt.printable_canonicalize hl hc)
    obtain ⟨hcond, hsome, harms⟩ := Shape.printable_arms (hbranch (.branch c yes no) (by simp))
    have hsub : ∀ b, (Shape.arms c yes no b).isSome → ∀ s ∈ (sub b).body, s.Printable := by
      intro b hb
      obtain ⟨stmts, ha⟩ := Option.isSome_iff_exists.mp hb
      cases hv : (answer b).sat || all with
      | false =>
        rw [hkept b stmts ha hv]
        exact harms b stmts ha
      | true => exact ih b stmts ha hv (harms b stmts ha)
    refine List.forall_mem_append.mpr ⟨hbefore, ?_⟩
    obtain ⟨stmts, ha⟩ := Option.isSome_iff_exists.mp hsome
    simp only [List.mem_singleton, forall_eq]
    refine Stmt.printable_branch_iff.mpr ⟨hcond, (sub true).body,
      (Shape.arms c yes no false).map fun _ => (sub false).body, by simp [ha],
      by rw [Option.map_map]; rfl, hsub true hsome, ?_⟩
    intro l' hl'
    obtain ⟨stmts', ha', rfl⟩ := Option.map_eq_some_iff.mp hl'
    exact hsub false (by simp [ha'])

end PathTree
