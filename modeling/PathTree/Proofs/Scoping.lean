import PathTree.Proofs.Lowering

/-!
# Names and their scopes

Which names a source statement declares, and which of the names that it mentions are free : a name
is free where no declaration of it is visible. A declaration is visible behind itself in its list, a
declaration in the head of a branch or loop is visible in the rest of it, and a block has a scope of
its own.

Lowering keeps its own account of what is visible. It is never less than what is visible
(`Statement.LowersTo.grows`), and it has no name that is declared (`Statement.LowersTo.fresh`), so
a name that may be declared is not visible.
-/

namespace PathTree.Source

open Lower

/-! ## Names in expressions -/

mutual
/-- The names that an expression or type mentions. Selectors and the names of fields are none. -/
def Node.names : Node → List String
  | .ident name => [name]
  | .literal .. => []
  | .composite type elements => namesOption type ++ namesList elements
  | .funcLit type => type.names
  | .paren x => x.names
  | .selector x _ => x.names
  | .index x args => x.names ++ namesList args
  | .slice x low high max => x.names ++ namesOption low ++ namesOption high ++ namesOption max
  | .typeAssert x type => x.names ++ namesOption type
  | .call callee args _ => callee.names ++ namesList args
  | .star x => x.names
  | .unary _ x => x.names
  | .binary _ x y => x.names ++ y.names
  | .keyValue key value => key.names ++ value.names
  | .arrayType length element => namesOption length ++ element.names
  | .structType fields => namesList fields
  | .funcType params results => namesList params ++ namesList results
  | .interfaceType members => namesList members
  | .mapType key value => key.names ++ value.names
  | .chanType _ element => element.names
  | .ellipsis element => namesOption element
  | .field _ type => type.names

/-- The names that the nodes of a list mention. -/
def namesList : List Node → List String
  | [] => []
  | x :: rest => x.names ++ namesList rest

/-- The names that a node mentions which may be missing. -/
def namesOption : Option Node → List String
  | none => []
  | some x => x.names
end

/-- The names that are read by their spelling : literals, a call that leaves the function, and the
types that convert. -/
def spelledNames : List String := ["true", "false", "nil", "panic"] ++ conversionTypes

theorem nameExpr_cases (name : String) :
    (name ∈ spelledNames ∧ ∃ l, nameExpr name = .lit l) ∨ nameExpr name = .ident name := by
  unfold nameExpr
  split
  · next h => exact Or.inl ⟨by rw [h]; decide, _, rfl⟩
  · split
    · next h => exact Or.inl ⟨by rw [h]; decide, _, rfl⟩
    · split
      · next h => exact Or.inl ⟨by rw [h]; decide, _, rfl⟩
      · exact Or.inr rfl

/-! ## Declarations -/

/-- The names that a list of variables declares. The blank name declares nothing. -/
def ValueSpec.binds (spec : ValueSpec) : List String := spec.names.filter (· != "_")

/-- The names that lists of variables declare, those of the last list first. -/
def bindsSpecs : List ValueSpec → List String
  | [] => []
  | spec :: rest => bindsSpecs rest ++ spec.binds

namespace Statement

/-- The names that a statement declares in the scope around it. -/
def binds : Statement → List String
  | .assign [.ident name] .define _ => [name].filter (· != "_")
  | .vars specs => bindsSpecs specs
  | _ => []

/-- The names that a statement which may be missing declares in the scope around it. -/
def bindsOption : Option Statement → List String
  | none => []
  | some s => s.binds

/-- The names that the statements of a list declare in the scope around them, those of the last
statement first. -/
def bindsList : List Statement → List String
  | [] => []
  | s :: rest => bindsList rest ++ s.binds

mutual
/-- The names that a statement declares at any depth. -/
def locals : Statement → List String
  | .block list => localsList list
  | .branch init _ body second => localsOption init ++ localsList body ++ localsOption second
  | .loop init _ step body => localsOption init ++ localsOption step ++ localsList body
  | .assign targets op values => binds (.assign targets op values)
  | .vars specs => binds (.vars specs)
  | _ => []

/-- The names that the statements of a list declare at any depth. -/
def localsList : List Statement → List String
  | [] => []
  | s :: rest => s.locals ++ localsList rest

/-- The names that a statement which may be missing declares at any depth. -/
def localsOption : Option Statement → List String
  | none => []
  | some s => s.locals
end

theorem binds_subset_locals (s : Statement) : s.binds ⊆ s.locals := by
  cases s <;> simp [binds, locals]

theorem bindsOption_subset_locals (s : Option Statement) : bindsOption s ⊆ localsOption s := by
  cases s with
  | none => exact List.Subset.refl _
  | some s => exact s.binds_subset_locals

end Statement

/-! ## Free names -/

/-- The names that an expression mentions outside a scope. -/
def Node.free (scope : List String) (x : Node) : List String := x.names.filter (! scope.contains ·)

/-- The free names of a list of variables with their values. A variable is not visible in them. -/
def ValueSpec.free (scope : List String) (spec : ValueSpec) : List String :=
  spec.values.flatMap (Node.free scope)

/-- The free names of lists of variables, one after the other. -/
def freeSpecs (scope : List String) : List ValueSpec → List String
  | [] => []
  | spec :: rest => spec.free scope ++ freeSpecs (spec.binds ++ scope) rest

namespace Statement

mutual
/-- The names that are free in a statement, where the names of `scope` are visible. -/
def free (scope : List String) : Statement → List String
  | .block list => freeList scope list
  | .branch init cond body second =>
    freeOption scope init ++ cond.free (bindsOption init ++ scope) ++
      freeList (bindsOption init ++ scope) body ++ freeOption (bindsOption init ++ scope) second
  | .loop init cond step body =>
    freeOption scope init ++ cond.toList.flatMap (Node.free (bindsOption init ++ scope)) ++
      freeOption (bindsOption init ++ scope) step ++ freeList (bindsOption init ++ scope) body
  | .ret results => results.flatMap (Node.free scope)
  | .assign targets op values =>
    (if op = .define then [] else targets.flatMap (Node.free scope)) ++
      values.flatMap (Node.free scope)
  | .count x _ => x.free scope
  | .vars specs => freeSpecs scope specs
  | .expr x => x.free scope
  | _ => []

/-- The names that are free in a list of statements. -/
def freeList (scope : List String) : List Statement → List String
  | [] => []
  | s :: rest => s.free scope ++ freeList (s.binds ++ scope) rest

/-- The names that are free in a statement which may be missing. -/
def freeOption (scope : List String) : Option Statement → List String
  | none => []
  | some s => s.free scope
end

end Statement

namespace FuncDecl

/-- The statements of the body. -/
def list (f : FuncDecl) : List Statement := f.body.elim [] Body.list

/-- The names that a function declares : those of its head and of its body. -/
def locals (f : FuncDecl) : List String := f.headNames ++ Statement.localsList f.list

/-- The names that are free in the body of a function. -/
def free (f : FuncDecl) : List String := Statement.freeList f.headNames f.list

end FuncDecl

/-! ## What lowering takes to be visible -/

/-- The innermost scope has got more names, and the others are as they were. -/
def Scopes.Grows (sc sc' : Scopes) : Prop :=
  ∃ scope scope' rest, sc = scope :: rest ∧ sc' = scope' :: rest ∧ scope ⊆ scope'

namespace Scopes

theorem grows_refl {sc : Scopes} (h : sc ≠ []) : sc.Grows sc := by
  cases sc with
  | nil => exact absurd rfl h
  | cons scope rest => exact ⟨scope, scope, rest, rfl, rfl, List.Subset.refl _⟩

namespace Grows

variable {sc sc₁ sc₂ : Scopes}

theorem trans (h₁ : sc.Grows sc₁) (h₂ : sc₁.Grows sc₂) : sc.Grows sc₂ := by
  obtain ⟨a, b, rest, rfl, rfl, hab⟩ := h₁
  obtain ⟨b', c, rest', he, rfl, hbc⟩ := h₂
  cases he
  exact ⟨a, c, rest, rfl, rfl, List.Subset.trans hab hbc⟩

theorem ne_nil (h : sc.Grows sc₁) : sc₁ ≠ [] := by
  obtain ⟨a, b, rest, rfl, rfl, -⟩ := h
  simp

theorem flatten_subset (h : sc.Grows sc₁) : sc.flatten ⊆ sc₁.flatten := by
  obtain ⟨a, b, rest, rfl, rfl, hab⟩ := h
  simpa using List.subset_append_of_subset_left _ hab

/-- A scope that was opened is gone when it is closed. -/
theorem drop_one (h : Grows ([] :: sc) sc₁) : sc₁.drop 1 = sc := by
  obtain ⟨a, b, rest, he, rfl, -⟩ := h
  cases he
  rfl

end Grows

theorem grows_declare {what name : String} {sc sc' : Scopes} (hne : sc ≠ [])
    (h : sc.declare what name = .ok sc') :
    sc.Grows sc' ∧ ∀ n ∈ [name].filter (· != "_"), n ∈ sc'.flatten ∧ n ∉ sc.flatten := by
  obtain ⟨rfl, rfl⟩ | ⟨hb, hm, rfl⟩ := Scopes.declare_eq_ok.mp h
  · exact ⟨grows_refl hne, by simp⟩
  · cases sc with
    | nil => exact absurd rfl hne
    | cons scope rest =>
      refine ⟨⟨scope, name :: scope, rest, rfl, rfl, List.subset_cons_self _ _⟩, ?_⟩
      intro n hn
      obtain ⟨hn, -⟩ := List.mem_filter.mp hn
      rw [List.mem_singleton.mp hn]
      exact ⟨by simp [Scopes.bind], hm⟩

end Scopes

theorem grows_lowerNames {type : String} {names : List String} {values : List Node} {l : List Stmt}
    {sc sc' : Scopes} (hne : sc ≠ []) (h : Gives (lowerNames type names values) sc l sc') :
    sc.Grows sc' ∧ ∀ n ∈ names.filter (· != "_"), n ∈ sc'.flatten ∧ n ∉ sc.flatten := by
  induction names generalizing values l sc with
  | nil =>
    obtain ⟨-, rfl⟩ := gives_lowerNames_nil.mp h
    exact ⟨Scopes.grows_refl hne, by simp⟩
  | cons name names ih =>
    obtain ⟨value, sc₁, rest, -, hd, hrest, rfl⟩ := gives_lowerNames_cons h
    obtain ⟨hgrow, hname⟩ := Scopes.grows_declare hne hd
    obtain ⟨hgrow', hnames⟩ := ih hgrow.ne_nil hrest
    refine ⟨hgrow.trans hgrow', fun n hn => ?_⟩
    obtain ⟨hmem, hblank⟩ := List.mem_filter.mp hn
    rcases List.mem_cons.mp hmem with rfl | hmem
    · have := hname n (List.mem_filter.mpr ⟨by simp, hblank⟩)
      exact ⟨hgrow'.flatten_subset this.1, this.2⟩
    · have := hnames n (List.mem_filter.mpr ⟨hmem, hblank⟩)
      exact ⟨this.1, fun hsc => this.2 (hgrow.flatten_subset hsc)⟩

theorem grows_lowerSpecs {specs : List ValueSpec} {decls : List (List Stmt)} {sc sc' : Scopes}
    (hne : sc ≠ []) (h : Gives (specs.mapM lowerSpec) sc decls sc') :
    sc.Grows sc' ∧
      ∀ n ∈ bindsSpecs specs, n ∈ sc'.flatten ∧ n ∉ sc.flatten := by
  induction specs generalizing decls sc with
  | nil =>
    obtain ⟨-, rfl⟩ := gives_mapM_nil.mp h
    exact ⟨Scopes.grows_refl hne, by simp [bindsSpecs]⟩
  | cons spec specs ih =>
    obtain ⟨l, sc₁, more, hl, hmore, rfl⟩ := gives_mapM_cons.mp h
    obtain ⟨hgrow, hnames⟩ := grows_lowerNames hne (gives_lowerSpec hl).2
    obtain ⟨hgrow', hrest⟩ := ih hgrow.ne_nil hmore
    refine ⟨hgrow.trans hgrow', fun n hn => ?_⟩
    rcases List.mem_append.mp hn with hn | hn
    · exact ⟨(hrest n hn).1, fun hsc => (hrest n hn).2 (hgrow.flatten_subset hsc)⟩
    · exact ⟨hgrow'.flatten_subset (hnames n hn).1, (hnames n hn).2⟩

/-- Lowering a statement without others in it only adds names to the innermost scope. -/
theorem grows_of_not_isCompound {s : Statement} {r : Option Stmt} {sc sc' : Scopes}
    (h : s.LowersTo sc r sc') (hne : sc ≠ []) (hs : s.isCompound = false) : sc.Grows sc' := by
  cases h with
  | define hx hd => exact (Scopes.grows_declare hne hd).1
  | vars hd => exact (grows_lowerSpecs hne hd).1
  | block | branch | loop => cases hs
  | _ => exact Scopes.grows_refl hne

mutual
/-- Lowering a statement only adds names to the innermost scope. -/
theorem Statement.LowersTo.grows {s : Statement} {r : Option Stmt} {sc sc' : Scopes}
    (h : s.LowersTo sc r sc') (hne : sc ≠ []) : sc.Grows sc' := by
  cases s with
  | block list =>
    obtain ⟨out, hl, -⟩ := h.of_block
    exact grows_lowerList hl hne
  | branch init cond body other =>
    obtain ⟨start, c, yes, no, sc₁, sc₂, sc₃, hi, hc, hb, ho, -, rfl⟩ := h.of_branch
    have hinit := grows_lowerSimple hi (by simp)
    rw [(grows_lowerList hb (by simp)).drop_one] at ho
    rw [(hinit.trans (grows_lowerElse ho hinit.ne_nil)).drop_one]
    exact Scopes.grows_refl hne
  | loop init cond step body =>
    obtain ⟨start, c, list, next, post, sc₁, sc₂, sc₃, hi, hc, hb, hs, -, -, rfl⟩ := h.of_loop
    have hinit := grows_lowerSimple hi (by simp)
    rw [(grows_lowerList hb (by simp)).drop_one] at hs
    rw [(hinit.trans (grows_lowerSimple hs hinit.ne_nil)).drop_one]
    exact Scopes.grows_refl hne
  | _ => exact grows_of_not_isCompound h hne rfl

theorem grows_lowerList {l : List Statement} {out : List Stmt} {sc sc' : Scopes}
    (h : Gives (lowerList l) sc out sc') (hne : sc ≠ []) : sc.Grows sc' := by
  cases l with
  | nil =>
    obtain ⟨-, rfl⟩ := gives_lowerList_nil.mp h
    exact Scopes.grows_refl hne
  | cons s rest =>
    obtain ⟨t, sc₁, more, hs, hr, -⟩ := gives_lowerList_cons h
    have hgrow := hs.grows hne
    exact hgrow.trans (grows_lowerList hr hgrow.ne_nil)

theorem grows_lowerElse {other : Option Statement} {no : Option Stmt} {sc sc' : Scopes}
    (h : Gives (lowerElse other) sc no sc') (hne : sc ≠ []) : sc.Grows sc' := by
  cases other with
  | none =>
    obtain ⟨-, -, rfl⟩ | ⟨-, -, -, ⟨⟩, -⟩ | ⟨-, -, ⟨⟩, -⟩ := gives_lowerElse h
    exact Scopes.grows_refl hne
  | some s =>
    cases s with
    | block l =>
      obtain ⟨out, inner, hl, -, rfl⟩ := gives_lowerElse_block h
      rw [(grows_lowerList hl (by simp)).drop_one]
      exact Scopes.grows_refl hne
    | _ =>
      obtain ⟨t, hs, -⟩ := gives_lowerElse_statement (by simp) h
      exact hs.grows hne

theorem grows_lowerSimple {init : Option Statement} {start : Option Stmt} {sc sc' : Scopes}
    (h : Gives (lowerSimple init) sc start sc') (hne : sc ≠ []) : sc.Grows sc' := by
  cases init with
  | none =>
    obtain ⟨-, -, rfl⟩ | ⟨-, ⟨⟩, -⟩ := gives_lowerSimple h
    exact Scopes.grows_refl hne
  | some s =>
    obtain ⟨⟨⟩, -⟩ | ⟨s', he, -, hs⟩ := gives_lowerSimple h
    cases he
    exact hs.grows hne
end

/-- The names that a statement declares become visible and were not. -/
theorem Statement.LowersTo.fresh {s : Statement} {r : Option Stmt} {sc sc' : Scopes}
    (h : s.LowersTo sc r sc') (hne : sc ≠ []) {n : String} (hn : n ∈ s.binds) :
    n ∈ sc'.flatten ∧ n ∉ sc.flatten := by
  cases h with
  | define hx hd => exact (Scopes.grows_declare hne hd).2 n hn
  | vars hd => exact (grows_lowerSpecs hne hd).2 n hn
  | @assign op aop name x y _ hop hx =>
    cases op with
    | define => cases hop
    | _ => simp [binds] at hn
  | _ => simp [binds] at hn

theorem fresh_lowerSimple {init : Option Statement} {start : Option Stmt} {sc sc' : Scopes}
    (h : Gives (lowerSimple init) sc start sc') (hne : sc ≠ []) {n : String}
    (hn : n ∈ Statement.bindsOption init) : n ∈ sc'.flatten ∧ n ∉ sc.flatten := by
  rcases gives_lowerSimple h with ⟨rfl, -, -⟩ | ⟨s, rfl, -, hs⟩
  · cases hn
  · exact hs.fresh hne hn

/-- What is evaluated after a round declares nothing. -/
theorem bindsOption_step {step : Option Statement} {next : Option Stmt} {post : List Expr}
    {sc sc' : Scopes} (h : Gives (lowerSimple step) sc next sc')
    (hp : (step = none ∧ post = []) ∨ ∃ x, next = some (.expr x) ∧ post = [x]) :
    Statement.bindsOption step = [] := by
  rcases gives_lowerSimple h with ⟨rfl, -, -⟩ | ⟨s, rfl, hsimple, hs⟩
  · rfl
  · obtain ⟨⟨⟩, -⟩ | ⟨x, rfl, -⟩ := hp
    generalize hr : some (Stmt.expr x) = r at hs
    cases hs with
    | define => cases hr
    | vars => cases hsimple
    | @assign op aop name x y _ hop hx =>
      cases op with
      | define => cases hop
      | _ => rfl
    | _ => rfl

/-- The names that a list declares are visible behind it and were not in front of it. -/
theorem fresh_lowerList {l : List Statement} {out : List Stmt} {sc sc' : Scopes}
    (h : Gives (lowerList l) sc out sc') (hne : sc ≠ []) {n : String}
    (hn : n ∈ Statement.bindsList l) : n ∈ sc'.flatten ∧ n ∉ sc.flatten := by
  induction l generalizing out sc with
  | nil => simp [Statement.bindsList] at hn
  | cons s rest ih =>
    obtain ⟨t, sc₁, more, hs, hr, -⟩ := gives_lowerList_cons h
    have hgrow := hs.grows hne
    rcases List.mem_append.mp hn with hn | hn
    · obtain ⟨hin, hout⟩ := ih hr hgrow.ne_nil hn
      exact ⟨hin, fun hsc => hout (hgrow.flatten_subset hsc)⟩
    · obtain ⟨hin, hout⟩ := hs.fresh hne hn
      exact ⟨(grows_lowerList hr hgrow.ne_nil).flatten_subset hin, hout⟩

end PathTree.Source
