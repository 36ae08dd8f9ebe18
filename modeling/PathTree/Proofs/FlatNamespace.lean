import PathTree.Proofs.Simulation

/-!
# One store in place of scopes

Lowering drops scopes : blocks are spliced, and what a branch or loop starts with is put in front of
it. `FuncDecl.run_lower` says that nothing is lost by it. A run of the statement tree with one store
gives what a run of the source with scopes gives, if no local has the name of something that is not
local and no local has a name that is read by its spelling.

The second condition is not made by lowering, which knows only the names that a function declares :
a local may be called `true`, and then its uses become literals (`run_lower_namedTrue`).

A name that is visible is never declared again, and the names that are not visible are not
mentioned. So the values that the store has kept from scopes that are over do no harm, and each
statement keeps bindings and store in agreement (`exec_sim`).
-/

namespace PathTree

open Source Variables Steps

/-! ## Expressions -/

section Expressions

variable {V W ε : Type} {I : Interpretation V W ε} {locals scope : List String}
  {R : Bindings V → NameStore V → Prop}

/-- The values of names that are read by their spelling are not those of locals. -/
theorem notMem_of_spelled (hspelled : ∀ name ∈ locals, name ∉ spelledNames) {name : String}
    (h : name ∈ spelledNames) : name ∉ locals := fun hl => hspelled name hl h

/-- A name has the value that its meaning has. -/
theorem Sim.of_readName (hR : SeesAlike locals scope R)
    (hspelled : ∀ name ∈ locals, name ∉ spelledNames) {name : String}
    (hn : Resolved locals scope name) :
    Sim R (readName I name) ((nameExpr name).eval I) R := by
  unfold readName
  rcases nameExpr_cases name with ⟨hs, l, hl⟩ | hi
  · rw [hl]
    have hlocal := notMem_of_spelled hspelled hs
    exact Sim.of_variable_none hR hlocal (Sim.of_note _)
  · rw [hi]
    unfold Expr.eval lookUp
    rw [bind_assoc]
    refine (Sim.of_variable hR hn).bind fun o => ?_
    cases o with
    | some v =>
      rw [pure_bind]
      exact Sim.of_note v
    | none => exact Sim.perform_note _

theorem number?_of_isNumber {form : LiteralForm} {kind : LitKind} {text : String}
    (hn : (Node.literal form text).isNumber) (hk : form.kind? = some kind) :
    (Node.literal form text).number? = some ⟨kind, text⟩ ∧ (kind = .int ∨ kind = .float) := by
  cases form <;> cases hk <;> simp_all [Node.isNumber, Node.number?]

theorem number?_eq_none {x : Node} (h : x.isNumber = false) : x.number? = none := by
  cases x with
  | literal form text => cases form <;> simp_all [Node.isNumber, Node.number?]
  | _ => rfl

/-- A call that is not by the name of a type with one argument is no conversion. -/
theorem converts_eq_none {callee : Node} {args : List Node}
    (h : ∀ name x, callee = .ident name → args = [x] → name ∉ conversionTypes) :
    (converts callee args : Steps (Bindings V) V W ε (Option String)) = pure none := by
  unfold converts
  split
  · next name x =>
    have hname : ¬ conversionTypes.contains name = true := by simpa using h name x rfl rfl
    rw [if_neg hname]
    refine (bind_congr (g := fun _ => pure none) fun o => ?_).trans rfl
    cases o <;> rfl
  · rfl

mutual
/-- An expression and its counterpart go alike. -/
theorem eval_sim (hR : SeesAlike locals scope R) (hspelled : ∀ name ∈ locals, name ∉ spelledNames)
    {n : Node} {y : Expr} (h : n.lower = .ok y)
    (hn : ∀ name ∈ n.names, Resolved locals scope name) :
    Sim R (n.eval I) (y.eval I) R := by
  cases Node.lowersTo h with
  | name name =>
    unfold Node.eval
    exact Sim.of_readName hR hspelled (hn name (by simp [Node.names]))
  | literal text hk =>
    simp only [Node.eval, hk, Expr.eval]
    exact Sim.of_note _
  | @signed form kind text hnum hk =>
    obtain ⟨hnumber, hkind⟩ := number?_of_isNumber hnum hk
    simp only [Node.eval, PrefixOp.unary?, hnumber, pure_bind, I.unary_neg kind text hkind,
      Expr.eval]
    exact (Sim.of_pure _ fun _ _ h => h).bind Sim.of_note
  | @unary op un x z hop hnum hx =>
    have hsim := eval_sim hR hspelled hx fun name hm => hn name (by simpa [Node.names] using hm)
    have heval : (Node.unary op x).eval I = (do
        let v ← x.eval I
        note (← perform (I.unary un v))) := by
      simp only [Node.eval, hop]
      split
      · next l hl =>
        have hneg : op = .neg := by
          cases op <;> cases hop
          rfl
        rw [number?_eq_none (hnum hneg)] at hl
        cases hl
      · rfl
    rw [heval]
    simp only [Expr.eval]
    exact hsim.bind fun v => Sim.perform_note _
  | @binary op bin x₁ x₂ y₁ y₂ hop h₁ h₂ =>
    have hsim₁ := eval_sim hR hspelled h₁ fun name hm =>
      hn name (by simp [Node.names, hm])
    have hsim₂ := eval_sim hR hspelled h₂ fun name hm =>
      hn name (by simp [Node.names, hm])
    simp only [Node.eval, hop, Expr.eval]
    cases bin with
    | and =>
      refine hsim₁.bind fun v => (Sim.of_decide I v).bind fun b => ?_
      cases b with
      | true => exact hsim₂
      | false => exact Sim.of_pure v fun _ _ h => h
    | or =>
      refine hsim₁.bind fun v => (Sim.of_decide I v).bind fun b => ?_
      cases b with
      | true => exact Sim.of_pure v fun _ _ h => h
      | false => exact hsim₂
    | _ => exact hsim₁.bind fun a => hsim₂.bind fun b => Sim.perform_note _
  | @paren x z hx =>
    simp only [Node.eval, Expr.eval]
    exact eval_sim hR hspelled hx fun name hm => hn name (by simpa [Node.names] using hm)
  | @member x z sel hx =>
    simp only [Node.eval, Expr.eval]
    exact (eval_sim hR hspelled hx fun name hm =>
      hn name (by simpa [Node.names] using hm)).bind fun v => Sim.perform_note _
  | @named name args ys ha =>
    have hname : Resolved locals scope name := hn name (by simp [Node.names])
    have hargs := evalArgs_sim hR hspelled ha fun m hm => hn m (by simp [Node.names, hm])
    obtain ⟨z, rfl, hconv, hc⟩ | ⟨hconv, hc⟩ := namedCall_cases name ys
    · rw [hc]
      obtain ⟨x, rfl⟩ := List.length_eq_one_iff.mp (length_lowerArgs ha).symm
      -- the tree has the argument itself, which is the list of the one argument for `evalArgs`
      have hz : ∀ k : V → Steps (NameStore V) V W ε V,
          (z.eval I >>= k) = Expr.evalList I [z] >>= fun vs => k (vs.headD (I.initial name)) := by
        intro k
        simp only [Expr.evalList, pure_bind, bind_assoc, List.headD_cons]
      have hlocal := notMem_of_spelled hspelled (List.mem_append_right _ hconv)
      simp only [Node.eval, converts, bind_assoc, Expr.eval, hz]
      refine Sim.of_variable_none hR hlocal ?_
      rw [if_pos (by simpa using hconv), pure_bind]
      exact hargs.bind fun vs => Sim.perform_note _
    · rw [hc]
      have hnone : ∀ n x, Node.ident name = .ident n → args = [x] → n ∉ conversionTypes := by
        rintro n x ⟨rfl⟩ rfl
        obtain ⟨z, rfl⟩ := List.length_eq_one_iff.mp (length_lowerArgs ha)
        exact hconv z rfl
      simp only [Node.eval, converts_eq_none hnone, pure_bind, Expr.eval, bind_assoc]
      exact (Sim.of_lookUp hR hname).bind fun v => (Sim.of_note v).bind fun f =>
        hargs.bind fun vs => Sim.perform_note _
  | @method x z sel args ys hx ha =>
    have hargs := evalArgs_sim hR hspelled ha fun m hm => hn m (by simp [Node.names, hm])
    have hsim := eval_sim hR hspelled hx fun name hm => hn name (by simp [Node.names, hm])
    simp only [Node.eval, Expr.eval, converts, pure_bind, bind_assoc]
    exact hsim.bind fun v => (Sim.of_perform _).bind fun u => (Sim.of_note u).bind fun f =>
      hargs.bind fun vs => Sim.perform_note _

theorem evalArgs_sim (hR : SeesAlike locals scope R)
    (hspelled : ∀ name ∈ locals, name ∉ spelledNames)
    {args : List Node} {ys : List Expr} (h : lowerArgs args = .ok ys)
    (hn : ∀ name ∈ namesList args, Resolved locals scope name) :
    Sim R (evalArgs I args) (Expr.evalList I ys) R := by
  cases args with
  | nil =>
    cases h
    exact Sim.of_pure [] fun _ _ h => h
  | cons x rest =>
    obtain ⟨y, more, hx, hr, rfl⟩ := lowerArgs_cons h
    simp only [evalArgs, Expr.evalList]
    refine (eval_sim hR hspelled hx fun name hm => hn name (by simp [namesList, hm])).bind
      fun v => (evalArgs_sim hR hspelled hr fun name hm => hn name (by simp [namesList, hm])).bind
      fun vs => Sim.of_pure (v :: vs) fun _ _ h => h
end

/-- A count is on one name before and behind lowering, if it is not on a name that is read by its
spelling. -/
theorem counted?_lower {n : Node} {y : Expr} (h : n.lower = .ok y) :
    y.counted? = n.counted? ∨
      ∃ name ∈ spelledNames, n.counted? = some name ∧ y.counted? = none := by
  induction n using Node.unparen.induct generalizing y with
  | case1 x ih =>
    cases Node.lowersTo h with
    | paren hx =>
      have hrec := ih hx
      exact hrec
  | case2 x hx =>
    cases Node.lowersTo h with
    | name name =>
      rcases nameExpr_cases name with ⟨hs, l, hl⟩ | hi
      · exact Or.inr ⟨name, hs, rfl, by rw [hl]; rfl⟩
      · exact Or.inl (by rw [hi]; rfl)
    | @named name args ys ha =>
      obtain ⟨z, rfl, -, hc⟩ | ⟨-, hc⟩ := namedCall_cases name ys <;> exact Or.inl (by rw [hc]; rfl)
    | @paren z w hz => exact absurd rfl (hx z)
    | _ => exact Or.inl rfl

theorem mem_names_of_counted {n : Node} {name : String} (h : n.counted? = some name) :
    name ∈ n.names := by
  induction n using Node.unparen.induct with
  | case1 x ih =>
    simp only [Node.names]
    exact ih h
  | case2 x hx =>
    cases x with
    | ident m =>
      cases h
      simp [Node.names]
    | paren z => exact absurd rfl (hx z)
    | _ => cases h

/-- A count on a name, or on the place that an expression is. -/
theorem Sim.of_countAt (hsub : scope ⊆ locals) (hspelled : ∀ name ∈ locals, name ∉ spelledNames)
    {n : Node} {y : Expr} (h : n.lower = .ok y) (hn : ∀ name ∈ n.names, Resolved locals scope name)
    (up : Bool) :
    Sim (Agree locals scope) (countAt I lexical up n.counted? (n.eval I))
      (countAt I flat up y.counted? (y.eval I)) (Agree locals scope) := by
  have hplace := eval_sim (I := I) (Agree.seesAlike hsub) hspelled h hn
  unfold countAt
  rcases counted?_lower h with hc | ⟨name, hs, hc, hnone⟩
  · rw [hc]
    cases hm : n.counted? with
    | none => exact hplace.bind fun v => Sim.of_perform _
    | some name =>
      have hname := hn name (mem_names_of_counted hm)
      refine (Sim.of_variable (Agree.seesAlike hsub) hname).bind fun o => ?_
      cases o with
      | none => exact hplace.bind fun v => Sim.of_perform _
      | some v => exact (Sim.of_perform _).bind fun u => Sim.of_assign hsub hname u
  · rw [hc, hnone]
    exact Sim.of_variable_none (Agree.seesAlike hsub) (notMem_of_spelled hspelled hs)
      (hplace.bind fun v => Sim.of_perform _)

end Expressions

/-! ## Declarations -/

section Declarations

variable {V W ε : Type} {I : Interpretation V W ε} {locals scope : List String}

theorem resolved_of_free {x : Node} (h : ∀ name ∈ x.free scope, name ∉ locals) :
    ∀ name ∈ x.names, Resolved locals scope name := by
  intro name hn
  by_cases hs : name ∈ scope
  · exact Or.inl hs
  · exact Or.inr (h name (List.mem_filter.mpr ⟨hn, by simpa using hs⟩))

/-- What is visible is the name of a local, and lowering has noted it. -/
structure Tracks (locals scope : List String) (sc : Scopes) : Prop where
  subset : scope ⊆ locals
  noted : scope ⊆ sc.flatten
  ne_nil : sc ≠ []

theorem Tracks.grow {sc sc' : Scopes} (h : Tracks locals scope sc) (new : List String)
    (hgrow : sc.Grows sc') (hlocals : new ⊆ locals) (hnew : ∀ n ∈ new, n ∈ sc'.flatten) :
    Tracks locals (new ++ scope) sc' where
  subset := List.append_subset.mpr ⟨hlocals, h.subset⟩
  noted := List.append_subset.mpr
    ⟨hnew, List.Subset.trans h.noted hgrow.flatten_subset⟩
  ne_nil := hgrow.ne_nil

theorem Tracks.enter {sc : Scopes} (h : Tracks locals scope sc) : Tracks locals scope ([] :: sc) :=
  ⟨h.subset, by simpa using h.noted, by simp⟩

/-- What a branch or loop starts with is visible in it and was not visible. -/
theorem Tracks.start {sc sc' : Scopes} {init : Option Statement} {start : Option Stmt}
    (h : Tracks locals scope sc) (hi : Lower.Gives (lowerSimple init) ([] :: sc) start sc')
    (hl : Statement.localsOption init ⊆ locals) :
    Tracks locals (Statement.bindsOption init ++ scope) sc' ∧
      ∀ n ∈ Statement.bindsOption init, n ∉ scope := by
  refine ⟨h.enter.grow _ (grows_lowerSimple hi (by simp)) ?_ fun n hn => ?_, fun n hn hs => ?_⟩
  · exact List.Subset.trans (Statement.bindsOption_subset_locals init) hl
  · exact (fresh_lowerSimple hi (by simp) hn).1
  · exact (fresh_lowerSimple hi (by simp) hn).2 (h.enter.noted hs)

/-- What a list declares was not visible. -/
theorem Tracks.fresh_list {sc sc' : Scopes} {l : List Statement} {out : List Stmt}
    (h : Tracks locals scope sc) (hl : Lower.Gives (lowerList l) sc out sc') :
    ∀ n ∈ Statement.bindsList l, n ∉ scope :=
  fun _ hn hs => (fresh_lowerList hl h.ne_nil hn).2 (h.noted hs)

/-- The store has got values that the bindings have not got yet. -/
def Pending (pending : Bindings V) (locals scope : List String) (vars : Bindings V)
    (store : NameStore V) : Prop :=
  Agree locals scope vars store ∧ ∀ p ∈ pending, store p.1 = some p.2

/-- A variable is declared first in the store and last in the bindings. -/
theorem Sim.declare_around {pending : Bindings V} {new : List String} {name : String} {v : V}
    {x : Steps (Bindings V) V W ε Unit} {y : Steps (NameStore V) V W ε Unit} (hb : name ≠ "_")
    (hl : name ∈ locals) (hs : name ∉ scope) (hp : name ∉ pending.map Prod.fst)
    (h : Sim (Pending ((name, v) :: pending) locals scope) x y
      (Pending ((name, v) :: pending) locals (new ++ scope))) :
    Sim (Pending pending locals scope) (do x; Steps.declare lexical name v)
      (do Steps.declare flat name v; y) (Pending pending locals (name :: new ++ scope)) := by
  intro vars store w trace ⟨hr, hpend⟩
  have hstart : Pending ((name, v) :: pending) locals scope vars (store.set name v) := by
    refine ⟨hr.setStore hs hl v, fun p hm => ?_⟩
    rcases List.mem_cons.mp hm with rfl | hm
    · simp [NameStore.set]
    · have hne : p.1 ≠ name := fun he => hp (he ▸ List.mem_map_of_mem hm)
      simpa [NameStore.set, hne] using hpend p hm
  have hflat : (do Steps.declare flat name v; y) ⟨store, w, trace⟩ =
      y ⟨store.set name v, w, trace⟩ := by
    rw [bind_apply, declare_apply _ hb]
    rfl
  rw [hflat, bind_apply]
  rcases h vars _ w trace hstart with ⟨u, a', b', w', trace', ha, hb', hr', hpend'⟩ |
    ⟨o, a', b', w', trace', ha, hb'⟩
  · rw [ha, hb']
    refine Or.inl ⟨(), (name, v) :: a', b', w', trace', declare_apply _ hb v _, rfl, ?_, ?_⟩
    · exact hr'.bind (hpend' (name, v) (by simp))
    · exact fun p hm => hpend' p (by simp [hm])
  · rw [ha, hb']
    exact Or.inr ⟨o, a', b', w', trace', rfl, rfl⟩

theorem execNames_sim {type : String} {names : List String} {values : List Node} {l : List Stmt}
    {sc sc' : Scopes} (pending : Bindings V) (hspelled : ∀ name ∈ locals, name ∉ spelledNames)
    (h : Lower.Gives (lowerNames type names values) sc l sc') (ht : Tracks locals scope sc)
    (hp : pending.map Prod.fst ⊆ sc.flatten) (hl : names.filter (· != "_") ⊆ locals)
    (hf : ∀ x ∈ values, ∀ name ∈ x.free scope, name ∉ locals) (bound : Nat)
    (results : List String) :
    Sim (Pending pending locals scope) (execNames I type names values)
      (Stmt.runList I bound results l)
      (Pending pending locals (names.filter (· != "_") ++ scope)) := by
  have hsees : ∀ pending : Bindings V, SeesAlike locals scope (Pending pending locals scope) :=
    fun pending => (Agree.seesAlike ht.subset).mono fun _ _ hr => hr.1
  induction names generalizing values l sc pending with
  | nil =>
    obtain ⟨rfl, rfl⟩ := gives_lowerNames_nil.mp h
    exact Sim.of_pure () fun _ _ h => h
  | cons name names ih =>
    obtain ⟨value, sc₁, rest, hv, hd, hrest, rfl⟩ := gives_lowerNames_cons h
    obtain ⟨hgrow, hname⟩ := Scopes.grows_declare ht.ne_nil hd
    have ht₁ : Tracks locals scope sc₁ := ht.grow [] hgrow (by simp) (by simp)
    have hf₁ : ∀ x ∈ values.drop 1, ∀ name ∈ x.free scope, name ∉ locals :=
      fun x hx => hf x (List.mem_of_mem_drop hx)
    have htail : ∀ v, Sim (Pending pending locals scope)
        (do execNames I type names (values.drop 1); Steps.declare lexical name v)
        (do Steps.declare flat name v; Stmt.runList I bound results rest)
        (Pending pending locals ((name :: names).filter (· != "_") ++ scope)) := by
      intro v
      by_cases hb : name = "_"
      · subst hb
        simp only [declare_blank, pure_bind, bind_pure_unit]
        exact ih pending hrest ht₁ (List.Subset.trans hp hgrow.flatten_subset) hl hf₁
      · have hfilter : (name :: names).filter (· != "_") = name :: names.filter (· != "_") := by
          simp [hb]
        rw [hfilter] at hl ⊢
        have hn := hname name (by simp [hb])
        obtain ⟨hlocal, hlocals⟩ := List.cons_subset.mp hl
        have hpending := List.Subset.trans hp hgrow.flatten_subset
        refine Sim.declare_around hb hlocal (fun hs => hn.2 (ht.noted hs))
          (fun hm => hn.2 (hp hm)) ?_
        exact ih _ hrest ht₁ (List.cons_subset.mpr ⟨hn.1, hpending⟩) hlocals hf₁
    unfold execNames Stmt.runList
    rcases lowerOption_eq_ok hv with ⟨hhead, rfl⟩ | ⟨x, y, hhead, hx, rfl⟩
    · rw [hhead]
      exact htail _
    · have hmem : x ∈ values := List.mem_of_mem_head? hhead
      have hsim := eval_sim (I := I) (hsees pending) hspelled hx (resolved_of_free (hf x hmem))
      rw [hhead]
      simp only [Stmt.run, bind_map_left, bind_assoc]
      exact hsim.bind fun v => htail _

end Declarations

/-! ## Statements put together -/

section Trees

variable {V W ε : Type} (I : Interpretation V W ε) (bound : Nat) (results : List String)

theorem Stmt.runList_append (a b : List Stmt) :
    Stmt.runList I bound results (a ++ b) =
      (do Stmt.runList I bound results a; Stmt.runList I bound results b) := by
  induction a with
  | nil => simp only [List.nil_append, Stmt.runList, pure_bind]
  | cons s a ih => simp only [List.cons_append, Stmt.runList, bind_assoc, ih]

theorem Stmt.runList_singleton (s : Stmt) :
    Stmt.runList I bound results [s] = s.run I bound results := by
  simp only [Stmt.runList, bind_pure_unit]

theorem Stmt.run_single (l : List Stmt) :
    (Stmt.single l).run I bound results = Stmt.runList I bound results l := by
  unfold Stmt.single
  split
  · exact (Stmt.runList_singleton I bound results _).symm
  · rfl

theorem Stmt.run_hoist (start : Option Stmt) (s : Stmt) :
    (Stmt.hoist start s).run I bound results =
      (do Stmt.runArm I bound results start; s.run I bound results) := by
  cases start with
  | none => exact (pure_bind () fun _ => s.run I bound results).symm
  | some init =>
    exact congrArg (init.run I bound results >>= fun _ => ·) (Stmt.runList_singleton I bound results s)

theorem Stmt.run_ofLoop (start : Option Stmt) (c : Option Expr) (post : List Expr)
    (list : List Stmt) :
    (Stmt.ofLoop start c post list).run I bound results =
      (do
        Stmt.runArm I bound results start
        rounds (Expr.testOption I c)
          (do Stmt.runList I bound results list; post.forM (Expr.exec I)) bound) := by
  unfold Stmt.ofLoop
  split
  · simp only [Stmt.run, Stmt.runArm, pure_bind, List.forM, bind_pure_unit]
  · rfl

theorem Stmt.runList_statements (t : Option Stmt) :
    Stmt.runList I bound results (Stmt.statements t) = Stmt.runArm I bound results t := by
  unfold Stmt.statements
  split
  · rfl
  · rfl
  · exact Stmt.runList_singleton I bound results _

theorem Stmt.runList_toList (t : Option Stmt) :
    Stmt.runList I bound results t.toList = Stmt.runArm I bound results t := by
  cases t with
  | none => rfl
  | some s => exact Stmt.runList_singleton I bound results s

/-- The step of a loop is run as the expression that it is lowered to. -/
theorem Stmt.forM_step {step : Option Statement} {next : Option Stmt} {post : List Expr}
    {sc sc' : Scopes} (h : Lower.Gives (lowerSimple step) sc next sc')
    (hp : (step = none ∧ post = []) ∨ ∃ x, next = some (.expr x) ∧ post = [x]) :
    post.forM (Expr.exec I) = Stmt.runArm I bound results next := by
  rcases hp with ⟨rfl, rfl⟩ | ⟨x, rfl, rfl⟩
  · rcases gives_lowerSimple h with ⟨-, rfl, -⟩ | ⟨s, hs, -⟩
    · rfl
    · cases hs
  · exact bind_pure_unit

/-- A call is not an assignment or a count. -/
theorem Expr.exec_call {callee : Node} {args : List Node} {spread : Bool} {y : Expr}
    (h : (Node.call callee args spread).lower = .ok y) : y.exec I = discard (y.eval I) := by
  cases Node.lowersTo h with
  | @named name args ys ha =>
    obtain ⟨x, rfl, -, hc⟩ | ⟨-, hc⟩ := namedCall_cases name ys <;> rw [hc] <;> rfl
  | method => rfl

theorem execExpr_call {callee : Node} {args : List Node} {spread : Bool}
    (hp : ∀ v, callee = .ident "panic" → args ≠ [v]) :
    execExpr I (.call callee args spread) = discard ((Node.call callee args spread).eval I) := by
  unfold execExpr
  split
  · next v _ he =>
    cases he
    exact absurd rfl (hp v rfl)
  · rfl

end Trees

/-! ## Statements -/

section Statements

variable {V W ε : Type} {I : Interpretation V W ε} {bound : Nat}
  {results locals scope : List String}

theorem execSpecs_sim {specs : List ValueSpec} {decls : List (List Stmt)} {sc sc' : Scopes}
    (hspelled : ∀ name ∈ locals, name ∉ spelledNames)
    (h : Lower.Gives (specs.mapM lowerSpec) sc decls sc') (ht : Tracks locals scope sc)
    (hl : bindsSpecs specs ⊆ locals) (hf : ∀ name ∈ freeSpecs scope specs, name ∉ locals) :
    Sim (Agree locals scope) (specs.forM (execSpec I)) (Stmt.runList I bound results decls.flatten)
      (Agree locals (bindsSpecs specs ++ scope)) := by
  induction specs generalizing scope decls sc with
  | nil =>
    obtain ⟨rfl, rfl⟩ := Lower.gives_mapM_nil.mp h
    exact Sim.of_pure () fun _ _ h => h
  | cons spec specs ih =>
    obtain ⟨l, sc₁, more, hspec, hmore, rfl⟩ := Lower.gives_mapM_cons.mp h
    have hnames := (gives_lowerSpec hspec).2
    obtain ⟨hgrow, hfresh⟩ := grows_lowerNames ht.ne_nil hnames
    simp only [bindsSpecs, List.append_subset, freeSpecs, List.mem_append] at hl hf
    have hfirst : Sim (Agree locals scope) (execSpec I spec) (Stmt.runList I bound results l)
        (Agree locals (spec.binds ++ scope)) :=
      (execNames_sim [] hspelled hnames ht (by simp) hl.2
        (fun x hx name hn => hf name (Or.inl (List.mem_flatMap.mpr ⟨x, hx, hn⟩))) bound
        results).mono (fun _ _ hr => ⟨hr, by simp⟩) fun _ _ hr => hr.1
    rw [List.forM, List.flatten_cons, Stmt.runList_append]
    have hrest := ih hmore (ht.grow _ hgrow hl.2 fun n hn => (hfresh n hn).1) hl.1
      fun name hn => hf name (Or.inr hn)
    rw [bindsSpecs, List.append_assoc]
    exact hfirst.bind fun _ => hrest

/-- At the end of a scope its bindings are dropped, and the store keeps their values. -/
theorem Sim.of_inScope {new : List String} {x : Steps (Bindings V) V W ε Unit}
    {y : Steps (NameStore V) V W ε Unit}
    (h : Sim (Agree locals scope) x y (Agree locals (new ++ scope)))
    (hnew : ∀ n ∈ new, n ∉ scope) :
    Sim (Agree locals scope) (Steps.inScope x) y (Agree locals scope) := by
  intro vars store w trace hr
  have hlen : vars.length = scope.length := by rw [← hr.names, List.length_map]
  have hrun : Steps.inScope x ⟨vars, w, trace⟩ = match x ⟨vars, w, trace⟩ with
      | .ok u s => .ok u { s with vars := s.vars.drop (s.vars.length - scope.length) }
      | .error o s => .error o s := by
    rw [← hlen]
    refine (bind_apply x (fun u => do
      modify fun s => { s with vars := s.vars.drop (s.vars.length - vars.length) }
      pure u) ⟨vars, w, trace⟩).trans ?_
    cases x ⟨vars, w, trace⟩ <;> rfl
  rw [hrun]
  rcases h vars store w trace hr with ⟨u, a', b', w', trace', ha, hb, hr'⟩ |
    ⟨o, a', b', w', trace', ha, hb⟩
  · rw [ha, hb]
    exact Or.inl ⟨u, _, b', w', trace', rfl, rfl, hr'.drop hnew⟩
  · rw [ha, hb]
    exact Or.inr ⟨o, a', b', w', trace', rfl, rfl⟩

theorem Sim.of_inScope_self {x : Steps (Bindings V) V W ε Unit} {y : Steps (NameStore V) V W ε Unit}
    (h : Sim (Agree locals scope) x y (Agree locals scope)) :
    Sim (Agree locals scope) (Steps.inScope x) y (Agree locals scope) := by
  rw [← List.nil_append scope] at h
  exact Sim.of_inScope h (by simp)

theorem Sim.of_lookUps (hR : SeesAlike locals scope (Agree (V := V) locals scope))
    {names : List String} (h : names ⊆ scope) :
    Sim (Agree locals scope) (names.mapM (lookUp I lexical)) (names.mapM (lookUp I flat))
      (Agree locals scope) := by
  induction names with
  | nil => exact Sim.of_pure [] fun _ _ h => h
  | cons name names ih =>
    obtain ⟨hname, hnames⟩ := List.cons_subset.mp h
    rw [List.mapM_cons, List.mapM_cons]
    exact (Sim.of_lookUp hR (Or.inl hname)).bind fun v => (ih hnames).bind fun vs =>
      Sim.of_pure (v :: vs) fun _ _ h => h

theorem Sim.of_test (hsub : scope ⊆ locals) (hspelled : ∀ name ∈ locals, name ∉ spelledNames)
    {cond : Option Node} {c : Option Expr} (h : lowerOption cond = .ok c)
    (hf : ∀ name ∈ cond.toList.flatMap (Node.free scope), name ∉ locals) :
    Sim (Agree locals scope) (testOption I cond) (Expr.testOption I c) (Agree locals scope) := by
  rcases lowerOption_eq_ok h with ⟨rfl, rfl⟩ | ⟨x, y, rfl, hx, rfl⟩
  · exact (Sim.of_note _).bind fun v => Sim.of_decide I v
  · have hx' : ∀ name ∈ x.free scope, name ∉ locals := fun name hn => hf name (by simpa using hn)
    exact (eval_sim (Agree.seesAlike hsub) hspelled hx (resolved_of_free hx')).bind
      fun v => Sim.of_decide I v

/-- A statement without others in it and its counterpart go alike. -/
theorem exec_sim_of_not_isCompound {s : Statement} {r : Option Stmt}
    {sc sc' : Scopes} (hspelled : ∀ name ∈ locals, name ∉ spelledNames) (h : s.LowersTo sc r sc')
    (ht : Tracks locals scope sc) (hl : s.locals ⊆ locals)
    (hf : ∀ name ∈ s.free scope, name ∉ locals) (hres : results ⊆ scope)
    (hcompound : s.isCompound = false) :
    Sim (Agree locals scope) (s.exec I bound results) (Stmt.runArm I bound results r)
      (Agree locals (s.binds ++ scope)) := by
  have hsees : SeesAlike locals scope (Agree (V := V) locals scope) := Agree.seesAlike ht.subset
  cases h with
  | block => cases hcompound
  | branch => cases hcompound
  | loop => cases hcompound
  | retNone =>
    simp only [Statement.exec, Stmt.runArm, Stmt.run]
    exact (Sim.of_lookUps hsees hres).bind fun vs => Sim.of_leave _
  | @ret x y _ hx =>
    have hx' : ∀ name ∈ x.free scope, name ∉ locals := fun name hn => hf name (by
      simpa [Statement.free] using hn)
    simp only [Statement.exec, Stmt.runArm, Stmt.run]
    exact (eval_sim hsees hspelled hx (resolved_of_free hx')).bind fun v => Sim.of_leave _
  | @define name x y _ _ hx hd =>
    have hx' : ∀ name ∈ x.free scope, name ∉ locals := fun name hn => hf name (by
      simpa [Statement.free] using hn)
    simp only [Statement.exec, execAssign, SetOp.assign?, if_true, Stmt.declare, Stmt.runArm,
      Stmt.run, held]
    refine (eval_sim hsees hspelled hx (resolved_of_free hx')).bind fun v =>
      Sim.of_declare (fun n hn => ⟨hl hn, fun hs => ?_⟩) v
    exact ((Scopes.grows_declare ht.ne_nil hd).2 n hn).2 (ht.noted hs)
  | @assign op aop name x y _ hop hx =>
    have hop' : op ≠ .define := by
      rintro rfl
      cases hop
    simp only [Statement.free, if_neg hop', List.flatMap_singleton, List.mem_append] at hf
    have hx' := resolved_of_free fun n hn => hf n (Or.inr hn)
    have hname := resolved_of_free (fun n hn => hf n (Or.inl hn)) name (by simp [Node.names])
    have hbinds : (Statement.assign [.ident name] op [x]).binds = [] := by
      cases op with
      | define => exact absurd rfl hop'
      | _ => rfl
    rw [hbinds]
    simp only [Statement.exec, execAssign, hop, Stmt.runArm, Stmt.run, Expr.exec]
    refine (eval_sim hsees hspelled hx hx').bind fun v => ?_
    cases aop.binary? with
    | none => exact Sim.of_assign ht.subset hname v
    | some bin =>
      exact (Sim.of_lookUp hsees hname).bind fun u => (Sim.of_perform _).bind fun v =>
        Sim.of_assign ht.subset hname v
  | @count x y up _ hx =>
    have hup : ((if up then UnaryOp.inc else .dec) == .inc) = up := by cases up <;> rfl
    simp only [Statement.exec, Stmt.runArm, Stmt.run, Expr.exec, hup]
    exact Sim.of_countAt ht.subset hspelled hx (resolved_of_free hf) up
  | @vars specs decls _ _ hd =>
    simp only [Statement.exec, Stmt.runArm, Stmt.run_single]
    exact execSpecs_sim hspelled hd ht hl hf
  | @throw v spread y _ hv =>
    have hv' : ∀ name ∈ v.names, Resolved locals scope name := fun name hn =>
      resolved_of_free hf name (by simp [Node.names, namesList, hn])
    simp only [Statement.exec, execExpr, Stmt.runArm, Stmt.run]
    exact Sim.of_variable_none hsees (notMem_of_spelled hspelled (by decide))
      ((eval_sim hsees hspelled hv hv').bind fun v => Sim.of_leave _)
  | @call callee args spread y _ hp hx =>
    simp only [Statement.exec, Stmt.runArm, Stmt.run, Expr.exec_call I hx]
    rw [execExpr_call I hp]
    exact (eval_sim hsees hspelled hx (resolved_of_free hf)).map _
  | empty => exact Sim.of_pure () fun _ _ h => h

mutual
/-- A statement and its counterpart go alike. Behind them the names are visible that the statement
declares. -/
theorem exec_sim {scope : List String} {s : Statement} {r : Option Stmt}
    {sc sc' : Scopes} (hspelled : ∀ name ∈ locals, name ∉ spelledNames) (h : s.LowersTo sc r sc')
    (ht : Tracks locals scope sc) (hl : s.locals ⊆ locals)
    (hf : ∀ name ∈ s.free scope, name ∉ locals) (hres : results ⊆ scope) :
    Sim (Agree locals scope) (s.exec I bound results) (Stmt.runArm I bound results r)
      (Agree locals (s.binds ++ scope)) := by
  cases s with
  | block l =>
    obtain ⟨out, hlist, rfl⟩ := h.of_block
    simp only [Statement.exec, Stmt.runArm, Stmt.run]
    exact Sim.of_inScope (execList_sim hspelled hlist ht hl hf hres) (ht.fresh_list hlist)
  | branch init cond body other =>
    obtain ⟨start, c, yes, no, sc₁, sc₂, sc₃, hi, hc, hb, ho, rfl, rfl⟩ := h.of_branch
    simp only [Statement.locals, List.append_subset, Statement.free, List.mem_append] at hl hf
    simp only [Statement.exec, Stmt.runArm, Stmt.run_hoist, Stmt.run]
    obtain ⟨ht₁, hfresh⟩ := ht.start hi hl.1.1
    have hres₁ := List.subset_append_of_subset_right (Statement.bindsOption init) hres
    rw [(grows_lowerList hb (by simp)).drop_one] at ho
    refine Sim.of_inScope ?_ hfresh
    refine (execSimple_sim hspelled hi ht.enter hl.1.1
      (fun n hn => hf n (Or.inl (Or.inl (Or.inl hn)))) hres).bind fun _ => ?_
    refine (eval_sim (Agree.seesAlike ht₁.subset) hspelled hc (resolved_of_free fun n hn =>
      hf n (Or.inl (Or.inl (Or.inr hn))))).bind fun v => (Sim.of_decide I v).bind fun d => ?_
    cases d with
    | true =>
      exact Sim.of_inScope (execList_sim hspelled hb ht₁.enter hl.1.2
        (fun n hn => hf n (Or.inl (Or.inr hn))) hres₁) (ht₁.enter.fresh_list hb)
    | false =>
      exact execElse_sim hspelled ho ht₁ hl.2 (fun n hn => hf n (Or.inr hn)) hres₁
  | loop init cond step body =>
    obtain ⟨start, c, list, next, post, sc₁, sc₂, sc₃, hi, hc, hb, hs, hp, rfl, rfl⟩ := h.of_loop
    simp only [Statement.locals, List.append_subset, Statement.free, List.mem_append] at hl hf
    simp only [Statement.exec, Stmt.runArm, Stmt.run_ofLoop]
    obtain ⟨ht₁, hfresh⟩ := ht.start hi hl.1.1
    have hres₁ := List.subset_append_of_subset_right (Statement.bindsOption init) hres
    rw [(grows_lowerList hb (by simp)).drop_one] at hs
    refine Sim.of_inScope ?_ hfresh
    refine (execSimple_sim hspelled hi ht.enter hl.1.1
      (fun n hn => hf n (Or.inl (Or.inl (Or.inl hn)))) hres).bind fun _ => ?_
    refine Sim.of_rounds (Sim.of_test ht₁.subset hspelled hc fun n hn =>
      hf n (Or.inl (Or.inl (Or.inr hn)))) ?_ bound
    refine (Sim.of_inScope (execList_sim hspelled hb ht₁.enter hl.2
      (fun n hn => hf n (Or.inr hn)) hres₁) (ht₁.enter.fresh_list hb)).bind fun _ => ?_
    have hstep :=
      execSimple_sim hspelled hs ht₁ hl.1.2 (fun n hn => hf n (Or.inl (Or.inr hn))) hres₁
    rw [bindsOption_step hs hp, List.nil_append] at hstep
    rw [Stmt.forM_step I bound results hs hp]
    exact hstep
  | _ => exact exec_sim_of_not_isCompound hspelled h ht hl hf hres rfl

theorem execList_sim {scope : List String} {l : List Statement} {out : List Stmt} {sc sc' : Scopes}
    (hspelled : ∀ name ∈ locals, name ∉ spelledNames) (h : Lower.Gives (lowerList l) sc out sc')
    (ht : Tracks locals scope sc) (hl : Statement.localsList l ⊆ locals)
    (hf : ∀ name ∈ Statement.freeList scope l, name ∉ locals) (hres : results ⊆ scope) :
    Sim (Agree locals scope) (execList I bound results l) (Stmt.runList I bound results out)
      (Agree locals (Statement.bindsList l ++ scope)) := by
  cases l with
  | nil =>
    obtain ⟨rfl, rfl⟩ := gives_lowerList_nil.mp h
    exact Sim.of_pure () fun _ _ h => h
  | cons s rest =>
    obtain ⟨t, sc₁, more, hs, hr, rfl⟩ := gives_lowerList_cons h
    simp only [Statement.localsList, List.append_subset] at hl
    simp only [Statement.freeList, List.mem_append] at hf
    have hbinds := List.Subset.trans s.binds_subset_locals hl.1
    rw [Stmt.runList_append, Stmt.runList_toList, Statement.bindsList, List.append_assoc, execList]
    refine (exec_sim hspelled hs ht hl.1 (fun n hn => hf n (Or.inl hn)) hres).bind
      fun _ => ?_
    exact execList_sim hspelled hr
      (ht.grow _ (hs.grows ht.ne_nil) hbinds fun n hn => (hs.fresh ht.ne_nil hn).1) hl.2
      (fun n hn => hf n (Or.inr hn)) (List.subset_append_of_subset_right _ hres)

theorem execElse_sim {scope : List String} {other : Option Statement} {no : Option Stmt}
    {sc sc' : Scopes} (hspelled : ∀ name ∈ locals, name ∉ spelledNames)
    (h : Lower.Gives (lowerElse other) sc no sc')
    (ht : Tracks locals scope sc) (hl : Statement.localsOption other ⊆ locals)
    (hf : ∀ name ∈ Statement.freeOption scope other, name ∉ locals) (hres : results ⊆ scope) :
    Sim (Agree locals scope) (Steps.inScope (execOption I bound results other))
      (Stmt.runArm I bound results no) (Agree locals scope) := by
  cases other with
  | none =>
    obtain ⟨-, rfl, rfl⟩ | ⟨-, -, -, ⟨⟩, -⟩ | ⟨-, -, ⟨⟩, -⟩ := gives_lowerElse h
    exact Sim.of_inScope_self (Sim.of_pure () fun _ _ h => h)
  | some s =>
    cases s with
    | block l =>
      obtain ⟨out, inner, hlist, rfl, rfl⟩ := gives_lowerElse_block h
      simp only [execOption, Statement.exec, Stmt.runArm, Stmt.run]
      have hinner := Sim.of_inScope (execList_sim hspelled hlist ht.enter hl hf hres)
        (ht.enter.fresh_list hlist)
      exact Sim.of_inScope_self hinner
    | _ =>
      obtain ⟨t, hlow, rfl⟩ := gives_lowerElse_statement (by simp) h
      rw [execOption, Stmt.runArm, Stmt.run, Stmt.runList_statements]
      exact Sim.of_inScope (exec_sim hspelled hlow ht hl hf hres) fun n hn hm =>
        (hlow.fresh ht.ne_nil hn).2 (ht.noted hm)

theorem execSimple_sim {scope : List String} {init : Option Statement} {start : Option Stmt}
    {sc sc' : Scopes} (hspelled : ∀ name ∈ locals, name ∉ spelledNames)
    (h : Lower.Gives (lowerSimple init) sc start sc') (ht : Tracks locals scope sc)
    (hl : Statement.localsOption init ⊆ locals)
    (hf : ∀ name ∈ Statement.freeOption scope init, name ∉ locals) (hres : results ⊆ scope) :
    Sim (Agree locals scope) (execOption I bound results init) (Stmt.runArm I bound results start)
      (Agree locals (Statement.bindsOption init ++ scope)) := by
  cases init with
  | none =>
    obtain ⟨-, rfl, rfl⟩ | ⟨-, ⟨⟩, -⟩ := gives_lowerSimple h
    exact Sim.of_pure () fun _ _ h => h
  | some s =>
    obtain ⟨⟨⟩, -⟩ | ⟨s', he, -, hlow⟩ := gives_lowerSimple h
    cases he
    exact exec_sim hspelled hlow ht hl hf hres
end

end Statements

/-! ## Functions -/

section Functions

variable {V W ε : Type}

theorem agree_bindings (f : FuncDecl) (args : String → V) :
    Agree f.locals f.headNames (f.bindings args) fun name => (f.bindings args).lookup name where
  names := by
    unfold FuncDecl.bindings
    rw [List.map_map]
    exact List.map_id _
  values _ _ h := h
  others name hn := by
    refine Bindings.lookup_eq_none fun hm => hn (List.mem_append_left _ ?_)
    simpa [FuncDecl.bindings] using hm

/-- The run of a lowered function with one store gives the outcome, the world and the trace of
values and decisions of the run of the source with scopes, for each meaning of operators and calls,
each bound for loops and all arguments. No local has the name of something that is not local, and
none has a name that is read by its spelling. -/
theorem Source.FuncDecl.run_lower {f : FuncDecl} {fn : Function} (h : f.lower = .ok fn)
    (hfree : ∀ name ∈ f.free, name ∉ f.locals) (hspelled : ∀ name ∈ f.locals, name ∉ spelledNames)
    (I : Interpretation V W ε) (bound : Nat) (args : String → V) (w : W) :
    fn.run I bound f.resultNames (fun name => (f.bindings args).lookup name) w =
      f.run I bound args w := by
  obtain ⟨body, sc, hbody, hlist⟩ := FuncDecl.lower_eq_ok h
  have hl : f.list = body.list := by rw [FuncDecl.list, hbody, Option.elim]
  have ht : Tracks f.locals f.headNames [f.headNames] :=
    ⟨List.subset_append_left _ _, by simp, by simp⟩
  have hres : f.resultNames ⊆ f.headNames := List.subset_append_right _ _
  rw [← hl] at hlist
  exact ((execList_sim hspelled hlist ht (List.subset_append_right _ _) hfree hres).outcome_eq
    (agree_bindings f args) w).symm

end Functions

/-- Values are texts, which say how they were made. -/
def Interpretation.ofTexts : Interpretation String Unit Empty where
  literal l := l.text
  unary op v := pure ((if op = .neg then "-" else "!") ++ v)
  binary op u v := pure ("(" ++ u ++ op.symbol ++ v ++ ")")
  truth v := pure (v == "true")
  convert type v := pure (type ++ "(" ++ v ++ ")")
  member v sel := pure (v ++ "." ++ sel)
  call f vs := pure (f ++ "(" ++ ",".intercalate vs ++ ")")
  count up v := pure (v ++ if up then "++" else "--")
  countPlace _ _ := pure ()
  global name := pure name
  setGlobal _ _ := pure ()
  hold _ v := v
  initial type := type ++ "()"
  unary_neg _ _ _ := rfl

namespace Source.FuncDecl

/-- Locals in a loop and in its arms have names that are used again behind it. -/
def reused : FuncDecl :=
  .ofStatements "reused"
    [.loop (some (.assign [.ident "i"] .define [.literal .int "0"]))
      (some (.binary (.base .lt) (.ident "i") (.ident "a")))
      (some (.count (.ident "i") true))
      [.assign [.ident "x"] .define [.ident "i"],
        .branch (some (.assign [.ident "y"] .define [.ident "x"]))
          (.binary (.base .gt) (.ident "y") (.literal .int "1"))
          [.assign [.ident "a"] (.base .sub) [.ident "y"]]
          (some (.branch (some (.assign [.ident "z"] .define [.ident "y"])) (.ident "z")
            [.ret [.ident "z"]] none))],
      .vars [⟨["x", "y"], some (.ident "int"), [.ident "a", .literal .int "2"]⟩],
      .ret [.binary (.base .add) (.ident "x") (.ident "y")]]

theorem run_lower_reused : ∃ fn, reused.lower = .ok fn ∧
    fn.run .ofTexts 3 reused.resultNames
        (fun name => (reused.bindings fun _ => "7").lookup name) () =
      reused.run .ofTexts 3 (fun _ => "7") () :=
  have h := lower_eq_lowered (f := reused) rfl
  ⟨_, h, run_lower h (by decide) (by decide) .ofTexts 3 (fun _ => "7") ()⟩

/-- A local has the name of a literal. -/
def namedTrue : FuncDecl :=
  .ofStatements "namedTrue"
    [.assign [.ident "true"] .define [.binary (.base .gt) (.ident "a") (.literal .int "3")],
      .branch none (.ident "true") [.ret [.literal .int "1"]] none, .ret [.literal .int "0"]]

/-- A function with no free names whose runs differ. -/
theorem run_lower_namedTrue : ∃ fn, namedTrue.lower = .ok fn ∧ namedTrue.free = [] ∧
    fn.run .ofTexts 3 namedTrue.resultNames
        (fun name => (namedTrue.bindings fun _ => "7").lookup name) () ≠
      namedTrue.run .ofTexts 3 (fun _ => "7") () :=
  ⟨_, lower_eq_lowered rfl, by decide, by decide⟩

end Source.FuncDecl

end PathTree
