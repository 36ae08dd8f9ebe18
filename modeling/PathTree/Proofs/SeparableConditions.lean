import Mathlib.Data.List.Nodup
import PathTree.Proofs.Candidates
import PathTree.Proofs.Environment
import PathTree.Proofs.VariableKeys

/-!
# Conditions on one parameter each

A condition is separable (`Expr.Separable`) if it compares one parameter with one literal, or is a
parameter that is a truth value, under negations and parentheses. `Expr.TrueIn` says what such
conditions mean for integers, texts and truth values without bound : it speaks of the values
themselves and not of literals.

Three facts connect the meaning with a query. Its variables are the parameters that are read, each
with the sort of its type (`Query.variables_perm`). Its literals have values, and all of them are
mentioned (`Mentioned.exists_ofConds`). And where an environment shows the values of a model, a
condition has the truth value that it has in the model (`Expr.Separable.eval`).
-/

namespace PathTree

/-! ## Separable conditions -/

/-- The values that a parameter of a type is compared with : an integer that is not an extreme word,
a text, a truth value. -/
def Value.Compared (type : String) : Value → Prop
  | .int n => type ∈ integerTypes ∧ -(2 ^ 63 - 1) < n ∧ n < 2 ^ 63 - 1
  | .text _ => type = "string"
  | .bool _ => type = "bool"
  | .float _ => False

/-- The sort of a value. -/
def Value.sort : Value → ValueSort
  | .int _ | .float _ => .int
  | .text _ => .string
  | .bool _ => .bool

/-- Whether an operator compares values of a sort : integers are ordered, texts and truth values are
only alike or not. -/
def BinaryOp.compares (op : BinaryOp) : ValueSort → Bool
  | .int => op.isComparison
  | _ => op = .eq || op = .ne

/-- One of two operands is a name and the other one a literal, in parentheses or not. -/
def Expr.Pairs (name : String) (l : Literal) (x y : Expr) : Prop :=
  x.unparen = .ident name ∧ y.unparen = .lit l ∨ x.unparen = .lit l ∧ y.unparen = .ident name

/-- A condition about one parameter, alone or compared with a literal, under negations and
parentheses. -/
inductive Expr.Separable (params : List Param) : Expr → Prop
  | alone {p : Param} (hp : p ∈ params) (ht : p.type = "bool") : Separable params (.ident p.name)
  | compared {op : BinaryOp} {p : Param} {l : Literal} {v : Value} {x y : Expr} (hp : p ∈ params)
      (hxy : Pairs p.name l x y) (hl : l.value = .ok v) (hv : v.Compared p.type)
      (hop : op.compares v.sort) : Separable params (.binary op x y)
  | not {x : Expr} (hx : Separable params x) : Separable params (.pre .not x)
  | paren {x : Expr} (hx : Separable params x) : Separable params (.paren x)

/-! ## Models -/

/-- An integer, a text and a truth value for each name. -/
structure Model where
  int : String → Int
  text : String → Text.Bytes
  truth : String → Bool

/-- The value of a name that is of a sort. -/
def Model.value (μ : Model) (name : String) : ValueSort → Value
  | .bool => .bool (μ.truth name)
  | .string => .text (μ.text name)
  | _ => .int (μ.int name)

/-- What a comparison says of two values. -/
def BinaryOp.Says (op : BinaryOp) : Value → Value → Prop
  | .int a, .int b =>
    match op with
    | .eq => a = b
    | .ne => a ≠ b
    | .lt => a < b
    | .le => a ≤ b
    | .gt => b < a
    | .ge => b ≤ a
    | _ => False
  | .text a, .text b => op = .eq ∧ a = b ∨ op = .ne ∧ a ≠ b
  | .bool a, .bool b => op = .eq ∧ a = b ∨ op = .ne ∧ a ≠ b
  | _, _ => False

/-- What a separable condition says of the values of a model. -/
def Expr.TrueIn (μ : Model) : Expr → Prop
  | .ident name => μ.truth name = true
  | .binary op x y =>
    match x.unparen, y.unparen with
    | .ident name, .lit l => ∃ v, l.value = .ok v ∧ op.Says (μ.value name v.sort) v
    | .lit l, .ident name => ∃ v, l.value = .ok v ∧ op.Says v (μ.value name v.sort)
    | _, _ => False
  | .pre .not x => ¬x.TrueIn μ
  | .paren x => x.TrueIn μ
  | _ => False

variable {params : List Param} {op : BinaryOp} {p : Param} {l : Literal} {v w : Value}
  {x y c : Expr}

theorem Expr.trueIn_paramFirst {μ : Model} {name : String} (hx : x.unparen = .ident name)
    (hy : y.unparen = .lit l) (hl : l.value = .ok v) :
    (Expr.binary op x y).TrueIn μ ↔ op.Says (μ.value name v.sort) v := by
  rw [TrueIn, hx, hy]
  simp [hl]

theorem Expr.trueIn_literalFirst {μ : Model} {name : String} (hx : x.unparen = .lit l)
    (hy : y.unparen = .ident name) (hl : l.value = .ok v) :
    (Expr.binary op x y).TrueIn μ ↔ op.Says v (μ.value name v.sort) := by
  rw [TrueIn, hx, hy]
  simp [hl]

/-- A parameter has the sort of the values it is compared with. -/
theorem Value.Compared.sortOf_eq (h : v.Compared p.type) : sortOf p.type = v.sort := by
  cases v with
  | int n => simp [sortOf, h.1, sort]
  | float q => cases h
  | text s => exact congrArg sortOf h
  | bool t => exact congrArg sortOf h

theorem Value.Compared.isFloat_eq {type : String} (h : v.Compared type) : v.isFloat = false := by
  cases v with
  | float q => cases h
  | _ => rfl

theorem Value.sort_ne_unknown (v : Value) : v.sort ≠ .unknown := by
  cases v <;> simp [sort]

theorem Model.sort_value (μ : Model) (name : String) (v : Value) :
    (μ.value name v.sort).sort = v.sort := by
  cases v <;> rfl

theorem Model.isFloat_value (μ : Model) (name : String) (s : ValueSort) :
    (μ.value name s).isFloat = false := by
  cases s <;> rfl

theorem BinaryOp.isComparison_of_compares {s : ValueSort} (h : op.compares s) :
    op.isComparison := by
  cases s <;> cases op <;> simp_all [compares, isComparison]

theorem BinaryOp.isLogical_of_isComparison (h : op.isComparison) : op.isLogical = false := by
  cases op <;> simp_all [isComparison, isLogical]

/-! ## Comparing values -/

namespace Value

theorem compareBytes_eq_iff {a b : Text.Bytes} : compareBytes a b = .eq ↔ a = b := by
  fun_induction compareBytes a b with
  | case1 => simp
  | case2 => simp
  | case3 => simp
  | case4 a as b bs h =>
    have : a ≠ b := fun he => by simp [he] at h
    simp [this]
  | case5 a as b bs h h' =>
    have : a ≠ b := fun he => by simp [he] at h'
    simp [this]
  | case6 a as b bs h h' ih =>
    have : a = b := by
      simp only [UInt8.not_lt] at h h'
      exact UInt8.le_antisymm h' h
    simp [this, ih]

/-- A comparison of values of one sort gives what the comparison says. -/
theorem binary_of_sort_eq (h : v.sort = w.sort) (hop : op.compares v.sort) (hv : v.isFloat = false)
    (hw : w.isFloat = false) : ∃ t, binary op v w = .ok (.bool t) ∧ (t = true ↔ op.Says v w) := by
  have hc := BinaryOp.isComparison_of_compares hop
  have hbinary : binary op v w = comparison op v w := by
    simp [binary, hc, BinaryOp.isLogical_of_isComparison hc]
  rw [hbinary]
  cases v with
  | int a =>
    cases w with
    | int b =>
      refine ⟨_, rfl, ?_⟩
      unfold compareInt
      cases op with
      | eq | ne | lt | le | gt | ge =>
        unfold ordered BinaryOp.Says
        dsimp only
        split_ifs <;> simp <;> omega
      | _ => cases hc
    | float q => cases hw
    | _ => cases h
  | float q => cases hv
  | text a =>
    cases w with
    | text b =>
      have hop : op = .eq ∨ op = .ne := by simpa [BinaryOp.compares, sort] using hop
      refine ⟨_, rfl, ?_⟩
      rcases hop with rfl | rfl <;> simp [ordered, BinaryOp.Says, compareBytes_eq_iff]
    | _ => cases h
  | bool a =>
    cases w with
    | bool b =>
      have hop : op = .eq ∨ op = .ne := by simpa [BinaryOp.compares, sort] using hop
      rcases hop with rfl | rfl <;> simp [comparison, BinaryOp.Says]
    | _ => cases h

end Value

/-! ## Evaluation -/

/-- An environment gives a parameter a literal with its value in a model. -/
def Env.Shows (env : Env) (μ : Model) (p : Param) : Prop :=
  ∃ l, env.get? p.name = some l ∧ l.value = .ok (μ.value p.name (sortOf p.type))

/-- What parentheses do not change is the same without the outer ones. -/
theorem Expr.apply_unparen {α : Type} (f : Expr → α) (h : ∀ x, f (.paren x) = f x) :
    ∀ x : Expr, f x.unparen = f x
  | .paren x => (apply_unparen f h x).trans (h x).symm
  | .lit _ | .ident _ | .binary .. | .pre .. | .post .. | .cast .. | .call .. | .member ..
  | .assign .. => rfl

theorem Env.bind_unparen (env : Env) (x : Expr) : env.bind x.unparen = env.bind x :=
  x.apply_unparen env.bind fun _ => by rw [Env.bind]

@[simp] theorem Expr.reads_unparen {name : String} : x.unparen.Reads name ↔ x.Reads name :=
  (x.apply_unparen (·.Reads name) fun _ => propext reads_paren).to_iff

@[simp] theorem Expr.reads_lit {name : String} : (Expr.lit l).Reads name ↔ False :=
  reads_iff _ name

theorem Env.eval_binary {env : Env} {l l' : Literal} (hx : env.bind x = .ok (.lit l))
    (hy : env.bind y = .ok (.lit l')) (hl : l.value = .ok v) (hl' : l'.value = .ok w) :
    env.eval (.binary op x y) = Value.binary op v w := by
  simp [Env.eval, Env.bind, hx, hy, Expr.constant, hl, hl', Bind.bind, Except.bind]

/-- A comparison of a name with a literal reads the name only. -/
theorem Expr.Pairs.reads {name n : String} (h : Pairs name l x y) :
    (Expr.binary op x y).Reads n ↔ n = name := by
  rw [reads_binary, ← reads_unparen (x := x), ← reads_unparen (x := y)]
  rcases h with ⟨hx, hy⟩ | ⟨hx, hy⟩ <;> simp [hx, hy]

namespace Expr.Separable

/-- A separable condition is about one parameter, the only name that it reads. -/
theorem exists_param (h : c.Separable params) : ∃ p ∈ params, sortOf p.type ≠ .unknown ∧
    ∀ name, c.Reads name ↔ name = p.name := by
  induction h with
  | @alone p hp ht => exact ⟨p, hp, by rw [ht]; decide, fun name => reads_ident⟩
  | @compared op p l v x y hp hxy hl hv hop =>
    exact ⟨p, hp, hv.sortOf_eq ▸ v.sort_ne_unknown, fun name => hxy.reads⟩
  | not _ ih => simpa using ih
  | paren _ ih => simpa using ih

/-- A condition has the truth value that it has in a model, where the model is shown. -/
theorem eval (h : c.Separable params) {env : Env} {μ : Model}
    (hμ : ∀ p ∈ params, c.Reads p.name → env.Shows μ p) :
    ∃ t, env.eval c = .ok (.bool t) ∧ (t = true ↔ c.TrueIn μ) := by
  induction h with
  | @alone p hp ht =>
    obtain ⟨l, hget, hl⟩ := hμ p hp (reads_ident.mpr rfl)
    have hs : sortOf p.type = .bool := by
      rw [ht]
      decide
    rw [hs] at hl
    exact ⟨μ.truth p.name, by simp [Env.eval, Env.bind, Env.value, hget, constant, hl, Bind.bind,
      Except.bind, Model.value], Iff.rfl⟩
  | @compared op p l v x y hp hxy hl hv hop =>
    obtain ⟨l', hget, hl'⟩ := hμ p hp (hxy.reads.mpr rfl)
    rw [hv.sortOf_eq] at hl'
    have hs := μ.sort_value p.name v
    have hname {z : Expr} (hz : z.unparen = .ident p.name) : env.bind z = .ok (.lit l') := by
      rw [← env.bind_unparen, hz, Env.bind, Env.value, hget]
    have hlit {z : Expr} (hz : z.unparen = .lit l) : env.bind z = .ok (.lit l) := by
      rw [← env.bind_unparen, hz, Env.bind]
    rcases hxy with ⟨hx, hy⟩ | ⟨hx, hy⟩
    · rw [Env.eval_binary (hname hx) (hlit hy) hl' hl, trueIn_paramFirst hx hy hl]
      exact Value.binary_of_sort_eq hs (by rwa [hs]) (μ.isFloat_value ..) hv.isFloat_eq
    · rw [Env.eval_binary (hlit hx) (hname hy) hl hl', trueIn_literalFirst hx hy hl]
      exact Value.binary_of_sort_eq hs.symm hop hv.isFloat_eq (μ.isFloat_value ..)
  | @not x hx ih =>
    obtain ⟨t, ht, hiff⟩ := ih fun p hp hr => hμ p hp (reads_pre.mpr hr)
    obtain ⟨y, hy, hv⟩ := Env.eval_eq_ok.mp ht
    refine ⟨!t, Env.eval_eq_ok.mpr ⟨.pre .not y, by simp [Env.bind, hy, Bind.bind, Except.bind],
      by simp [constant, hv, Bind.bind, Except.bind, Value.unary]⟩, ?_⟩
    rw [TrueIn, ← hiff]
    simp
  | @paren x hx ih => exact ih fun p hp hr => hμ p hp (reads_paren.mpr hr)

end Expr.Separable

/-! ## Variables -/

instance (x : Expr) (name : String) : Decidable (x.Reads name) :=
  decidable_of_iff ((x.walk fun y => !y.isUnknown).any fun
    | .ident n => n = name
    | _ => false) <| by
    rw [List.any_eq_true]
    constructor
    · rintro ⟨y, hy, h⟩
      cases y with
      | ident n =>
        obtain rfl : n = name := by simpa using h
        exact hy
      | _ => cases h
    · exact fun h => ⟨_, h, by simp⟩

namespace Variable

/-- The variable of a parameter. -/
def ofParam (p : Param) : Variable := ⟨p.name, sortOf p.type, none⟩

/-- All variables are parameters of a known sort. -/
def OfParams (params : List Param) (vars : List Variable) : Prop :=
  ∀ v ∈ vars, v.sort ≠ .unknown ∧ ∃ p ∈ params, v = ofParam p

variable {vars : List Variable}

theorem refine_of_ofParams (h : OfParams params vars) (key : String) (want : ValueSort) :
    refine key want vars = vars := by
  unfold refine
  conv_rhs => rw [← List.map_id vars]
  exact List.map_congr_left fun v hv => if_neg fun hu => (h v hv).1 hu.2

theorem eq_of_name_eq (hn : (params.map (·.name)).Nodup) {p p' : Param} (hp : p ∈ params)
    (hp' : p' ∈ params) (h : p.name = p'.name) : p = p' :=
  List.inj_on_of_nodup_map hn hp hp' h

/-- Variables and the one of a parameter behind them, if it is not there. -/
def withParam (p : Param) (vars : List Variable) : List Variable :=
  if vars.any (fun v => v.key = p.name) then vars else vars ++ [ofParam p]

/-- A variable with the name of a parameter is the parameter's variable. -/
theorem OfParams.eq_ofParam (h : OfParams params vars) (hn : (params.map (·.name)).Nodup)
    (hp : p ∈ params) {v : Variable} (hv : v ∈ vars) (hkey : v.key = p.name) : v = ofParam p := by
  obtain ⟨-, p', hp', rfl⟩ := h v hv
  rw [eq_of_name_eq hn hp' hp hkey]

theorem mem_withParam (hn : (params.map (·.name)).Nodup) (h : OfParams params vars)
    (hp : p ∈ params) {v : Variable} : v ∈ withParam p vars ↔ v ∈ vars ∨ v = ofParam p := by
  unfold withParam
  split
  · next hany =>
    obtain ⟨u, hu, hkey⟩ := List.any_eq_true.mp hany
    have hsame := h.eq_ofParam hn hp hu (of_decide_eq_true hkey)
    exact ⟨Or.inl, fun hv => hv.elim id fun hv => hv ▸ hsame ▸ hu⟩
  · simp

theorem OfParams.withParam (hn : (params.map (·.name)).Nodup) (h : OfParams params vars)
    (hp : p ∈ params) (hs : sortOf p.type ≠ .unknown) : OfParams params (withParam p vars) := by
  intro v hv
  rcases (mem_withParam hn h hp).mp hv with hv | rfl
  · exact h v hv
  · exact ⟨hs, p, hp, rfl⟩

/-- Noting a parameter adds its variable, if it is not there. -/
theorem note_ofParam (hn : (params.map (·.name)).Nodup) (h : OfParams params vars)
    (hp : p ∈ params) (hs : sortOf p.type ≠ .unknown) (want : ValueSort) :
    note (ofParam p) want vars = (sortOf p.type, withParam p vars) := by
  have hof := h.withParam hn hp hs
  have hmem : ofParam p ∈ withParam p vars := (mem_withParam hn h hp).mpr (Or.inr rfl)
  have hsort : sortIn p.name (withParam p vars) = sortOf p.type := by
    unfold sortIn
    cases hf : (withParam p vars).find? fun v => v.key = p.name with
    | none => exact absurd (List.find?_eq_none.mp hf _ hmem) (by simp [ofParam])
    | some v =>
      have hkey := List.find?_some hf
      rw [decide_eq_true_eq] at hkey
      rw [hof.eq_ofParam hn hp (List.mem_of_find?_eq_some hf) hkey]
      rfl
  calc note (ofParam p) want vars
      = (sortIn p.name (refine p.name want (withParam p vars)),
          refine p.name want (withParam p vars)) := rfl
    _ = (sortOf p.type, withParam p vars) := by rw [refine_of_ofParams hof, hsort]

theorem get?_paramSorts (hn : (params.map (·.name)).Nodup) (hp : p ∈ params) :
    (paramSorts params).get? p.name = some (sortOf p.type) := by
  refine Table.get?_putAll_of_forall (fun e he hname => ?_)
    (Or.inr ⟨_, List.mem_map.mpr ⟨p, hp, rfl⟩, rfl⟩)
  obtain ⟨p', hp', rfl⟩ := List.mem_map.mp he
  rw [eq_of_name_eq hn hp' hp hname]

theorem collect_unparen (sorts : Table ValueSort) (x : Expr) (want : ValueSort)
    (vars : List Variable) : collect sorts x.unparen want vars = collect sorts x want vars :=
  x.apply_unparen (collect sorts · want vars) fun _ => by rw [collect]

theorem collect_literal {sorts : Table ValueSort} (hx : x.unparen = .lit l) (want : ValueSort) :
    collect sorts x want vars = .ok (literalSort l.kind, vars) := by
  rw [← collect_unparen, hx, collect]

section Collected

variable (hn : (params.map (·.name)).Nodup) (h : OfParams params vars)

include hn h

theorem collect_param (hp : p ∈ params) (hs : sortOf p.type ≠ .unknown)
    (hx : x.unparen = .ident p.name) (want : ValueSort) :
    collect (paramSorts params) x want vars = .ok (sortOf p.type, withParam p vars) := by
  rw [← note_ofParam hn h hp hs want, ← collect_unparen, hx, collect, get?_paramSorts hn hp]
  rfl

/-- Collecting the variables of a separable condition adds that of the parameter that it reads. -/
theorem collect_separable (hc : c.Separable params) (hp : p ∈ params) (hr : c.Reads p.name)
    (want : ValueSort) :
    ∃ s, collect (paramSorts params) c want vars = .ok (s, withParam p vars) := by
  induction hc generalizing want with
  | @alone p' hp' ht =>
    obtain rfl := eq_of_name_eq hn hp hp' (Expr.reads_ident.mp hr)
    exact ⟨_, collect_param hn h hp (by rw [ht]; decide) rfl want⟩
  | @compared op p' l v x y hp' hxy hl hv hop =>
    obtain rfl := eq_of_name_eq hn hp hp' (hxy.reads.mp hr)
    have hs : sortOf p.type ≠ .unknown := hv.sortOf_eq ▸ v.sort_ne_unknown
    have hlogical := BinaryOp.isLogical_of_isComparison (BinaryOp.isComparison_of_compares hop)
    rw [collect, hlogical, if_neg Bool.false_ne_true]
    rcases hxy with ⟨hx, hy⟩ | ⟨hx, hy⟩
    · simp only [Bind.bind, Except.bind, collect_param hn h hp hs hx, collect_literal hy, hs,
        false_and, if_false]
      exact ⟨_, rfl⟩
    · -- The literal is visited again if its sort is unknown, which changes nothing.
      simp only [Bind.bind, Except.bind, collect_param hn h hp hs hy, collect_literal hx]
      split <;> exact ⟨_, rfl⟩
  | @not x hx ih =>
    obtain ⟨s, hs⟩ := ih (Expr.reads_pre.mp hr) .bool
    exact ⟨.bool, by simp only [collect, hs, Bind.bind, Except.bind]⟩
  | @paren x hx ih => exact ih (Expr.reads_paren.mp hr) want

end Collected

/-- Collecting the variables of separable conditions adds those of the parameters that they read. -/
theorem collectAll_separable (hn : (params.map (·.name)).Nodup) {conds : List Expr}
    (hconds : ∀ c ∈ conds, c.Separable params) (h : OfParams params vars) :
    ∃ out, collectAll (paramSorts params) conds vars = .ok out ∧ OfParams params out ∧
      ∀ v, v ∈ out ↔ v ∈ vars ∨ ∃ p ∈ params, (∃ c ∈ conds, c.Reads p.name) ∧ v = ofParam p := by
  induction conds generalizing vars with
  | nil => exact ⟨vars, rfl, h, by simp⟩
  | cons c cs ih =>
    obtain ⟨hc, hcs⟩ := List.forall_mem_cons.mp hconds
    obtain ⟨p, hp, hs, hreads⟩ := hc.exists_param
    obtain ⟨s, hcollect⟩ := collect_separable hn h hc hp ((hreads _).mpr rfl) .bool
    obtain ⟨out, hout, hof, hmem⟩ := ih hcs (h.withParam hn hp hs)
    refine ⟨out, bind_eq_ok.mpr ⟨_, hcollect, hout⟩, hof, fun v => ?_⟩
    have hfirst : v = ofParam p ↔ ∃ p' ∈ params, c.Reads p'.name ∧ v = ofParam p' := by
      constructor
      · exact fun hv => ⟨p, hp, (hreads _).mpr rfl, hv⟩
      · rintro ⟨p', hp', hr, rfl⟩
        rw [eq_of_name_eq hn hp' hp ((hreads _).mp hr)]
    rw [hmem, mem_withParam hn h hp, hfirst]
    simp only [List.exists_mem_cons_iff]
    grind

end Variable

/-- The variables of a query with separable conditions are the parameters that these read. -/
theorem Query.variables_perm {q : Query} (hn : (q.params.map (·.name)).Nodup)
    (hconds : ∀ c ∈ q.conds, c.Separable q.params) :
    ∃ vars, q.variables = .ok vars ∧ vars.Perm
      ((q.params.filter fun p => ∃ c ∈ q.conds, c.Reads p.name).map Variable.ofParam) := by
  have hnil : Variable.OfParams q.params [] := by simp [Variable.OfParams]
  obtain ⟨vars, hvars, hof, hmem⟩ := Variable.collectAll_separable hn hconds hnil
  have hsettle : vars.map Variable.settle = vars := by
    conv_rhs => rw [← List.map_id vars]
    exact List.map_congr_left fun v hv => if_neg (hof v hv).1
  have hq : q.variables = .ok vars := bind_eq_ok.mpr ⟨vars, hvars, by rw [hsettle]⟩
  refine ⟨vars, hq, (List.perm_ext_iff_of_nodup ?_ ?_).mpr fun v => ?_⟩
  · exact List.Nodup.of_map _ (Query.nodup_keys hq)
  · refine List.Nodup.of_map Variable.key ?_
    rw [List.map_map]
    exact hn.sublist (List.filter_sublist.map _)
  · rw [hmem]
    simp only [List.not_mem_nil, false_or, List.mem_map, List.mem_filter, decide_eq_true_eq,
      and_assoc, eq_comm (a := v)]

/-- A parameter that a separable condition reads has a known sort. -/
theorem Expr.Separable.sort_known (hc : c.Separable params) (hn : (params.map (·.name)).Nodup)
    (hp : p ∈ params) (hr : c.Reads p.name) : sortOf p.type ≠ .unknown := by
  obtain ⟨p', hp', hs, hreads⟩ := hc.exists_param
  rwa [Variable.eq_of_name_eq hn hp hp' ((hreads _).mp hr)]

/-! ## Literals -/

namespace Mentioned

@[simp] theorem literals_lit (l : Literal) : literals (.lit l) = [l] := rfl

@[simp] theorem literals_ident (name : String) : literals (.ident name) = [] := rfl

@[simp] theorem literals_paren (x : Expr) : literals (.paren x) = literals x := rfl

@[simp] theorem literals_cast (type : String) (x : Expr) :
    literals (.cast type x) = literals x := rfl

@[simp] theorem literals_pre (op : UnaryOp) (x : Expr) : literals (.pre op x) = literals x := rfl

@[simp] theorem literals_binary (op : BinaryOp) (x y : Expr) :
    literals (.binary op x y) = literals x ++ literals y :=
  List.filterMap_append

theorem literals_unparen (x : Expr) : literals x.unparen = literals x :=
  x.apply_unparen literals literals_paren

theorem literals_of_pairs {name : String} (h : Expr.Pairs name l x y) :
    literals (.binary op x y) = [l] := by
  rw [literals_binary, ← literals_unparen x, ← literals_unparen y]
  rcases h with ⟨hx, hy⟩ | ⟨hx, hy⟩ <;> simp [hx, hy]

/-- The literals of a separable condition are values that parameters are compared with. -/
theorem exists_value_of_separable (hc : c.Separable params) (hl : l ∈ literals c) :
    ∃ v type, l.value = .ok v ∧ v.Compared type := by
  induction hc with
  | alone hp ht => cases hl
  | @compared op p l' v x y hp hxy hl' hv hop =>
    rw [literals_of_pairs hxy, List.mem_singleton] at hl
    exact ⟨v, p.type, hl ▸ hl', hv⟩
  | @not x hx ih => exact ih (by simpa using hl)
  | @paren x hx ih => exact ih (by simpa using hl)

/-- An integer or a text is mentioned. -/
def Has (m : Mentioned) : Value → Prop
  | .int n => n ∈ m.ints
  | .text s => s ∈ m.texts
  | _ => True

theorem isWord64_of_compared {n : Int} {type : String} (h : (Value.int n).Compared type) :
    isWord64 n := by
  obtain ⟨-, hlow, hhigh⟩ := h
  simp only [isWord64, Bool.and_eq_true, decide_eq_true_eq]
  omega

/-- All values of literals are mentioned, and no other integers. -/
theorem exists_foldlM {ls : List Literal} (m : Mentioned)
    (h : ∀ l ∈ ls, ∃ v type, l.value = .ok v ∧ v.Compared type) :
    ∃ m', ls.foldlM add m = .ok m' ∧ (∀ l ∈ ls, ∀ v, l.value = .ok v → m'.Has v) ∧
      ∀ n ∈ m'.ints, n ∈ m.ints ∨ ∃ l ∈ ls, l.value = .ok (.int n) := by
  induction ls generalizing m with
  | nil => exact ⟨m, rfl, by simp, fun n hn => Or.inl hn⟩
  | cons l ls ih =>
    obtain ⟨⟨v, type, hl, hv⟩, hls⟩ := List.forall_mem_cons.mp h
    obtain ⟨m₁, hadd, hhas, hints⟩ : ∃ m₁, m.add l = .ok m₁ ∧ m₁.Has v ∧
        ∀ n ∈ m₁.ints, n ∈ m.ints ∨ v = .int n := by
      unfold add
      rw [hl]
      cases v with
      | int n =>
        refine ⟨_, rfl, ?_⟩
        rw [isWord64_of_compared hv]
        simp [Has, eq_comm]
      | float q => cases hv
      | text s => exact ⟨_, rfl, by simp [Has], by simp⟩
      | bool t => exact ⟨_, rfl, trivial, by simp⟩
    obtain ⟨m', hfold, hall, hback⟩ := ih m₁ hls
    have hgrows := grows_of_foldlM hfold
    refine ⟨m', by rw [List.foldlM_cons, hadd]; exact hfold, ?_, ?_⟩
    · intro l' hl' w hw
      rcases List.mem_cons.mp hl' with rfl | hl'
      · obtain rfl : v = w := Except.ok.inj (hl.symm.trans hw)
        cases v with
        | int n => exact hgrows.1.subset hhas
        | text s => exact hgrows.2.subset hhas
        | _ => trivial
      · exact hall l' hl' w hw
    · intro n hn
      rcases hback n hn with hn | ⟨l', hl', hw⟩
      · rcases hints n hn with hn | rfl
        · exact Or.inl hn
        · exact Or.inr ⟨l, by simp, hl⟩
      · exact Or.inr ⟨l', by simp [hl'], hw⟩

/-- Everything that separable conditions compare with is mentioned, and no extreme word is. -/
theorem exists_ofConds {conds : List Expr} (hconds : ∀ c ∈ conds, c.Separable params) :
    ∃ m, ofConds conds = .ok m ∧
      (∀ c ∈ conds, ∀ l ∈ literals c, ∀ v, l.value = .ok v → m.Has v) ∧
      ∀ n ∈ m.ints, -(2 ^ 63 - 1) < n ∧ n < 2 ^ 63 - 1 := by
  have hliterals : ∀ l ∈ conds.flatMap literals, ∃ v type, l.value = .ok v ∧ v.Compared type := by
    intro l hl
    obtain ⟨c, hc, hl⟩ := List.mem_flatMap.mp hl
    exact exists_value_of_separable (hconds c hc) hl
  obtain ⟨m, hm, hhas, hints⟩ := exists_foldlM {} hliterals
  refine ⟨m, hm, fun c hc l hl => hhas l (List.mem_flatMap.mpr ⟨c, hc, hl⟩), fun n hn => ?_⟩
  rcases hints n hn with hn | ⟨l, hl, hvalue⟩
  · cases hn
  · obtain ⟨v, type, hl, hv⟩ := hliterals l hl
    obtain rfl : v = .int n := Except.ok.inj (hl.symm.trans hvalue)
    exact hv.2

end Mentioned

end PathTree
