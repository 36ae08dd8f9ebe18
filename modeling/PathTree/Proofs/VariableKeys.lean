import Mathlib.Logic.Relation
import PathTree.Proofs.Environment
import PathTree.Solver.Variables

/-!
# The keys of a query's variables

`Collects` says how the variables of an expression are collected, apart from the sorts that are
found on the way : by its form, with a second visit to some left operands. Whatever is shown of
collected variables is shown by induction on it.

Collecting is noting one variable after the other (`Collects.notes`), and a note leaves the keys that
are there and adds at most a new one. So the keys of a query are distinct (`Query.nodup_keys`),
further conditions only add keys behind them (`Query.keys_grow`), and the keys that were collected
are all that the conditions depend on (`Query.holds_congr`).
-/

namespace PathTree

namespace Variable

/-- The names under which variables are known. -/
def keys (vars : List Variable) : List String := vars.map (·.key)

@[simp] theorem keys_refine (key : String) (want : ValueSort) (vars : List Variable) :
    keys (refine key want vars) = keys vars := by
  unfold keys refine
  rw [List.map_map]
  refine List.map_congr_left fun v _ => ?_
  dsimp only [Function.comp]
  split <;> rfl

@[simp] theorem keys_settle (vars : List Variable) : keys (vars.map settle) = keys vars := by
  unfold keys
  rw [List.map_map]
  refine List.map_congr_left fun v _ => ?_
  dsimp only [Function.comp, settle]
  split <;> rfl

/-- A note adds the key of its variable behind the others, if it is not among them. -/
theorem keys_note (v : Variable) (want : ValueSort) (vars : List Variable) :
    keys (note v want vars).2 = if v.key ∈ keys vars then keys vars else keys vars ++ [v.key] := by
  have hany : vars.any (fun u => u.key = v.key) = true ↔ v.key ∈ keys vars := by
    simp [keys]
  unfold note
  rw [keys_refine]
  by_cases h : v.key ∈ keys vars
  · rw [if_pos h, if_pos (hany.mpr h)]
  · rw [if_neg h, if_neg (mt hany.mp h)]
    simp [keys]

theorem mem_keys_note (v : Variable) (want : ValueSort) (vars : List Variable) :
    v.key ∈ keys (note v want vars).2 := by
  rw [keys_note]
  split
  · next h => exact h
  · simp

/-! ## Notes -/

/-- Variables are reached from others by notes. -/
def Notes : List Variable → List Variable → Prop :=
  Relation.ReflTransGen fun vars vars' => ∃ v want, (note v want vars).2 = vars'

theorem notes_note (v : Variable) (want : ValueSort) (vars : List Variable) :
    Notes vars (note v want vars).2 := .single ⟨v, want, rfl⟩

/-- Notes leave the keys that are there in front. -/
theorem Notes.keys_grow {vars out : List Variable} (h : Notes vars out) :
    keys vars <+: keys out := by
  induction h with
  | refl => exact List.prefix_rfl
  | tail _ hstep ih =>
    obtain ⟨v, want, rfl⟩ := hstep
    refine ih.trans ?_
    rw [keys_note]
    split
    · exact List.prefix_rfl
    · exact List.prefix_append _ _

theorem Notes.nodup_keys {vars out : List Variable} (h : Notes vars out)
    (hv : (keys vars).Nodup) : (keys out).Nodup := by
  induction h with
  | refl => exact hv
  | tail _ hstep ih =>
    obtain ⟨v, want, rfl⟩ := hstep
    rw [keys_note]
    split
    · exact ih
    · next hnew =>
      rw [List.nodup_append]
      refine ⟨ih, by simp, fun a ha b hb hab => hnew ?_⟩
      rwa [← List.mem_singleton.mp hb, ← hab]

/-- How the variables of an expression are collected. A left operand may be visited again behind the
right one. -/
inductive Collects (sorts : Table ValueSort) : Expr → List Variable → List Variable → Prop
  | lit (l : Literal) (vars : List Variable) : Collects sorts (.lit l) vars vars
  | ident {name : String} {sort : ValueSort} (h : sorts.get? name = some sort) (want : ValueSort)
      (vars : List Variable) :
      Collects sorts (.ident name) vars (note ⟨name, sort, none⟩ want vars).2
  | unknown {x : Expr} (h : x.isUnknown) (want : ValueSort) (vars : List Variable) :
      Collects sorts x vars (note ⟨x.render, .unknown, some x⟩ want vars).2
  | paren {x : Expr} {vars out : List Variable} (h : Collects sorts x vars out) :
      Collects sorts (.paren x) vars out
  | cast {t : String} {x : Expr} {vars out : List Variable} (h : Collects sorts x vars out) :
      Collects sorts (.cast t x) vars out
  | pre {op : UnaryOp} {x : Expr} {vars out : List Variable}
      (hop : op = .not ∨ op = .neg ∨ op = .plus) (h : Collects sorts x vars out) :
      Collects sorts (.pre op x) vars out
  | binary {op : BinaryOp} {x y : Expr} {vars mid out : List Variable}
      (hx : Collects sorts x vars mid) (hy : Collects sorts y mid out) :
      Collects sorts (.binary op x y) vars out
  | again {op : BinaryOp} {x y : Expr} {vars mid both out : List Variable}
      (hx : Collects sorts x vars mid) (hy : Collects sorts y mid both)
      (hagain : Collects sorts x both out) : Collects sorts (.binary op x y) vars out

theorem collects_of_collect {sorts : Table ValueSort} (x : Expr) {want : ValueSort}
    {vars : List Variable} {out : ValueSort × List Variable}
    (h : collect sorts x want vars = .ok out) : Collects sorts x vars out.2 := by
  fun_induction collect sorts x want vars generalizing out with
  | case1 l want vars =>
    cases h
    exact .lit l vars
  | case2 n want vars hn => cases h
  | case3 n want vars sort hn =>
    cases h
    exact .ident hn want vars
  | case4 f args want vars | case5 x s want vars =>
    cases h
    exact .unknown rfl want vars
  | case6 x want vars ih => exact .paren (ih h)
  | case7 t x want vars ih => exact .cast (ih h)
  | case8 x want vars ih | case9 x want vars ih | case10 x want vars ih =>
    obtain ⟨p, hp, h⟩ := bind_eq_ok.mp h
    have hx := ih hp
    cases h
    exact .pre (by simp) hx
  | case11 op x want vars h1 h2 h3 => cases h
  | case12 op x y want vars hop ihx ihy =>
    obtain ⟨p, hp, h⟩ := bind_eq_ok.mp h
    obtain ⟨p', hp', h⟩ := bind_eq_ok.mp h
    have hx := ihx hp
    have hy := ihy _ hp'
    cases h
    exact .binary hx hy
  | case13 op x y want vars hop ihx ihy ihx' =>
    obtain ⟨p, hp, h⟩ := bind_eq_ok.mp h
    obtain ⟨⟨r, vars'⟩, hp', h⟩ := bind_eq_ok.mp h
    have hx := ihx hp
    have hy := ihy _ _ hp'
    dsimp only at h
    split at h
    · obtain ⟨p'', hp'', h⟩ := bind_eq_ok.mp h
      have hagain := ihx' _ _ hp''
      cases h
      exact .again hx hy hagain
    · cases h
      exact .binary hx hy
  | case14 x want vars => cases h

/-- Collecting the variables of an expression is a sequence of notes. -/
theorem Collects.notes {sorts : Table ValueSort} {x : Expr} {vars out : List Variable}
    (h : Collects sorts x vars out) : Notes vars out := by
  induction h with
  | lit => exact .refl
  | ident | unknown => exact notes_note _ _ _
  | paren _ ih | cast _ ih | pre _ _ ih => exact ih
  | binary _ _ ihx ihy => exact ihx.trans ihy
  | again _ _ _ ihx ihy ihagain => exact (ihx.trans ihy).trans ihagain

theorem notes_of_collectAll {sorts : Table ValueSort} {conds : List Expr}
    {vars out : List Variable} (h : collectAll sorts conds vars = .ok out) : Notes vars out := by
  induction conds generalizing vars with
  | nil =>
    cases h
    exact .refl
  | cons c cs ih =>
    obtain ⟨p, hp, h⟩ := bind_eq_ok.mp h
    exact (collects_of_collect c hp).notes.trans (ih h)

theorem collectAll_append {sorts : Table ValueSort} {conds more : List Expr}
    {vars out : List Variable} (h : collectAll sorts (conds ++ more) vars = .ok out) :
    ∃ mid, collectAll sorts conds vars = .ok mid ∧ collectAll sorts more mid = .ok out := by
  induction conds generalizing vars with
  | nil => exact ⟨vars, rfl, h⟩
  | cons c cs ih =>
    obtain ⟨p, hp, h⟩ := bind_eq_ok.mp h
    obtain ⟨mid, hmid, hout⟩ := ih h
    exact ⟨mid, bind_eq_ok.mpr ⟨p, hp, hmid⟩, hout⟩

/-! ## Values of conditions -/

/-- Environments agree on some keys. -/
def AgreeOn (env env' : Env) (vars : List Variable) : Prop :=
  ∀ key ∈ keys vars, env'.get? key = env.get? key

variable {env env' : Env}

theorem AgreeOn.of_notes {vars out : List Variable} (h : AgreeOn env env' out)
    (hn : Notes vars out) : AgreeOn env env' vars := fun key hkey =>
  h key (hn.keys_grow.subset hkey)

theorem AgreeOn.value_note {v : Variable} {want : ValueSort} {vars : List Variable}
    (h : AgreeOn env env' (note v want vars).2) : env'.value v.key = env.value v.key := by
  unfold Env.value
  rw [h v.key (mem_keys_note v want vars)]

/-- An expression depends on the collected keys only. -/
theorem Collects.bind_congr {sorts : Table ValueSort} {x : Expr} {vars out : List Variable}
    (h : Collects sorts x vars out) (ha : AgreeOn env env' out) : env'.bind x = env.bind x := by
  induction h with
  | lit => rfl
  | ident => exact ha.value_note
  | @unknown x hx =>
    cases x with
    | call f args => exact ha.value_note
    | member x s => exact ha.value_note
    | _ => cases hx
  | paren _ ih | cast _ ih => exact ih ha
  | pre _ _ ih => rw [Env.bind, Env.bind, ih ha]
  | binary _ hy ihx ihy => rw [Env.bind, Env.bind, ihx (ha.of_notes hy.notes), ihy ha]
  | again _ hy hagain ihx ihy =>
    have hboth := ha.of_notes hagain.notes
    rw [Env.bind, Env.bind, ihx (hboth.of_notes hy.notes), ihy hboth]

theorem holds_congr_of_collectAll {sorts : Table ValueSort} {conds : List Expr}
    {vars out : List Variable} (h : collectAll sorts conds vars = .ok out)
    (ha : AgreeOn env env' out) : env'.holds conds = env.holds conds := by
  induction conds generalizing vars with
  | nil => rfl
  | cons c cs ih =>
    obtain ⟨p, hp, h⟩ := bind_eq_ok.mp h
    have hc := (collects_of_collect c hp).bind_congr (ha.of_notes (notes_of_collectAll h))
    have heval : env'.eval c = env.eval c := by
      rw [Env.eval, Env.eval, hc]
    rw [Env.holds, Env.holds, heval, ih h]

end Variable

/-! ## Queries -/

namespace Query

variable {params : List Param} {conds : List Expr} {vars : List Variable}

/-- No two variables of a query have the same key. -/
theorem nodup_keys {q : Query} (h : q.variables = .ok vars) : (Variable.keys vars).Nodup := by
  obtain ⟨found, hf, h⟩ := bind_eq_ok.mp h
  cases h
  rw [Variable.keys_settle]
  exact (Variable.notes_of_collectAll hf).nodup_keys List.nodup_nil

/-- The keys of a query come first among those of a query with further conditions. -/
theorem keys_grow {more : List Expr} {all : List Variable}
    (h : Query.variables ⟨params, conds⟩ = .ok vars)
    (hall : Query.variables ⟨params, conds ++ more⟩ = .ok all) :
    Variable.keys vars <+: Variable.keys all := by
  obtain ⟨found, hf, h⟩ := bind_eq_ok.mp h
  obtain ⟨foundAll, hfa, hall⟩ := bind_eq_ok.mp hall
  cases h
  cases hall
  obtain ⟨mid, hmid, hmore⟩ := Variable.collectAll_append hfa
  obtain rfl : found = mid := Except.ok.inj (hf.symm.trans hmid)
  rw [Variable.keys_settle, Variable.keys_settle]
  exact (Variable.notes_of_collectAll hmore).keys_grow

/-- The conditions of a query depend on the values of its variables only. -/
theorem holds_congr {q : Query} (h : q.variables = .ok vars) {env env' : Env}
    (ha : ∀ key ∈ Variable.keys vars, env'.get? key = env.get? key) :
    env'.holds q.conds = env.holds q.conds := by
  obtain ⟨found, hf, h⟩ := bind_eq_ok.mp h
  cases h
  rw [Variable.keys_settle] at ha
  exact Variable.holds_congr_of_collectAll hf ha

end Query

end PathTree
