import PathTree.Proofs.ClosedMemory
import PathTree.Proofs.HandledFaults

/-!
# Folding

A memory that folds computes an assigned value without variables and stores the literal of the
result; one that does not fold stores the value as it is. `Expr.StandsFor` says that an expression
with computed parts is as good as another : in every environment both have one value, or fail for one
reason. What is stored keeps this when it is put into assigned values
(`Memory.StandsFor.substitute`), and a computed value stands for its expression unless it is a
rational, which is rounded (`Memory.exists_simplify`). So memories with folding and without it go
through any steps side by side (`Memory.folding_invisible`).
-/

namespace PathTree

/-- Two computations fail for one reason, or give results that belong together. -/
inductive Both {α β : Type} (r : α → β → Prop) : Except Fault α → Except Fault β → Prop
  | fail (f : Fault) : Both r (.error f) (.error f)
  | give {a : α} {b : β} (h : r a b) : Both r (.ok a) (.ok b)

theorem Both.bind {α β γ δ : Type} {r : α → β → Prop} {s : γ → δ → Prop} {x : Except Fault α}
    {y : Except Fault β} (h : Both r x y) {f : α → Except Fault γ} {g : β → Except Fault δ}
    (hf : ∀ a b, x = .ok a → r a b → Both s (f a) (g b)) : Both s (x >>= f) (y >>= g) := by
  cases h with
  | fail e => exact .fail e
  | give h => exact hf _ _ rfl h

/-! ## Expressions with one value -/

namespace Env

variable (env : Env)

theorem map_constant_bind_binary (op : BinaryOp) (x y : Expr) :
    (env.bind (.binary op x y)).map Expr.constant =
      (env.bind x).map Expr.constant >>= fun l =>
        ((env.bind y).map Expr.constant).map fun r =>
          l >>= fun v => r >>= fun w => Value.binary op v w := by
  rw [bind]
  cases env.bind x with
  | error f => rfl
  | ok a => cases env.bind y <;> rfl

theorem eval_eq_map_constant (x : Expr) :
    env.eval x = (env.bind x).map Expr.constant >>= id := by
  unfold eval
  cases env.bind x <;> rfl

/-- An environment does not change the value of a closed expression. -/
theorem map_constant_bind_of_isClosed (x : Expr) (h : x.isClosed) :
    (env.bind x).map Expr.constant = .ok x.constant := by
  cases x with
  | lit l => rfl
  | paren x => exact map_constant_bind_of_isClosed x h
  | pre op x =>
    have ih := map_constant_bind_of_isClosed x h
    rw [bind, Expr.constant]
    cases hx : env.bind x with
    | error f => simp [hx, Except.map] at ih
    | ok a =>
      rw [hx] at ih
      rw [← Except.ok.inj ih]
      rfl
  | binary op x y =>
    obtain ⟨hx, hy⟩ := Bool.and_eq_true_iff.mp h
    rw [map_constant_bind_binary, map_constant_bind_of_isClosed x hx,
      map_constant_bind_of_isClosed y hy]
    rfl
  | _ => simp [Expr.isClosed] at h

end Env

namespace Expr

/-- In every environment two expressions have one value or fail for one reason, also as parts of
other expressions, and the first has handled literals only. -/
structure StandsFor (y x : Expr) : Prop where
  value : ∀ env : Env, (env.bind y).map constant = (env.bind x).map constant
  handled : y.Handled

variable {x y z : Expr}

theorem StandsFor.eval_eq (h : y.StandsFor x) (env : Env) : env.eval y = env.eval x := by
  rw [env.eval_eq_map_constant, env.eval_eq_map_constant, h.value env]

theorem Handled.standsFor (h : x.Handled) : x.StandsFor x := ⟨fun _ => rfl, h⟩

theorem StandsFor.trans (h : z.StandsFor y) (h' : y.StandsFor x) : z.StandsFor x :=
  ⟨fun env => (h.value env).trans (h'.value env), h.handled⟩

theorem StandsFor.binary (op : BinaryOp) {x' y' : Expr} (h : y.StandsFor x)
    (h' : y'.StandsFor x') : (Expr.binary op y y').StandsFor (.binary op x x') where
  value env := by
    rw [env.map_constant_bind_binary, env.map_constant_bind_binary, h.value env, h'.value env]
  handled := handled_binary.mpr ⟨h.handled, h'.handled⟩

theorem handled_ident (name : String) : (ident name).Handled := by
  simp [Handled]

theorem handled_int (n : Int) : (int n).Handled :=
  handled_lit.mpr (Literal.handled_of_value (Literal.value_ofInt n))

theorem handled_unparen (x : Expr) : x.unparen.Handled ↔ x.Handled := by
  unfold Handled
  rw [Mentioned.literals_unparen]

/-- The literal of a value stands for a closed expression with this value. -/
theorem standsFor_literal {v : Value} (hx : x.isClosed) (hv : x.constant = .ok v)
    (hq : v.isFloat = false) : (lit v.literal).StandsFor x where
  value env := by
    rw [env.map_constant_bind_of_isClosed x hx, hv]
    exact congrArg Except.ok (Value.value_literal hq)
  handled := handled_lit.mpr (Literal.handled_of_value (Value.value_literal hq))

theorem handled_of_zeroValue {type : String} (h : zeroValue type = .ok x) : x.Handled := by
  unfold zeroValue at h
  split at h
  · cases h
    exact handled_int 0
  · split at h
    · cases h
      exact handled_lit.mpr (Literal.Unsigned.handled nofun)
    · split at h
      · cases h
        exact handled_lit.mpr (Literal.handled_of_value (v := .bool false) rfl)
      · split at h
        · cases h
          exact handled_lit.mpr (Literal.handled_of_value (Literal.value_quote _))
        · cases h

end Expr

/-! ## Memories side by side -/

namespace Memory

/-- The prefix operators in assigned values : those that count, which the memory resolves, and a
sign or negation, which stays on a literal whatever the memory holds. -/
theorem substitute_pre_cases (op : UnaryOp) (x : Expr) :
    (∀ m : Memory, m.substitute (.pre op x) = m.step (.pre op x) op x) ∨
      (∃ f, ∀ m : Memory, m.substitute (.pre op x) = .error f) ∨
      ∃ l, x.unparen = .lit l ∧ ∀ m : Memory, m.substitute (.pre op x) = .ok (.pre op (.lit l)) := by
  cases op with
  | inc | dec => exact Or.inl fun m => by rw [substitute]
  | invalid => exact Or.inr (Or.inl ⟨_, fun m => by rw [substitute] <;> simp⟩)
  | neg | plus | not =>
    cases hx : x.unparen with
    | lit l => exact Or.inr (Or.inr ⟨l, rfl, fun m => by simp only [substitute, hx]⟩)
    | _ => exact Or.inr (Or.inl ⟨_, fun m => by simp only [substitute, hx]; rfl⟩)

/-- A memory that may fold beside one that does not : both have the same names, and what the first
holds for a name stands for what the second holds. -/
structure StandsFor (m m' : Memory) : Prop where
  names : m.vars.map Prod.fst = m'.vars.map Prod.fst
  values : ∀ name, Option.Rel Expr.StandsFor (m.vars.get? name) (m'.vars.get? name)
  plain : m'.fold = false

variable {m m' : Memory}

theorem StandsFor.lookup (h : m.StandsFor m') (name : String) :
    Both Expr.StandsFor (m.lookup name) (m'.lookup name) := by
  have hv := h.values name
  unfold Memory.lookup
  generalize m.vars.get? name = v, m'.vars.get? name = v' at hv ⊢
  cases hv with
  | none => exact .fail _
  | some hx => exact .give hx

theorem StandsFor.step (h : m.StandsFor m') {node : Expr} (hnode : node.Handled) (op : UnaryOp)
    (x : Expr) : Both Expr.StandsFor (m.step node op x) (m'.step node op x) := by
  cases hx : x.unparen with
  | lit l =>
    simp only [Memory.step, hx]
    exact .give hnode.standsFor
  | ident name =>
    simp only [Memory.step, hx]
    exact (h.lookup name).bind fun v v' _ hv =>
      .give (hv.binary _ (Expr.handled_int 1).standsFor)
  | _ =>
    simp only [Memory.step, hx]
    exact .fail _

/-- Replacing the variables of one assigned value in both memories gives values of which one stands
for the other. -/
theorem StandsFor.substitute (h : m.StandsFor m') (x : Expr) (hx : x.Handled) :
    Both Expr.StandsFor (m.substitute x) (m'.substitute x) := by
  cases x with
  | lit l => exact .give hx.standsFor
  | ident name => exact h.lookup name
  | paren x => exact h.substitute x (Expr.handled_paren.mp hx)
  | binary op x y =>
    obtain ⟨hx, hy⟩ := Expr.handled_binary.mp hx
    exact (h.substitute x hx).bind fun _ _ _ hl =>
      (h.substitute y hy).bind fun _ _ _ hr => .give (hl.binary op hr)
  | pre op x =>
    rcases substitute_pre_cases op x with hs | ⟨f, hs⟩ | ⟨l, hl, hs⟩
    · rw [hs, hs]
      exact h.step hx op x
    · rw [hs, hs]
      exact .fail f
    · rw [hs, hs]
      have hl' : (Expr.lit l).Handled :=
        hl ▸ (Expr.handled_unparen x).mpr (Expr.handled_pre.mp hx)
      exact .give (Expr.handled_pre.mpr hl').standsFor
  | post op x => exact h.step hx op x
  | cast type x => exact .fail _
  | call f args => exact .fail _
  | member x s => exact .fail _
  | assign op name value => exact .fail _

/-- Folding a value whose literals are handled does not fail, and what it gives stands for the value
if that is no rational. -/
theorem exists_simplify {x : Expr} (hx : x.Handled)
    (hq : (m.fold && x.isClosed) = true → ∀ v, x.constant = .ok v → v.isFloat = false) :
    ∃ y, m.simplify x = .ok y ∧ y.StandsFor x := by
  unfold Memory.simplify
  split
  · next hf =>
    have hclosed : x.isClosed := (Bool.and_eq_true_iff.mp hf).2
    split
    · exact ⟨x, rfl, hx.standsFor⟩
    · next v _ hv => exact ⟨_, rfl, Expr.standsFor_literal hclosed hv (hq hf v hv)⟩
    · next f hc => exact ⟨x, if_neg (by simp [Expr.isFatal_constant hx hc]), hx.standsFor⟩
  · exact ⟨x, rfl, hx.standsFor⟩

theorem simplify_of_plain (hm : m.fold = false) (x : Expr) : m.simplify x = .ok x := by
  simp [Memory.simplify, hm]

theorem map_fst_put {α : Type} (t : Table α) (name : String) (value : α) :
    (t.put name value).map Prod.fst = name :: (t.map Prod.fst).filter (· != name) := by
  simp [Table.put, List.filter_map, Function.comp_def]

theorem StandsFor.put (h : m.StandsFor m') (name : String) {x x' : Expr} (hx : x.StandsFor x') :
    StandsFor { m with vars := m.vars.put name x } { m' with vars := m'.vars.put name x' } where
  names := by rw [map_fst_put, map_fst_put, h.names]
  values other := by
    rw [Table.get?_put, Table.get?_put]
    split
    · exact .some hx
    · exact h.values other
  plain := h.plain

/-- Both memories store an assigned value, unless it has a name that they do not have. -/
theorem StandsFor.store (h : m.StandsFor m') (name : String) {x : Expr} (hx : x.Handled)
    (hq : ∀ v, m.folded? x = some v → v.isFloat = false) :
    Both StandsFor (m.store name x) (m'.store name x) := by
  refine (h.substitute x hx).bind fun y y' hy hyy => ?_
  obtain ⟨z, hz, hzy⟩ := exists_simplify (m := m) hyy.handled fun hf v hv =>
    hq v (by simp [folded?, hy, hf, hv, Except.toOption])
  rw [hz, simplify_of_plain h.plain]
  exact .give (h.put name (hzy.trans hyy))

/-- A value that is computed is stored. -/
theorem isOk_store_of_folded {x : Expr} {v : Value} (h : m.folded? x = some v) (name : String) :
    (m.store name x).isOk := by
  unfold folded? at h
  split at h
  · next y hy =>
    split at h
    · next hf =>
      obtain ⟨z, hz⟩ : ∃ z, m.simplify y = .ok z := by
        unfold Memory.simplify
        rw [if_pos hf]
        cases hc : y.constant with
        | error f => simp [hc, Except.toOption] at h
        | ok w => cases w <;> exact ⟨_, rfl⟩
      unfold Memory.store
      rw [hy]
      change (m.simplify y >>= _).isOk = true
      rw [hz]
      rfl
    · cases h
  · cases h

theorem StandsFor.has_eq (h : m.StandsFor m') (name : String) :
    m.vars.has name = m'.vars.has name := by
  have hv := h.values name
  unfold Table.has
  generalize m.vars.get? name = v, m'.vars.get? name = v' at hv ⊢
  cases hv <;> rfl

/-! ## Steps on memories and their copies -/

namespace Action

/-- The place of the memory that a step is on. -/
def place : Action → Nat
  | .declare i .. | .update i .. | .fork i => i

/-- What a step does to the memory that it is on. -/
def on : Action → Memory → Except Fault Memory
  | .declare _ name type value, m => m.declare name type value
  | .update _ name value, m => m.update name value
  | .fork _, m => .ok m

/-- The value that is written in a step. -/
def written? : Action → Option Expr
  | .declare _ _ _ value => value
  | .update _ _ value => some value
  | .fork _ => none

/-- Why a step fails, if it does. -/
def fault? (pool : List Memory) (a : Action) : Option Fault :=
  match pool[a.place]?.map a.on with
  | some (.error f) => some f
  | _ => none

/-- The value that is computed in place of the one that a step stores. -/
def folded? (pool : List Memory) (a : Action) : Option Value :=
  pool[a.place]?.bind fun m => if (a.on m).isOk then a.value?.bind m.folded? else none

/-- No text in a step has a sign in front of it. -/
def Unsigned (a : Action) : Prop :=
  ∀ x ∈ a.written?, ∀ l ∈ Mentioned.literals x, l.Unsigned

instance : DecidablePred Literal.Unsigned :=
  fun l => inferInstanceAs (Decidable (l.kind = .string → l.text.toList.head? ≠ some '-'))

instance : DecidablePred Unsigned :=
  fun a => inferInstanceAs (Decidable (∀ x ∈ a.written?, ∀ l ∈ Mentioned.literals x, l.Unsigned))

end Action

/-- Why each step of a list fails, if it does. -/
def faults (pool : List Memory) : List Action → List (Option Fault)
  | [] => []
  | a :: actions => a.fault? pool :: faults (a.apply pool) actions

/-- The values that are computed in a list of steps. -/
def foldedIn (pool : List Memory) : List Action → List Value
  | [] => []
  | a :: actions => (a.folded? pool).toList ++ foldedIn (a.apply pool) actions

/-- What a step stores is written in it, or the zero value of a type. -/
theorem Action.written_of_value {a : Action} {x : Expr} (h : a.value? = some x) :
    a.written? = some x ∨ ∃ type, zeroValue type = .ok x := by
  cases a with
  | declare i name type value =>
    cases value with
    | some y => exact Or.inl h
    | none =>
      cases hz : zeroValue type with
      | error f => simp [value?, hz, Except.toOption] at h
      | ok z =>
        obtain rfl : z = x := by simpa [value?, hz, Except.toOption] using h
        exact Or.inr ⟨type, hz⟩
  | update i name value => exact Or.inl h
  | fork i => cases h

theorem Action.Unsigned.handled {a : Action} (ha : a.Unsigned) {x : Expr}
    (hx : a.value? = some x) : x.Handled := by
  rcases Action.written_of_value hx with hwritten | ⟨type, hzero⟩
  · exact fun l hl => (ha x hwritten l hl).handled
  · exact Expr.handled_of_zeroValue hzero

/-- A step fails on both memories for one reason, or they stay side by side. -/
theorem StandsFor.on (h : m.StandsFor m') {a : Action} (ha : a.Unsigned)
    (hq : (a.on m).isOk → ∀ v, a.value?.bind m.folded? = some v → v.isFloat = false) :
    Both StandsFor (a.on m) (a.on m') := by
  have hstore (name : String) {x : Expr} (hx : a.value? = some x) (hon : a.on m = m.store name x) :
      Both StandsFor (m.store name x) (m'.store name x) := by
    refine h.store name (ha.handled hx) fun v hv => hq ?_ v (by rw [hx]; exact hv)
    rw [hon]
    exact isOk_store_of_folded hv name
  cases a with
  | declare i name type value =>
    cases value with
    | some x => exact hstore name (x := x) rfl rfl
    | none =>
      simp only [Action.on, Memory.declare]
      cases hz : zeroValue type with
      | error f => exact .fail f
      | ok z =>
        refine hstore name (by simp [Action.value?, hz, Except.toOption]) ?_
        simp only [Action.on, Memory.declare, hz]
        rfl
  | update i name value =>
    simp only [Action.on, Memory.update, ← h.has_eq name]
    split
    · next hn => exact hstore name rfl (if_pos hn)
    · exact .fail _
  | fork i => exact .give h

/-! ## Lists of memories -/

section Pools

variable {pool pool' : List Memory}

theorem rel_getElem? (h : List.Forall₂ StandsFor pool pool') (i : Nat) :
    Option.Rel StandsFor pool[i]? pool'[i]? := by
  induction h generalizing i with
  | nil => exact .none
  | cons hm _ ih =>
    cases i with
    | zero => exact .some hm
    | succ i => exact ih i

theorem forall₂_set (h : List.Forall₂ StandsFor pool pool') (i : Nat) (hm : m.StandsFor m') :
    List.Forall₂ StandsFor (pool.set i m) (pool'.set i m') := by
  induction h generalizing i with
  | nil => exact .nil
  | cons hfirst hrest ih =>
    cases i with
    | zero => exact .cons hm hrest
    | succ i => exact .cons hfirst (ih i)

/-- A step fails in both lists for one reason or in none, and the lists stay side by side. -/
theorem forall₂_apply (h : List.Forall₂ StandsFor pool pool') {a : Action} (ha : a.Unsigned)
    (hq : ∀ v, a.folded? pool = some v → v.isFloat = false) :
    a.fault? pool = a.fault? pool' ∧ List.Forall₂ StandsFor (a.apply pool) (a.apply pool') := by
  have hplace := rel_getElem? h a.place
  have hchange : Option.Rel (Both StandsFor) (pool[a.place]?.map a.on) (pool'[a.place]?.map a.on) := by
    unfold Action.folded? at hq
    generalize pool[a.place]? = m, pool'[a.place]? = m' at hplace hq
    cases hplace with
    | none => exact .none
    | some hm => exact .some (hm.on ha fun hok v hv => hq v (by simp [hok, hv]))
  constructor
  · unfold Action.fault?
    generalize pool[a.place]?.map a.on = r, pool'[a.place]?.map a.on = r' at hchange ⊢
    cases hchange with
    | none => rfl
    | some hr => cases hr <;> rfl
  · have hset : List.Forall₂ StandsFor (change pool a.place a.on) (change pool' a.place a.on) := by
      unfold change
      generalize pool[a.place]?.map a.on = r, pool'[a.place]?.map a.on = r' at hchange ⊢
      cases hchange with
      | none => exact h
      | some hr =>
        cases hr with
        | fail f => exact h
        | give hm => exact forall₂_set h a.place hm
    cases a with
    | declare i name type value => exact hset
    | update i name value => exact hset
    | fork i =>
      refine List.rel_append h ?_
      dsimp only [Action.place] at hplace
      generalize pool[i]? = m, pool'[i]? = m' at hplace ⊢
      cases hplace with
      | none => exact .nil
      | some hm => exact .cons hm .nil

/-- Lists of memories go through steps side by side, as long as no rational is computed. -/
theorem forall₂_run (h : List.Forall₂ StandsFor pool pool') {actions : List Action}
    (ha : ∀ a ∈ actions, a.Unsigned) (hq : ∀ v ∈ foldedIn pool actions, v.isFloat = false) :
    faults pool actions = faults pool' actions ∧
      List.Forall₂ StandsFor (run pool actions) (run pool' actions) := by
  induction actions generalizing pool pool' with
  | nil => exact ⟨rfl, h⟩
  | cons a actions ih =>
    obtain ⟨ha, hactions⟩ := List.forall_mem_cons.mp ha
    simp only [foldedIn, List.forall_mem_append, Option.mem_toList] at hq
    obtain ⟨hfault, hnext⟩ := forall₂_apply h ha hq.1
    obtain ⟨hfaults, hrun⟩ := ih hnext hactions hq.2
    exact ⟨by rw [faults, faults, hfault, hfaults], hrun⟩

end Pools

theorem standsFor_init (params : List Param) (fold : Bool) :
    (init params fold).StandsFor (init params false) where
  names := rfl
  values name := by
    change Option.Rel Expr.StandsFor ((init params fold).vars.get? name)
      ((init params fold).vars.get? name)
    cases hx : (init params fold).vars.get? name with
    | none => exact .none
    | some x =>
      obtain ⟨rfl, -⟩ := eq_ident_of_get?_init hx
      exact .some (Expr.handled_ident name).standsFor
  plain := rfl

/-- Folding cannot be told from the values. Two memories of one function, of which one folds and the
other does not, go through the same declarations, assignments and copies, where no text has a sign
in front of it. As long as no rational is computed on the way, each step fails in both for one
reason or in none. There are as many memories on both sides, those in one place have the same names,
and what they hold for a name evaluates to one value, or fails for one reason, in every
environment. -/
theorem folding_invisible (params : List Param) {actions : List Action}
    (ha : ∀ a ∈ actions, a.Unsigned)
    (hq : ∀ v ∈ foldedIn [init params true] actions, v.isFloat = false) :
    faults [init params true] actions = faults [init params false] actions ∧
      List.Forall₂
        (fun m m' : Memory => m.names = m'.names ∧
          ∀ (name : String) (env : Env), m.lookup name >>= env.eval = m'.lookup name >>= env.eval)
        (run [init params true] actions) (run [init params false] actions) := by
  obtain ⟨hfaults, hrun⟩ := forall₂_run (.cons (standsFor_init params true) .nil) ha hq
  refine ⟨hfaults, hrun.imp fun m m' hm => ⟨congrArg (List.mergeSort · Table.nameLe) hm.names, ?_⟩⟩
  intro name env
  have hx := hm.lookup name
  generalize m.lookup name = r, m'.lookup name = r' at hx ⊢
  cases hx with
  | fail f => rfl
  | give hx => exact hx.eval_eq env

/-- A number that is counted, multiplied and divided by zero in a copy, and two texts put together. -/
def mixedSteps : List Action :=
  [.declare 0 "k" "int" none, .update 0 "k" (.post .inc (.ident "k")), .fork 0,
    .update 1 "k" (.binary .mul (.ident "k") (.lit ⟨.int, "0x10"⟩)), .update 1 "i" (.ident "k"),
    .declare 1 "d" "int" (some (.binary .div (.ident "k") (.int 0))),
    .declare 0 "s" "string" (some (.binary .add (.lit ⟨.char, "'a'"⟩) (.lit ⟨.string, "\"b\""⟩))),
    .update 0 "s" (.binary .add (.lit ⟨.string, "\"\\xe2\\x82\""⟩) (.lit ⟨.string, "\"\\xac\""⟩))]

/-- In the sample some values are computed and others cannot be. -/
theorem folding_invisible_mixedSteps :
    (∀ a ∈ mixedSteps, a.Unsigned) ∧ foldedIn [init [⟨"n", "int"⟩] true] mixedSteps =
        [.int 0, .int 1, .int 16, .text [0xe2, 0x82, 0xac]] ∧
      faults [init [⟨"n", "int"⟩] true] mixedSteps = faults [init [⟨"n", "int"⟩] false] mixedSteps ∧
      List.Forall₂
        (fun m m' : Memory => m.names = m'.names ∧
          ∀ (name : String) (env : Env), m.lookup name >>= env.eval = m'.lookup name >>= env.eval)
        (run [init [⟨"n", "int"⟩] true] mixedSteps) (run [init [⟨"n", "int"⟩] false] mixedSteps) := by
  have hfolded : foldedIn [init [⟨"n", "int"⟩] true] mixedSteps =
      [.int 0, .int 1, .int 16, .text [0xe2, 0x82, 0xac]] := by
    with_unfolding_all decide
  have hunsigned : ∀ a ∈ mixedSteps, a.Unsigned := by decide
  refine ⟨hunsigned, hfolded, folding_invisible [⟨"n", "int"⟩] hunsigned ?_⟩
  rw [hfolded]
  decide

end Memory

end PathTree
