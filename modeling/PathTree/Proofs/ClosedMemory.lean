import PathTree.Proofs.PathConditions
import PathTree.Proofs.Queries
import PathTree.Proofs.VariableKeys
import PathTree.Proofs.Waiting

/-!
# Memories closed over the parameters

A memory is closed over the parameters of a function if no stored value mentions any other name
(`Memory.ClosedOver`). The memory at the start is, and storing an assigned value keeps it, since
every variable in the value is replaced by what is stored for it (`ClosedOver.store`). Declaring,
updating and copying do nothing else, so all memories that such steps lead to are closed
(`closedOver_run`), and the walk goes on with closed memories only.

A test that is resolved in a closed memory reads parameters only (`ClosedOver.reads_resolve`). So
every query of a walk has variables, or fails to have them for another reason than an unknown name
(`Function.closed_over_params`).
-/

namespace PathTree

/-! ## Mentioned names -/

namespace Expr

/-- A name stands somewhere in an expression, also in a call or a member access. -/
def Mentions (x : Expr) (name : String) : Prop := .ident name ∈ x.walk fun _ => true

variable {x y : Expr} {name : String}

/-- The names that stand in an expression, by its form. -/
theorem mentions_iff (x : Expr) (name : String) : x.Mentions name ↔
    match x with
    | .lit _ => False
    | .ident n => name = n
    | .binary _ x y => x.Mentions name ∨ y.Mentions name
    | .call f args => f.Mentions name ∨ .ident name ∈ walkList (fun _ => true) args
    | .pre _ x | .post _ x | .paren x | .cast _ x | .member x _ | .assign _ _ x =>
      x.Mentions name := by
  unfold Mentions
  rw [walk_all]
  cases x <;> simp

@[simp] theorem not_mentions_lit (l : Literal) : ¬(lit l).Mentions name :=
  (mentions_iff _ name).mp

@[simp] theorem mentions_ident {n : String} : (ident n).Mentions name ↔ name = n :=
  mentions_iff _ name

@[simp] theorem mentions_paren : (paren x).Mentions name ↔ x.Mentions name :=
  mentions_iff _ name

@[simp] theorem mentions_pre {op : UnaryOp} : (pre op x).Mentions name ↔ x.Mentions name :=
  mentions_iff _ name

@[simp] theorem mentions_post {op : UnaryOp} : (post op x).Mentions name ↔ x.Mentions name :=
  mentions_iff _ name

@[simp] theorem mentions_binary {op : BinaryOp} :
    (binary op x y).Mentions name ↔ x.Mentions name ∨ y.Mentions name :=
  mentions_iff _ name

theorem mentions_unparen (x : Expr) : x.unparen.Mentions name ↔ x.Mentions name := by
  fun_induction unparen x with
  | case1 x ih => rw [ih, mentions_paren]
  | case2 x => rfl

/-- A name that is read is mentioned. -/
theorem mentions_of_reads (x : Expr) (h : x.Reads name) : x.Mentions name := by
  cases x with
  | lit l => exact ((reads_iff _ _).mp h).elim
  | ident n => exact mentions_ident.mpr (reads_ident.mp h)
  | binary op x y =>
    rcases reads_binary.mp h with h | h
    · exact mentions_binary.mpr (Or.inl (mentions_of_reads x h))
    · exact mentions_binary.mpr (Or.inr (mentions_of_reads y h))
  | pre op x => exact mentions_pre.mpr (mentions_of_reads x (reads_pre.mp h))
  | post op x => exact mentions_post.mpr (mentions_of_reads x ((reads_iff _ _).mp h))
  | paren x => exact mentions_paren.mpr (mentions_of_reads x (reads_paren.mp h))
  | cast t x => exact (mentions_iff _ _).mpr (mentions_of_reads x (reads_cast.mp h))
  | call f args => exact ((reads_iff _ _).mp h).elim
  | member x s => exact ((reads_iff _ _).mp h).elim
  | assign op n v =>
    exact (mentions_iff _ _).mpr (mentions_of_reads v ((reads_iff _ _).mp h))

theorem reads_side {test : Expr} {taken : Bool} :
    (test.side taken).Reads name ↔ test.Reads name := by
  cases taken with
  | true => rfl
  | false => cases test <;> simp [side, negate]

end Expr

/-- A name is the name of a parameter. -/
def IsParam (params : List Param) (name : String) : Prop := ∃ p ∈ params, p.name = name

/-! ## Closed memories -/

namespace Memory

/-- Every name in every stored value is the name of a parameter. -/
def ClosedOver (m : Memory) (params : List Param) : Prop :=
  ∀ name x, m.vars.get? name = some x → ∀ n, x.Mentions n → IsParam params n

variable {params : List Param} {m m' : Memory}

theorem closedOver_init (params : List Param) (fold : Bool) :
    (init params fold).ClosedOver params := by
  intro name x hx n hn
  obtain ⟨rfl, hparam⟩ := eq_ident_of_get?_init hx
  obtain rfl := Expr.mentions_ident.mp hn
  exact hparam

/-- What a variable after `++` or `--` is replaced by mentions parameters only. -/
theorem ClosedOver.mentions_step (h : m.ClosedOver params) {node x y : Expr} {op : UnaryOp}
    (hnode : ∀ n, node.Mentions n ↔ x.Mentions n) (hy : m.step node op x = .ok y) {n : String}
    (hn : y.Mentions n) : IsParam params n := by
  rcases step_eq_ok hy with ⟨⟨l, hx⟩, rfl⟩ | ⟨name, v, -, hv, rfl⟩
  · rw [hnode, ← Expr.mentions_unparen, hx] at hn
    exact (Expr.not_mentions_lit l hn).elim
  · rcases Expr.mentions_binary.mp hn with hn | hn
    · exact h name v hv n hn
    · exact (Expr.not_mentions_lit _ hn).elim

/-- A substituted value mentions parameters only, whatever the assigned one mentions. -/
theorem ClosedOver.mentions_substitute (h : m.ClosedOver params) (x : Expr) {y : Expr}
    (hy : m.substitute x = .ok y) {n : String} (hn : y.Mentions n) : IsParam params n := by
  cases x with
  | lit l =>
    cases hy
    exact (Expr.not_mentions_lit l hn).elim
  | ident name => exact h name y (lookup_eq_ok.mp hy) n hn
  | paren x => exact h.mentions_substitute x hy hn
  | binary op x z =>
    obtain ⟨l, hl, hy⟩ := bind_eq_ok.mp hy
    obtain ⟨r, hr, hy⟩ := bind_eq_ok.mp hy
    cases hy
    rcases Expr.mentions_binary.mp hn with hn | hn
    · exact h.mentions_substitute x hl hn
    · exact h.mentions_substitute z hr hn
  | pre op x =>
    rcases substitute_pre hy with ⟨-, hy⟩ | ⟨-, l, -, rfl⟩
    · exact h.mentions_step (fun n => Expr.mentions_pre) hy hn
    · exact (Expr.not_mentions_lit l (Expr.mentions_pre.mp hn)).elim
  | post op x => exact h.mentions_step (fun n => Expr.mentions_post) hy hn
  | cast type x => cases hy
  | call f args => cases hy
  | member x s => cases hy
  | assign op name value => cases hy

/-- Storing an assigned value keeps a memory closed. -/
theorem ClosedOver.store (h : m.ClosedOver params) {name : String} {x : Expr}
    (hm : m.store name x = .ok m') : m'.ClosedOver params :=
  forall_store h hm (fun _ _ hn => (Expr.not_mentions_lit _ hn).elim)
    fun _ hy _ hn => h.mentions_substitute x hy hn

theorem ClosedOver.execute (h : m.ClosedOver params) {s : Stmt} (hm : m.execute s = .ok m') :
    m'.ClosedOver params := by
  rcases store_of_execute hm with ⟨-, rfl⟩ | ⟨name, x, -, hstore⟩
  · exact h
  · exact h.store hstore

theorem ClosedOver.executeAll (h : m.ClosedOver params) {l : List Stmt}
    (hm : m.executeAll l = .ok m') : m'.ClosedOver params := by
  induction l generalizing m with
  | nil =>
    cases hm
    exact h
  | cons s l ih =>
    obtain ⟨m₁, hs, hm⟩ := bind_eq_ok.mp hm
    exact ih (h.execute hs) hm

/-- A test in terms of a closed memory reads parameters only. -/
theorem ClosedOver.reads_resolve (h : m.ClosedOver params) (c : Expr) {t : Expr}
    (ht : m.resolve c = .ok t) {n : String} (hn : t.Reads n) : IsParam params n := by
  cases c with
  | lit l =>
    cases ht
    exact ((Expr.reads_iff _ _).mp hn).elim
  | ident name => exact h name t (lookup_eq_ok.mp ht) n (Expr.mentions_of_reads t hn)
  | binary op x y =>
    obtain ⟨l, hl, ht⟩ := bind_eq_ok.mp ht
    obtain ⟨r, hr, ht⟩ := bind_eq_ok.mp ht
    cases ht
    rcases Expr.reads_binary.mp hn with hn | hn
    · exact h.reads_resolve x hl hn
    · exact h.reads_resolve y hr hn
  | pre op x =>
    obtain ⟨-, y, hy, rfl⟩ := resolve_pre ht
    exact h.reads_resolve x hy (Expr.reads_pre.mp hn)
  | paren x =>
    obtain ⟨y, hy, ht⟩ := bind_eq_ok.mp ht
    cases ht
    exact h.reads_resolve x hy (Expr.reads_paren.mp hn)
  | cast type x =>
    obtain ⟨y, hy, ht⟩ := bind_eq_ok.mp ht
    cases ht
    exact h.reads_resolve x hy (Expr.reads_cast.mp hn)
  | call f args =>
    -- The arguments are resolved too, but what stands in them is not read.
    obtain ⟨args', -, ht⟩ := bind_eq_ok.mp ht
    cases ht
    exact ((Expr.reads_iff _ _).mp hn).elim
  | member x s =>
    cases ht
    exact ((Expr.reads_iff _ _).mp hn).elim
  | post op x => cases ht
  | assign op name value => cases ht

/-! ## Steps on memories -/

/-- A step on one of several memories, which are known by their place. -/
inductive Action where
  | declare (i : Nat) (name type : String) (value : Option Expr)
  | update (i : Nat) (name : String) (value : Expr)
  | fork (i : Nat)

/-- Changes the memory at a place; a change that fails leaves it. -/
def change (pool : List Memory) (i : Nat) (f : Memory → Except Fault Memory) : List Memory :=
  match pool[i]?.map f with
  | some (.ok m) => pool.set i m
  | _ => pool

/-- The value that a step stores : the one that is written in it, or the zero value of a type. -/
def Action.value? : Action → Option Expr
  | .declare _ _ type value => value <|> (zeroValue type).toOption
  | .update _ _ value => some value
  | .fork _ => none

/-- The memories after a step. A copy goes to the end. -/
def Action.apply (pool : List Memory) : Action → List Memory
  | .declare i name type value => change pool i (·.declare name type value)
  | .update i name value => change pool i (·.update name value)
  | .fork i => pool ++ pool[i]?.toList

/-- The memories after a list of steps. -/
def run (pool : List Memory) (actions : List Action) : List Memory :=
  actions.foldl Action.apply pool

/-- What a change keeps for one memory it keeps for all of them. -/
theorem forall_change {good : Memory → Prop} {pool : List Memory} (h : ∀ m ∈ pool, good m) (i : Nat)
    {f : Memory → Except Fault Memory} (hf : ∀ m m', good m → f m = .ok m' → good m') :
    ∀ m ∈ change pool i f, good m := by
  intro m hm
  unfold change at hm
  split at hm
  · next m' hm' =>
    obtain ⟨old, hold, hok⟩ := Option.map_eq_some_iff.mp hm'
    rcases List.mem_or_eq_of_mem_set hm with hm | rfl
    · exact h m hm
    · exact hf old m (h old (List.mem_of_getElem? hold)) hok
  · exact h m hm

/-- Whether storing what a step assigns keeps a property of memories. -/
def Action.Keeps (good : Memory → Prop) (a : Action) : Prop :=
  ∀ m m' name x, good m → a.value? = some x → m.store name x = .ok m' → good m'

/-- A step does nothing but store values and copy memories. -/
theorem forall_apply {good : Memory → Prop} {pool : List Memory} (h : ∀ m ∈ pool, good m)
    {a : Action} (ha : a.Keeps good) : ∀ m ∈ a.apply pool, good m := by
  cases a with
  | declare i name type value =>
    refine forall_change h i fun m m' hm hd => ?_
    obtain ⟨x, hx, hstore⟩ := store_of_declare hd
    exact ha m m' name x hm hx hstore
  | update i name value =>
    exact forall_change h i fun m m' hm hu => ha m m' name value hm rfl (store_of_update hu)
  | fork i =>
    intro m hm
    rcases List.mem_append.mp hm with hm | hm
    · exact h m hm
    · exact h m (List.mem_of_getElem? (Option.mem_toList.mp hm))

theorem forall_run {good : Memory → Prop} {pool : List Memory} (h : ∀ m ∈ pool, good m)
    {actions : List Action} (ha : ∀ a ∈ actions, a.Keeps good) : ∀ m ∈ run pool actions, good m := by
  induction actions generalizing pool with
  | nil => exact h
  | cons a actions ih =>
    obtain ⟨ha, hrest⟩ := List.forall_mem_cons.mp ha
    exact ih (forall_apply h ha) hrest

theorem closedOver_run {pool : List Memory} (h : ∀ m ∈ pool, m.ClosedOver params)
    (actions : List Action) : ∀ m ∈ run pool actions, m.ClosedOver params :=
  forall_run h fun _ _ _ _ _ _ hm _ hstore => hm.store hstore

end Memory

/-! ## Unknown names -/

/-- The fault is a name without a value, whatever was being done. -/
def Fault.isUnknownName (f : Fault) : Bool :=
  match f.root with
  | .unknownName _ => true
  | _ => false

theorem Fault.isUnknownName_of_isFatal {f : Fault} (h : f.isFatal) : f.isUnknownName = false := by
  unfold isFatal at h
  unfold isUnknownName
  split at h
  · next hr => rw [hr]
  · cases h

namespace Variable

/-- Collecting variables does not fail for a name, if all names that are read have sorts. -/
theorem isUnknownName_collect {sorts : Table ValueSort} (x : Expr) {want : ValueSort}
    {vars : List Variable} {f : Fault} (h : collect sorts x want vars = .error f)
    (hr : ∀ name, x.Reads name → ∃ s, sorts.get? name = some s) : f.isUnknownName = false := by
  fun_induction collect sorts x want vars generalizing f with
  | case1 l want vars => cases h
  | case2 n want vars hn =>
    obtain ⟨s, hs⟩ := hr n (Expr.reads_ident.mpr rfl)
    rw [hn] at hs
    cases hs
  | case3 n want vars sort hn => cases h
  | case4 g args want vars => cases h
  | case5 x s want vars => cases h
  | case6 x want vars ih => exact ih h fun name hn => hr name (Expr.reads_paren.mpr hn)
  | case7 t x want vars ih => exact ih h fun name hn => hr name (Expr.reads_cast.mpr hn)
  | case8 x want vars ih | case9 x want vars ih | case10 x want vars ih =>
    rcases bind_eq_error.mp h with h | ⟨p, -, h⟩
    · exact ih h fun name hn => hr name (Expr.reads_pre.mpr hn)
    · cases h
  | case11 op x want vars h1 h2 h3 =>
    cases h
    rfl
  | case12 op x y want vars hop ihx ihy =>
    rcases bind_eq_error.mp h with h | ⟨p, -, h⟩
    · exact ihx h fun name hn => hr name (Expr.reads_binary.mpr (Or.inl hn))
    · rcases bind_eq_error.mp h with h | ⟨p', -, h⟩
      · exact ihy _ h fun name hn => hr name (Expr.reads_binary.mpr (Or.inr hn))
      · cases h
  | case13 op x y want vars hop ihx ihy ihx' =>
    have hx := fun name hn => hr name (Expr.reads_binary.mpr (Or.inl hn))
    rcases bind_eq_error.mp h with h | ⟨p, -, h⟩
    · exact ihx h hx
    · rcases bind_eq_error.mp h with h | ⟨⟨r, vars'⟩, -, h⟩
      · exact ihy _ _ h fun name hn => hr name (Expr.reads_binary.mpr (Or.inr hn))
      · dsimp only at h
        split at h
        · rcases bind_eq_error.mp h with h | ⟨p'', -, h⟩
          · exact ihx' _ _ h hx
          · cases h
        · cases h
  | case14 x want vars =>
    cases h
    rfl

theorem isUnknownName_collectAll {sorts : Table ValueSort} {conds : List Expr}
    {vars : List Variable} {f : Fault} (h : collectAll sorts conds vars = .error f)
    (hr : ∀ c ∈ conds, ∀ name, c.Reads name → ∃ s, sorts.get? name = some s) :
    f.isUnknownName = false := by
  induction conds generalizing vars with
  | nil => cases h
  | cons c cs ih =>
    obtain ⟨hc, hcs⟩ := List.forall_mem_cons.mp hr
    rcases bind_eq_error.mp h with h | ⟨p, -, h⟩
    · exact isUnknownName_collect c h hc
    · exact ih h hcs

end Variable

namespace Query

/-- Every name that a condition reads is the name of a parameter. -/
def ReadsParams (q : Query) : Prop :=
  ∀ c ∈ q.conds, ∀ name, c.Reads name → IsParam q.params name

variable {q : Query} {f : Fault}

theorem ReadsParams.isUnknownName_variables (hq : q.ReadsParams) (h : q.variables = .error f) :
    f.isUnknownName = false := by
  rcases bind_eq_error.mp h with h | ⟨vars, -, h⟩
  · refine Variable.isUnknownName_collectAll h fun c hc name hn => ?_
    obtain ⟨p, hp, rfl⟩ := hq c hc name hn
    exact Table.exists_get?_putAll (Or.inr ⟨_, List.mem_map.mpr ⟨p, hp, rfl⟩, rfl⟩)
  · cases h

end Query

/-! ## Failures of the bounded search -/

theorem Mentioned.isFatal_ofConds {conds : List Expr} {f : Fault}
    (h : ofConds conds = .error f) : f.isFatal := by
  unfold ofConds at h
  generalize ({} : Mentioned) = m, conds.flatMap literals = ls at h
  induction ls generalizing m with
  | nil => cases h
  | cons l ls ih =>
    rw [List.foldlM_cons] at h
    rcases bind_eq_error.mp h with h | ⟨m', -, h⟩
    · unfold add at h
      split at h
      · cases h
      · cases h
      · cases h
      · split at h
        · next hfatal =>
          cases h
          exact hfatal
        · cases h
    · exact ih m' h

theorem Env.isFatal_holds {env : Env} {conds : List Expr} {f : Fault}
    (h : env.holds conds = .error f) : f.isFatal := by
  fun_induction Env.holds env conds with
  | case1 => cases h
  | case2 c cs hc ih => exact ih h
  | case3 => cases h
  | case4 c cs g hg hfatal =>
    cases h
    exact hfatal
  | case5 => cases h

/-- Trying combinations for a caller who waits for ever fails only where a combination does. -/
theorem exists_of_tryCombinations_eq_error {α : Type} {good : List α → Except Fault Bool}
    {budget tried : Nat} {wheels : List (Wheel α)} {f : Fault}
    (h : (tryCombinations good budget tried wheels .unlimited).1 = .error f) :
    ∃ values, good values = .error f := by
  induction budget generalizing tried wheels with
  | zero => cases h
  | succ budget ih =>
    simp only [tryCombinations, ask_unlimited] at h
    split at h
    · next hg =>
      cases h
      exact ⟨_, hg⟩
    · cases h
    · split at h
      · cases h
      · exact ih h

/-- A search for a caller who waits for ever fails only if the query has no variables, or for a
reason that nobody handles. -/
theorem Bounds.search_unlimited_eq_error {b : Bounds} {q : Query} {f : Fault}
    (h : (b.search q .unlimited).1 = .error f) : q.variables = .error f ∨ f.isFatal := by
  rw [Bounds.search_fst] at h
  rcases bind_eq_error.mp h with h | ⟨_, -, h⟩
  · cases h
  · rcases bind_eq_error.mp h with h | ⟨plan, -, h⟩
    · rcases bind_eq_error.mp h with h | ⟨vars, -, h⟩
      · exact Or.inl h
      · rcases bind_eq_error.mp h with h | ⟨m, -, h⟩
        · exact Or.inr (Mentioned.isFatal_ofConds h)
        · cases h
    · rcases bind_eq_error.mp h with h | ⟨found, -, h⟩
      · obtain ⟨values, hv⟩ := exists_of_tryCombinations_eq_error h
        exact Or.inr (Env.isFatal_holds hv)
      · cases h

/-- The bounded search does not fail for a name, if only parameters are read. -/
theorem Query.ReadsParams.isUnknownName_search {q : Query} (hq : q.ReadsParams) {b : Bounds}
    {p : Patience} {f : Fault} (h : (b.search q p).1 = .error f) : f.isUnknownName = false := by
  rcases (b.search_yields q p).2 with hwhole | ⟨why, hr⟩
  · rw [h] at hwhole
    rcases Bounds.search_unlimited_eq_error hwhole.symm with hv | hfatal
    · exact hq.isUnknownName_variables hv
    · exact Fault.isUnknownName_of_isFatal hfatal
  · rw [hr] at h
    cases h
    cases why <;> rfl

/-! ## Queries of a walk -/

/-- Symbolic memory stays closed over the parameters. Whatever is declared, updated and copied after
the start of a function, every name in every stored value is the name of a parameter. So every query
that the paths of the function ask, with any solver and also on a run that fails, reads parameters
only, and neither the collection of its variables nor a bounded search fails on it for an unknown
name. -/
theorem Function.closed_over_params {σ : Type} (fn : Function) (solver : Solver σ)
    (e : Exploration) (s : Session σ) :
    (∀ actions, ∀ m ∈ Memory.run [.init fn.params e.fold] actions, m.ClosedOver fn.params) ∧
      ∀ q ∈ fn.queries solver e s, q.params = fn.params ∧ q.ReadsParams ∧
        (∀ f, q.variables = .error f → f.isUnknownName = false) ∧
        ∀ (b : Bounds) (t : Patience × σ) (f : Fault),
          ((Solver.bounded b).solve q t).1 = .error f → f.isUnknownName = false := by
  have hstart := Memory.closedOver_init fn.params e.fold
  refine ⟨fun actions => Memory.closedOver_run (by simpa using hstart) actions, fun q hq => ?_⟩
  have hasks := fn.asks solver e s (fun m => m.ClosedOver fn.params)
    (fun path => ∀ c ∈ path, ∀ name, c.Reads name → IsParam fn.params name)
    (fun m l m' hm hl => hm.executeAll hl)
    (fun m path c test hm hpath htest taken x hx name hn => by
      rcases List.mem_append.mp hx with hx | hx
      · exact hpath x hx name hn
      · rw [List.mem_singleton.mp hx, Expr.reads_side] at hn
        exact hm.reads_resolve c htest hn)
    hstart (by simp)
  obtain ⟨hparams, hreads⟩ := hasks.2 q hq
  have hq' : q.ReadsParams := by
    intro c hc name hn
    rw [hparams]
    exact hreads c hc name hn
  exact ⟨hparams, hq', fun f hf => hq'.isUnknownName_variables hf,
    fun b t f hf => hq'.isUnknownName_search hf⟩

/-- A local variable that is given a counted up literal, which is kept as it is written. -/
def countedLiteral : Function where
  name := "countedLiteral"
  params := [⟨"n", "int"⟩]
  results := ["int"]
  body := [
    .decl "k" "int" (some (.post .inc (.int 1))),
    .branch (.binary .gt (.ident "k") (.ident "n")) (some (.ret (some (.ident "k")))) none,
    .ret none]

/-- The first query of the sample reads its parameter, and it fails to have variables because of the
literal. -/
theorem Function.closed_over_params_countedLiteral :
    (∃ m ∈ Memory.run [.init countedLiteral.params true]
        [.declare 0 "k" "int" (some (.ident "n")), .fork 0,
          .update 1 "k" (.post .inc (.ident "k"))],
      m.vars.get? "k" = some (.binary .add (.ident "n") (.int 1)) ∧
        m.ClosedOver countedLiteral.params) ∧
      ∃ q ∈ countedLiteral.queries (.always ⟨true, some []⟩) {} ⟨.unlimited, (), #[]⟩, ∃ f,
        (∃ c ∈ q.conds, c.Reads "n") ∧ q.ReadsParams ∧ q.variables = .error f ∧
          ((Solver.bounded .standard).solve q (.unlimited, ())).1 = .error f ∧
          f.isUnknownName = false := by
  obtain ⟨hrun, hall⟩ := Function.closed_over_params countedLiteral (.always ⟨true, some []⟩) {}
    ⟨.unlimited, (), #[]⟩
  let q : Query := ⟨countedLiteral.params,
    [.binary .gt (.post .inc (.int 1)) (.ident "n")]⟩
  have hhead : (countedLiteral.queries (.always ⟨true, some []⟩) {}
      ⟨.unlimited, (), #[]⟩).head? = some q := by
    with_unfolding_all rfl
  have hq := List.mem_of_mem_head? hhead
  obtain ⟨-, hreads, -, hsearch⟩ := hall q hq
  let m : Memory := ⟨[("k", .binary .add (.ident "n") (.int 1)), ("n", .ident "n")], true⟩
  have hm : m ∈ Memory.run [.init countedLiteral.params true]
      [.declare 0 "k" "int" (some (.ident "n")), .fork 0,
        .update 1 "k" (.post .inc (.ident "k"))] := List.mem_of_getLast? rfl
  refine ⟨⟨m, hm, rfl, hrun _ m hm⟩, q, hq, _, ⟨_, List.mem_singleton_self _, ?_⟩, hreads, rfl,
    rfl, hsearch .standard (.unlimited, ()) _ rfl⟩
  exact Expr.reads_binary.mpr (Or.inr (Expr.reads_ident.mpr rfl))

end PathTree
