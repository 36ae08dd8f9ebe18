import PathTree.Proofs.QueryVariables
import PathTree.Proofs.StoreHandles
import PathTree.Proofs.VariableKeys

/-!
# Where the variables of a query occur

A name, a call or a member access in a condition is an occurrence of a variable, if it does not
stand inside another call or member access (`Expr.occurrences`). The text of an occurrence is the
variable's key.

`Collected` says that variables are those of a list of occurrences : each of them once, in the order
of the first ones. A note keeps this (`Collected.note`), so collecting the variables of an
expression adds its occurrences (`Collected.append`), although left operands may be visited again.
Replacing variables by values looks up the same texts (`Env.exists_bind_iff`,
`Env.bind_congr_occurrences`).
-/

namespace PathTree

/-! ## Occurrences -/

namespace Expr

/-- Whether a node can be an occurrence of a variable. -/
def isOccurrence : Expr → Bool
  | .ident _ | .call .. | .member .. => true
  | _ => false

/-- The occurrences of variables in an expression, from left to right. -/
def occurrences (x : Expr) : List Expr := (x.walk fun y => !y.isUnknown).filter isOccurrence

/-- A variable occurs in an expression. -/
def Uses (x : Expr) (key : String) : Prop := ∃ e ∈ x.occurrences, e.render = key

/-- The occurrences in an expression, by its form. -/
theorem occurrences_eq (x : Expr) : x.occurrences =
    match x with
    | .lit _ => []
    | .ident _ | .call .. | .member .. => [x]
    | .binary _ x y => x.occurrences ++ y.occurrences
    | .pre _ x | .post _ x | .paren x | .cast _ x | .assign _ _ x => x.occurrences := by
  cases x <;> simp [occurrences, walk, isOccurrence, isUnknown]

@[simp] theorem occurrences_lit (l : Literal) : (lit l).occurrences = [] := occurrences_eq _

@[simp] theorem occurrences_ident (n : String) : (ident n).occurrences = [.ident n] :=
  occurrences_eq _

@[simp] theorem occurrences_call (f : Expr) (args : List Expr) :
    (call f args).occurrences = [.call f args] :=
  occurrences_eq _

@[simp] theorem occurrences_member (x : Expr) (s : String) :
    (member x s).occurrences = [.member x s] :=
  occurrences_eq _

@[simp] theorem occurrences_paren (x : Expr) : (paren x).occurrences = x.occurrences :=
  occurrences_eq _

@[simp] theorem occurrences_cast (t : String) (x : Expr) :
    (cast t x).occurrences = x.occurrences :=
  occurrences_eq _

@[simp] theorem occurrences_pre (op : UnaryOp) (x : Expr) :
    (pre op x).occurrences = x.occurrences :=
  occurrences_eq _

@[simp] theorem occurrences_binary (op : BinaryOp) (x y : Expr) :
    (binary op x y).occurrences = x.occurrences ++ y.occurrences :=
  occurrences_eq _

/-- The text of a call or member access is no identifier. -/
theorem mark_mem_render {e : Expr} (h : e.isUnknown) :
    '(' ∈ e.render.toList ∨ '.' ∈ e.render.toList := by
  cases e with
  | call f args => simp [render]
  | member x s => simp [render]
  | _ => cases h

end Expr

/-! ## Declared sorts -/

/-- The last parameter of a name. -/
def lastNamed (params : List Param) (name : String) : Option Param :=
  params.reverse.find? fun p => p.name = name

/-- Of several parameters of one name, the last one gives the sort. -/
theorem Variable.get?_paramSorts_eq (params : List Param) (name : String) :
    (paramSorts params).get? name = (lastNamed params name).map fun p => sortOf p.type := by
  induction params using List.reverseRecOn with
  | nil => rfl
  | append_singleton params p ih =>
    have hput : paramSorts (params ++ [p]) = (paramSorts params).put p.name (sortOf p.type) := by
      simp [paramSorts, Table.putAll]
    rw [hput, Table.get?_put]
    by_cases hname : p.name = name
    · simp [lastNamed, hname]
    · simpa [lastNamed, hname, Ne.symm hname] using ih

/-! ## Collected variables -/

namespace Variable

/-- Variables are those of a list of occurrences, each known by the first occurrence of its text.
One that is known by a name has the declared sort of the name, if there is one. -/
structure Collected (sorts : Table ValueSort) (es : List Expr) (vars : List Variable) : Prop where
  keys_eq : keys vars = (es.map Expr.render).eraseDups
  first : ∀ v ∈ vars, ∃ e, es.find? (fun e => e.render = v.key) = some e ∧
    v.term = if e.isUnknown then some e else none
  sort : ∀ v ∈ vars, v.isParam → ∃ s, sorts.get? v.key = some s ∧ (s ≠ .unknown → v.sort = s)

variable {sorts : Table ValueSort} {es more : List Expr} {vars : List Variable}

theorem collected_nil (sorts : Table ValueSort) : Collected sorts [] [] :=
  ⟨rfl, by simp, by simp⟩

/-- What a note leaves is a variable that was there or the one that is noted, maybe with a sort in
place of an unknown one. -/
theorem exists_of_mem_note {u v : Variable} {want : ValueSort}
    (h : u ∈ (note v want vars).2) : ∃ w, (w ∈ vars ∨ w = v ∧ v.key ∉ keys vars) ∧
      u.key = w.key ∧ u.term = w.term ∧ (w.sort ≠ .unknown → u.sort = w.sort) := by
  unfold note refine at h
  obtain ⟨w, hw, rfl⟩ := List.mem_map.mp h
  refine ⟨w, ?_, ?_⟩
  · split at hw
    · exact Or.inl hw
    · next hnew =>
      rcases List.mem_append.mp hw with hw | hw
      · exact Or.inl hw
      · exact Or.inr ⟨List.mem_singleton.mp hw, by simpa [keys] using hnew⟩
  · split
    · next hu => exact ⟨rfl, rfl, fun hs => absurd hu.2 hs⟩
    · exact ⟨rfl, rfl, fun _ => rfl⟩

theorem eraseDups_concat (l : List String) (a : String) :
    (l ++ [a]).eraseDups = if a ∈ l then l.eraseDups else l.eraseDups ++ [a] := by
  rw [List.eraseDups_append, List.removeAll]
  split <;> simp_all [List.eraseDups_cons]

/-- Noting the variable of an occurrence adds the occurrence. -/
theorem Collected.note (h : Collected sorts es vars) {v : Variable} {e : Expr}
    (hkey : v.key = e.render) (hterm : v.term = if e.isUnknown then some e else none)
    (hsort : v.isParam → sorts.get? v.key = some v.sort) (want : ValueSort) :
    Collected sorts (es ++ [e]) (note v want vars).2 := by
  have hmem : e.render ∈ keys vars ↔ e.render ∈ es.map Expr.render := by
    rw [h.keys_eq, List.mem_eraseDups]
  refine ⟨?_, fun u hu => ?_, fun u hu hp => ?_⟩
  · rw [keys_note, List.map_append, List.map_singleton, eraseDups_concat, ← h.keys_eq, hkey]
    simp only [hmem]
  · obtain ⟨w, hw, hk, ht, -⟩ := exists_of_mem_note hu
    rw [hk, ht]
    rcases hw with hw | ⟨rfl, hnew⟩
    · obtain ⟨e', he', hterm'⟩ := h.first w hw
      exact ⟨e', by rw [List.find?_append, he']; rfl, hterm'⟩
    · have hnone : es.find? (fun e => e.render = w.key) = none := by
        refine List.find?_eq_none.mpr fun e' he' hsame => hnew (hkey ▸ hmem.mpr ?_)
        exact List.mem_map.mpr ⟨e', he', (of_decide_eq_true hsame).trans hkey⟩
      exact ⟨e, by rw [List.find?_append, hnone]; simp [hkey], hterm⟩
  · obtain ⟨w, hw, hk, ht, hs⟩ := exists_of_mem_note hu
    rw [hk]
    have hpw : w.isParam := by rwa [isParam, ← ht]
    rcases hw with hw | ⟨rfl, -⟩
    · obtain ⟨s, hget, hsame⟩ := h.sort w hw hpw
      exact ⟨s, hget, fun hne => by rw [hs (by rw [hsame hne]; exact hne), hsame hne]⟩
    · exact ⟨_, hsort hpw, hs⟩

/-- Occurrences of which all are there already change nothing. -/
theorem Collected.of_subset (h : Collected sorts (es ++ more) vars) (hsub : more ⊆ es) :
    Collected sorts es vars := by
  have hkeys : keys vars = (es.map Expr.render).eraseDups := by
    have hgone : (more.map Expr.render).removeAll (es.map Expr.render) = [] := by
      refine List.filter_eq_nil_iff.mpr fun key hkey => ?_
      obtain ⟨e, he, rfl⟩ := List.mem_map.mp hkey
      simpa using ⟨e, hsub he, rfl⟩
    rw [h.keys_eq, List.map_append, List.eraseDups_append, hgone]
    simp
  refine ⟨hkeys, fun v hv => ?_, h.sort⟩
  obtain ⟨e, he, hterm⟩ := h.first v hv
  have hsome : (es.find? fun e => e.render = v.key).isSome := by
    have hmem : v.key ∈ keys vars := List.mem_map_of_mem hv
    rw [hkeys, List.mem_eraseDups] at hmem
    obtain ⟨e', he', hsame⟩ := List.mem_map.mp hmem
    exact List.find?_isSome.mpr ⟨e', he', by simpa using hsame⟩
  obtain ⟨e', he'⟩ := Option.isSome_iff_exists.mp hsome
  rw [List.find?_append, he'] at he
  exact ⟨e, he'.trans he, hterm⟩

/-- Collecting the variables of an expression adds its occurrences. -/
theorem Collected.append {x : Expr} {out : List Variable} (hx : Collects sorts x vars out)
    (h : Collected sorts es vars) : Collected sorts (es ++ x.occurrences) out := by
  induction hx generalizing es with
  | lit => simpa using h
  | @ident name sort hn want => exact h.note (e := .ident name) rfl rfl (fun _ => hn) want
  | @unknown x hx want =>
    have hone : x.occurrences = [x] := by cases x <;> first | rfl | cases hx
    rw [hone]
    exact h.note rfl (by simp [hx]) (by simp [isParam]) want
  | paren _ ih | cast _ ih | pre _ _ ih => simpa using ih h
  | binary _ _ ihx ihy => simpa using ihy (ihx h)
  | again _ _ _ ihx ihy ihagain =>
    -- The left operand is visited again, and all its occurrences are there.
    rw [Expr.occurrences_binary, ← List.append_assoc]
    exact (ihagain (ihy (ihx h))).of_subset (by simp)

theorem Collected.collectAll (h : Collected sorts es vars) {conds : List Expr}
    {out : List Variable} (hc : collectAll sorts conds vars = .ok out) :
    Collected sorts (es ++ conds.flatMap Expr.occurrences) out := by
  induction conds generalizing es vars with
  | nil =>
    cases hc
    simpa using h
  | cons c cs ih =>
    obtain ⟨p, hp, hc⟩ := bind_eq_ok.mp hc
    simpa using ih (h.append (collects_of_collect c hp)) hc

/-- A condition whose variables can be collected is a test. -/
theorem Collects.isTest {x : Expr} {vars out : List Variable} (h : Collects sorts x vars out) :
    x.isTest := by
  induction h with
  | lit | ident => rfl
  | @unknown x hx => cases x <;> first | rfl | cases hx
  | paren _ ih | cast _ ih => exact ih
  | pre hop _ ih => rcases hop with rfl | rfl | rfl <;> exact ih
  | binary _ _ ihx ihy | again _ _ _ ihx ihy _ => exact Bool.and_eq_true_iff.mpr ⟨ihx, ihy⟩

theorem isTest_of_collectAll {sorts : Table ValueSort} {conds : List Expr}
    {vars out : List Variable} (h : collectAll sorts conds vars = .ok out) :
    ∀ c ∈ conds, c.isTest := by
  induction conds generalizing vars with
  | nil => simp
  | cons c cs ih =>
    obtain ⟨p, hp, h⟩ := bind_eq_ok.mp h
    exact List.forall_mem_cons.mpr ⟨(collects_of_collect c hp).isTest, ih h⟩

end Variable

/-! ## Settled sorts -/

namespace Variable

variable (v : Variable)

@[simp] theorem key_settle : v.settle.key = v.key := by
  unfold settle
  split <;> rfl

@[simp] theorem term_settle : v.settle.term = v.term := by
  unfold settle
  split <;> rfl

theorem sort_settle : v.settle.sort ≠ .unknown := by
  unfold settle
  split
  · exact nofun
  · next hs => exact hs

end Variable

/-! ## Values in place of variables -/

namespace Env

variable {env env' : Env}

/-- A test has a value in place of each variable exactly if the variables that occur in it have
values. -/
theorem exists_bind_iff (x : Expr) (hx : x.isTest) : (∃ y, env.bind x = .ok y) ↔
    ∀ e ∈ x.occurrences, ∃ l, env.get? e.render = some l := by
  have hvalue (key : String) : (∃ y, env.value key = .ok y) ↔ ∃ l, env.get? key = some l := by
    simp only [value_eq_ok]
    constructor
    · rintro ⟨_, l, hl, -⟩
      exact ⟨l, hl⟩
    · rintro ⟨l, hl⟩
      exact ⟨_, l, hl, rfl⟩
  fun_induction Env.bind env x with
  | case1 l => simp
  | case2 name => simpa [Expr.render] using hvalue name
  | case3 f args => simpa using hvalue _
  | case4 x s => simpa using hvalue _
  | case5 x ih => simpa using ih hx
  | case6 t x ih => simpa using ih hx
  | case7 op x ih =>
    have hx : x.isTest := by cases op <;> first | exact hx | cases hx
    rw [Expr.occurrences_pre]
    refine Iff.trans ?_ (ih hx)
    simp only [bind_eq_ok]
    constructor
    · rintro ⟨_, y, hy, -⟩
      exact ⟨y, hy⟩
    · rintro ⟨y, hy⟩
      exact ⟨_, y, hy, rfl⟩
  | case8 op x y ihx ihy =>
    obtain ⟨hx, hy⟩ := Bool.and_eq_true_iff.mp hx
    rw [Expr.occurrences_binary, List.forall_mem_append]
    refine Iff.trans ?_ (and_congr (ihx hx) (ihy hy))
    simp only [bind_eq_ok]
    constructor
    · rintro ⟨_, u, hu, v, hv, -⟩
      exact ⟨⟨u, hu⟩, v, hv⟩
    · rintro ⟨⟨u, hu⟩, v, hv⟩
      exact ⟨_, u, hu, v, hv, rfl⟩
  | case9 x => cases x <;> simp_all [Expr.isTest]

/-- What stands in place of the variables depends on the values of those that occur. -/
theorem bind_congr_occurrences (x : Expr)
    (h : ∀ e ∈ x.occurrences, env'.get? e.render = env.get? e.render) :
    env'.bind x = env.bind x := by
  have hvalue {key : String} (hkey : env'.get? key = env.get? key) :
      env'.value key = env.value key := by
    rw [value, value, hkey]
  fun_induction Env.bind env x with
  | case1 l => rfl
  | case2 name => exact hvalue (h (.ident name) (by simp))
  | case3 f args => exact hvalue (h (.call f args) (by simp))
  | case4 x s => exact hvalue (h (.member x s) (by simp))
  | case5 x ih => exact ih (by simpa using h)
  | case6 t x ih => exact ih (by simpa using h)
  | case7 op x ih => rw [Env.bind, ih (by simpa using h)]
  | case8 op x y ihx ihy =>
    rw [Expr.occurrences_binary, List.forall_mem_append] at h
    rw [Env.bind, ihx h.1, ihy h.2]
  | case9 x h1 h2 h3 h4 h5 h6 h7 h8 => cases x <;> simp_all [Env.bind]

end Env

/-! ## Queries -/

namespace Query

/-- The occurrences of variables in the conditions of a query, from left to right. -/
def occurrences (q : Query) : List Expr := q.conds.flatMap Expr.occurrences

/-- Where a variable occurs for the first time. -/
def firstUse (q : Query) (key : String) : Option Expr :=
  q.occurrences.find? fun e => e.render = key

variable {q : Query} {vars : List Variable}

/-- The variables of a query are those that were collected, with integers in place of unknown
sorts. -/
theorem exists_collected (h : q.variables = .ok vars) : ∃ found,
    Variable.Collected (Variable.paramSorts q.params) q.occurrences found ∧
      (∀ c ∈ q.conds, c.isTest) ∧ vars = found.map Variable.settle := by
  obtain ⟨found, hf, h⟩ := bind_eq_ok.mp h
  cases h
  exact ⟨found, (Variable.collected_nil _).collectAll hf, Variable.isTest_of_collectAll hf, rfl⟩

/-- The keys are the texts of the occurrences, each once and in the order of the first ones. -/
theorem keys_eq (h : q.variables = .ok vars) :
    Variable.keys vars = (q.occurrences.map Expr.render).eraseDups := by
  obtain ⟨found, hcollected, -, rfl⟩ := exists_collected h
  rw [Variable.keys_settle, hcollected.keys_eq]

/-- A variable stands for its first occurrence, if that is a call or member access. -/
theorem exists_firstUse (h : q.variables = .ok vars) {v : Variable} (hv : v ∈ vars) :
    ∃ e, q.firstUse v.key = some e ∧ v.term = if e.isUnknown then some e else none := by
  obtain ⟨found, hcollected, -, rfl⟩ := exists_collected h
  obtain ⟨w, hw, rfl⟩ := List.mem_map.mp hv
  rw [Variable.key_settle, Variable.term_settle]
  exact hcollected.first w hw

/-- A variable that is a parameter has the sort of the last type that is declared for it. -/
theorem sort_of_lastNamed (h : q.variables = .ok vars) {v : Variable} (hv : v ∈ vars)
    (hparam : v.isParam) {p : Param} (hp : lastNamed q.params v.key = some p)
    (hs : sortOf p.type ≠ .unknown) : v.sort = sortOf p.type := by
  obtain ⟨found, hcollected, -, rfl⟩ := exists_collected h
  obtain ⟨w, hw, rfl⟩ := List.mem_map.mp hv
  rw [Variable.isParam, Variable.term_settle] at hparam
  rw [Variable.key_settle] at hp
  obtain ⟨s, hget, hsame⟩ := hcollected.sort w hw hparam
  rw [Variable.get?_paramSorts_eq, hp] at hget
  obtain rfl : sortOf p.type = s := by simpa using hget
  rw [Variable.settle, if_neg (by rw [hsame hs]; exact hs), hsame hs]

/-- Collecting the variables of a query and replacing them by values look at the same occurrences.
The keys of a query's variables are the texts of the occurrences, each once and in the order of
the first ones; no sort is unknown; a variable stands for its first occurrence, and if that is a
name, as it always is for an identifier, it has the sort of the last type that is declared for it.
In an environment a condition has values in place of its variables exactly if the environment has
values for the keys that occur in the condition, and on these values alone the result depends. -/
theorem variables_match_bind (h : q.variables = .ok vars) :
    (Variable.keys vars).Nodup ∧
    Variable.keys vars = (q.occurrences.map Expr.render).eraseDups ∧
    (∀ v ∈ vars, v.sort ≠ .unknown) ∧
    (∀ v ∈ vars, ∃ e, q.firstUse v.key = some e ∧
      v.term = if e.isUnknown then some e else none) ∧
    (∀ v ∈ vars, ∀ p, lastNamed q.params v.key = some p → sortOf p.type ≠ .unknown →
      (v.isParam ∨ ∀ c ∈ p.name.toList, c ≠ '(' ∧ c ≠ '.') → v.sort = sortOf p.type) ∧
    ∀ c ∈ q.conds, ∀ env : Env,
      ((∃ y, env.bind c = .ok y) ↔
        ∀ key ∈ Variable.keys vars, c.Uses key → ∃ l, env.get? key = some l) ∧
      ((∀ key ∈ Variable.keys vars, ∃ l, env.get? key = some l) → ∃ y, env.bind c = .ok y) ∧
      ∀ env' : Env, (∀ key ∈ Variable.keys vars, c.Uses key → env'.get? key = env.get? key) →
        env'.bind c = env.bind c := by
  obtain ⟨found, -, htests, hvars⟩ := exists_collected h
  have hkeys := keys_eq h
  have hmem : ∀ c ∈ q.conds, ∀ e ∈ c.occurrences, e.render ∈ Variable.keys vars := by
    intro c hc e he
    rw [hkeys, List.mem_eraseDups]
    exact List.mem_map_of_mem (List.mem_flatMap.mpr ⟨c, hc, he⟩)
  refine ⟨nodup_keys h, hkeys, fun v hv => ?_, fun v hv => exists_firstUse h hv,
    fun v hv p hp hs hname => ?_, fun c hc env => ?_⟩
  · subst hvars
    obtain ⟨w, -, rfl⟩ := List.mem_map.mp hv
    exact w.sort_settle
  · refine sort_of_lastNamed h hv ?_ hp hs
    rcases hname with hparam | hplain
    · exact hparam
    · obtain ⟨e, he, hterm⟩ := exists_firstUse h hv
      have hkey : e.render = v.key := by simpa using List.find?_some he
      have hpkey : p.name = v.key := by simpa using List.find?_some hp
      have hname : ¬e.isUnknown := fun hu => by
        rcases Expr.mark_mem_render hu with hc | hc
        · exact (hplain _ (by rwa [hpkey, ← hkey])).1 rfl
        · exact (hplain _ (by rwa [hpkey, ← hkey])).2 rfl
      rw [Variable.isParam, hterm, if_neg hname]
      rfl
  · have hiff : (∃ y, env.bind c = .ok y) ↔
        ∀ key ∈ Variable.keys vars, c.Uses key → ∃ l, env.get? key = some l := by
      rw [Env.exists_bind_iff c (htests c hc)]
      exact ⟨fun hall key _ ⟨e, he, hkey⟩ => hkey ▸ hall e he,
        fun hall e he => hall _ (hmem c hc e he) ⟨e, he, rfl⟩⟩
    refine ⟨hiff, fun hall => hiff.mpr fun key hkey _ => hall key hkey, fun env' hsame => ?_⟩
    exact Env.bind_congr_occurrences c fun e he => hsame _ (hmem c hc e he) ⟨e, he, rfl⟩

/-- A call and a name in a comparison that tells their sorts, a call that is a condition, a
parameter that is declared twice, and a name under a conversion and a sign. -/
def calls : Query where
  params := [⟨"s", "string"⟩, ⟨"n", "T"⟩, ⟨"k", "bool"⟩, ⟨"k", "int8"⟩]
  conds := [
    .binary .and (.call (.ident "ready") [])
      (.binary .lt (.call (.ident "len") [.ident "s"]) (.ident "n")),
    .binary .eq (.pre .neg (.cast "int" (.ident "k"))) (.paren (.ident "n"))]

theorem variables_match_bind_calls :
    calls.variables = .ok [⟨"ready()", .bool, some (.call (.ident "ready") [])⟩,
      ⟨"len(s)", .int, some (.call (.ident "len") [.ident "s"])⟩, ⟨"n", .int, none⟩,
      ⟨"k", .int, none⟩] ∧
    ∃ y, Env.bind [("n", .ofInt 3), ("k", .ofInt (-3))]
      (.binary .eq (.pre .neg (.cast "int" (.ident "k"))) (.paren (.ident "n"))) = .ok y := by
  have h : calls.variables = .ok [⟨"ready()", .bool, some (.call (.ident "ready") [])⟩,
      ⟨"len(s)", .int, some (.call (.ident "len") [.ident "s"])⟩, ⟨"n", .int, none⟩,
      ⟨"k", .int, none⟩] := by rfl
  obtain ⟨-, -, -, -, -, hbind⟩ := variables_match_bind h
  refine ⟨h, (hbind _ (by simp [calls]) _).1.mpr fun key _ hkey => ?_⟩
  obtain ⟨e, he, rfl⟩ := hkey
  have hcases : e = .ident "k" ∨ e = .ident "n" := by simpa using he
  rcases hcases with rfl | rfl
  · exact ⟨.ofInt (-3), rfl⟩
  · exact ⟨.ofInt 3, rfl⟩

/-- A parameter whose name is the text of a call, and the call before it. -/
def namedAsCall : Query where
  params := [⟨"f()", "bool"⟩]
  conds := [.binary .eq (.call (.ident "f") []) (.int 1), .ident "f()"]

theorem not_sort_namedAsCall :
    namedAsCall.variables = .ok [⟨"f()", .int, some (.call (.ident "f") [])⟩] ∧
      lastNamed namedAsCall.params "f()" = some ⟨"f()", "bool"⟩ ∧ sortOf "bool" = .bool := by
  refine ⟨?_, rfl, rfl⟩
  rfl

end Query

end PathTree
