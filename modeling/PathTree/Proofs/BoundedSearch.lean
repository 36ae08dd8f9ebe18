import Mathlib
import PathTree.Proofs.VariableKeys
import PathTree.Solver.Bounded

/-!
# Answers of the bounded search

A search tries combinations of candidates and stops at the first under which the conditions hold
(`good_of_tryCombinations`). Its assignment reads the parameters back from that combination. Every
name that the conditions read has a value in the combination, since they could not hold otherwise,
and is a parameter, since collecting the variables would have failed (`mem_params_of_reads`) :
therefore the assignment makes the conditions true (`Solver.bounded_sound`).
-/

namespace PathTree

/-! ## Variables -/

namespace Variable

/-- Names that are read have a sort, if the variables can be collected. -/
theorem Collects.get?_of_reads {sorts : Table ValueSort} {x : Expr} {vars out : List Variable}
    (h : Collects sorts x vars out) {name : String} (hr : x.Reads name) :
    ∃ s, sorts.get? name = some s := by
  induction h with
  | lit => simp [Expr.Reads, Expr.walk] at hr
  | ident h => exact ⟨_, Expr.reads_ident.mp hr ▸ h⟩
  | @unknown x hx => cases x <;> simp_all [Expr.Reads, Expr.walk, Expr.isUnknown]
  | paren _ ih => exact ih (Expr.reads_paren.mp hr)
  | cast _ ih => exact ih (Expr.reads_cast.mp hr)
  | pre _ _ ih => exact ih (Expr.reads_pre.mp hr)
  | binary _ _ ihx ihy | again _ _ _ ihx ihy _ =>
    rcases Expr.reads_binary.mp hr with hr | hr
    · exact ihx hr
    · exact ihy hr

theorem get?_of_collectAll {sorts : Table ValueSort} {conds : List Expr}
    {vars out : List Variable} (h : collectAll sorts conds vars = .ok out) {c : Expr}
    (hc : c ∈ conds) {name : String} (hr : c.Reads name) : ∃ s, sorts.get? name = some s := by
  induction conds generalizing vars with
  | nil => simp at hc
  | cons d ds ih =>
    simp only [collectAll] at h
    obtain ⟨p, hp, h⟩ := bind_eq_ok.mp h
    rcases List.mem_cons.mp hc with rfl | hc
    · exact (collects_of_collect c hp).get?_of_reads hr
    · exact ih h hc

end Variable

/-- Names that the conditions of a query read are parameters, if it has variables at all. -/
theorem Query.mem_params_of_reads {q : Query} {vars : List Variable}
    (h : q.variables = .ok vars) {c : Expr} (hc : c ∈ q.conds) {name : String}
    (hr : c.Reads name) : ∃ p ∈ q.params, p.name = name := by
  obtain ⟨found, hf, -⟩ := bind_eq_ok.mp h
  obtain ⟨sort, hs⟩ := Variable.get?_of_collectAll hf hc hr
  rcases Table.mem_of_get?_putAll hs with h | h
  · simp [Table.get?] at h
  · obtain ⟨p, hp, hn⟩ := List.mem_map.mp h
    exact ⟨p, hp, congrArg Prod.fst hn⟩

/-! ## The search -/

/-- A combination that is given back was accepted. -/
theorem good_of_tryCombinations {α : Type} {good : List α → Except Fault Bool} {budget tried : Nat}
    {wheels : List (Wheel α)} {p : Patience} {values : List α}
    (h : (tryCombinations good budget tried wheels p).1 = .ok (some values)) :
    good values = .ok true := by
  fun_induction tryCombinations good budget tried wheels p with
  | case1 => simp at h
  | case2 => simp at h
  | case3 => simp at h
  | case4 budget tried wheels p p₁ _ hgood hask =>
    simp only [Except.ok.injEq, Option.some.injEq] at h
    exact h ▸ hgood
  | case5 => simp at h
  | case6 budget tried wheels p p₁ _ hgood wheels' hturn hask ih => exact ih h

/-- A search that finds something found a combination under which the conditions hold, and gives
back the values of the parameters in it. -/
theorem Bounds.search_eq_sat {b : Bounds} {q : Query} {p p' : Patience} {found : Option Assignment}
    (h : b.search q p = (.ok ⟨true, found⟩, p')) :
    ∃ vars env, q.variables = .ok vars ∧ Env.holds env q.conds = .ok true ∧
      found = some (assignmentOf q.params env) := by
  unfold Bounds.search at h
  split at h
  next go p₁ hask =>
  split at h
  · simp at h
  · split at h
    · simp at h
    · next vars domains hplan =>
      obtain ⟨vars', hv, -⟩ := bind_eq_ok.mp hplan
      dsimp only at h
      split at h
      · simp at h
      · simp [Answer.unsat] at h
      · next values htry =>
        have hgood := good_of_tryCombinations htry
        simp only [Prod.mk.injEq, Except.ok.injEq, Answer.mk.injEq, true_and] at h
        exact ⟨vars', combinationEnv vars values, hv, hgood, h.1.symm⟩

/-! ## Assignments -/

/-- The value that an assignment read back from an environment gives to a known name. -/
theorem value_of_mem_assignmentOf {params : List Param} {env : Env} {b : Binding}
    (hb : b ∈ assignmentOf params env) {l : Literal} (h : env.get? b.name = some l) :
    b.value = l := by
  obtain ⟨p, -, rfl⟩ := List.mem_map.mp hb
  simp [h]

theorem get?_env_assignmentOf {params : List Param} {env : Env} {name : String} {l : Literal}
    (hp : ∃ p ∈ params, p.name = name) (h : env.get? name = some l) :
    (assignmentOf params env).env.get? name = some l := by
  refine Table.get?_putAll_of_forall ?_ (Or.inr ?_)
  · intro e he hn
    obtain ⟨b, hb, rfl⟩ := List.mem_map.mp he
    subst hn
    exact value_of_mem_assignmentOf hb h
  · obtain ⟨p, hp, rfl⟩ := hp
    exact ⟨_, List.mem_map.mpr ⟨_, List.mem_map.mpr ⟨p, hp, rfl⟩, rfl⟩, rfl⟩

/-- An environment extended by an assignment. -/
def Assignment.extend (a : Assignment) (env : Env) : Env :=
  env ++ a.map fun b => (b.name, b.value)

theorem Assignment.get?_extend (a : Assignment) (env : Env) (name : String) :
    (a.extend env).get? name = (env.get? name).or (a.lookup name) := by
  have hlookup : List.lookup name (a.map fun b => (b.name, b.value)) = a.lookup name := by
    induction a with
    | nil => rfl
    | cons b rest ih =>
      by_cases h : b.name = name
      · simp [Assignment.lookup, h]
      · have hb : (name == b.name) = false := by simpa using Ne.symm h
        simpa [Assignment.lookup, List.lookup_cons, hb, h] using ih
  simp [Assignment.extend, Table.get?, List.lookup_append, hlookup]

/-- The assignment of a search gives known names the values of the environment it was read from. -/
theorem lookup_assignmentOf {params : List Param} {env : Env} {name : String} {l : Literal}
    (hp : ∃ p ∈ params, p.name = name) (h : env.get? name = some l) :
    (assignmentOf params env).lookup name = some l := by
  obtain ⟨p, hp, rfl⟩ := hp
  cases hf : (assignmentOf params env).find? fun b => b.name = p.name with
  | none =>
    have hnone := List.find?_eq_none.mp hf
    have hmem : (⟨p.name, (env.get? p.name).getD (idleValue (sortOf p.type))⟩ : Binding) ∈
        assignmentOf params env := List.mem_map.mpr ⟨p, hp, rfl⟩
    exact absurd (hnone _ hmem) (by simp)
  | some b =>
    have hb : b.name = p.name := by simpa using List.find?_some hf
    have := value_of_mem_assignmentOf (List.mem_of_find?_eq_some hf) (hb ▸ h)
    simp [Assignment.lookup, hf, this]

/-- Conditions without unknowns that hold in an environment hold under the assignment that is read
back from it. -/
theorem holds_assignmentOf {q : Query} {vars : List Variable} (hvars : q.variables = .ok vars)
    {env : Env} (hholds : env.holds q.conds = .ok true) (hn : ∀ c ∈ q.conds, c.NoUnknowns) :
    (assignmentOf q.params env).env.holds q.conds = .ok true := by
  rw [Env.holds_eq_true_iff] at hholds ⊢
  intro c hc
  obtain ⟨y, hy, hv⟩ := Env.eval_eq_ok.mp (hholds c hc)
  have hbind : (assignmentOf q.params env).env.bind c = env.bind c := by
    refine Env.bind_congr c (hn c hc) fun name hr => ?_
    obtain ⟨l, hl⟩ := Env.get?_of_reads hy hr
    rw [hl, get?_env_assignmentOf (Query.mem_params_of_reads hvars hc hr) hl]
  exact Env.eval_eq_ok.mpr ⟨y, hbind ▸ hy, hv⟩

/-- The bounded search is sound. If it answers satisfiable, it gives an assignment with one binding
for each parameter, in order; the conditions hold in an environment that has the values of the
assignment for all parameters, and where the conditions read a name, all bindings of that name have
its value; and without unknowns the assignment alone makes the conditions true. -/
theorem Solver.bounded_sound {σ : Type} {b : Bounds} {q : Query} {s s' : Patience × σ}
    {found : Option Assignment} (h : (Solver.bounded b).solve q s = (.ok ⟨true, found⟩, s')) :
    ∃ a, found = some a ∧ a.map (·.name) = q.params.map (·.name) ∧
      (∃ env : Env, env.holds q.conds = .ok true ∧
        (∀ p ∈ q.params, env.get? p.name = a.lookup p.name) ∧
        ∀ bind ∈ a, (∃ c ∈ q.conds, c.Reads bind.name) → env.get? bind.name = some bind.value) ∧
      ((∀ c ∈ q.conds, c.NoUnknowns) → a.satisfies q.conds = .ok true) := by
  have hsearch : b.normalize.search q s.1 =
      (.ok ⟨true, found⟩, (b.normalize.search q s.1).2) := by
    simp only [Solver.bounded, Prod.mk.injEq] at h
    rw [← h.1]
  obtain ⟨vars, env, hvars, hholds, rfl⟩ := Bounds.search_eq_sat hsearch
  -- The names that are read have values in `env`.
  have hread : ∀ c ∈ q.conds, ∀ name, c.Reads name → ∃ l, env.get? name = some l := by
    intro c hc name hr
    obtain ⟨y, hy, -⟩ := Env.eval_eq_ok.mp (Env.holds_eq_true_iff.mp hholds c hc)
    exact Env.get?_of_reads hy hr
  refine ⟨_, rfl, by simp [assignmentOf], ⟨(assignmentOf q.params env).extend env, ?_, ?_, ?_⟩, ?_⟩
  · refine Env.holds_mono (fun key l hl => ?_) hholds
    rw [Assignment.get?_extend, hl]
    rfl
  · intro p hp
    rw [Assignment.get?_extend]
    cases hl : env.get? p.name with
    | none => rfl
    | some l => rw [lookup_assignmentOf ⟨p, hp, rfl⟩ hl]; rfl
  · rintro bind hb ⟨c, hc, hr⟩
    obtain ⟨l, hl⟩ := hread c hc bind.name hr
    rw [Assignment.get?_extend, hl, value_of_mem_assignmentOf hb hl]
    rfl
  · intro hn
    exact Assignment.check_eq_true_iff.mpr
      (Env.holds_eq_true_iff.mp (holds_assignmentOf hvars hholds hn))

/-- Two parameters of one name, one that no condition mentions, and a condition under a conversion
and parentheses. -/
def repeatedNames : Query where
  params := [⟨"x", "int"⟩, ⟨"flag", "bool"⟩, ⟨"x", "int64"⟩]
  conds := [.binary .gt (.cast "int64" (.paren (.ident "x"))) (.int 2)]

theorem Solver.bounded_sound_repeatedNames :
    (Solver.bounded (σ := Unit) ⟨3, 50⟩).solve repeatedNames (.unlimited, ()) =
        (.ok ⟨true, some [⟨"x", .ofInt 3⟩, ⟨"flag", .ofBool false⟩, ⟨"x", .ofInt 3⟩]⟩,
          (.unlimited, ())) ∧
      Assignment.satisfies [⟨"x", .ofInt 3⟩, ⟨"flag", .ofBool false⟩, ⟨"x", .ofInt 3⟩]
        repeatedNames.conds = .ok true := by
  have h : (Solver.bounded (σ := Unit) ⟨3, 50⟩).solve repeatedNames (.unlimited, ()) =
      (.ok ⟨true, some [⟨"x", .ofInt 3⟩, ⟨"flag", .ofBool false⟩, ⟨"x", .ofInt 3⟩]⟩,
        (.unlimited, ())) := by cbv
  obtain ⟨a, ha, -, -, hsat⟩ := Solver.bounded_sound h
  cases ha
  exact ⟨h, hsat (by simp [repeatedNames, Expr.int])⟩

end PathTree
