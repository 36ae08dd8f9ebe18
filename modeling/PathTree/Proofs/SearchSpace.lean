import PathTree.Proofs.BoundedSearch
import PathTree.Proofs.Candidates
import PathTree.Proofs.Combinations
import PathTree.Proofs.VariableKeys

/-!
# The space of a bounded search

The answer of a bounded search is the first combination of candidates, in the order of an odometer
and within the budget, under which the conditions hold (`Bounds.search_eq_ok`).

The variables and the candidates of a query are those of its own conditions, so a query with fewer
conditions is searched in another space. `Bounds.sat_of_draws` : where the values that were found for
a query are candidates in the search for its leading conditions, that search is satisfiable too. The
budget is no obstacle, since the values do not come later there.
-/

namespace PathTree

/-! ## Answers -/

/-- The candidates for each variable of a query. -/
def Bounds.domains (b : Bounds) (m : Mentioned) (vars : List Variable) : List (List Literal) :=
  vars.map fun v => candidates b.radius m v.sort

/-- Every variable has candidates. -/
theorem Bounds.domains_ne_nil {b : Bounds} (hr : 0 ≤ b.radius) {m : Mentioned}
    {vars : List Variable} : ∀ d ∈ b.domains m vars, d ≠ [] := by
  intro d hd
  obtain ⟨v, -, rfl⟩ := List.mem_map.mp hd
  exact candidates_ne_nil hr m v.sort

theorem Bounds.plan_eq_ok {b : Bounds} {q : Query} {m : Mentioned} {vars : List Variable}
    (hv : q.variables = .ok vars) (hm : Mentioned.ofConds q.conds = .ok m) :
    b.plan q = .ok (vars, b.domains m vars) :=
  bind_eq_ok.mpr ⟨vars, hv, bind_eq_ok.mpr ⟨m, hm, rfl⟩⟩

theorem toOption_beq_iff {x : Except Fault Bool} :
    (x.toOption == some true) = true ↔ x = .ok true := by
  cases x <;> simp [Except.toOption]

/-- The first combination, of those that the search tries, under which the conditions of a query
hold. -/
def Bounds.first? (b : Bounds) (q : Query) (m : Mentioned) (vars : List Variable) :
    Option (List Literal) :=
  ((combinations (b.domains m vars)).take b.maxCandidates.toNat).find? fun values =>
    ((combinationEnv vars values).holds q.conds).toOption == some true

/-- What is found is a combination within the budget under which the conditions hold. -/
theorem Bounds.exists_of_first? {b : Bounds} {q : Query} {m : Mentioned} {vars : List Variable}
    {values : List Literal} (h : b.first? q m vars = some values) :
    (combinationEnv vars values).holds q.conds = .ok true ∧
      ∃ k < b.maxCandidates.toNat, (combinations (b.domains m vars))[k]? = some values := by
  have hgood := List.find?_some h
  refine ⟨toOption_beq_iff.mp hgood, ?_⟩
  obtain ⟨k, hk⟩ := List.getElem?_of_mem (List.mem_of_find?_eq_some h)
  have hbudget : k < b.maxCandidates.toNat :=
    Nat.lt_of_lt_of_le (List.getElem?_eq_some_iff.mp hk).1 (List.length_take_le _ _)
  rw [List.getElem?_take_of_lt hbudget] at hk
  exact ⟨k, hbudget, hk⟩

/-- If there is such a combination, one is found. -/
theorem Bounds.isSome_first? {b : Bounds} {q : Query} {m : Mentioned} {vars : List Variable}
    {values : List Literal} (hh : (combinationEnv vars values).holds q.conds = .ok true) {k : Nat}
    (hbudget : k < b.maxCandidates.toNat)
    (hk : (combinations (b.domains m vars))[k]? = some values) : (b.first? q m vars).isSome := by
  refine List.find?_isSome.mpr
    ⟨values, List.mem_of_getElem? (i := k) ?_, toOption_beq_iff.mpr hh⟩
  rw [List.getElem?_take_of_lt hbudget]
  exact hk

/-- A search that ends without a fault gives the first combination under which the conditions
hold. -/
theorem Bounds.search_eq_ok {b : Bounds} (hr : 0 ≤ b.radius) {q : Query} {p : Patience} {a : Answer}
    (h : (b.search q p).1 = .ok a) :
    ∃ vars m, q.variables = .ok vars ∧ Mentioned.ofConds q.conds = .ok m ∧
      a = (b.first? q m vars).elim .unsat fun values =>
        ⟨true, some (assignmentOf q.params (combinationEnv vars values))⟩ := by
  rw [search_fst] at h
  obtain ⟨_, -, h⟩ := bind_eq_ok.mp h
  obtain ⟨plan, hplan, h⟩ := bind_eq_ok.mp h
  obtain ⟨found, htry, h⟩ := bind_eq_ok.mp h
  obtain ⟨vars, hv, hplan⟩ := bind_eq_ok.mp hplan
  obtain ⟨m, hm, hplan⟩ := bind_eq_ok.mp hplan
  cases hplan
  cases h
  refine ⟨vars, m, hv, hm, ?_⟩
  rw [first?, ← tryCombinations_eq_find? (domains_ne_nil hr) htry]

/-- The radius of limits in use is not negative. -/
theorem Bounds.radius_normalize (b : Bounds) : 0 ≤ b.normalize.radius := by
  unfold normalize standard
  dsimp only
  split <;> omega

/-! ## Fewer conditions -/

theorem get?_combinationEnv {vars : List Variable} (hk : (Variable.keys vars).Nodup)
    {values : List Literal} {j : Nat} {key : String} {l : Literal}
    (hkey : (Variable.keys vars)[j]? = some key) (hl : values[j]? = some l) :
    (combinationEnv vars values).get? key = some l := by
  unfold combinationEnv Table.get?
  change List.lookup key ((Variable.keys vars).zip values) = some l
  generalize Variable.keys vars = keys at hk hkey
  induction keys generalizing values j with
  | nil => simp at hkey
  | cons k keys ih =>
    obtain ⟨hnew, hk⟩ := List.nodup_cons.mp hk
    cases values with
    | nil => simp at hl
    | cons v values =>
      cases j with
      | zero =>
        cases hkey
        cases hl
        simp
      | succ j =>
        have hne : (key == k) = false := by
          have hmem : key ∈ keys := List.mem_of_getElem? hkey
          simpa using fun he : key = k => hnew (he ▸ hmem)
        rw [List.zip_cons_cons, List.lookup_cons, hne]
        exact ih hl hk hkey

/-- A variable has in a combination one of its candidates, and it has this value in the combination's
environment. -/
theorem exists_value {b : Bounds} {m : Mentioned} {vars : List Variable} {values : List Literal}
    (hkeys : (Variable.keys vars).Nodup) (hc : values ∈ combinations (b.domains m vars)) {j : Nat}
    {v : Variable} (hj : vars[j]? = some v) :
    ∃ l ∈ candidates b.radius m v.sort, values[j]? = some l ∧
      (combinationEnv vars values).get? v.key = some l := by
  have hlen : values.length = vars.length := by
    simpa [Bounds.domains] using length_of_mem_combinations hc
  have hlt : j < values.length := hlen ▸ (List.getElem?_eq_some_iff.mp hj).1
  have hl : values[j]? = some values[j] := List.getElem?_eq_getElem hlt
  refine ⟨values[j], ?_, hl, get?_combinationEnv hkeys (by simp [Variable.keys, hj]) hl⟩
  exact getElem?_of_mem_combinations hc (by simp [Bounds.domains, hj]) hl

/-- The search for a query tries the values that an environment gives to its variables. -/
def Bounds.Draws (b : Bounds) (q : Query) (env : Env) : Prop :=
  ∃ vars m, q.variables = .ok vars ∧ Mentioned.ofConds q.conds = .ok m ∧
    ∀ v ∈ vars, ∃ l ∈ candidates b.radius m v.sort, env.get? v.key = some l

section Growth

variable {b : Bounds} {params : List Param} {conds more : List Expr}
  {vars vars' : List Variable} {m m' : Mentioned} {values : List Literal}

/-- A variable of the leading conditions stands at the same place among those of all. -/
theorem Query.getElem?_keys (hv : Query.variables ⟨params, conds ++ more⟩ = .ok vars)
    (hv' : Query.variables ⟨params, conds⟩ = .ok vars') {j : Nat} {key : String}
    (hj : (Variable.keys vars')[j]? = some key) : (Variable.keys vars)[j]? = some key := by
  obtain ⟨rest, hrest⟩ := Query.keys_grow hv' hv
  rw [← hrest, List.getElem?_append_left (List.getElem?_eq_some_iff.mp hj).1]
  exact hj

/-- A combination for a query whose leading values are drawn comes no later among the combinations
for its leading conditions. -/
theorem Bounds.exists_earlier_of_draws (hr : 0 ≤ b.radius)
    (hv : Query.variables ⟨params, conds ++ more⟩ = .ok vars)
    (hm : Mentioned.ofConds (conds ++ more) = .ok m)
    (hv' : Query.variables ⟨params, conds⟩ = .ok vars') (hm' : Mentioned.ofConds conds = .ok m')
    {k : Nat} (hk : (combinations (b.domains m vars))[k]? = some values)
    {env : Env} (henv : ∀ key l, (combinationEnv vars values).get? key = some l →
      env.get? key = some l)
    (hd : ∀ v ∈ vars', ∃ l ∈ candidates b.radius m' v.sort, env.get? v.key = some l) :
    ∃ k' ≤ k, (combinations (b.domains m' vars'))[k']? = some (values.take vars'.length) := by
  have hmem := List.mem_of_getElem? hk
  rw [show vars'.length = (b.domains m' vars').length by simp [Bounds.domains]]
  refine exists_earlier hk fun j d' hd' => ?_
  rw [Bounds.domains, List.getElem?_map, Option.map_eq_some_iff] at hd'
  obtain ⟨v', hj', rfl⟩ := hd'
  -- The variable stands at the same place in both queries, maybe with another sort.
  have hkey : (Variable.keys vars)[j]? = some v'.key :=
    Query.getElem?_keys hv hv' (by simp [Variable.keys, hj'])
  obtain ⟨v, hj, hsame⟩ := Option.map_eq_some_iff.mp ((List.getElem?_map ..).symm.trans hkey)
  obtain ⟨l, hl, hvalue, hget⟩ := exists_value (Query.nodup_keys hv) hmem hj
  obtain ⟨l', hl', hget'⟩ := hd v' (List.mem_of_getElem? hj')
  obtain rfl : l = l' := by
    rw [hsame] at hget
    exact Option.some.inj ((henv _ _ hget).symm.trans hget')
  exact ⟨_, l, by simp [Bounds.domains, hj], hvalue,
    candidates_sublist hr (Mentioned.grows_of_ofConds hm' hm) hl' hl,
    nodup_candidates hr m v.sort, hl'⟩

/-- The leading values of a combination are the values of the variables of the leading
conditions. -/
theorem holds_take (hv : Query.variables ⟨params, conds ++ more⟩ = .ok vars)
    (hv' : Query.variables ⟨params, conds⟩ = .ok vars') (hlen : values.length = vars.length) :
    (combinationEnv vars' (values.take vars'.length)).holds conds =
      (combinationEnv vars values).holds conds := by
  refine Query.holds_congr hv' fun key hkey => ?_
  obtain ⟨j, hj⟩ := List.getElem?_of_mem hkey
  have hjall := Query.getElem?_keys hv hv' hj
  have hlt : j < vars'.length := by
    simpa [Variable.keys] using (List.getElem?_eq_some_iff.mp hj).1
  have hltall : j < values.length := by
    rw [hlen]
    simpa [Variable.keys] using (List.getElem?_eq_some_iff.mp hjall).1
  have hl : values[j]? = some values[j] := List.getElem?_eq_getElem hltall
  rw [get?_combinationEnv (Query.nodup_keys hv) hjall hl]
  refine get?_combinationEnv (Query.nodup_keys hv') hj ?_
  rw [List.getElem?_take_of_lt hlt]
  exact hl

end Growth

/-- An environment that is extended by the assignment read back from it gives the parameters the
values of the assignment. -/
theorem get?_extend_assignmentOf {params : List Param} {env : Env} {param : Param}
    (hp : param ∈ params) : ((assignmentOf params env).extend env).get? param.name =
      (assignmentOf params env).lookup param.name := by
  rw [Assignment.get?_extend]
  cases hl : env.get? param.name with
  | none => rfl
  | some l =>
    rw [lookup_assignmentOf ⟨param, hp, rfl⟩ hl]
    rfl

/-- A search that is satisfiable found candidates for the parameters and the other variables under
which the conditions hold, and the search for leading conditions is satisfiable too if it tries
these values. -/
theorem Bounds.sat_of_draws {b : Bounds} (hr : 0 ≤ b.radius) {params : List Param}
    {path : List Expr} {p : Patience} {a : Answer}
    (h : (b.search ⟨params, path⟩ p).1 = .ok a) (hs : a.sat) :
    ∃ env : Env, env.holds path = .ok true ∧
      (∀ param ∈ params, env.get? param.name = (a.assignment.getD []).lookup param.name) ∧
      b.Draws ⟨params, path⟩ env ∧ ∀ n p' a', (b.search ⟨params, path.take n⟩ p').1 = .ok a' →
        b.Draws ⟨params, path.take n⟩ env → a'.sat := by
  obtain ⟨vars, m, hv, hm, ha⟩ := search_eq_ok hr h
  cases hfirst : b.first? ⟨params, path⟩ m vars with
  | none =>
    rw [ha, hfirst] at hs
    cases hs
  | some values =>
    rw [hfirst] at ha
    obtain ⟨hgood, k, hbudget, hk⟩ := exists_of_first? hfirst
    have henv : ∀ key l, (combinationEnv vars values).get? key = some l →
        ((assignmentOf params (combinationEnv vars values)).extend
          (combinationEnv vars values)).get? key = some l := by
      intro key l hl
      rw [Assignment.get?_extend, hl]
      rfl
    refine ⟨_, Env.holds_mono henv hgood, fun param hp => ?_, ⟨vars, m, hv, hm, fun v hmem => ?_⟩,
      fun n p' a' h' hdraws => ?_⟩
    · rw [ha]
      exact get?_extend_assignmentOf hp
    · obtain ⟨j, hj⟩ := List.getElem?_of_mem hmem
      obtain ⟨l, hl, -, hget⟩ := exists_value (Query.nodup_keys hv) (List.mem_of_getElem? hk) hj
      exact ⟨l, hl, henv _ _ hget⟩
    · obtain ⟨vars', m', hv', hm', ha'⟩ := search_eq_ok hr h'
      obtain ⟨vars₁, m₁, hv₁, hm₁, hd⟩ := hdraws
      obtain rfl : vars₁ = vars' := Except.ok.inj (hv₁.symm.trans hv')
      obtain rfl : m₁ = m' := Except.ok.inj (hm₁.symm.trans hm')
      have hlen : values.length = vars.length := by
        simpa [Bounds.domains] using length_of_mem_combinations (List.mem_of_getElem? hk)
      have hholds := Env.holds_eq_true_iff.mpr fun c (hc : c ∈ path.take n) =>
        Env.holds_eq_true_iff.mp hgood c (List.mem_of_mem_take hc)
      rw [← List.take_append_drop n path] at hv hm
      rw [← holds_take hv hv' hlen] at hholds
      obtain ⟨k', hle, hk'⟩ := exists_earlier_of_draws hr hv hm hv' hm' hk henv hd
      obtain ⟨found, hfound⟩ := Option.isSome_iff_exists.mp
        (isSome_first? (q := ⟨params, path.take n⟩) hholds (Nat.lt_of_le_of_lt hle hbudget) hk')
      rw [ha', hfound]
      rfl

end PathTree
