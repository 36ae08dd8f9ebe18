import Mathlib.Algebra.BigOperators.Group.List.Basic
import Mathlib.Data.Finset.Max
import PathTree.Proofs.SearchSpace
import PathTree.Proofs.SeparableConditions
import PathTree.Proofs.SimplestFirst
import PathTree.Proofs.Waiting

/-!
# Completeness on separable conditions

A bounded search looks at finitely many values, but for separable conditions these are enough. What
such a condition says of a value depends on the side of its literals that the value is on, for an
integer, and on the literals that it is, for a text (`Expr.Separable.trueIn_congr`). On the same
side of all literals as a given integer there is a neighbour of one, or 0 if there are none
(`exists_int_alike`). A text that differs from all literals can be replaced by the longest of them
with a suffix (`exists_text_alike`). So every model can be replaced by one whose values are
candidates (`Model.exists_drawn`), and if the budget covers all combinations, the search comes to
its values.

`Solver.bounded_decides` : the search answers satisfiable exactly if there is a model at all.
-/

namespace PathTree

/-! ## Values like a given one -/

/-- On the same side of finitely many integers as a given one there is a neighbour of one of them,
or 0 if there are none. -/
theorem exists_int_alike (ints : List Int) (x : Int) :
    ∃ y, (y = 0 ∨ ∃ n ∈ ints, n - 1 ≤ y ∧ y ≤ n + 1) ∧
      ∀ n ∈ ints, (y < n ↔ x < n) ∧ (n < y ↔ n < x) := by
  by_cases hmem : x ∈ ints
  · exact ⟨x, Or.inr ⟨x, hmem, by omega⟩, fun n _ => ⟨Iff.rfl, Iff.rfl⟩⟩
  have hne : ∀ n ∈ ints, n ≠ x := fun n hn he => hmem (he ▸ hn)
  by_cases hbelow : ∃ n ∈ ints, n < x
  · -- The greatest integer below is the nearest one on that side.
    obtain ⟨n₀, hn₀, hlt₀⟩ := hbelow
    obtain ⟨n, hn, hmax⟩ := (ints.toFinset.filter (· < x)).exists_max_image id
      ⟨n₀, by simp [hn₀, hlt₀]⟩
    simp only [Finset.mem_filter, List.mem_toFinset, id] at hn hmax
    refine ⟨n + 1, Or.inr ⟨n, hn.1, by omega⟩, fun k hk => ?_⟩
    have := hne k hk
    by_cases hkx : k < x
    · have := hmax k ⟨hk, hkx⟩
      omega
    · omega
  have habove : ∀ n ∈ ints, x < n := fun n hn => by
    have := hne n hn
    have : ¬n < x := fun h => hbelow ⟨n, hn, h⟩
    omega
  by_cases hnil : ints = []
  · exact ⟨0, Or.inl rfl, by simp [hnil]⟩
  · obtain ⟨n, hn, hmin⟩ := ints.toFinset.exists_min_image id (by simpa using hnil)
    simp only [List.mem_toFinset, id] at hn hmin
    refine ⟨n - 1, Or.inr ⟨n, hn, by omega⟩, fun k hk => ?_⟩
    have := habove k hk
    have := hmin k hk
    omega

/-- A text can be replaced by a candidate that is the same as the same mentioned texts. -/
theorem exists_text_alike (texts : List Text.Bytes) (s : Text.Bytes) :
    ∃ t ∈ textCandidates texts, ∀ u ∈ texts, t = u ↔ s = u := by
  have hcandidate {t : Text.Bytes} : t ∈ textCandidates texts ↔
      t = [] ∨ ∃ u ∈ texts, t = u ∨ t = u ++ Text.bytesOf "_" := by
    simp [textCandidates, List.mem_eraseDups]
  by_cases hmem : s ∈ texts
  · exact ⟨s, hcandidate.mpr (Or.inr ⟨s, hmem, Or.inl rfl⟩), fun u _ => Iff.rfl⟩
  have hne : ∀ u ∈ texts, s ≠ u := fun u hu he => hmem (he ▸ hu)
  by_cases hnil : texts = []
  · exact ⟨[], hcandidate.mpr (Or.inl rfl), by simp [hnil]⟩
  · -- No text is longer than the longest one.
    obtain ⟨u, hu, hmax⟩ := texts.toFinset.exists_max_image List.length (by simpa using hnil)
    rw [List.mem_toFinset] at hu
    refine ⟨u ++ Text.bytesOf "_", hcandidate.mpr (Or.inr ⟨u, hu, Or.inr rfl⟩), fun w hw => ?_⟩
    have hle := hmax w (List.mem_toFinset.mpr hw)
    have hlen : (Text.bytesOf "_").length = 1 := by with_unfolding_all decide
    have hlonger : u ++ Text.bytesOf "_" ≠ w := fun he => by
      rw [← he, List.length_append, hlen] at hle
      omega
    exact ⟨fun he => absurd he hlonger, fun he => absurd he (hne w hw)⟩

/-! ## Models of candidates -/

namespace Model

/-- Two models are on the same side of all mentioned integers, and have the same truth values and
the same mentioned texts. -/
structure Alike (m : Mentioned) (μ μ' : Model) : Prop where
  ints : ∀ name, ∀ n ∈ m.ints,
    (μ'.int name < n ↔ μ.int name < n) ∧ (n < μ'.int name ↔ n < μ.int name)
  texts : ∀ name, ∀ s ∈ m.texts, μ'.text name = s ↔ μ.text name = s
  truths : ∀ name, μ'.truth name = μ.truth name

/-- All values of a model are candidates. -/
def Drawn (radius : Int) (m : Mentioned) (μ : Model) : Prop :=
  ∀ name s, (μ.value name s).literal ∈ candidates radius m s

theorem mem_neighbours {n y : Int} (hn : -(2 ^ 63 - 1) < n ∧ n < 2 ^ 63 - 1)
    (hy : n - 1 ≤ y ∧ y ≤ n + 1) : y ∈ neighbours n := by
  have hword {k : Int} (hk : -(2 ^ 63) ≤ k ∧ k < 2 ^ 63) : isWord64 k := by
    rw [isWord64_iff]
    unfold leastWord
    omega
  refine (mem_neighbours_iff (hword (by omega))).mpr ⟨hword (by omega), ?_⟩
  simp only [nextTo, List.mem_cons]
  omega

/-- Every model is like one whose values are candidates. -/
theorem exists_drawn {radius : Int} (hr : 0 < radius) {m : Mentioned}
    (hm : ∀ n ∈ m.ints, -(2 ^ 63 - 1) < n ∧ n < 2 ^ 63 - 1) (μ : Model) :
    ∃ μ', Alike m μ μ' ∧ Drawn radius m μ' := by
  choose int hnear hints using fun name => exists_int_alike m.ints (μ.int name)
  choose text hdrawn htexts using fun name => exists_text_alike m.texts (μ.text name)
  refine ⟨⟨int, text, μ.truth⟩, ⟨hints, htexts, fun _ => rfl⟩, fun name s => ?_⟩
  have hint : int name ∈ intCandidates radius m.ints := by
    rw [mem_intCandidates (Int.le_of_lt hr)]
    rcases hnear name with h | ⟨n, hn, h⟩
    · exact Or.inl (by omega)
    · exact Or.inr ⟨n, hn, mem_neighbours (hm n hn) h⟩
  cases s with
  | bool => cases h : μ.truth name <;> simp [value, Value.literal, Value.literalWith, candidates, h]
  | string => exact List.mem_map.mpr ⟨text name, hdrawn name, rfl⟩
  | int => exact List.mem_map.mpr ⟨int name, hint, rfl⟩
  | unknown => exact List.mem_map.mpr ⟨int name, hint, rfl⟩

end Model

section Congr

variable {m : Mentioned} {μ μ' : Model}

/-- Comparisons with what is mentioned say the same of models that are alike. -/
theorem Model.Alike.says_iff (h : μ.Alike m μ') {op : BinaryOp} {v : Value} (hv : m.Has v)
    (name : String) :
    (op.Says (μ'.value name v.sort) v ↔ op.Says (μ.value name v.sort) v) ∧
      (op.Says v (μ'.value name v.sort) ↔ op.Says v (μ.value name v.sort)) := by
  cases v with
  | int n =>
    have hside := h.ints name n hv
    cases op with
    | eq | ne | lt | le | gt | ge =>
      simp only [BinaryOp.Says, Model.value, Value.sort]
      omega
    | _ => exact ⟨Iff.rfl, Iff.rfl⟩
  | float q => exact ⟨Iff.rfl, Iff.rfl⟩
  | text s =>
    have hsame := h.texts name s hv
    simp only [BinaryOp.Says, Model.value, Value.sort, ne_eq, eq_comm (a := s), hsame,
      and_self]
  | bool t => simp only [BinaryOp.Says, Model.value, Value.sort, h.truths, and_self]

/-- A separable condition is true in both of two models that are alike, or in none. -/
theorem Expr.Separable.trueIn_congr {params : List Param} {c : Expr} (hc : c.Separable params)
    (h : μ.Alike m μ') (hm : ∀ l ∈ Mentioned.literals c, ∀ v, l.value = .ok v → m.Has v) :
    c.TrueIn μ' ↔ c.TrueIn μ := by
  induction hc with
  | @alone p hp ht => rw [TrueIn, TrueIn, h.truths]
  | @compared op p l v x y hp hxy hl hv hop =>
    have hhas := hm l (by simp [Mentioned.literals_of_pairs hxy]) v hl
    rcases hxy with ⟨hx, hy⟩ | ⟨hx, hy⟩
    · rw [trueIn_paramFirst hx hy hl, trueIn_paramFirst hx hy hl, (h.says_iff hhas _).1]
    · rw [trueIn_literalFirst hx hy hl, trueIn_literalFirst hx hy hl, (h.says_iff hhas _).2]
  | @not x hx ih =>
    rw [TrueIn, TrueIn, ih fun l hl => hm l (by simpa using hl)]
  | @paren x hx ih =>
    rw [TrueIn, TrueIn, ih fun l hl => hm l (by simpa using hl)]

end Congr

/-! ## All combinations -/

section Combinations

variable {α β : Type}

theorem length_combinations (ds : List (List α)) :
    (combinations ds).length = (ds.map List.length).prod := by
  induction ds with
  | nil => rfl
  | cons d ds ih =>
    simp only [combinations, List.length_flatMap, List.length_map, List.map_const',
      List.sum_replicate, ih, List.map_cons, List.prod_cons, smul_eq_mul, Nat.mul_comm]

/-- One candidate for each place is a combination. -/
theorem map_mem_combinations {places : List β} {domain : β → List α} {choice : β → α}
    (h : ∀ b ∈ places, choice b ∈ domain b) :
    places.map choice ∈ combinations (places.map domain) := by
  induction places with
  | nil => exact List.mem_singleton.mpr rfl
  | cons b places ih =>
    obtain ⟨hb, hrest⟩ := List.forall_mem_cons.mp h
    exact List.mem_flatMap.mpr ⟨_, ih hrest, List.mem_map.mpr ⟨_, hb, rfl⟩⟩

/-- Trying combinations for a caller who waits for ever fails only where one that is left does. -/
theorem exists_remaining_of_tryCombinations_eq_error {good : List α → Except Fault Bool}
    {budget tried : Nat} {wheels : List (Wheel α)} (hw : Wheel.Live wheels) {f : Fault}
    (h : (tryCombinations good budget tried wheels .unlimited).1 = .error f) :
    ∃ values ∈ Wheel.remaining wheels, good values = .error f := by
  induction budget generalizing tried wheels with
  | zero => cases h
  | succ budget ih =>
    rw [Wheel.remaining_eq_cons hw]
    simp only [tryCombinations, ask_unlimited] at h
    split at h
    · next hg =>
      cases h
      exact ⟨_, List.mem_cons_self, hg⟩
    · cases h
    · split at h
      · cases h
      · next wheels' hturn =>
        obtain ⟨values, hmem, hg⟩ := ih (hw.turn hturn) h
        exact ⟨values, List.mem_cons_of_mem _ (by simpa [hturn] using hmem), hg⟩

end Combinations

/-! ## The search -/

/-- How many combinations of candidates there are for the parameters that a query's conditions
read. -/
def Bounds.combined (b : Bounds) (q : Query) (m : Mentioned) : Nat :=
  ((q.params.filter fun p => ∃ c ∈ q.conds, c.Reads p.name).map fun p =>
    (candidates b.radius m (sortOf p.type)).length).prod

namespace Bounds

variable {b : Bounds} {q : Query} {m : Mentioned} {vars : List Variable}

theorem normalize_eq (hr : 0 < b.radius) (hmax : 0 < b.maxCandidates) : b.normalize = b := by
  simp [normalize, Int.not_le.mpr hr, Int.not_le.mpr hmax]

/-- The number of combinations is the product over the parameters, whatever the order of the
variables is. -/
theorem length_combinations_domains (hvars : vars.Perm
    ((q.params.filter fun p => ∃ c ∈ q.conds, c.Reads p.name).map Variable.ofParam)) :
    (combinations (b.domains m vars)).length = b.combined q m := by
  rw [length_combinations, domains, List.map_map, combined, (hvars.map _).prod_eq, List.map_map]
  rfl

/-- A search for a caller who waits for ever gives an answer, if no combination fails. -/
theorem exists_search (hr : 0 ≤ b.radius) (hv : q.variables = .ok vars)
    (hm : Mentioned.ofConds q.conds = .ok m)
    (h : ∀ values ∈ combinations (b.domains m vars),
      ∃ t, (combinationEnv vars values).holds q.conds = .ok t) :
    ∃ a, (b.search q .unlimited).1 = .ok a := by
  have hdomains : ∀ d ∈ b.domains m vars, d ≠ [] := domains_ne_nil hr
  rw [search_fst, plan_eq_ok hv hm]
  cases htry : (tryCombinations (fun values => (combinationEnv vars values).holds q.conds)
      b.maxCandidates.toNat 0 ((b.domains m vars).map Wheel.start) .unlimited).1 with
  | ok found =>
    simp only [Patience.ask, Bind.bind, Except.bind, htry]
    exact ⟨_, rfl⟩
  | error f =>
    obtain ⟨values, hmem, hf⟩ :=
      exists_remaining_of_tryCombinations_eq_error (Wheel.live_start hdomains) htry
    rw [Wheel.remaining_start hdomains] at hmem
    obtain ⟨t, ht⟩ := h values hmem
    rw [ht] at hf
    cases hf

/-- A search is satisfiable exactly if the conditions hold for some combination, where the budget
covers all of them. -/
theorem sat_iff (hr : 0 ≤ b.radius) (hv : q.variables = .ok vars)
    (hm : Mentioned.ofConds q.conds = .ok m)
    (hbudget : (combinations (b.domains m vars)).length ≤ b.maxCandidates.toNat) {p : Patience}
    {a : Answer} (h : (b.search q p).1 = .ok a) :
    a.sat = true ↔ ∃ values ∈ combinations (b.domains m vars),
      (combinationEnv vars values).holds q.conds = .ok true := by
  obtain ⟨vars', m', hv', hm', rfl⟩ := search_eq_ok hr h
  obtain rfl : vars = vars' := Except.ok.inj (hv.symm.trans hv')
  obtain rfl : m = m' := Except.ok.inj (hm.symm.trans hm')
  constructor
  · intro hs
    cases hfirst : b.first? q m vars with
    | none =>
      rw [hfirst] at hs
      cases hs
    | some values =>
      obtain ⟨hholds, k, -, hk⟩ := exists_of_first? hfirst
      exact ⟨values, List.mem_of_getElem? hk, hholds⟩
  · rintro ⟨values, hmem, hholds⟩
    obtain ⟨k, hk⟩ := List.getElem?_of_mem hmem
    have hlt := (List.getElem?_eq_some_iff.mp hk).1
    obtain ⟨found, hfound⟩ := Option.isSome_iff_exists.mp
      (isSome_first? hholds (Nat.lt_of_lt_of_le hlt hbudget) hk)
    rw [hfound]
    rfl

end Bounds

/-! ## Environments and models -/

/-- The values of an environment. -/
def Env.model (env : Env) : Model where
  int name :=
    match (env.get? name).map Literal.value with
    | some (.ok (.int n)) => n
    | _ => 0
  text name :=
    match (env.get? name).map Literal.value with
    | some (.ok (.text s)) => s
    | _ => []
  truth name :=
    match (env.get? name).map Literal.value with
    | some (.ok (.bool t)) => t
    | _ => false

theorem Env.value_model {env : Env} {name : String} {l : Literal} {v : Value}
    (hl : env.get? name = some l) (hv : l.value = .ok v) (hf : v.isFloat = false) :
    env.model.value name v.sort = v := by
  cases v with
  | float q => cases hf
  | _ => simp [Model.value, Env.model, Value.sort, hl, hv]

/-- A candidate of a known sort is the literal of a value of that sort. -/
theorem exists_literal_of_mem_candidates {radius : Int} {m : Mentioned} {s : ValueSort}
    {l : Literal} (hs : s ≠ .unknown) (hl : l ∈ candidates radius m s) :
    ∃ v : Value, l = v.literal ∧ v.sort = s ∧ v.isFloat = false ∧
      ∀ n, v = .int n → n ∈ intCandidates radius m.ints := by
  cases s with
  | unknown => exact absurd rfl hs
  | int =>
    obtain ⟨n, hn, rfl⟩ := List.mem_map.mp hl
    exact ⟨.int n, rfl, rfl, rfl, fun k hk => by cases hk; exact hn⟩
  | bool => rcases List.mem_pair.mp hl with rfl | rfl <;> exact ⟨.bool _, rfl, rfl, rfl, nofun⟩
  | string =>
    obtain ⟨t, -, rfl⟩ := List.mem_map.mp hl
    exact ⟨.text t, rfl, rfl, rfl, nofun⟩

theorem exists_value_of_mem_candidates {radius : Int} {m : Mentioned} {s : ValueSort} {l : Literal}
    (hs : s ≠ .unknown) (hl : l ∈ candidates radius m s) :
    ∃ v, l.value = .ok v ∧ v.sort = s ∧ v.isFloat = false := by
  obtain ⟨v, rfl, hsort, hf, -⟩ := exists_literal_of_mem_candidates hs hl
  exact ⟨v, Value.value_literal hf, hsort, hf⟩

section Shown

variable {b : Bounds} {m : Mentioned} {vars : List Variable} {p : Param}

/-- The environment of a combination shows its own values. -/
theorem shows_model (hkeys : (Variable.keys vars).Nodup) {values : List Literal}
    (hc : values ∈ combinations (b.domains m vars)) (hp : Variable.ofParam p ∈ vars)
    (hs : sortOf p.type ≠ .unknown) :
    (combinationEnv vars values).Shows (combinationEnv vars values).model p := by
  obtain ⟨j, hj⟩ := List.getElem?_of_mem hp
  obtain ⟨l, hl, -, hget⟩ := exists_value hkeys hc hj
  obtain ⟨v, hv, hsort, hf⟩ := exists_value_of_mem_candidates hs hl
  have hvalue := Env.value_model hget hv hf
  rw [hsort] at hvalue
  exact ⟨l, hget, hv.trans (congrArg Except.ok hvalue.symm)⟩

/-- A model of candidates is shown by the environment of a combination. -/
theorem Model.Drawn.exists_shows {μ : Model} (h : μ.Drawn b.radius m)
    (hkeys : (Variable.keys vars).Nodup) :
    ∃ values ∈ combinations (b.domains m vars), ∀ p, Variable.ofParam p ∈ vars →
      (combinationEnv vars values).Shows μ p := by
  refine ⟨vars.map fun v => (μ.value v.key v.sort).literal,
    map_mem_combinations fun v _ => h v.key v.sort, fun p hp => ?_⟩
  obtain ⟨j, hj⟩ := List.getElem?_of_mem hp
  refine ⟨(μ.value p.name (sortOf p.type)).literal, ?_, Value.value_literal (μ.isFloat_value ..)⟩
  exact get?_combinationEnv (j := j) hkeys (by simp [Variable.keys, hj, Variable.ofParam])
    (by simp [hj, Variable.ofParam])

end Shown

/-- Separable conditions hold in an environment exactly if they are true in the model that it
shows. -/
theorem Env.holds_separable {env : Env} {μ : Model} {params : List Param} {conds : List Expr}
    (hconds : ∀ c ∈ conds, c.Separable params)
    (hμ : ∀ p ∈ params, (∃ c ∈ conds, c.Reads p.name) → env.Shows μ p) :
    ∃ t, env.holds conds = .ok t ∧ (t = true ↔ ∀ c ∈ conds, c.TrueIn μ) := by
  induction conds with
  | nil => exact ⟨true, rfl, by simp⟩
  | cons c cs ih =>
    obtain ⟨hc, hcs⟩ := List.forall_mem_cons.mp hconds
    have hshown : ∀ p ∈ params, c.Reads p.name → env.Shows μ p :=
      fun p hp hr => hμ p hp ⟨c, by simp, hr⟩
    obtain ⟨t, ht, hiff⟩ := hc.eval hshown
    cases t with
    | false =>
      refine ⟨false, by rw [Env.holds, ht], ?_⟩
      simp only [List.forall_mem_cons, ← hiff]
      simp
    | true =>
      obtain ⟨t, ht', hiff'⟩ := ih hcs fun p hp hreads =>
        hμ p hp (hreads.imp fun d hd => ⟨List.mem_cons_of_mem c hd.1, hd.2⟩)
      refine ⟨t, by rw [Env.holds, ht, ht'], ?_⟩
      simp only [List.forall_mem_cons, ← hiff, ← hiff', true_and]

/-- The bounded search decides separable conditions. For parameters with distinct names, if there
are no more combinations of candidates than the budget allows, a search for a caller who waits for
ever gives an answer, and it is satisfiable exactly if some integers, texts and truth values make
all conditions true. -/
theorem Solver.bounded_decides {σ : Type} {b : Bounds} {params : List Param} {conds : List Expr}
    (hn : (params.map (·.name)).Nodup) (hconds : ∀ c ∈ conds, c.Separable params)
    (hr : 0 < b.radius) (s : σ) :
    ∃ m, Mentioned.ofConds conds = .ok m ∧ ((b.combined ⟨params, conds⟩ m : Int) ≤ b.maxCandidates →
      ∃ a, ((Solver.bounded b).solve ⟨params, conds⟩ (.unlimited, s)).1 = .ok a ∧
        (a.sat = true ↔ ∃ μ : Model, ∀ c ∈ conds, c.TrueIn μ)) := by
  obtain ⟨m, hm, hhas, hints⟩ := Mentioned.exists_ofConds hconds
  obtain ⟨vars, hv, hperm⟩ := Query.variables_perm (q := ⟨params, conds⟩) hn hconds
  refine ⟨m, hm, fun hsize => ?_⟩
  have hr' : 0 ≤ b.radius := Int.le_of_lt hr
  have hkeys := Query.nodup_keys hv
  have hvars : ∀ p ∈ params, (∃ c ∈ conds, c.Reads p.name) → Variable.ofParam p ∈ vars :=
    fun p hp hreads => hperm.mem_iff.mpr
      (List.mem_map.mpr ⟨p, List.mem_filter.mpr ⟨hp, decide_eq_true hreads⟩, rfl⟩)
  have hown : ∀ values ∈ combinations (b.domains m vars), ∃ t,
      (combinationEnv vars values).holds conds = .ok t ∧
        (t = true ↔ ∀ c ∈ conds, c.TrueIn (combinationEnv vars values).model) := by
    refine fun values hmem => Env.holds_separable hconds fun p hp hreads => ?_
    obtain ⟨c, hc, hread⟩ := hreads
    exact shows_model hkeys hmem (hvars p hp ⟨c, hc, hread⟩) ((hconds c hc).sort_known hn hp hread)
  have hlength : (combinations (b.domains m vars)).length = b.combined ⟨params, conds⟩ m :=
    Bounds.length_combinations_domains hperm
  have hmax : 0 < b.maxCandidates := by
    obtain ⟨μ, -, hdrawn⟩ := Model.exists_drawn hr hints ⟨fun _ => 0, fun _ => [], fun _ => false⟩
    obtain ⟨values, hmem, -⟩ := hdrawn.exists_shows hkeys
    have := List.length_pos_of_mem hmem
    omega
  obtain ⟨a, ha⟩ := Bounds.exists_search (q := ⟨params, conds⟩) hr' hv hm fun values hmem =>
    (hown values hmem).imp fun t ht => ht.1
  refine ⟨a, by simp only [Solver.bounded, Bounds.normalize_eq hr hmax, ha], ?_⟩
  rw [Bounds.sat_iff hr' hv hm (by omega) ha]
  constructor
  · rintro ⟨values, hmem, hholds⟩
    obtain ⟨t, ht, hiff⟩ := hown values hmem
    obtain rfl : t = true := Except.ok.inj (ht.symm.trans hholds)
    exact ⟨_, hiff.mp rfl⟩
  · -- A model is replaced by one of candidates, which some combination shows.
    rintro ⟨μ, hμ⟩
    obtain ⟨μ', halike, hdrawn⟩ := Model.exists_drawn hr hints μ
    obtain ⟨values, hmem, hshows⟩ := hdrawn.exists_shows hkeys
    obtain ⟨t, ht, hiff⟩ := Env.holds_separable hconds fun p hp hreads =>
      hshows p (hvars p hp hreads)
    have htrue : t = true := hiff.mpr fun c hc =>
      ((hconds c hc).trueIn_congr halike (hhas c hc)).mpr (hμ c hc)
    exact ⟨values, hmem, htrue ▸ ht⟩

/-- No integer is between two that follow one another; texts and truth values are no obstacle. -/
def gap : Query where
  params := [⟨"x", "int"⟩, ⟨"s", "string"⟩, ⟨"t", "bool"⟩]
  conds := [.pre .not (.paren (.binary .le (.ident "x") (.int 3))),
    .binary .gt (.int 4) (.ident "x"), .binary .ne (.ident "s") (.lit (Value.text [0x61]).literal),
    .paren (.ident "t")]

theorem separable_gap : ∀ c ∈ gap.conds, c.Separable gap.params := by
  simp only [gap, List.forall_mem_cons]
  refine ⟨.not (.paren (.compared (p := ⟨"x", "int"⟩) (v := .int 3) (by decide)
      (Or.inl ⟨rfl, rfl⟩) (Literal.value_ofInt 3) ⟨by decide, by decide, by decide⟩ rfl)),
    .compared (p := ⟨"x", "int"⟩) (v := .int 4) (by decide) (Or.inr ⟨rfl, rfl⟩)
      (Literal.value_ofInt 4) ⟨by decide, by decide, by decide⟩ rfl,
    .compared (p := ⟨"s", "string"⟩) (v := .text [0x61]) (by decide) (Or.inl ⟨rfl, rfl⟩)
      (Literal.value_quote _) rfl rfl,
    .paren (.alone (p := ⟨"t", "bool"⟩) (by decide) rfl), by simp⟩

theorem mentioned_gap : Mentioned.ofConds gap.conds = .ok ⟨[3, 4], [[0x61]]⟩ := by
  have hliterals : gap.conds.flatMap Mentioned.literals =
      [.ofInt 3, .ofInt 4, (Value.text [0x61]).literal] := rfl
  have htext : (Value.text [0x61]).literal.value = .ok (.text [0x61]) := Value.value_literal rfl
  rw [Mentioned.ofConds, hliterals]
  simp [Mentioned.add, Literal.value_ofInt, htext, isWord64, Bind.bind, Except.bind,
    pure, Except.pure]

theorem combined_gap : Bounds.combined ⟨1, 66⟩ gap ⟨[3, 4], [[0x61]]⟩ = 66 := by
  have hread : (gap.params.filter fun p => ∃ c ∈ gap.conds, c.Reads p.name) = gap.params := by
    decide
  have hints : (candidates 1 ⟨[3, 4], [[0x61]]⟩ .int).length = 11 := by
    simp only [candidates, intCandidates, List.length_map, List.length_mergeSort]
    decide
  have htexts : (candidates 1 ⟨[3, 4], [[0x61]]⟩ .string).length = 3 := by
    rw [candidates, List.length_map]
    with_unfolding_all decide
  calc Bounds.combined ⟨1, 66⟩ gap ⟨[3, 4], [[0x61]]⟩
      = (gap.params.map fun p =>
          (candidates 1 ⟨[3, 4], [[0x61]]⟩ (sortOf p.type)).length).prod := by
        rw [Bounds.combined, hread]
    _ = ([(candidates 1 ⟨[3, 4], [[0x61]]⟩ .int).length,
          (candidates 1 ⟨[3, 4], [[0x61]]⟩ .string).length, 2] : List Nat).prod := rfl
    _ = 66 := by rw [hints, htexts]; rfl

theorem Solver.bounded_decides_gap :
    ∃ a, ((Solver.bounded (σ := Unit) ⟨1, 66⟩).solve gap (.unlimited, ())).1 = .ok a ∧
      a.sat = false := by
  obtain ⟨m, hm, h⟩ :=
    Solver.bounded_decides (b := ⟨1, 66⟩) (by decide) separable_gap (by decide) ()
  obtain rfl : m = ⟨[3, 4], [[0x61]]⟩ := Except.ok.inj (hm.symm.trans mentioned_gap)
  obtain ⟨a, ha, hsat⟩ := h (by
    rw [show (⟨gap.params, gap.conds⟩ : Query) = gap from rfl, combined_gap]
    decide)
  refine ⟨a, ha, ?_⟩
  rw [← Bool.not_eq_true, hsat]
  rintro ⟨μ, hμ⟩
  have hlow : ¬Expr.TrueIn μ (.binary .le (.ident "x") (.int 3)) := hμ _ List.mem_cons_self
  have hhigh : Expr.TrueIn μ (.binary .gt (.int 4) (.ident "x")) :=
    hμ _ (List.mem_cons_of_mem _ List.mem_cons_self)
  rw [Expr.trueIn_paramFirst rfl rfl (Literal.value_ofInt 3)] at hlow
  rw [Expr.trueIn_literalFirst rfl rfl (Literal.value_ofInt 4)] at hhigh
  simp only [BinaryOp.Says, Model.value, Value.sort] at hlow hhigh
  omega

end PathTree
