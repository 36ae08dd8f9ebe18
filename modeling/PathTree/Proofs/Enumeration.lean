import PathTree.Proofs.CompleteSearch
import PathTree.Proofs.HandledFaults

/-!
# A bounded search enumerates

The combinations that a search tries are numbered : the digits of a number, in the bases of the
numbers of candidates and the first place the lowest, say which candidate stands at each place
(`odometer`, `combinations_eq_map_odometer`). Each choice of one candidate for every place is one of
them (`mem_combinations`), and none comes twice (`nodup_combinations`).

`tryRecorded` is the search of `tryCombinations` that also keeps what it tries. It tries the
combinations in their order up to the first good one, or to the end of its budget
(`tried_of_tryRecorded`). A sign in front of a text is the one thing that could end the search
with a fault (`Env.Handled.exists_holds`), so without such signs `Solver.bounded_enumerates` says
exactly what is answered and what is tried.
-/

namespace PathTree

/-! ## Combinations by number -/

section Numbered

variable {α : Type}

/-- The setting of an odometer after so many steps : at each place the candidate that is counted by
the digit at this place, the first place the lowest one. -/
def odometer : List (List α) → Nat → List α
  | [], _ => []
  | d :: ds, k => d[k % d.length]?.toList ++ odometer ds (k / d.length)

/-- A combination is what the odometer shows after as many steps as there are combinations before
it. -/
theorem getElem?_combinations_odometer {ds : List (List α)} (hds : ∀ d ∈ ds, d ≠ []) {k : Nat}
    (hk : k < (ds.map List.length).prod) : (combinations ds)[k]? = some (odometer ds k) := by
  induction ds generalizing k with
  | nil =>
    obtain rfl : k = 0 := by simpa using hk
    rfl
  | cons d ds ih =>
    obtain ⟨hd, hds⟩ := List.forall_mem_cons.mp hds
    have hpos : 0 < d.length := List.length_pos_iff.mpr hd
    rw [List.map_cons, List.prod_cons] at hk
    have ha : d[k % d.length]? = some _ := List.getElem?_eq_getElem (Nat.mod_lt k hpos)
    refine (getElem?_combinations_cons hd).mpr ⟨_, odometer ds (k / d.length), ?_, ha, ?_⟩
    · rw [odometer, ha]
      rfl
    · exact ih hds (Nat.div_lt_of_lt_mul hk)

theorem combinations_eq_map_odometer {ds : List (List α)} (hds : ∀ d ∈ ds, d ≠ []) :
    combinations ds = (List.range (ds.map List.length).prod).map (odometer ds) := by
  refine List.ext_getElem? fun k => ?_
  by_cases hk : k < (ds.map List.length).prod
  · rw [getElem?_combinations_odometer hds hk]
    simp [hk]
  · rw [List.getElem?_eq_none (by rw [length_combinations]; omega),
      List.getElem?_eq_none (by simp; omega)]

example : (List.range 6).map (odometer [[1, 2], [3, 4, 5]]) =
    [[1, 3], [2, 3], [1, 4], [2, 4], [1, 5], [2, 5]] := by decide

/-- The combinations are the choices of one candidate for each place. -/
theorem mem_combinations {ds : List (List α)} {values : List α} :
    values ∈ combinations ds ↔ List.Forall₂ (fun a d => a ∈ d) values ds := by
  induction ds generalizing values with
  | nil => simp [combinations]
  | cons d ds ih =>
    simp only [combinations, List.mem_flatMap, List.mem_map, ih, List.forall₂_cons_right_iff]
    constructor
    · rintro ⟨rest, hrest, a, ha, rfl⟩
      exact ⟨a, rest, ha, hrest, rfl⟩
    · rintro ⟨a, rest, ha, hrest, rfl⟩
      exact ⟨rest, hrest, a, ha, rfl⟩

theorem nodup_combinations {ds : List (List α)} (hds : ∀ d ∈ ds, d.Nodup) :
    (combinations ds).Nodup := by
  induction ds with
  | nil => simp [combinations]
  | cons d ds ih =>
    obtain ⟨hd, hds⟩ := List.forall_mem_cons.mp hds
    refine List.nodup_flatMap.mpr ⟨fun rest _ => hd.map fun a a' h => (List.cons.inj h).1, ?_⟩
    refine (ih hds).imp fun {rest rest'} hne => ?_
    intro c hc hc'
    obtain ⟨a, -, rfl⟩ := List.mem_map.mp hc
    obtain ⟨a', -, heq⟩ := List.mem_map.mp hc'
    exact hne (List.cons.inj heq).2.symm

end Numbered

/-! ## What is tried -/

section Tried

variable {α : Type}

/-- The search of `tryCombinations`, with the combinations that it tries. -/
def tryRecorded (good : List α → Except Fault Bool) : (budget tried : Nat) → List (Wheel α) →
    Patience → (Except Fault (Option (List α)) × Patience) × List (List α)
  | 0, _, _, p => ((.ok none, p), [])
  | budget + 1, tried, wheels, p =>
    let (go, p) := if tried % patienceInterval = 0 then p.ask else (.ok (), p)
    match go with
    | .error f => ((.error f, p), [])
    | .ok _ =>
      match good (Wheel.shown wheels) with
      | .error f => ((.error f, p), [Wheel.shown wheels])
      | .ok true => ((.ok (some (Wheel.shown wheels)), p), [Wheel.shown wheels])
      | .ok false =>
        match Wheel.turn wheels with
        | none => ((.ok none, p), [Wheel.shown wheels])
        | some next =>
          let (result, more) := tryRecorded good budget (tried + 1) next p
          (result, Wheel.shown wheels :: more)

theorem tryRecorded_fst (good : List α → Except Fault Bool) (budget tried : Nat)
    (wheels : List (Wheel α)) (p : Patience) :
    (tryRecorded good budget tried wheels p).1 = tryCombinations good budget tried wheels p := by
  induction budget generalizing tried wheels p with
  | zero => rfl
  | succ budget ih =>
    unfold tryRecorded tryCombinations
    rcases (if tried % patienceInterval = 0 then p.ask else (.ok (), p)) with ⟨f | _, p₁⟩
    · rfl
    · dsimp only
      rcases good (Wheel.shown wheels) with f | _ | _
      · rfl
      · cases Wheel.turn wheels with
        | none => rfl
        | some next => exact ih _ _ _
      · rfl

/-- The combinations are tried in order up to the first good one, or to the end of the budget. -/
theorem tried_of_tryRecorded {good : List α → Except Fault Bool} {budget tried : Nat}
    {wheels : List (Wheel α)} (hw : Wheel.Live wheels) {p : Patience} {found : Option (List α)}
    (h : (tryRecorded good budget tried wheels p).1.1 = .ok found) :
    (tryRecorded good budget tried wheels p).2 =
      ((Wheel.remaining wheels).take budget).takeWhile
        (fun c => (good c).toOption != some true) ++ found.toList := by
  fun_induction tryRecorded good budget tried wheels p with
  | case1 =>
    cases h
    rfl
  | case2 => cases h
  | case3 => cases h
  | case4 budget tried wheels p p₁ _ hgood hask =>
    cases h
    rw [Wheel.remaining_eq_cons hw]
    simp [hgood, Except.toOption]
  | case5 budget tried wheels p p₁ _ hgood hturn hask =>
    cases h
    rw [Wheel.remaining_eq_cons hw, hturn]
    simp [hgood, Except.toOption]
  | case6 budget tried wheels p p₁ _ hgood next hturn result more hrest hask ih =>
    rw [hrest] at ih
    have hbad : ((good (Wheel.shown wheels)).toOption != some true) = true := by
      rw [hgood]
      rfl
    rw [Wheel.remaining_eq_cons hw, hturn, Option.map_some, Option.getD_some, List.take_succ_cons,
      List.takeWhile_cons, if_pos hbad, List.cons_append, ← ih (hw.turn hturn) h]

end Tried

/-- The bounded search, with the combinations that it tries. -/
def Bounds.searchRecorded (b : Bounds) (q : Query) (p : Patience) :
    (Except Fault Answer × Patience) × List (List Literal) :=
  let (go, p) := p.ask
  match go with
  | .error f => ((.error f, p), [])
  | .ok _ =>
    match b.plan q with
    | .error f => ((.error f, p), [])
    | .ok (vars, domains) =>
      let good (values : List Literal) := (combinationEnv vars values).holds q.conds
      let ((found, p), tried) :=
        tryRecorded good b.maxCandidates.toNat 0 (domains.map Wheel.start) p
      match found with
      | .error f => ((.error f, p), tried)
      | .ok none => ((.ok .unsat, p), tried)
      | .ok (some values) =>
        ((.ok ⟨true, some (assignmentOf q.params (combinationEnv vars values))⟩, p), tried)

theorem Bounds.searchRecorded_fst (b : Bounds) (q : Query) (p : Patience) :
    (b.searchRecorded q p).1 = b.search q p := by
  unfold searchRecorded search
  rcases p.ask with ⟨f | _, p₁⟩
  · rfl
  · rcases b.plan q with f | ⟨vars, domains⟩
    · rfl
    · dsimp only
      rw [← tryRecorded_fst]
      rcases tryRecorded _ b.maxCandidates.toNat 0 (domains.map Wheel.start) p₁ with
        ⟨⟨f | _ | values, p₂⟩, tried⟩ <;> rfl

/-! ## The whole search -/

/-- The conditions hold for the values of a combination. -/
def Query.Accepts (q : Query) (vars : List Variable) (values : List Literal) : Prop :=
  (combinationEnv vars values).holds q.conds = .ok true

section Search

variable {b : Bounds} {q : Query} {m : Mentioned} {vars : List Variable}

/-- The combinations within the budget, by number. -/
theorem take_combinations (hr : 0 ≤ b.radius) :
    (combinations (b.domains m vars)).take b.maxCandidates.toNat =
      (List.range (min ((b.domains m vars).map List.length).prod b.maxCandidates.toNat)).map
        (odometer (b.domains m vars)) := by
  rw [combinations_eq_map_odometer (Bounds.domains_ne_nil hr), ← List.map_take, List.take_range,
    Nat.min_comm]

/-- A combination of candidates gives handled values. -/
theorem handled_combinationEnv {values : List Literal}
    (h : values ∈ combinations (b.domains m vars)) : (combinationEnv vars values).Handled := by
  intro key l hl
  have hzip : (key, l) ∈ (vars.map (·.key)).zip values := by
    obtain ⟨_, _, hsplit, -⟩ := List.lookup_eq_some_iff.mp hl
    rw [← combinationEnv, hsplit]
    simp
  obtain ⟨j, hj⟩ := List.getElem?_of_mem (List.of_mem_zip hzip).2
  have hlt : j < vars.length := by
    rw [← (length_of_mem_combinations h).trans (List.length_map _)]
    exact (List.getElem?_eq_some_iff.mp hj).1
  have hcandidate : l ∈ candidates b.radius m vars[j].sort :=
    getElem?_of_mem_combinations h (by simp [Bounds.domains, hlt]) hj
  exact handled_of_mem_candidates hcandidate

/-- A caller who waits for ever gets an answer, if no text has a sign in front of it. -/
theorem Bounds.exists_search_of_unsigned (hr : 0 ≤ b.radius) (hv : q.variables = .ok vars)
    (hq : ∀ c ∈ q.conds, ∀ l ∈ Mentioned.literals c, l.Unsigned) :
    ∃ a, b.search q .unlimited = (.ok a, .unlimited) := by
  have hconds : ∀ c ∈ q.conds, c.Handled := fun c hc l hl => (hq c hc l hl).handled
  obtain ⟨m, hm⟩ := Mentioned.exists_ofConds_of_handled hconds
  obtain ⟨a, ha⟩ := b.exists_search hr hv hm fun values hvalues =>
    (handled_combinationEnv hvalues).exists_holds hconds
  exact ⟨a, Prod.ext ha (b.search_unlimited q)⟩

/-- What a search tries is what trying the combinations of its plan does. -/
theorem Bounds.searchRecorded_snd {ds : List (List Literal)} (hplan : b.plan q = .ok (vars, ds)) :
    (b.searchRecorded q .unlimited).2 =
      (tryRecorded (fun values => (combinationEnv vars values).holds q.conds)
        b.maxCandidates.toNat 0 (ds.map Wheel.start) .unlimited).2 := by
  simp only [searchRecorded, Patience.ask, hplan]
  rcases tryRecorded (fun values => (combinationEnv vars values).holds q.conds)
    b.maxCandidates.toNat 0 (ds.map Wheel.start) .unlimited with ⟨⟨f | _ | values, p⟩, tried⟩ <;>
    rfl

/-- A search that ends without a fault tries the combinations within the budget up to the one that
it finds. -/
theorem Bounds.tried_of_searchRecorded (hr : 0 ≤ b.radius) (hv : q.variables = .ok vars)
    (hm : Mentioned.ofConds q.conds = .ok m) {a : Answer} (h : (b.search q .unlimited).1 = .ok a) :
    (b.searchRecorded q .unlimited).2 =
      ((combinations (b.domains m vars)).take b.maxCandidates.toNat).takeWhile
        (fun values => ((combinationEnv vars values).holds q.conds).toOption != some true) ++
      (b.first? q m vars).toList := by
  have hdomains : ∀ d ∈ b.domains m vars, d ≠ [] := domains_ne_nil hr
  have hplan : b.plan q = .ok (vars, b.domains m vars) := plan_eq_ok hv hm
  obtain ⟨found, hfound⟩ : ∃ found,
      (tryCombinations (fun values => (combinationEnv vars values).holds q.conds)
        b.maxCandidates.toNat 0 ((b.domains m vars).map Wheel.start) .unlimited).1 = .ok found := by
    rw [search_fst, hplan] at h
    obtain ⟨_, -, h⟩ := bind_eq_ok.mp h
    obtain ⟨_, hplan, h⟩ := bind_eq_ok.mp h
    cases hplan
    obtain ⟨found, hfound, -⟩ := bind_eq_ok.mp h
    exact ⟨found, hfound⟩
  have hfirst := tryCombinations_eq_find? hdomains hfound
  rw [← tryRecorded_fst] at hfound
  rw [searchRecorded_snd hplan, tried_of_tryRecorded (Wheel.live_start hdomains) hfound,
    Wheel.remaining_start hdomains, hfirst]
  rfl

section Found

variable (hr : 0 ≤ b.radius) (hv : q.variables = .ok vars) (hm : Mentioned.ofConds q.conds = .ok m)
  {a : Answer} (h : (b.search q .unlimited).1 = .ok a)

include hr hv hm h

/-- A search that finds nothing tries all combinations within the budget, in their order. -/
theorem Bounds.tried_of_first?_eq_none (hfirst : b.first? q m vars = none) :
    (∀ k < min ((b.domains m vars).map List.length).prod b.maxCandidates.toNat,
      ¬q.Accepts vars (odometer (b.domains m vars) k)) ∧
    (b.searchRecorded q .unlimited).2 =
      (List.range (min ((b.domains m vars).map List.length).prod b.maxCandidates.toNat)).map
        (odometer (b.domains m vars)) := by
  rw [tried_of_searchRecorded hr hv hm h, hfirst]
  unfold first? at hfirst
  rw [take_combinations hr] at hfirst ⊢
  have hbad := List.find?_eq_none.mp hfirst
  refine ⟨fun k hk haccept => ?_, ?_⟩
  · exact hbad _ (List.mem_map.mpr ⟨k, List.mem_range.mpr hk, rfl⟩) (toOption_beq_iff.mpr haccept)
  · rw [Option.toList_none, List.append_nil, List.takeWhile_eq_self_iff]
    exact fun values hvalues => by simpa using hbad values hvalues

/-- A search that finds something tries the combinations before it, and then this one. -/
theorem Bounds.tried_of_first?_eq_some {values : List Literal}
    (hfirst : b.first? q m vars = some values) :
    ∃ k < min ((b.domains m vars).map List.length).prod b.maxCandidates.toNat,
      odometer (b.domains m vars) k = values ∧ q.Accepts vars values ∧
      (∀ j < k, ¬q.Accepts vars (odometer (b.domains m vars) j)) ∧
      (b.searchRecorded q .unlimited).2 =
        (List.range (k + 1)).map (odometer (b.domains m vars)) := by
  rw [tried_of_searchRecorded hr hv hm h, hfirst]
  unfold first? at hfirst
  rw [take_combinations hr] at hfirst ⊢
  generalize min ((b.domains m vars).map List.length).prod b.maxCandidates.toNat = n at hfirst ⊢
  obtain ⟨haccept, before, behind, hsplit, hbad⟩ := List.find?_eq_some_iff_append.mp hfirst
  replace hbad : ∀ values ∈ before,
      (((combinationEnv vars values).holds q.conds).toOption != some true) = true := hbad
  -- What is in front of the combination that is found are the first ones by number.
  have hlen : before.length < n := by
    have := congrArg List.length hsplit
    simp only [List.length_map, List.length_range, List.length_append, List.length_cons] at this
    omega
  have hvalues : odometer (b.domains m vars) before.length = values := by
    have := congrArg (fun l => l[before.length]?) hsplit
    simpa [hlen] using this
  have hbefore : before = (List.range before.length).map (odometer (b.domains m vars)) := by
    have := congrArg (List.take before.length) hsplit
    rw [List.take_left, ← List.map_take, List.take_range, Nat.min_eq_left hlen.le] at this
    exact this.symm
  refine ⟨before.length, hlen, hvalues, toOption_beq_iff.mp haccept, fun j hj hj' => ?_, ?_⟩
  · have hmem : odometer (b.domains m vars) j ∈ before := by
      rw [hbefore]
      exact List.mem_map.mpr ⟨j, List.mem_range.mpr hj, rfl⟩
    have hgood := toOption_beq_iff.mpr hj'
    exact absurd (hbad _ hmem) (by simpa using hgood)
  · rw [hsplit, List.takeWhile_append_of_pos hbad,
      List.takeWhile_cons_of_neg (by simpa using haccept), List.append_nil, List.range_succ,
      List.map_append, ← hbefore, List.map_singleton, hvalues]
    rfl

end Found

/-- Each choice of one candidate for every variable has exactly one number. -/
theorem count_odometer (hr : 0 ≤ b.radius) {values : List Literal}
    (h : List.Forall₂ (· ∈ ·) values (b.domains m vars)) :
    ((List.range ((b.domains m vars).map List.length).prod).map
      (odometer (b.domains m vars))).count values = 1 := by
  rw [← combinations_eq_map_odometer (Bounds.domains_ne_nil hr)]
  refine List.count_eq_one_of_mem (nodup_combinations fun d hd => ?_) (mem_combinations.mpr h)
  obtain ⟨v, -, rfl⟩ := List.mem_map.mp hd
  exact nodup_candidates hr m v.sort

end Search

/-- The bounded search is an enumeration in the order of an odometer. Where the variables of a query
are known, no text among its literals has a sign in front of it and the caller waits for ever, the
search goes through the first combinations of candidates, as many as there are or as the budget
allows. Either the conditions hold for none of them and the answer is that nothing was found, or
the answer is the assignment of the first one for which they hold, and nothing behind that one is
tried. If nothing was found and the budget covers all combinations, then each choice of one
candidate for every variable was tried exactly once. -/
theorem Solver.bounded_enumerates {σ : Type} (b : Bounds) {q : Query} {vars : List Variable}
    (hv : q.variables = .ok vars)
    (hq : ∀ c ∈ q.conds, ∀ l ∈ Mentioned.literals c, l.Unsigned) (s : σ) :
    ∃ m a tried, Mentioned.ofConds q.conds = .ok m ∧
      (Solver.bounded b).solve q (.unlimited, s) = (.ok a, (.unlimited, s)) ∧
      b.normalize.searchRecorded q .unlimited = ((.ok a, .unlimited), tried) ∧
      let domains := b.normalize.domains m vars
      let total := (domains.map List.length).prod
      let budget := b.normalize.maxCandidates.toNat
      ((∀ k < min total budget, ¬q.Accepts vars (odometer domains k)) ∧ a = .unsat ∧
          tried = (List.range (min total budget)).map (odometer domains) ∧
          (total ≤ budget → ∀ values, List.Forall₂ (· ∈ ·) values domains →
            tried.count values = 1) ∨
        ∃ k < min total budget, q.Accepts vars (odometer domains k) ∧
          (∀ j < k, ¬q.Accepts vars (odometer domains j)) ∧
          a = ⟨true, some (assignmentOf q.params (combinationEnv vars (odometer domains k)))⟩ ∧
          tried = (List.range (k + 1)).map (odometer domains)) := by
  have hr := b.radius_normalize
  obtain ⟨a, ha⟩ := Bounds.exists_search_of_unsigned hr hv hq
  have hok : (b.normalize.search q .unlimited).1 = .ok a := congrArg Prod.fst ha
  obtain ⟨vars', m, hv', hm, hfound⟩ := Bounds.search_eq_ok hr hok
  obtain rfl : vars = vars' := Except.ok.inj (hv.symm.trans hv')
  refine ⟨m, a, (b.normalize.searchRecorded q .unlimited).2, hm,
    by simp only [Solver.bounded, ha], Prod.ext ((Bounds.searchRecorded_fst ..).trans ha) rfl, ?_⟩
  intro domains total budget
  cases hfirst : b.normalize.first? q m vars with
  | none =>
    obtain ⟨hnone, htried⟩ := Bounds.tried_of_first?_eq_none hr hv hm hok hfirst
    refine Or.inl ⟨hnone, by rw [hfound, hfirst]; rfl, htried, fun hsize values hvalues => ?_⟩
    rw [htried, Nat.min_eq_left hsize]
    exact count_odometer hr hvalues
  | some values =>
    obtain ⟨k, hk, rfl, haccept, hbefore, htried⟩ :=
      Bounds.tried_of_first?_eq_some hr hv hm hok hfirst
    exact Or.inr ⟨k, hk, haccept, hbefore, by rw [hfound, hfirst]; rfl, htried⟩

/-- No integer is between two that follow one another, whatever the truth value is. -/
def between : Query where
  params := [⟨"x", "int"⟩, ⟨"t", "bool"⟩]
  conds := [.binary .gt (.ident "x") (.int 1), .binary .gt (.int 2) (.ident "x"), .ident "t"]

theorem variables_between :
    between.variables = .ok [⟨"x", .int, none⟩, ⟨"t", .bool, none⟩] := by rfl

theorem unsigned_between : ∀ c ∈ between.conds, ∀ l ∈ Mentioned.literals c, l.Unsigned := by
  simp [between, Literal.Unsigned, Expr.int]

/-- Seven integers and two truth values are tried, which is what the budget allows. -/
theorem Solver.bounded_enumerates_between :
    ∃ tried, Bounds.searchRecorded ⟨1, 14⟩ between .unlimited = ((.ok .unsat, .unlimited), tried) ∧
      tried.length = 14 ∧
      ∀ n ∈ [0, 1, -1, 2, -2, 3, -3], ∀ t, tried.count [.ofInt n, .ofBool t] = 1 := by
  obtain ⟨m, a, tried, hm, hsolve, hrecorded, h⟩ :=
    Solver.bounded_enumerates ⟨1, 14⟩ variables_between unsigned_between ()
  rw [Bounds.normalize_eq (by decide) (by decide)] at hrecorded h
  have hunsat : ((Solver.bounded (σ := Unit) ⟨1, 14⟩).solve between (.unlimited, ())).1 =
      .ok .unsat := by cbv
  rw [hsolve] at hunsat
  cases hunsat
  have hm' : Mentioned.ofConds between.conds = .ok ⟨[1, 2], []⟩ := by cbv
  obtain rfl : m = ⟨[1, 2], []⟩ := Except.ok.inj (hm.symm.trans hm')
  have hints : intCandidates 1 [1, 2] = [0, 1, -1, 2, -2, 3, -3] := by cbv
  refine ⟨tried, hrecorded, ?_⟩
  simp only [Bounds.domains, List.map_cons, List.map_nil, candidates, hints] at h
  rcases h with ⟨-, -, htried, hcount⟩ | ⟨_, -, -, -, ha, -⟩
  · refine ⟨by rw [htried]; rfl, fun n hn t => hcount (by decide) _ (.cons ?_ (.cons ?_ .nil))⟩
    · exact List.mem_map_of_mem hn
    · cases t <;> simp
  · cases ha

end PathTree
