import PathTree.Proofs.LexicalRuns

/-!
# Runs that go alike

A run with bindings and a run with one store are compared step by step. The store may hold values of
variables whose scope is over, so bindings and store need not be equal : they agree on the names
that are visible (`Agree`). `Sim` says that two lists of steps give one result, one world and one
trace, and lead from related variables to related variables. Its rules follow the steps that runs
are made of.
-/

namespace PathTree

open Source Variables Steps

/-! ## Bindings and stores -/

section Agree

variable {V : Type} {locals scope : List String} {vars : Bindings V} {store : NameStore V}

/-- The bindings are those of the names in `scope`, the store has their values, and it has no values
but for the names in `locals`. -/
structure Agree (locals scope : List String) (vars : Bindings V) (store : NameStore V) : Prop where
  names : vars.map Prod.fst = scope
  values : ∀ name v, vars.lookup name = some v → store name = some v
  others : ∀ name, name ∉ locals → store name = none

theorem Bindings.lookup_eq_none {name : String} (h : name ∉ vars.map Prod.fst) :
    vars.lookup name = none := by
  induction vars with
  | nil => rfl
  | cons p vars ih =>
    obtain ⟨n, v⟩ := p
    simp only [List.map_cons, List.mem_cons, not_or] at h
    rw [List.lookup_cons, beq_false_of_ne h.1]
    exact ih h.2

theorem Bindings.exists_lookup {name : String} (h : name ∈ vars.map Prod.fst) :
    ∃ v, vars.lookup name = some v := by
  induction vars with
  | nil => cases h
  | cons p vars ih =>
    obtain ⟨n, v⟩ := p
    by_cases hn : name = n
    · exact ⟨v, by simp [hn]⟩
    · obtain ⟨u, hu⟩ := ih (by simpa [hn] using h)
      exact ⟨u, by rw [List.lookup_cons, beq_false_of_ne hn]; exact hu⟩

theorem Bindings.map_fst_set (name : String) (v : V) (vars : Bindings V) :
    (Bindings.set name v vars).map Prod.fst = vars.map Prod.fst := by
  fun_induction Bindings.set name v vars with
  | case1 => rfl
  | case2 u rest => rfl
  | case3 n u rest hn ih => rw [List.map_cons, ih, List.map_cons]

theorem Bindings.lookup_set {name : String} (v : V) (h : name ∈ vars.map Prod.fst) (n : String) :
    (Bindings.set name v vars).lookup n = if n = name then some v else vars.lookup n := by
  fun_induction Bindings.set name v vars with
  | case1 => cases h
  | case2 u rest =>
    by_cases hn : n = name
    · simp [hn]
    · simp [List.lookup_cons, beq_false_of_ne hn, hn]
  | case3 m u rest hm ih =>
    have hrest : name ∈ rest.map Prod.fst := by
      rcases List.mem_cons.mp h with rfl | h
      · exact absurd rfl hm
      · exact h
    rw [List.lookup_cons, List.lookup_cons, ih hrest]
    by_cases hn : n = m
    · subst hn
      simp [hm]
    · simp [beq_false_of_ne hn]

/-- A name that is not bound in the first bindings has the value that it has in the others. -/
theorem Bindings.lookup_of_drop {name : String} {v : V} {k : Nat}
    (h : (vars.drop k).lookup name = some v) (hk : name ∉ (vars.take k).map Prod.fst) :
    vars.lookup name = some v := by
  induction vars generalizing k with
  | nil => simp at h
  | cons p vars ih =>
    obtain ⟨n, u⟩ := p
    cases k with
    | zero => exact h
    | succ k =>
      simp only [List.take_succ_cons, List.map_cons, List.mem_cons, not_or] at hk
      rw [List.lookup_cons, beq_false_of_ne hk.1]
      exact ih h hk.2

/-- A name is visible or is not the name of any local. -/
def Resolved (locals scope : List String) (name : String) : Prop := name ∈ scope ∨ name ∉ locals

namespace Agree

theorem get_none (h : Agree locals scope vars store) (hsub : scope ⊆ locals) {name : String}
    (hn : name ∉ locals) : vars.lookup name = none := by
  refine Bindings.lookup_eq_none ?_
  rw [h.names]
  exact fun hs => hn (hsub hs)

/-- Bindings and store have one value for a name that is resolved. -/
theorem get_eq (h : Agree locals scope vars store) (hsub : scope ⊆ locals) {name : String}
    (hn : Resolved locals scope name) : vars.lookup name = store name := by
  rcases hn with hn | hn
  · obtain ⟨v, hv⟩ := Bindings.exists_lookup (h.names ▸ hn)
    rw [hv, h.values name v hv]
  · rw [h.get_none hsub hn, h.others name hn]

theorem set (h : Agree locals scope vars store) (hsub : scope ⊆ locals) {name : String}
    (hn : name ∈ scope) (v : V) :
    Agree locals scope (Bindings.set name v vars) (store.set name v) where
  names := by rw [Bindings.map_fst_set, h.names]
  values n u hu := by
    rw [Bindings.lookup_set v (h.names ▸ hn)] at hu
    unfold NameStore.set
    by_cases he : n = name
    · simpa [he] using hu
    · rw [if_neg he] at hu ⊢
      exact h.values n u hu
  others n hout := by
    have hne : n ≠ name := fun he => hout (by rw [he]; exact hsub hn)
    simpa [NameStore.set, hne] using h.others n hout

/-- A new value in the store does not matter to the names that are visible. -/
theorem setStore (h : Agree locals scope vars store) {name : String} (hn : name ∉ scope)
    (hl : name ∈ locals) (v : V) : Agree locals scope vars (store.set name v) where
  names := h.names
  values n u hu := by
    have hs : n ∈ scope := by
      rw [← h.names]
      exact Classical.byContradiction fun hm => by simp [Bindings.lookup_eq_none hm] at hu
    have hne : n ≠ name := fun he => hn (he ▸ hs)
    simpa [NameStore.set, hne] using h.values n u hu
  others n hout := by
    have hne : n ≠ name := fun he => hout (he ▸ hl)
    simpa [NameStore.set, hne] using h.others n hout

/-- A binding may be added for a name with its value in the store. -/
theorem bind (h : Agree locals scope vars store) {name : String} {v : V}
    (hv : store name = some v) : Agree locals (name :: scope) ((name, v) :: vars) store where
  names := by rw [List.map_cons, h.names]
  values n u hu := by
    by_cases he : n = name
    · subst he
      rw [List.lookup_cons_self] at hu
      rw [hv, hu]
    · rw [List.lookup_cons, beq_false_of_ne he] at hu
      exact h.values n u hu
  others := h.others

/-- The bindings of a scope may be dropped if its names were not visible around it. -/
theorem drop {new : List String} (h : Agree locals (new ++ scope) vars store)
    (hnew : ∀ n ∈ new, n ∉ scope) :
    Agree locals scope (vars.drop (vars.length - scope.length)) store := by
  have hlen : vars.length - scope.length = new.length := by
    have := congrArg List.length h.names
    simp only [List.length_map, List.length_append] at this
    omega
  have hnames : (vars.drop new.length).map Prod.fst = scope := by
    rw [List.map_drop, h.names, List.drop_left]
  rw [hlen]
  refine ⟨hnames, fun n v hv => h.values n v (Bindings.lookup_of_drop hv ?_), h.others⟩
  rw [List.map_take, h.names, List.take_left]
  intro hn
  have hs : n ∉ (vars.drop new.length).map Prod.fst := hnames ▸ hnew n hn
  simp [Bindings.lookup_eq_none hs] at hv

end Agree

end Agree

/-! ## Steps that go alike -/

section Sim

variable {A B V W ε α β : Type} {R R' R'' : A → B → Prop}

theorem Steps.bind_apply (x : Steps A V W ε α) (f : α → Steps A V W ε β) (s : RunState A V W) :
    (x >>= f) s = match x s with
      | .ok u s' => f u s'
      | .error o s' => .error o s' := by
  simp only [Bind.bind, EStateM.bind]
  cases x s <;> rfl

theorem Steps.declare_blank (X : Variables A V) (v : V) :
    (Steps.declare X "_" v : Steps A V W ε Unit) = pure () := rfl

theorem Steps.declare_apply (X : Variables A V) {name : String} (hb : name ≠ "_") (v : V)
    (s : RunState A V W) :
    (Steps.declare X name v : Steps A V W ε Unit) s =
      .ok () { s with vars := X.declare name v s.vars } := by
  unfold Steps.declare
  rw [if_neg hb]
  rfl

/-- From variables that are related by `R`, one world and one trace, two lists of steps end alike :
with one result, one world and one trace, and with variables that are related by `R'` if they are
not left. -/
def Sim (R : A → B → Prop) (x : Steps A V W ε α) (y : Steps B V W ε α) (R' : A → B → Prop) : Prop :=
  ∀ a b w trace, R a b →
    (∃ u a' b' w' trace', x ⟨a, w, trace⟩ = .ok u ⟨a', w', trace'⟩ ∧
      y ⟨b, w, trace⟩ = .ok u ⟨b', w', trace'⟩ ∧ R' a' b') ∨
    ∃ o a' b' w' trace', x ⟨a, w, trace⟩ = .error o ⟨a', w', trace'⟩ ∧
      y ⟨b, w, trace⟩ = .error o ⟨b', w', trace'⟩

namespace Sim

theorem of_pure (u : α) (h : ∀ a b, R a b → R' a b) :
    Sim R (pure u : Steps A V W ε α) (pure u) R' :=
  fun a b w trace hr => Or.inl ⟨u, a, b, w, trace, rfl, rfl, h a b hr⟩

theorem bind {x : Steps A V W ε α} {y : Steps B V W ε α} {f : α → Steps A V W ε β}
    {g : α → Steps B V W ε β} (hx : Sim R x y R') (hf : ∀ u, Sim R' (f u) (g u) R'') :
    Sim R (x >>= f) (y >>= g) R'' := by
  intro a b w trace hr
  rcases hx a b w trace hr with ⟨u, a', b', w', trace', ha, hb, hr'⟩ |
    ⟨o, a', b', w', trace', ha, hb⟩
  · rw [bind_apply, bind_apply, ha, hb]
    exact hf u a' b' w' trace' hr'
  · rw [bind_apply, bind_apply, ha, hb]
    exact Or.inr ⟨o, a', b', w', trace', rfl, rfl⟩

theorem map {x : Steps A V W ε α} {y : Steps B V W ε α} (f : α → β) (hx : Sim R x y R') :
    Sim R (f <$> x) (f <$> y) R' := by
  rw [← bind_pure_comp, ← bind_pure_comp]
  exact hx.bind fun u => of_pure (f u) fun _ _ h => h

theorem mono {Q Q' : A → B → Prop} {x : Steps A V W ε α} {y : Steps B V W ε α} (hx : Sim R x y R')
    (hpre : ∀ a b, Q a b → R a b) (hpost : ∀ a b, R' a b → Q' a b) : Sim Q x y Q' := by
  intro a b w trace hr
  rcases hx a b w trace (hpre a b hr) with ⟨u, a', b', w', trace', ha, hb, hr'⟩ | herror
  · exact Or.inl ⟨u, a', b', w', trace', ha, hb, hpost a' b' hr'⟩
  · exact Or.inr herror

theorem of_perform (x : EStateM ε W α) :
    Sim R (perform x : Steps A V W ε α) (perform x : Steps B V W ε α) R := by
  intro a b w trace hr
  unfold perform
  cases hx : x w with
  | ok u w' => exact Or.inl ⟨u, a, b, w', trace, rfl, rfl, hr⟩
  | error e w' => exact Or.inr ⟨.failed e, a, b, w', trace, rfl, rfl⟩

theorem of_note (v : V) : Sim R (note v : Steps A V W ε V) (note v : Steps B V W ε V) R :=
  fun a b w trace hr => Or.inl ⟨v, a, b, w, .value v :: trace, rfl, rfl, hr⟩

theorem of_leave (o : Outcome V ε) :
    Sim R (leave o : Steps A V W ε α) (leave o : Steps B V W ε α) R' :=
  fun a b w trace _ => Or.inr ⟨o, a, b, w, trace, rfl, rfl⟩

theorem of_decide (I : Interpretation V W ε) (v : V) :
    Sim R (decide I v : Steps A V W ε Bool) (decide I v : Steps B V W ε Bool) R :=
  (of_perform (I.truth v)).bind fun d a b w trace hr =>
    Or.inl ⟨d, a, b, w, .decision d :: trace, rfl, rfl, hr⟩

/-- An interpreted step whose value is noted. -/
theorem perform_note (x : EStateM ε W V) :
    Sim R (do note (← perform x) : Steps A V W ε V) (do note (← perform x) : Steps B V W ε V) R :=
  (of_perform x).bind of_note

/-- The loops go alike if their tests and rounds do. -/
theorem of_rounds {test : Steps A V W ε Bool} {test' : Steps B V W ε Bool}
    {round : Steps A V W ε Unit} {round' : Steps B V W ε Unit} (ht : Sim R test test' R)
    (hr : Sim R round round' R) (n : Nat) :
    Sim R (rounds test round n) (rounds test' round' n) R := by
  induction n with
  | zero => exact of_pure () fun _ _ h => h
  | succ n ih =>
    unfold rounds
    refine ht.bind fun b => ?_
    cases b with
    | true => exact hr.bind fun _ => ih
    | false => exact of_pure () fun _ _ h => h

/-- Steps that go alike give one outcome. -/
theorem outcome_eq {x : Steps A V W ε Unit} {y : Steps B V W ε Unit} (h : Sim R x y R') {a : A}
    {b : B} (hr : R a b) (w : W) : x.outcome a w = y.outcome b w := by
  unfold Steps.outcome
  rcases h a b w [] hr with ⟨u, a', b', w', trace', ha, hb, -⟩ | ⟨o, a', b', w', trace', ha, hb⟩ <;>
    rw [ha, hb]

end Sim

end Sim

/-! ## Names -/

section Names

variable {V W ε : Type} {I : Interpretation V W ε} {locals scope : List String}
  {R R' : Bindings V → NameStore V → Prop}

/-- Under `R` the bindings and the store have the same values for the names that are resolved, and
the bindings have none but for locals. -/
structure SeesAlike (locals scope : List String) (R : Bindings V → NameStore V → Prop) : Prop where
  get_eq : ∀ {vars store name}, R vars store → Resolved locals scope name →
    vars.lookup name = store name
  get_none : ∀ {vars store name}, R vars store → name ∉ locals → vars.lookup name = none

theorem Agree.seesAlike (hsub : scope ⊆ locals) :
    SeesAlike locals scope (Agree (V := V) locals scope) :=
  ⟨fun h hn => h.get_eq hsub hn, fun h hn => h.get_none hsub hn⟩

theorem SeesAlike.mono (hR : SeesAlike locals scope R)
    (h : ∀ vars store, R' vars store → R vars store) : SeesAlike locals scope R' :=
  ⟨fun hr hn => hR.get_eq (h _ _ hr) hn, fun hr hn => hR.get_none (h _ _ hr) hn⟩

/-- A look at a variable that does not exist. -/
theorem Sim.of_variable_none {α : Type} {name : String}
    {f : Option V → Steps (Bindings V) V W ε α} {y : Steps (NameStore V) V W ε α}
    (hR : SeesAlike locals scope R) (hn : name ∉ locals) (hf : Sim R (f none) y R') :
    Sim R (valueOf? lexical name >>= f) y R' := by
  intro vars store w trace hr
  have hv : (valueOf? lexical name >>= f) ⟨vars, w, trace⟩ = f none ⟨vars, w, trace⟩ := by
    show f (vars.lookup name) ⟨vars, w, trace⟩ = f none ⟨vars, w, trace⟩
    rw [hR.get_none hr hn]
  rw [hv]
  exact hf vars store w trace hr

theorem Sim.of_store_none {α : Type} {name : String} {x : Steps (Bindings V) V W ε α}
    {g : Option V → Steps (NameStore V) V W ε α}
    (h : ∀ vars store, R vars store → store name = none) (hg : Sim R x (g none) R') :
    Sim R x (valueOf? flat name >>= g) R' := by
  intro vars store w trace hr
  have hv : (valueOf? flat name >>= g) ⟨store, w, trace⟩ = g none ⟨store, w, trace⟩ := by
    show g (store name) ⟨store, w, trace⟩ = g none ⟨store, w, trace⟩
    rw [h vars store hr]
  rw [hv]
  exact hg vars store w trace hr

theorem Sim.of_variable (hR : SeesAlike locals scope R) {name : String}
    (hn : Resolved locals scope name) :
    Sim R (valueOf? lexical name : Steps (Bindings V) V W ε (Option V)) (valueOf? flat name) R := by
  intro vars store w trace hr
  refine Or.inl ⟨vars.lookup name, vars, store, w, trace, rfl, ?_, hr⟩
  rw [hR.get_eq hr hn]
  rfl

theorem Sim.of_lookUp (hR : SeesAlike locals scope R) {name : String}
    (hn : Resolved locals scope name) : Sim R (lookUp I lexical name) (lookUp I flat name) R := by
  unfold lookUp
  refine (Sim.of_variable hR hn).bind fun o => ?_
  cases o with
  | none => exact Sim.of_perform _
  | some v => exact Sim.of_pure v fun _ _ h => h

theorem Sim.of_assign (hsub : scope ⊆ locals) {name : String} (hn : Resolved locals scope name)
    (v : V) :
    Sim (Agree locals scope) (assign I lexical name v) (assign I flat name v)
      (Agree locals scope) := by
  unfold assign
  by_cases hb : name = "_"
  · rw [if_pos hb, if_pos hb]
    exact Sim.of_pure () fun _ _ h => h
  · rw [if_neg hb, if_neg hb]
    rcases hn with hs | hl
    · refine (Sim.of_variable (Agree.seesAlike hsub) (Or.inl hs)).bind fun o => ?_
      cases o with
      | none => exact Sim.of_perform _
      | some u =>
        intro vars store w trace hr
        exact Or.inl ⟨(), _, _, w, trace, rfl, rfl, hr.set hsub hs v⟩
    · exact Sim.of_variable_none (Agree.seesAlike hsub) hl
        (Sim.of_store_none (fun vars store hr => hr.others name hl) (Sim.of_perform _))

/-- A declaration of a name that is not visible. -/
theorem Sim.of_declare {name : String}
    (hn : ∀ n ∈ [name].filter (· != "_"), n ∈ locals ∧ n ∉ scope) (v : V) :
    Sim (Agree locals scope) (Steps.declare lexical name v : Steps (Bindings V) V W ε Unit)
      (Steps.declare flat name v) (Agree locals ([name].filter (· != "_") ++ scope)) := by
  by_cases hb : name = "_"
  · subst hb
    rw [declare_blank, declare_blank]
    exact Sim.of_pure () fun _ _ h => h
  · intro vars store w trace hr
    have hfilter : [name].filter (· != "_") = [name] := by simp [hb]
    rw [hfilter] at hn ⊢
    obtain ⟨hl, hs⟩ := hn name (by simp)
    exact Or.inl ⟨(), (name, v) :: vars, store.set name v, w, trace, declare_apply _ hb v _,
      declare_apply _ hb v _, (hr.setStore hs hl v).bind (by simp [NameStore.set])⟩

end Names

end PathTree
