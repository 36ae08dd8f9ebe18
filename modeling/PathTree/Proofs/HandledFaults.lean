import PathTree.Proofs.SeparableConditions

/-!
# Faults that are handled

Evaluating a sign in front of a text is the one fault that no caller handles. It comes from a
literal whose text has the sign, and from nowhere else : an expression whose literals are all
handled fails for handled reasons (`Expr.isFatal_constant`), and putting handled values in place of
the variables leaves it so (`Env.Handled.bind`). So where no text has a sign, conditions hold or do
not in every environment of such values (`Env.Handled.exists_holds`), and all literals of conditions
are looked at (`Mentioned.exists_ofConds_of_handled`). Candidates have values, so they are handled.
-/

namespace PathTree

/-! ## Literals -/

namespace Literal

/-- No sign stands in front of the text of a literal, if it is one. -/
def Unsigned (l : Literal) : Prop := l.kind = .string → l.text.toList.head? ≠ some '-'

/-- A literal has a value, or has none for a reason that is handled. -/
def Handled (l : Literal) : Prop := ∀ f, l.value = .error f → f.isFatal = false

theorem handled_of_value {l : Literal} {v : Value} (h : l.value = .ok v) : l.Handled := by
  intro f hf
  rw [h] at hf
  cases hf

theorem head?_of_cutMinus {cs rest : List Char} (h : cutMinus cs = (true, rest)) :
    cs.head? = some '-' := by
  unfold cutMinus at h
  split at h
  · rfl
  · cases h

/-- A sign can be taken into a number. -/
theorem exists_negated {kind : LitKind} (hkind : kind ≠ .string) {cs : List Char} {v : Value}
    (h : read? kind cs = some v) : ∃ w, negated v = .ok w := by
  cases kind with
  | int | float | char =>
    obtain ⟨_, -, rfl⟩ := Option.map_eq_some_iff.mp h
    exact ⟨_, rfl⟩
  | string => exact absurd rfl hkind
  | bool | nil | invalid => cases h

/-- A literal that is no text with a sign in front of it is handled. -/
theorem Unsigned.handled {l : Literal} (h : l.Unsigned) : l.Handled := by
  obtain ⟨kind, text⟩ := l
  have hread (hkind : kind ∈ [LitKind.int, .float, .char, .string]) :
      Handled ⟨kind, text⟩ := by
    rcases hcut : cutMinus text.toList with ⟨negative, cs⟩
    intro f hf
    cases hv : read? kind cs with
    | none =>
      rw [value_of_read?_none hkind hcut hv] at hf
      cases hf
      rfl
    | some v =>
      rw [value_of_read? hkind hcut hv] at hf
      cases negative with
      | false => cases hf
      | true =>
        have hkind : kind ≠ .string := fun hs => h hs (head?_of_cutMinus hcut)
        obtain ⟨w, hw⟩ := exists_negated hkind hv
        rw [if_pos rfl, hw] at hf
        cases hf
  cases kind with
  | int | float | char | string => exact hread (by decide)
  | bool =>
    intro f hf
    simp only [value] at hf
    split at hf <;> cases hf
    rfl
  | nil | invalid =>
    intro f hf
    cases hf
    rfl

end Literal

/-! ## Constant expressions -/

namespace Value

theorem isFatal_unary {op : UnaryOp} {v : Value} {f : Fault} (h : unary op v = .error f) :
    f.isFatal = false := by
  unfold unary at h
  split at h <;> cases h
  rfl

theorem isFatal_rational {op : BinaryOp} {v w : Value} {a b : Rat} {f : Fault}
    (h : rational op v w a b = .error f) : f.isFatal = false := by
  cases op <;> simp only [rational] at h <;> (try split at h) <;> cases h <;> rfl

theorem isFatal_integer {op : BinaryOp} {a b : Int} {f : Fault}
    (h : integer op a b = .error f) : f.isFatal = false := by
  cases op <;> simp only [integer] at h <;> (try split at h) <;> cases h <;> rfl

theorem isFatal_comparison {op : BinaryOp} {v w : Value} {f : Fault}
    (h : comparison op v w = .error f) : f.isFatal = false := by
  unfold comparison at h
  split at h <;> split at h <;> cases h <;> rfl

theorem isFatal_binary {op : BinaryOp} {v w : Value} {f : Fault} (h : binary op v w = .error f) :
    f.isFatal = false := by
  unfold binary at h
  split at h
  · split at h <;> cases h
    rfl
  · split at h
    · exact isFatal_comparison h
    · split at h
      · split at h <;> cases h
        rfl
      · exact isFatal_integer h
      · exact isFatal_rational h
      · exact isFatal_rational h
      · exact isFatal_rational h
      · cases h
        rfl

end Value

/-- All literals of an expression are handled. -/
def Expr.Handled (x : Expr) : Prop := ∀ l ∈ Mentioned.literals x, l.Handled

section Handled

variable {x y : Expr} {op : BinaryOp}

@[simp] theorem Expr.handled_lit {l : Literal} : (lit l).Handled ↔ l.Handled := by
  simp [Handled]

@[simp] theorem Expr.handled_paren : (paren x).Handled ↔ x.Handled := by
  simp [Handled]

@[simp] theorem Expr.handled_cast {type : String} : (cast type x).Handled ↔ x.Handled := by
  simp [Handled]

@[simp] theorem Expr.handled_pre {op : UnaryOp} : (pre op x).Handled ↔ x.Handled := by
  simp [Handled]

@[simp] theorem Expr.handled_binary : (binary op x y).Handled ↔ x.Handled ∧ y.Handled := by
  simp [Handled, or_imp, forall_and]

/-- An expression of handled literals fails for handled reasons. -/
theorem Expr.isFatal_constant (hx : x.Handled) {f : Fault} (h : x.constant = .error f) :
    f.isFatal = false := by
  fun_induction Expr.constant x generalizing f with
  | case1 l => exact handled_lit.mp hx f h
  | case2 x ih => exact ih (handled_paren.mp hx) h
  | case3 op x ih =>
    rcases bind_eq_error.mp h with h | ⟨v, -, h⟩
    · exact ih (handled_pre.mp hx) h
    · exact Value.isFatal_unary h
  | case4 op x y ihx ihy =>
    obtain ⟨hx, hy⟩ := handled_binary.mp hx
    rcases bind_eq_error.mp h with h | ⟨v, -, h⟩
    · exact ihx hx h
    · rcases bind_eq_error.mp h with h | ⟨w, -, h⟩
      · exact ihy hy h
      · exact Value.isFatal_binary h
  | case5 =>
    cases h
    rfl

end Handled

/-! ## Conditions -/

namespace Env

/-- All values of an environment are handled. -/
def Handled (env : Env) : Prop := ∀ key l, env.get? key = some l → l.Handled

variable {env : Env} {x y : Expr} {f : Fault}

theorem isFatal_value {key : String} (h : env.value key = .error f) : f.isFatal = false := by
  unfold value at h
  split at h <;> cases h
  rfl

theorem isFatal_bind (h : env.bind x = .error f) : f.isFatal = false := by
  fun_induction Env.bind env x generalizing f with
  | case1 => cases h
  | case2 | case3 | case4 => exact isFatal_value h
  | case5 x ih | case6 _ x ih => exact ih h
  | case7 op x ih =>
    rcases bind_eq_error.mp h with h | ⟨_, -, h⟩
    · exact ih h
    · cases h
  | case8 op x y ihx ihy =>
    rcases bind_eq_error.mp h with h | ⟨_, -, h⟩
    · exact ihx h
    · rcases bind_eq_error.mp h with h | ⟨_, -, h⟩
      · exact ihy h
      · cases h
  | case9 =>
    cases h
    rfl

theorem Handled.value (henv : env.Handled) {key : String} (h : env.value key = .ok x) :
    x.Handled := by
  obtain ⟨l, hl, rfl⟩ := value_eq_ok.mp h
  exact Expr.handled_lit.mpr (henv key l hl)

/-- Putting handled values in place of the variables leaves an expression handled. -/
theorem Handled.bind (henv : env.Handled) (hx : x.Handled) (h : env.bind x = .ok y) :
    y.Handled := by
  fun_induction Env.bind env x generalizing y with
  | case1 l =>
    cases h
    exact hx
  | case2 | case3 | case4 => exact henv.value h
  | case5 x ih => exact ih (Expr.handled_paren.mp hx) h
  | case6 _ x ih => exact ih (Expr.handled_cast.mp hx) h
  | case7 op x ih =>
    obtain ⟨x', hx', h⟩ := bind_eq_ok.mp h
    cases h
    exact Expr.handled_pre.mpr (ih (Expr.handled_pre.mp hx) hx')
  | case8 op x y ihx ihy =>
    obtain ⟨hx, hy⟩ := Expr.handled_binary.mp hx
    obtain ⟨x', hx', h⟩ := bind_eq_ok.mp h
    obtain ⟨y', hy', h⟩ := bind_eq_ok.mp h
    cases h
    exact Expr.handled_binary.mpr ⟨ihx hx hx', ihy hy hy'⟩
  | case9 => cases h

/-- A condition fails for a handled reason, where it and the values of its variables are handled. -/
theorem Handled.isFatal_eval (henv : env.Handled) (hx : x.Handled) (h : env.eval x = .error f) :
    f.isFatal = false := by
  rcases bind_eq_error.mp h with h | ⟨y, hy, h⟩
  · exact isFatal_bind h
  · exact Expr.isFatal_constant (henv.bind hx hy) h

/-- Conditions hold or do not, where they and the values of their variables are handled. -/
theorem Handled.exists_holds (henv : env.Handled) {conds : List Expr}
    (hconds : ∀ c ∈ conds, c.Handled) : ∃ t, env.holds conds = .ok t := by
  induction conds with
  | nil => exact ⟨true, rfl⟩
  | cons c conds ih =>
    obtain ⟨hc, hconds⟩ := List.forall_mem_cons.mp hconds
    unfold holds
    split
    · exact ih hconds
    · exact ⟨false, rfl⟩
    · next f hf => exact ⟨false, if_neg (by rw [henv.isFatal_eval hc hf]; decide)⟩

end Env

/-! ## Mentioned literals and candidates -/

theorem Mentioned.exists_add {m : Mentioned} {l : Literal} (h : l.Handled) :
    ∃ m', m.add l = .ok m' := by
  unfold add
  split
  · exact ⟨_, rfl⟩
  · exact ⟨_, rfl⟩
  · exact ⟨_, rfl⟩
  · next f hf => exact ⟨m, if_neg (by rw [h f hf]; decide)⟩

/-- All literals of handled conditions are looked at. -/
theorem Mentioned.exists_ofConds_of_handled {conds : List Expr} (h : ∀ c ∈ conds, c.Handled) :
    ∃ m, ofConds conds = .ok m := by
  have hls : ∀ l ∈ conds.flatMap literals, l.Handled := by
    intro l hl
    obtain ⟨c, hc, hl⟩ := List.mem_flatMap.mp hl
    exact h c hc l hl
  unfold ofConds
  generalize ({} : Mentioned) = m, conds.flatMap literals = ls at hls
  induction ls generalizing m with
  | nil => exact ⟨m, rfl⟩
  | cons l ls ih =>
    obtain ⟨hl, hls⟩ := List.forall_mem_cons.mp hls
    obtain ⟨m', hm'⟩ := exists_add (m := m) hl
    obtain ⟨m'', hm''⟩ := ih m' hls
    exact ⟨m'', bind_eq_ok.mpr ⟨m', hm', hm''⟩⟩

/-- Every candidate has a value. -/
theorem handled_of_mem_candidates {radius : Int} {m : Mentioned} {s : ValueSort} {l : Literal}
    (h : l ∈ candidates radius m s) : l.Handled := by
  cases s with
  | bool => rcases List.mem_pair.mp h with rfl | rfl <;> exact Literal.handled_of_value rfl
  | string =>
    obtain ⟨t, -, rfl⟩ := List.mem_map.mp h
    exact Literal.handled_of_value (Literal.value_quote t)
  | int | unknown =>
    obtain ⟨n, -, rfl⟩ := List.mem_map.mp h
    exact Literal.handled_of_value (Literal.value_ofInt n)

end PathTree
