import PathTree.Solver.Bounded

/-!
# Waiting for a search

A caller may lose patience while a bounded search goes on. `Patience.Yields` : the search gives what
it gives a caller who waits for ever, or it fails and the caller is no longer willing to wait.
-/

namespace PathTree

/-! ## What is left of patience -/

/-- What may be left of a caller's patience after a while. -/
inductive Patience.Leaves : Patience → Patience → Prop
  | unlimited : Leaves .unlimited .unlimited
  | times {n k : Nat} {why : Withdrawal} (h : k ≤ n) : Leaves (.times n why) (.times k why)

namespace Patience

variable {p p' p'' : Patience}

theorem Leaves.refl (p : Patience) : p.Leaves p := by
  cases p with
  | unlimited => exact .unlimited
  | times n why => exact .times (Nat.le_refl n)

theorem Leaves.trans (h : p.Leaves p') (h' : p'.Leaves p'') : p.Leaves p'' := by
  cases h with
  | unlimited => exact h'
  | times h =>
    cases h' with
    | times h' => exact .times (Nat.le_trans h' h)

/-- A result is the whole one, or the caller was not willing to wait for it. -/
def Yields {α : Type} (p : Patience) (r : Except Fault α × Patience) (whole : Except Fault α) :
    Prop :=
  p.Leaves r.2 ∧ (r.1 = whole ∨ ∃ why : Withdrawal, r = (.error why.fault, .times 0 why))

theorem ask_yields (p : Patience) : p.Yields p.ask (.ok ()) := by
  cases p with
  | unlimited => exact ⟨.unlimited, Or.inl rfl⟩
  | times n why =>
    cases n with
    | zero => exact ⟨.times (Nat.le_refl 0), Or.inr ⟨why, rfl⟩⟩
    | succ n => exact ⟨.times (Nat.le_succ n), Or.inl rfl⟩

end Patience

/-! ## Searches -/

/-- A caller who waits for ever is willing whenever he is asked. -/
theorem ask_unlimited (tried : Nat) :
    (if tried % patienceInterval = 0 then Patience.unlimited.ask else (.ok (), .unlimited)) =
      (.ok (), .unlimited) := by
  split <;> rfl

theorem tryCombinations_yields {α : Type} (good : List α → Except Fault Bool)
    (budget tried : Nat) (wheels : List (Wheel α)) (p : Patience) :
    p.Yields (tryCombinations good budget tried wheels p)
      (tryCombinations good budget tried wheels .unlimited).1 := by
  induction budget generalizing tried wheels p with
  | zero => exact ⟨.refl p, Or.inl rfl⟩
  | succ budget ih =>
    have hask : p.Yields (if tried % patienceInterval = 0 then p.ask else (.ok (), p)) (.ok ()) := by
      split
      · exact p.ask_yields
      · exact ⟨.refl p, Or.inl rfl⟩
    simp only [tryCombinations, ask_unlimited]
    generalize (if tried % patienceInterval = 0 then p.ask else (.ok (), p)) = asked at hask ⊢
    obtain ⟨hp, h | ⟨why, rfl⟩⟩ := hask
    · obtain ⟨go, p₁⟩ := asked
      cases h
      dsimp only
      cases good (Wheel.shown wheels) with
      | error f => exact ⟨hp, Or.inl rfl⟩
      | ok found =>
        cases found with
        | true => exact ⟨hp, Or.inl rfl⟩
        | false =>
          cases Wheel.turn wheels with
          | none => exact ⟨hp, Or.inl rfl⟩
          | some wheels =>
            obtain ⟨hp', h⟩ := ih (tried + 1) wheels p₁
            exact ⟨hp.trans hp', h⟩
    · exact ⟨hp, Or.inr ⟨why, rfl⟩⟩

/-- A search gives what it gives with unlimited patience, or the caller was not willing to wait. -/
theorem Bounds.search_yields (b : Bounds) (q : Query) (p : Patience) :
    p.Yields (b.search q p) (b.search q .unlimited).1 := by
  have hask := p.ask_yields
  unfold Bounds.search
  generalize p.ask = asked at hask ⊢
  obtain ⟨hp, h | ⟨why, rfl⟩⟩ := hask
  · obtain ⟨go, p₁⟩ := asked
    cases h
    dsimp only [Patience.ask]
    cases b.plan q with
    | error f => exact ⟨hp, Or.inl rfl⟩
    | ok plan =>
      obtain ⟨vars, domains⟩ := plan
      have htry := tryCombinations_yields (fun values => (combinationEnv vars values).holds q.conds)
        b.maxCandidates.toNat 0 (domains.map Wheel.start) p₁
      dsimp only at htry ⊢
      generalize tryCombinations _ b.maxCandidates.toNat 0 (domains.map Wheel.start) p₁ = tried,
        tryCombinations _ b.maxCandidates.toNat 0 (domains.map Wheel.start) .unlimited = whole
        at htry ⊢
      obtain ⟨hp', h | ⟨why, rfl⟩⟩ := htry
      · obtain ⟨found, p₂⟩ := tried
        obtain ⟨found', p₃⟩ := whole
        cases h
        rcases found with f | _ | values <;> exact ⟨hp.trans hp', Or.inl rfl⟩
      · exact ⟨hp.trans hp', Or.inr ⟨why, rfl⟩⟩
  · exact ⟨hp, Or.inr ⟨why, rfl⟩⟩

/-- Unlimited patience stays unlimited. -/
theorem Bounds.search_unlimited (b : Bounds) (q : Query) :
    (b.search q .unlimited).2 = .unlimited := by
  have hleaves := (b.search_yields q .unlimited).1
  generalize (b.search q .unlimited).2 = p at hleaves
  cases hleaves
  rfl

/-- What a search gives does not depend on the patience of the caller, if it gives something. -/
theorem Bounds.search_of_patience {b : Bounds} {q : Query} {p : Patience} {a : Answer}
    (h : (b.search q p).1 = .ok a) : (b.search q .unlimited).1 = .ok a := by
  rcases (b.search_yields q p).2 with hwhole | ⟨why, hr⟩
  · rw [← hwhole, h]
  · rw [hr] at h
    cases h

end PathTree
