import PathTree.Proofs.Record

/-!
# The normal form of laid out paths

A list is normal (`Stmt.isNormalList`) if it is simple statements with at most one structural
statement behind them : one that leaves the function, with nothing but simple statements after it,
or a branch on a single test at the end, whose arms are missing or blocks of normal lists. Arms are
named by the outcomes of the tests that lead to them, and some of them may be exempt.

`Laid.isNormalList_body` : what a walk lays out is normal but for the arms that it left as they
stood, and those are arms whose query was answered unsatisfiable. With no exempt arm a normal list
has no loop at any depth (`Stmt.isLoop_of_isNormalList`).
-/

namespace PathTree

namespace Stmt

mutual
/-- Whether a structural statement with `behind` behind it may end a list in the arm `here`. -/
def isNormalEnd (exempt : List Bool → Bool) (here : List Bool) (behind : List Stmt) : Stmt → Bool
  | .branch c yes no =>
    behind.isEmpty && !c.isCompound && isNormalArm exempt (here ++ [true]) yes &&
      isNormalArm exempt (here ++ [false]) no
  | .ret _ => behind.all isSimple
  | .throw _ => behind.all isSimple
  | _ => false

/-- Whether a list that stands in the arm `here` is normal, where `exempt` names the arms that may
hold anything. -/
def isNormalList (exempt : List Bool → Bool) (here : List Bool) : List Stmt → Bool
  | [] => true
  | s :: rest =>
    if s.isSimple then isNormalList exempt here rest else isNormalEnd exempt here rest s

/-- Whether a statement in place of the arm `here` is a block of a normal list. -/
def isNormalBlock (exempt : List Bool → Bool) (here : List Bool) : Stmt → Bool
  | .block list => exempt here || isNormalList exempt here list
  | _ => false

/-- Whether the arm `here` is missing or a block of a normal list. -/
def isNormalArm (exempt : List Bool → Bool) (here : List Bool) : Option Stmt → Bool
  | none => true
  | some s => isNormalBlock exempt here s
end

variable {exempt : List Bool → Bool} {here : List Bool}

theorem isNormalList_cons {s : Stmt} (hs : s.isSimple) (rest : List Stmt) :
    isNormalList exempt here (s :: rest) = isNormalList exempt here rest := by
  rw [isNormalList, if_pos hs]

/-- Simple statements in front do not matter. -/
theorem isNormalList_append {before : List Stmt} (hb : ∀ t ∈ before, t.isSimple)
    (l : List Stmt) : isNormalList exempt here (before ++ l) = isNormalList exempt here l := by
  induction before with
  | nil => rfl
  | cons s before ih =>
    rw [List.cons_append, isNormalList_cons (hb s (by simp)),
      ih fun t ht => hb t (List.mem_cons_of_mem _ ht)]

theorem isNormalList_of_straight {l : List Stmt} (h : Straight l) :
    isNormalList exempt here l := by
  rcases h with h | @⟨before, after, s, hb, hs, ha⟩
  · rw [← List.append_nil l, isNormalList_append h]
    rfl
  · rw [isNormalList_append hb]
    cases s <;> simp_all [isNormalList, isNormalEnd, isSimple, isTerminal]

/-! ## Loops -/

theorem isLoop_of_isSimple {s : Stmt} (h : s.isSimple) : s.isLoop = false := by
  cases s <;> simp_all [isSimple, isLoop]

/-- A statement without parts is all that a walk from it meets. -/
theorem walk_of_isSimple {s : Stmt} (h : s.isSimple) (enter : Stmt → Bool) :
    walk enter s = [s] := by
  cases s <;> simp_all [isSimple, walk]

theorem isLoop_of_mem_walkList_simple {l : List Stmt} (h : ∀ s ∈ l, s.isSimple)
    {enter : Stmt → Bool} {t : Stmt} (ht : t ∈ walkList enter l) : t.isLoop = false := by
  induction l with
  | nil => simp [walkList] at ht
  | cons s rest ih =>
    rw [walkList, walk_of_isSimple (h s (by simp))] at ht
    rcases List.mem_append.mp ht with ht | ht
    · rw [List.mem_singleton.mp ht]
      exact isLoop_of_isSimple (h s (by simp))
    · exact ih (fun u hu => h u (List.mem_cons_of_mem _ hu)) ht

/-- A structural statement of a normal list is a branch at the end or leaves the function. -/
theorem isNormalList_structural {s : Stmt} {rest : List Stmt} (hs : s.isSimple = false)
    (h : isNormalList exempt here (s :: rest)) :
    (s.isTerminal ∧ ∀ t ∈ rest, t.isSimple) ∨
      ∃ c yes no, s = .branch c yes no ∧ rest = [] ∧
        isNormalArm exempt (here ++ [true]) yes ∧ isNormalArm exempt (here ++ [false]) no := by
  rw [isNormalList, if_neg (by simp [hs])] at h
  cases s with
  | branch c yes no =>
    simp only [isNormalEnd, Bool.and_eq_true, List.isEmpty_iff] at h
    exact Or.inr ⟨c, yes, no, rfl, h.1.1.1, h.1.2, h.2⟩
  | ret v => exact Or.inl ⟨rfl, by simpa [isNormalEnd] using h⟩
  | throw v => exact Or.inl ⟨rfl, by simpa [isNormalEnd] using h⟩
  | _ => simp [isNormalEnd] at h

mutual
/-- A normal list has no loop at any depth. -/
theorem isLoop_of_isNormalList (l : List Stmt) {here : List Bool}
    (h : isNormalList (fun _ => false) here l) :
    ∀ t ∈ walkList (fun _ => true) l, t.isLoop = false := by
  intro t ht
  cases l with
  | nil => simp [walkList] at ht
  | cons s rest =>
    cases hs : s.isSimple with
    | true =>
      rw [isNormalList_cons hs] at h
      rw [walkList, walk_of_isSimple hs] at ht
      rcases List.mem_append.mp ht with ht | ht
      · rw [List.mem_singleton.mp ht]
        exact isLoop_of_isSimple hs
      · exact isLoop_of_isNormalList rest h t ht
    | false =>
      rcases isNormalList_structural hs h with ⟨hleaves, hrest⟩ | ⟨c, yes, no, rfl, rfl, hy, hn⟩
      · rw [walkList] at ht
        rcases List.mem_append.mp ht with ht | ht
        · cases s <;> simp_all [isTerminal, walk, isLoop]
        · exact isLoop_of_mem_walkList_simple hrest ht
      · simp only [walkList, walk, List.append_nil, List.mem_cons, if_true, List.mem_append] at ht
        rcases ht with rfl | ht | ht
        · rfl
        · exact isLoop_of_isNormalArm yes hy t ht
        · exact isLoop_of_isNormalArm no hn t ht

theorem isLoop_of_isNormalArm (arm : Option Stmt) {here : List Bool}
    (h : isNormalArm (fun _ => false) here arm) :
    ∀ t ∈ walkArm (fun _ => true) arm, t.isLoop = false := by
  intro t ht
  cases arm with
  | none => simp [walkArm] at ht
  | some s =>
    cases s with
    | block list =>
      simp only [isNormalArm, isNormalBlock, Bool.false_or] at h
      simp only [walkArm, walk, if_true, List.mem_cons] at ht
      rcases ht with rfl | ht
      · rfl
      · exact isLoop_of_isNormalList list h t ht
    | _ => simp [isNormalArm, isNormalBlock] at h
end

end Stmt

/-! ## Walks -/

/-- Whether the query of an arm was answered unsatisfiable. -/
def Record.isUnsat (r : Record) (arm : List Bool) : Bool :=
  r.visits.any fun v => v.arm == arm && !v.answer.sat

/-- What is laid out for a list is normal, where the arms that were left as they stood are exempt. -/
theorem Laid.isNormalList_body {bound : Nat} {all : Bool} {l : List Stmt} {m : Memory}
    {r : Record} (h : Laid bound all l m r) {exempt : List Bool → Bool} {here : List Bool}
    (he : ∀ v ∈ r.visits, (v.answer.sat || all) = false → exempt (here ++ v.arm)) :
    Stmt.isNormalList exempt here r.body := by
  induction h generalizing here with
  | straight hc hs hm => exact Stmt.isNormalList_of_straight hs
  | @branch l before c test yes no m m' answer sub _ hb _ _ _ hkept _ ih =>
    have harm : ∀ b, Stmt.isNormalArm exempt (here ++ [b])
        ((Shape.arms c yes no b).map fun _ => .block (sub b).body) := by
      intro b
      cases ha : Shape.arms c yes no b with
      | none => rfl
      | some stmts =>
        simp only [Option.map_some, Stmt.isNormalArm, Stmt.isNormalBlock, Bool.or_eq_true]
        cases hv : (answer b).sat || all with
        | false =>
          exact Or.inl (he ⟨[b], [test.side b], answer b⟩
            (Record.mem_visits_branch.mpr ⟨b, Or.inl rfl⟩) hv)
        | true =>
          refine Or.inr (ih b stmts ha hv fun v hmem hunsat => ?_)
          have := he (v.after [b] [test.side b])
            (Record.mem_visits_branch.mpr ⟨b, Or.inr ⟨v, hmem, rfl⟩⟩) hunsat
          simpa [Visit.after] using this
    rw [Record.body, Stmt.isNormalList_append hb]
    simp [Stmt.isNormalList, Stmt.isSimple, Stmt.isNormalEnd, Stmt.isCompound_splitCond, harm]

/-- The paths of a function are in normal form. If unreachable arms are laid out too, the body has
no loop at any depth and is normal throughout; if not, it is normal but for the arms whose query
was answered unsatisfiable. -/
theorem Function.isNormalList_paths_body {σ : Type} {fn : Function} {solver : Solver σ}
    {e : Exploration} {s s' : Session σ} {p : Paths}
    (h : Walk.Gives (fn.paths solver e) s p s') :
    ∃ r, Walk.Gives (fn.record solver e) s r s' ∧ r.paths = p ∧
      (e.visitUnsat = true →
        (∀ t ∈ Stmt.walkList (fun _ => true) p.body, t.isLoop = false) ∧
          Stmt.isNormalList (fun _ => false) [] p.body) ∧
      (e.visitUnsat = false → Stmt.isNormalList r.isUnsat [] p.body) := by
  obtain ⟨r, hr, rfl⟩ := Function.gives_paths.mp h
  have hl := Function.laid hr
  refine ⟨r, hr, rfl, fun hall => ?_, fun hall => ?_⟩
  · have hn : Stmt.isNormalList (fun _ => false) [] r.paths.body :=
      hl.isNormalList_body fun v _ hv => by simp [hall] at hv
    exact ⟨Stmt.isLoop_of_isNormalList _ hn, hn⟩
  · refine hl.isNormalList_body fun v hv hunsat => ?_
    rw [hall, Bool.or_false] at hunsat
    exact List.any_eq_true.mpr ⟨v, hv, by simp [hunsat]⟩

theorem Function.isNormalList_paths_body_countdown :
    ∃ p s', ∃ r : Record, Walk.Gives (countdown.paths .scripted { visitUnsat := false })
        ⟨.unlimited, [.ok ⟨true, some []⟩, .ok ⟨false, none⟩, .ok ⟨true, some []⟩], #[]⟩ p s' ∧
      r.paths = p ∧ Stmt.isNormalList r.isUnsat [] p.body := by
  obtain ⟨p, s', h⟩ := Walk.exists_gives
    (x := countdown.paths .scripted { visitUnsat := false })
    (s := ⟨.unlimited, [.ok ⟨true, some []⟩, .ok ⟨false, none⟩, .ok ⟨true, some []⟩], #[]⟩)
    (by with_unfolding_all decide)
  obtain ⟨r, -, hp, -, hn⟩ := Function.isNormalList_paths_body h
  exact ⟨p, s', r, h, hp, hn rfl⟩

end PathTree
