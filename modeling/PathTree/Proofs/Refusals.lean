import PathTree.Proofs.HandledFaults
import PathTree.Proofs.Lockstep
import PathTree.Proofs.Termination

/-!
# What is refused

A list has a canonical form if its loops can be unrolled and if only branches and loops are followed
by structural statements (`Stmt.exists_canonicalize_iff`). Unrolling keeps which statements are
structural and which of them something may follow (`Stmt.map_goesOn_expand`), so the condition on the
list as it is written is the one that joining the tails needs.

Two faults are there for statements that no canonical list has (`Fault.isMisplaced`). They do not
arise. Bringing a list into canonical form and running its statements fail for other reasons, and
behind that a walk meets only what the shape of a canonical list allows, in the arms too
(`Walker.failsOnly_record`). `Function.paths_refused` says both for whole functions.
-/

namespace PathTree

namespace Stmt

/-! ## Lists that have a canonical form -/

/-- A loop can be unrolled if it runs one statement at most behind each round, and nothing, a
declaration or an expression before the first one. -/
def Unrollable : Stmt → Prop
  | .forLoop init _ step _ => step.length ≤ 1 ∧ ∀ s ∈ init, s.isSimple
  | _ => True

/-- Branches and loops : a structural statement may follow them. -/
def goesOn : Stmt → Bool
  | .branch .. | .whileLoop .. | .forLoop .. => true
  | _ => false

/-- The structural statements of a list. -/
def structural (l : List Stmt) : List Stmt := l.filter fun s => !s.isSimple

variable {b : Nat} {l out : List Stmt}

@[simp] theorem structural_append (l l' : List Stmt) :
    structural (l ++ l') = structural l ++ structural l' := List.filter_append ..

theorem structural_cons_of_isSimple {s : Stmt} (h : s.isSimple) (l : List Stmt) :
    structural (s :: l) = structural l := by
  simp [structural, h]

theorem structural_cons_of_not {s : Stmt} (h : s.isSimple = false) (l : List Stmt) :
    structural (s :: l) = s :: structural l := by
  simp [structural, h]

theorem structural_eq_nil_iff : structural l = [] ↔ ∀ s ∈ l, s.isSimple := by
  simp [structural]

theorem exists_loopInit_iff {init : Option Stmt} :
    (∃ first, loopInit init = .ok first) ↔ ∀ s ∈ init, s.isSimple := by
  cases init with
  | none => simp [loopInit]
  | some s => by_cases hs : s.isSimple <;> simp [loopInit, hs]

theorem goesOn_unroll (c : Expr) (body : List Stmt) (n : Nat) : (unroll c body n).goesOn := by
  fun_induction unroll c body n <;> rfl

theorem isSimple_unroll (c : Expr) (body : List Stmt) (n : Nat) :
    (unroll c body n).isSimple = false := by
  fun_induction unroll c body n <;> rfl

mutual
/-- A statement can be expanded if the loop that it is, or those directly in the block that it is,
can be unrolled. -/
theorem exists_expandOne_iff (s : Stmt) :
    (∃ out, expandOne b s = .ok out) ↔ ∀ t ∈ spliced s, t.Unrollable := by
  cases s with
  | block l =>
    simp only [expandOne, spliced]
    exact exists_expand_iff l
  | forLoop init c step body =>
    simp only [expandOne, spliced, List.mem_singleton, forall_eq, Unrollable,
      ← exists_loopInit_iff]
    split
    · next hstep => exact iff_of_false nofun fun h => absurd h.1 (by omega)
    · next hstep =>
      constructor
      · rintro ⟨out, h⟩
        obtain ⟨first, hi, -⟩ := bind_eq_ok.mp h
        exact ⟨by omega, first, hi⟩
      · rintro ⟨-, first, hi⟩
        exact ⟨_, bind_eq_ok.mpr ⟨first, hi, rfl⟩⟩
  | _ => simp [expandOne, spliced, Unrollable]

theorem exists_expand_iff (l : List Stmt) :
    (∃ out, expand b l = .ok out) ↔ ∀ t ∈ flatten l, t.Unrollable := by
  cases l with
  | nil => simp [expand, flatten]
  | cons s rest =>
    simp only [flatten, List.forall_mem_append]
    rw [← exists_expandOne_iff s, ← exists_expand_iff rest]
    constructor
    · rintro ⟨out, h⟩
      obtain ⟨first, more, h1, h2, -⟩ := expand_cons h
      exact ⟨⟨first, h1⟩, more, h2⟩
    · rintro ⟨⟨first, h1⟩, more, h2⟩
      exact ⟨first ++ more, by simp only [expand, h1, h2]; rfl⟩
end

mutual
/-- Unrolling turns loops into branches and leaves which statements are structural, and which of
them a structural statement may follow. -/
theorem map_goesOn_expandOne (s : Stmt) {out : List Stmt} (h : expandOne b s = .ok out) :
    (structural out).map goesOn = (structural (spliced s)).map goesOn := by
  rcases expandOne_cases h with ⟨l, rfl, hl⟩ | ⟨c, body, rfl, rfl⟩ |
    ⟨init, c, step, body, first, rfl, -, hi, rfl⟩ | ⟨hs, rfl⟩
  · exact map_goesOn_expand l hl
  · simp [spliced, structural_cons_of_not, isSimple_unroll, goesOn_unroll]
    rfl
  · rw [structural_append, structural_eq_nil_iff.mpr (isSimple_of_loopInit hi)]
    simp [spliced, structural_cons_of_not, isSimple_unroll, goesOn_unroll]
    rfl
  · cases s with
    | block l => cases hs
    | _ => rfl

theorem map_goesOn_expand (l : List Stmt) {out : List Stmt} (h : expand b l = .ok out) :
    (structural out).map goesOn = (structural (flatten l)).map goesOn := by
  cases l with
  | nil =>
    simp only [expand] at h
    cases h
    rfl
  | cons s rest =>
    obtain ⟨first, more, h1, h2, rfl⟩ := expand_cons h
    simp only [flatten, structural_append, List.map_append, map_goesOn_expandOne s h1,
      map_goesOn_expand rest h2]
end

/-! ## Joined tails -/

/-- If tails can be joined, the list that is left has a structural statement if there was one. -/
theorem all_isSimple_joinTails (h : joinTails l = .ok out) :
    (∀ s ∈ out, s.isSimple) ↔ structural l = [] := by
  rw [structural_eq_nil_iff]
  induction l generalizing out with
  | nil =>
    cases h
    simp
  | cons s rest ih =>
    obtain ⟨more, hr, hc⟩ := joinTails_cons h
    rcases hc with ⟨hs, rfl⟩ | ⟨hs, -, rfl⟩ | ⟨c, yes, no, rfl, rfl⟩
    · simp [hs, ih hr]
    · simp [hs]
    · simp [mergeTail, isSimple]

theorem isLoop_of_isFlat {s : Stmt} (h : s.isFlat) : s.isLoop = false := by
  cases s <;> first | rfl | cases h

/-- A statement that something may follow is a branch, once blocks are spliced and loops unrolled. -/
theorem isBranch_of_goesOn {s : Stmt} (hf : s.isFlat) (h : s.goesOn) :
    ∃ c yes no, s = .branch c yes no := by
  cases s with
  | branch c yes no => exact ⟨c, yes, no, rfl⟩
  | whileLoop | forLoop => cases hf
  | _ => cases h

/-- The tails of a list without blocks and loops can be joined if only branches are followed by
structural statements. -/
theorem exists_joinTails_iff (hl : ∀ s ∈ l, s.isFlat) :
    (∃ out, joinTails l = .ok out) ↔ ∀ s ∈ (structural l).dropLast, s.goesOn := by
  induction l with
  | nil => simp [joinTails, structural]
  | cons s rest ih =>
    obtain ⟨hs, hrest⟩ := List.forall_mem_cons.mp hl
    have ih := ih hrest
    cases hsimple : s.isSimple with
    | true =>
      rw [structural_cons_of_isSimple hsimple, ← ih]
      constructor
      · rintro ⟨out, h⟩
        obtain ⟨more, hmore, -⟩ := joinTails_cons h
        exact ⟨more, hmore⟩
      · rintro ⟨more, hmore⟩
        exact ⟨s :: more, bind_eq_ok.mpr ⟨more, hmore, if_pos hsimple⟩⟩
    | false =>
      rw [structural_cons_of_not hsimple]
      have hdrop (hne : structural rest ≠ []) : (s :: structural rest).dropLast =
          s :: (structural rest).dropLast := List.dropLast_cons_of_ne_nil hne
      constructor
      · rintro ⟨out, h⟩
        obtain ⟨more, hmore, hc⟩ := joinTails_cons h
        by_cases hne : structural rest = []
        · simp [hne]
        · rw [hdrop hne]
          refine List.forall_mem_cons.mpr ⟨?_, ih.mp ⟨more, hmore⟩⟩
          rcases hc with ⟨hs', -⟩ | ⟨-, hall, -⟩ | ⟨c, yes, no, rfl, -⟩
          · rw [hsimple] at hs'
            cases hs'
          · exact absurd ((all_isSimple_joinTails hmore).mp hall) hne
          · rfl
      · intro h
        obtain ⟨more, hmore⟩ := ih.mpr fun t ht => h t (by
          by_cases hne : structural rest = []
          · simp [hne] at ht
          · rw [hdrop hne]
            exact List.mem_cons_of_mem _ ht)
        simp only [joinTails, hmore, isLoop_of_isFlat hs, hsimple, bind, Except.bind,
          Bool.false_eq_true, ↓reduceIte]
        by_cases hall : more.all isSimple = true
        · exact ⟨s :: more, if_pos hall⟩
        · have hne : structural rest ≠ [] := fun hnil =>
            hall (List.all_eq_true.mpr ((all_isSimple_joinTails hmore).mpr hnil))
          obtain ⟨c, yes, no, rfl⟩ := isBranch_of_goesOn hs (h s (by simp [hdrop hne]))
          exact ⟨[mergeTail c yes no more], if_neg hall⟩

/-- A list has a canonical form exactly if, once its blocks are spliced, its loops can be unrolled
and only branches and loops among its structural statements are followed by another one. -/
theorem exists_canonicalize_iff (b : Nat) (l : List Stmt) :
    (∃ out, canonicalize b l = .ok out) ↔
      (∀ s ∈ flatten l, s.Unrollable) ∧ ∀ s ∈ (structural (flatten l)).dropLast, s.goesOn := by
  have hmap (l : List Stmt) : (∀ s ∈ l.dropLast, s.goesOn) ↔ ∀ t ∈ (l.map goesOn).dropLast, t := by
    simp [← List.map_dropLast]
  rw [← exists_expand_iff (b := b)]
  constructor
  · rintro ⟨out, h⟩
    obtain ⟨flat, joined, he, hj, -⟩ := canonicalize_eq_ok h
    refine ⟨⟨flat, he⟩, ?_⟩
    rw [hmap, ← map_goesOn_expand l he, ← hmap]
    exact (exists_joinTails_iff (isFlat_of_expand l he)).mp ⟨joined, hj⟩
  · rintro ⟨⟨flat, he⟩, h⟩
    rw [hmap, ← map_goesOn_expand l he, ← hmap] at h
    obtain ⟨joined, hj⟩ := (exists_joinTails_iff (isFlat_of_expand l he)).mpr h
    exact ⟨mergeLast joined, bind_eq_ok.mpr ⟨flat, he, bind_eq_ok.mpr ⟨joined, hj, rfl⟩⟩⟩

end Stmt

/-! ## Faults of statement lists -/

/-- The fault says that a statement was met that no canonical list has : a loop behind unrolling, or
one that is neither simple nor a branch and does not leave the function. -/
def Fault.isMisplaced (f : Fault) : Bool :=
  match f.root with
  | .unsupported _ detail => detail == "loop left after unrolling" || detail == "statement"
  | _ => false

theorem Fault.isMisplaced_of_isFatal {f : Fault} (h : f.isFatal) : f.isMisplaced = false := by
  unfold isFatal at h
  unfold isMisplaced
  split at h
  · next hr => rw [hr]
  · cases h

namespace Stmt

variable {b : Nat} {f : Fault}

theorem isMisplaced_loopInit {init : Option Stmt} (h : loopInit init = .error f) :
    f.isMisplaced = false := by
  cases init with
  | none => cases h
  | some s =>
    simp only [loopInit] at h
    split at h
    · cases h
    · cases h
      rfl

mutual
theorem isMisplaced_expandOne (s : Stmt) {f : Fault} (h : expandOne b s = .error f) :
    f.isMisplaced = false := by
  cases s with
  | block l =>
    simp only [expandOne] at h
    exact isMisplaced_expand l h
  | forLoop init c step body =>
    simp only [expandOne] at h
    split at h
    · cases h
      rfl
    · rcases bind_eq_error.mp h with h | ⟨first, -, h⟩
      · exact isMisplaced_loopInit h
      · cases h
  | _ =>
    simp only [expandOne] at h
    cases h

theorem isMisplaced_expand (l : List Stmt) {f : Fault} (h : expand b l = .error f) :
    f.isMisplaced = false := by
  cases l with
  | nil =>
    simp only [expand] at h
    cases h
  | cons s rest =>
    simp only [expand] at h
    rcases bind_eq_error.mp h with h | ⟨first, -, h⟩
    · exact isMisplaced_expandOne s h
    · rcases bind_eq_error.mp h with h | ⟨more, -, h⟩
      · exact isMisplaced_expand rest h
      · cases h
end

/-- In a list without loops no loop is met. -/
theorem isMisplaced_joinTails {l : List Stmt} (hl : ∀ s ∈ l, s.isFlat)
    (h : joinTails l = .error f) : f.isMisplaced = false := by
  induction l with
  | nil => cases h
  | cons s rest ih =>
    obtain ⟨hs, hrest⟩ := List.forall_mem_cons.mp hl
    rcases bind_eq_error.mp h with h | ⟨more, -, h⟩
    · exact ih hrest h
    · split at h
      · cases h
      · split at h
        · next hloop => simp [isLoop_of_isFlat hs] at hloop
        · split at h
          · cases h
          · split at h
            · cases h
            · cases h
              rfl

/-- A list without a canonical form is refused for its loops, or for what is followed by structural
statements. -/
theorem isMisplaced_canonicalize {l : List Stmt} (h : canonicalize b l = .error f) :
    f.isMisplaced = false := by
  rcases bind_eq_error.mp h with h | ⟨flat, he, h⟩
  · exact isMisplaced_expand l h
  · rcases bind_eq_error.mp h with h | ⟨joined, -, h⟩
    · exact isMisplaced_joinTails (isFlat_of_expand l he) h
    · cases h

end Stmt

/-! ## Faults of the memory -/

namespace Memory

variable {m : Memory} {f : Fault}

theorem isMisplaced_lookup {name : String} (h : m.lookup name = .error f) :
    f.isMisplaced = false := by
  unfold lookup at h
  split at h
  · cases h
  · cases h
    rfl

theorem isMisplaced_step {node x : Expr} {op : UnaryOp} (h : m.step node op x = .error f) :
    f.isMisplaced = false := by
  unfold step at h
  split at h
  · cases h
  · rcases bind_eq_error.mp h with h | ⟨v, -, h⟩
    · exact isMisplaced_lookup h
    · cases h
  · cases h
    rfl

theorem isMisplaced_substitute (x : Expr) {f : Fault} (h : m.substitute x = .error f) :
    f.isMisplaced = false := by
  cases x with
  | lit l => cases h
  | ident name => exact isMisplaced_lookup h
  | paren x => exact isMisplaced_substitute x h
  | binary op x y =>
    rcases bind_eq_error.mp h with h | ⟨l, -, h⟩
    · exact isMisplaced_substitute x h
    · rcases bind_eq_error.mp h with h | ⟨r, -, h⟩
      · exact isMisplaced_substitute y h
      · cases h
  | pre op x =>
    unfold substitute at h
    split at h
    · exact isMisplaced_step h
    · exact isMisplaced_step h
    all_goals
      cases h
      try rfl
  | post op x => exact isMisplaced_step h
  | cast | call | member | assign =>
    cases h
    rfl

theorem isMisplaced_simplify {x : Expr} (h : m.simplify x = .error f) : f.isMisplaced = false := by
  unfold simplify at h
  split at h
  · split at h
    · cases h
    · cases h
    · split at h
      · next hfatal =>
        cases h
        exact Fault.isMisplaced_of_isFatal hfatal
      · cases h
  · cases h

theorem isMisplaced_store {name : String} {x : Expr} (h : m.store name x = .error f) :
    f.isMisplaced = false := by
  rcases bind_eq_error.mp h with h | ⟨y, -, h⟩
  · exact isMisplaced_substitute x h
  · rcases bind_eq_error.mp h with h | ⟨z, -, h⟩
    · exact isMisplaced_simplify h
    · cases h

theorem isMisplaced_zeroValue {type : String} (h : zeroValue type = .error f) :
    f.isMisplaced = false := by
  unfold zeroValue at h
  split at h
  · cases h
  · split at h
    · cases h
    · split at h
      · cases h
      · split at h
        · cases h
        · cases h
          have hne (s : String) (hs : s.toList.head? ≠ some 'n') :
              "no initializer for type " ++ type ≠ s := by
            rintro rfl
            simp at hs
          simp [Fault.isMisplaced, Fault.root, hne "loop left after unrolling" (by decide),
            hne "statement" (by decide)]

theorem isMisplaced_declare {name type : String} {value : Option Expr}
    (h : m.declare name type value = .error f) : f.isMisplaced = false := by
  cases value with
  | some x => exact isMisplaced_store h
  | none =>
    rcases bind_eq_error.mp h with h | ⟨x, -, h⟩
    · exact isMisplaced_zeroValue h
    · exact isMisplaced_store h

theorem isMisplaced_update {name : String} {x : Expr} (h : m.update name x = .error f) :
    f.isMisplaced = false := by
  unfold update at h
  split at h
  · exact isMisplaced_store h
  · cases h
    rfl

theorem isMisplaced_increment {node x : Expr} (h : m.increment node x = .error f) :
    f.isMisplaced = false := by
  unfold increment at h
  split at h
  · exact isMisplaced_update h
  · cases h
    rfl

theorem isMisplaced_perform {x : Expr} (h : m.perform x = .error f) : f.isMisplaced = false := by
  unfold perform at h
  split at h
  · split at h <;> exact isMisplaced_update h
  · exact isMisplaced_increment h
  · split at h
    · exact isMisplaced_increment h
    · cases h
      rfl
  · cases h
  · cases h
    rfl

theorem isMisplaced_executeAll {l : List Stmt} (h : m.executeAll l = .error f) :
    f.isMisplaced = false := by
  induction l generalizing m with
  | nil => cases h
  | cons s l ih =>
    rcases bind_eq_error.mp h with h | ⟨m', -, h⟩
    · unfold execute at h
      split at h
      · exact isMisplaced_declare h
      · exact isMisplaced_perform h
      · cases h
    · exact ih h

mutual
theorem isMisplaced_resolve (x : Expr) {f : Fault} (h : m.resolve x = .error f) :
    f.isMisplaced = false := by
  cases x with
  | lit l => cases h
  | member x s => cases h
  | ident name => exact isMisplaced_lookup h
  | binary op x y =>
    rcases bind_eq_error.mp h with h | ⟨l, -, h⟩
    · exact isMisplaced_resolve x h
    · rcases bind_eq_error.mp h with h | ⟨r, -, h⟩
      · exact isMisplaced_resolve y h
      · cases h
  | cast type x =>
    rcases bind_eq_error.mp h with h | ⟨y, -, h⟩
    · exact isMisplaced_resolve x h
    · cases h
  | paren x =>
    rcases bind_eq_error.mp h with h | ⟨y, -, h⟩
    · exact isMisplaced_resolve x h
    · cases h
  | call g args =>
    rcases bind_eq_error.mp h with h | ⟨ys, -, h⟩
    · exact isMisplaced_resolveList args h
    · cases h
  | pre op x =>
    cases op with
    | not | neg | plus =>
      rcases bind_eq_error.mp h with h | ⟨y, -, h⟩
      · exact isMisplaced_resolve x h
      · cases h
    | inc | dec | invalid =>
      cases h
      rfl
  | post op x =>
    cases h
    rfl
  | assign op name value =>
    cases h
    rfl

theorem isMisplaced_resolveList (xs : List Expr) {f : Fault} (h : m.resolveList xs = .error f) :
    f.isMisplaced = false := by
  cases xs with
  | nil => cases h
  | cons x xs =>
    rcases bind_eq_error.mp h with h | ⟨y, -, h⟩
    · exact isMisplaced_resolve x h
    · rcases bind_eq_error.mp h with h | ⟨ys, -, h⟩
      · exact isMisplaced_resolveList xs h
      · cases h
end

end Memory

/-! ## Faults of a walk -/

/-- Every fault that a step of a walk fails with is good. -/
def Walk.FailsOnly {σ α : Type} (good : Fault → Prop) (x : Walk σ α) : Prop :=
  ∀ s f, (effect x s).1 = .error f → good f

namespace Walk

variable {σ α β : Type} {good : Fault → Prop}

theorem failsOnly_pure (a : α) : FailsOnly good (pure a : Walk σ α) := nofun

theorem failsOnly_throw {f : Fault} (h : good f) : FailsOnly good (throw f : Walk σ α) := by
  intro s f' hf
  cases hf
  exact h

theorem failsOnly_liftExcept {r : Except Fault α} (h : ∀ f, r = .error f → good f) :
    FailsOnly good (Walker.walk.liftExcept r : Walk σ α) := by
  cases r with
  | ok a => exact failsOnly_pure a
  | error f => exact failsOnly_throw (h f rfl)

theorem FailsOnly.bind {x : Walk σ α} (hx : x.FailsOnly good) {g : α → Walk σ β}
    (hg : ∀ a, (g a).FailsOnly good) : (x >>= g).FailsOnly good := by
  intro s f hf
  rw [effect_bind] at hf
  dsimp only at hf
  split at hf
  · next a _ => exact hg a _ f hf
  · next e he =>
    cases hf
    exact hx s f he

theorem FailsOnly.map {x : Walk σ α} (hx : x.FailsOnly good) (g : α → β) :
    (g <$> x).FailsOnly good := by
  rw [← bind_pure_comp]
  exact hx.bind fun a => failsOnly_pure (g a)

end Walk

namespace Walker

variable {σ : Type} {w : Walker σ} {b : Nat}

/-- The fault is the solver's, or no statement was misplaced. -/
def Accounts (w : Walker σ) (f : Fault) : Prop :=
  (∃ path cause t, f = .during ("solving " ++ traceOf path) cause ∧
    (w.solver.solve ⟨w.params, path⟩ t).1 = .error cause) ∨ f.isMisplaced = false

theorem failsOnly_ask (path : List Expr) : (w.ask path).FailsOnly w.Accounts := by
  intro s f hf
  rw [effect_ask] at hf
  dsimp only at hf
  cases hr : (w.solver.solve ⟨w.params, path⟩ s.forSolver).1 with
  | ok a =>
    rw [hr] at hf
    cases hf
  | error cause =>
    rw [hr] at hf
    cases hf
    exact Or.inl ⟨path, cause, _, rfl, hr⟩

theorem failsOnly_report {taken : Bool} {path : List Expr} {arm : Option (List Stmt)}
    {answer : Answer} {good : Fault → Prop} :
    (w.report taken path arm answer).FailsOnly good := by
  have htell : ∀ level message more, (w.tell level message path more).FailsOnly good := by
    intro level message more
    unfold tell
    split <;> nofun
  unfold report
  split
  · exact htell _ _ _
  · split
    · exact htell _ _ _
    · exact Walk.failsOnly_pure ()

theorem failsOnly_recordArm {taken : Bool} {path : List Expr} {arm : Option (List Stmt)}
    {descend : Walk σ Record} (hd : ∀ stmts, arm = some stmts → descend.FailsOnly w.Accounts) :
    (w.recordArm taken path arm descend).FailsOnly w.Accounts := by
  refine (failsOnly_ask path).bind fun answer => failsOnly_report.bind fun _ => ?_
  cases arm with
  | none => exact Walk.failsOnly_pure _
  | some stmts =>
    dsimp only
    split
    · exact (hd stmts rfl).bind fun r => Walk.failsOnly_pure _
    · exact Walk.failsOnly_pure _

/-- No statement is misplaced on a walk through the tree of a list, by induction on the weight : in
each arm, too, the list is brought into canonical form before its statements are visited. -/
theorem failsOnly_record {l : List Stmt} (path : List Expr) (m : Memory) :
    (w.record (.ofStmts b l) path m).FailsOnly w.Accounts := by
  induction hn : Stmt.weightList b l using Nat.strongRecOn generalizing l path m with
  | ind n ih =>
  rcases Tree.ofStmts_cases b l with ⟨f, hc, ht⟩ | ⟨stmts, hc, hs, ht⟩ |
    ⟨before, c, yes, no, hc, hb, ht⟩
  · rw [ht]
    exact (Walk.failsOnly_liftExcept fun f hf => Or.inr (Memory.isMisplaced_executeAll hf)).bind
      fun _ => Walk.failsOnly_throw (Or.inr (Stmt.isMisplaced_canonicalize hc))
  · rw [ht]
    exact (Walk.failsOnly_liftExcept fun f hf => Or.inr (Memory.isMisplaced_executeAll hf)).bind
      fun _ => Walk.failsOnly_pure _
  · have harm : ∀ taken path m, (w.recordArm taken path (Shape.arms c yes no taken)
        (w.record (Tree.armTree b (Shape.arms c yes no) taken) path m)).FailsOnly w.Accounts := by
      intro taken path m
      refine failsOnly_recordArm fun stmts hstmts => ?_
      rw [Tree.armTree_of_eq_some hstmts]
      refine ih _ ?_ path m rfl
      rw [← hn]
      exact Stmt.Enters.weightList_lt ⟨_, c, yes, no, taken, hc, by simp, hstmts⟩
    rw [ht]
    refine (Walk.failsOnly_liftExcept fun f hf => Or.inr (Memory.isMisplaced_executeAll hf)).bind
      fun m' => ?_
    refine (Walk.failsOnly_liftExcept fun f hf => Or.inr (Memory.isMisplaced_resolve _ hf)).bind
      fun test => ?_
    exact (harm true _ m').bind fun _ => (harm false _ m').bind fun _ => Walk.failsOnly_pure _

end Walker

/-- Statement lists are refused exactly where they must be. A list has a canonical form if and only
if, once its nested blocks are spliced, each loop among its statements runs one statement at most
behind a round and nothing, a declaration or an expression before the first one, and each structural
statement but the last one is a branch or a loop. And when the paths of a function cannot be laid
out, either the solver failed, or the fault is not that a loop was left after unrolling or that a
statement was met that is neither simple, nor a branch, nor leaves the function. -/
theorem Function.paths_refused :
    (∀ (b : Nat) (l : List Stmt), (∃ out, Stmt.canonicalize b l = .ok out) ↔
      (∀ s ∈ Stmt.flatten l, s.Unrollable) ∧
        ∀ s ∈ (Stmt.structural (Stmt.flatten l)).dropLast, s.goesOn) ∧
    ∀ {σ : Type} (fn : Function) (solver : Solver σ) (e : Exploration) (s : Session σ) (f : Fault),
      (effect (fn.paths solver e) s).1 = .error f →
        ∃ cause, f = .during ("rewriting " ++ fn.name) cause ∧
          ((∃ path why t, cause = .during ("solving " ++ traceOf path) why ∧
            (solver.solve ⟨fn.params, path⟩ t).1 = .error why) ∨ cause.isMisplaced = false) := by
  refine ⟨Stmt.exists_canonicalize_iff, fun {σ} fn solver e s f hf => ?_⟩
  let w : Walker σ :=
    { solver := solver, params := fn.params, visitUnsat := e.visitUnsat,
      logAs := if e.logFound then some fn.name else none }
  have hwalk : (w.walk (.ofStmts e.bound fn.body) [] (.init fn.params e.fold)).FailsOnly
      w.Accounts := by
    rw [Walker.walk_eq_map_record]
    exact (Walker.failsOnly_record [] _).map _
  have hpaths : (fn.paths solver e).FailsOnly
      fun f => ∃ cause, f = .during ("rewriting " ++ fn.name) cause ∧ w.Accounts cause := by
    refine Walk.FailsOnly.bind ?_ fun _ => Walk.failsOnly_pure _
    intro s f hf
    rw [effect_tryCatch] at hf
    dsimp only at hf
    cases hr : (effect (w.walk (.ofStmts e.bound fn.body) [] (.init fn.params e.fold)) s).1 with
    | ok a =>
      rw [hr] at hf
      cases hf
    | error cause =>
      rw [hr] at hf
      cases hf
      exact ⟨cause, rfl, hwalk s cause hr⟩
  exact hpaths s f hf

/-- The first arm returns before it branches. -/
def returnsTooEarly : Function where
  name := "returnsTooEarly"
  params := [⟨"a", "int"⟩, ⟨"n", "int"⟩]
  results := ["int"]
  body := [
    .branch (.binary .gt (.ident "a") (.int 0))
      (some (.block [
        .ret (some (.ident "a")),
        .block [.branch (.binary .gt (.ident "a") (.ident "n")) (some (.ret none)) none]]))
      none,
    .ret (some (.ident "n"))]

theorem Function.paths_refused_returnsTooEarly :
    ∃ f, (effect (returnsTooEarly.paths (.always ⟨true, some []⟩) {}) ⟨.unlimited, (), #[]⟩).1 =
        .error f ∧
      f.message = "rewriting returnsTooEarly: unsupported construct: Return " ++
        "(only a branch may precede the last structural statement)" ∧
      ∃ cause, f = .during "rewriting returnsTooEarly" cause ∧ cause.isMisplaced = false := by
  have hf : (effect (returnsTooEarly.paths (.always ⟨true, some []⟩) {})
      ⟨.unlimited, (), #[]⟩).1 = .error (.during "rewriting returnsTooEarly"
        (.unsupported "Return" "only a branch may precede the last structural statement")) := by
    with_unfolding_all rfl
  obtain ⟨cause, hc, hwhy⟩ := Function.paths_refused.2 returnsTooEarly _ _ _ _ hf
  refine ⟨_, hf, by rfl, cause, hc, hwhy.resolve_left ?_⟩
  rintro ⟨path, why, t, -, hsolve⟩
  cases hsolve

end PathTree
