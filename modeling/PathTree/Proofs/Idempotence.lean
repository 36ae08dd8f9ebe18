import PathTree.Proofs.Cases
import PathTree.Proofs.Pruning

/-!
# Laying paths out again

What a walk lays out is in a form on which every step of laying out does nothing : a canonical list
is its own canonical form (`Stmt.canonicalize_of_canonical`), a single test is not split
(`Stmt.splitCond_of_isCompound`), and a list without blocks has nothing to splice
(`Stmt.flatten_of_isBlock`). An arm that was left as it stood had its blocks spliced when it was
looked at, and is left again.

So the record of a list is also one of the statements it lays out, but for the arms as they stood
(`Laid.again`), and a function whose body is replaced by its paths has the same paths and the same
queries (`Function.paths_idempotent`).
-/

namespace PathTree

namespace Stmt

/-! ## Canonical lists are their own canonical forms -/

theorem expandOne_of_isFlat {b : Nat} {s : Stmt} (h : s.isFlat) : expandOne b s = .ok [s] := by
  cases s <;> simp_all [isFlat, expandOne]

/-- A list without blocks and loops has nothing to expand. -/
theorem expand_of_isFlat {b : Nat} {l : List Stmt} (h : ∀ s ∈ l, s.isFlat) :
    expand b l = .ok l := by
  induction l with
  | nil => simp only [expand]
  | cons s l ih =>
    have hrest : expand b l = .ok l := ih fun t ht => h t (List.mem_cons_of_mem _ ht)
    simp only [expand]
    rw [expandOne_of_isFlat (h s (by simp)), hrest]
    rfl

/-- Joining tails leaves simple statements in front of a list. -/
theorem joinTails_append {before : List Stmt} (hb : ∀ t ∈ before, t.isSimple) {l out : List Stmt}
    (h : joinTails l = .ok out) : joinTails (before ++ l) = .ok (before ++ out) := by
  induction before with
  | nil => exact h
  | cons s before ih =>
    have hrest := ih fun t ht => hb t (List.mem_cons_of_mem _ ht)
    simp only [List.cons_append, joinTails]
    rw [hrest]
    simp [bind, Except.bind, hb s (by simp)]

theorem joinTails_of_isSimple {l : List Stmt} (h : ∀ s ∈ l, s.isSimple) :
    joinTails l = .ok l := by
  have hnil : joinTails [] = .ok [] := by simp only [joinTails]
  simpa using joinTails_append h hnil

/-- The last structural statement of a list has no tail to copy. -/
theorem joinTails_of_isFlat {s : Stmt} (hs : s.isFlat) {after : List Stmt}
    (ha : ∀ t ∈ after, t.isSimple) : joinTails (s :: after) = .ok (s :: after) := by
  have hloop : s.isLoop = false := by cases s <;> simp_all [isFlat, isLoop]
  simp only [joinTails]
  rw [joinTails_of_isSimple ha]
  simp only [bind, Except.bind, hloop, List.all_eq_true.mpr ha]
  split <;> rfl

theorem isFlat_of_isTerminal {s : Stmt} (h : s.isTerminal) : s.isFlat := by
  cases s <;> simp_all [isTerminal, isFlat]

theorem isFlat_of_canonical {l : List Stmt} (h : Canonical l) : ∀ s ∈ l, s.isFlat := by
  intro s hs
  rcases h with h | @⟨before, c, yes, no, hb⟩
  · rcases h with h | @⟨before, after, t, hb, ht, ha⟩
    · exact isFlat_of_isSimple (h s hs)
    · rcases List.mem_append.mp hs with hs | hs
      · exact isFlat_of_isSimple (hb s hs)
      · rcases List.mem_cons.mp hs with rfl | hs
        · exact isFlat_of_isTerminal ht
        · exact isFlat_of_isSimple (ha s hs)
  · rcases List.mem_append.mp hs with hs | hs
    · exact isFlat_of_isSimple (hb s hs)
    · rw [List.mem_singleton.mp hs]
      rfl

/-- A canonical list is its own canonical form. -/
theorem canonicalize_of_canonical {b : Nat} {l : List Stmt} (h : Canonical l) :
    canonicalize b l = .ok l := by
  have hjoin : joinTails l = .ok l ∧ mergeLast l = l := by
    rcases h with h | @⟨before, c, yes, no, hb⟩
    · rcases h with h | @⟨before, after, s, hb, hs, ha⟩
      · have hmerge := mergeLast_append h []
        rw [List.append_nil] at hmerge
        exact ⟨joinTails_of_isSimple h, by simpa [mergeLast] using hmerge⟩
      · refine ⟨joinTails_append hb (joinTails_of_isFlat (isFlat_of_isTerminal hs) ha), ?_⟩
        rw [mergeLast_append hb, mergeLast_of_isTerminal hs]
    · refine ⟨joinTails_append hb (joinTails_of_isFlat rfl (by simp)), ?_⟩
      rw [mergeLast_append hb]
      rfl
  unfold canonicalize
  rw [expand_of_isFlat (isFlat_of_canonical h)]
  simp [bind, Except.bind, hjoin]

/-! ## Single tests and spliced lists -/

/-- A single test is not split. -/
theorem splitCond_of_isCompound {c : Expr} (h : c.isCompound = false) (yes no : Option Stmt) :
    splitCond c yes no = (c, yes, no) := by
  cases c with
  | paren x =>
    have hx : x.isCompound = false := by simpa [Expr.isCompound, Expr.unparen] using h
    simp [splitCond, hx]
  | binary op x y =>
    cases op <;> simp_all [Expr.isCompound, Expr.unparen, BinaryOp.isLogical, splitCond]
  | _ => rfl

/-- A list without blocks has nothing to splice. -/
theorem flatten_of_isBlock {l : List Stmt} (h : ∀ s ∈ l, s.isBlock = false) : flatten l = l := by
  induction l with
  | nil => rfl
  | cons s l ih =>
    have hs : spliced s = [s] := by
      have := h s (by simp)
      cases s <;> simp_all [isBlock, spliced]
    rw [flatten, hs, ih fun t ht => h t (List.mem_cons_of_mem _ ht)]
    rfl

theorem isBlock_of_canonical {l : List Stmt} (h : Canonical l) : ∀ s ∈ l, s.isBlock = false := by
  intro s hs
  have := isFlat_of_canonical h s hs
  cases s <;> simp_all [isFlat, isBlock]

end Stmt

/-! ## Records of what is laid out -/

/-- The record with the arms of each branch as they are laid out. -/
def Record.again : Record → Record
  | .branch before cond test arm answer sub =>
    .branch before cond test (fun b => (arm b).map fun _ => (sub b).body) answer
      fun b => (sub b).again
  | r => r

theorem Record.body_again (r : Record) : r.again.body = r.body := by
  induction r with
  | branch before cond test arm answer sub ih =>
    simp only [again, body, ih, Option.map_map, Function.comp_def]
  | _ => rfl

theorem Record.visits_again (r : Record) : r.again.visits = r.visits := by
  induction r with
  | branch before cond test arm answer sub ih => simp only [again, visits, ih]
  | _ => rfl

namespace Laid

variable {bound : Nat} {all : Bool} {l : List Stmt} {m : Memory} {r : Record}

/-- What is laid out for a list is canonical. -/
theorem canonical_body (h : Laid bound all l m r) : Stmt.Canonical r.body := by
  cases h with
  | straight hc hs hm => exact .straight hs
  | branch hc hb hm ht habsent hkept hentered => exact .branch _ hb

/-- The record of a list is one of what is laid out for the list. -/
theorem again (h : Laid bound all l m r) : Laid bound all r.body m r.again := by
  induction h with
  | straight hc hs hm => exact .straight (Stmt.canonicalize_of_canonical (.straight hs)) hs hm
  | @branch l before c test yes no m m' answer sub hc hb hm ht habsent hkept hentered ih =>
    -- The list of an arm has no blocks, whether the arm was entered or left as it stood.
    have hspliced : ∀ b stmts, Shape.arms c yes no b = some stmts →
        Stmt.flatten (sub b).body = (sub b).body := by
      intro b stmts hstmts
      refine Stmt.flatten_of_isBlock ?_
      cases hv : (answer b).sat || all with
      | false =>
        rw [hkept b stmts hstmts hv]
        exact Shape.isBlock_of_mem_arms hstmts
      | true => exact Stmt.isBlock_of_canonical (hentered b stmts hstmts hv).canonical_body
    let arm : Bool → Option Stmt := fun b =>
      (Shape.arms c yes no b).map fun _ => .block (sub b).body
    have hsplit : Stmt.splitCond (Stmt.splitCond c yes no).1 (arm true) (arm false) =
        ((Stmt.splitCond c yes no).1, arm true, arm false) :=
      Stmt.splitCond_of_isCompound (Stmt.isCompound_splitCond c yes no) _ _
    have harms : Shape.arms (Stmt.splitCond c yes no).1 (arm true) (arm false) =
        fun b => (Shape.arms c yes no b).map fun _ => (sub b).body := by
      funext b
      have harm : Shape.armStmts (arm b) =
          (Shape.arms c yes no b).map fun _ => (sub b).body := by
        cases hs : Shape.arms c yes no b with
        | none => simp [arm, hs, Shape.armStmts]
        | some stmts => simp [arm, hs, Shape.armStmts, Stmt.statements, hspliced b stmts hs]
      rw [Shape.arms, hsplit, ← harm]
      cases b <;> rfl
    let again : List Stmt :=
      before ++ [Stmt.branch (Stmt.splitCond c yes no).1 (arm true) (arm false)]
    have hcanonical : Stmt.canonicalize bound again = .ok again :=
      Stmt.canonicalize_of_canonical (.branch before hb)
    have htest : m'.resolve (Stmt.splitCond (Stmt.splitCond c yes no).1 (arm true)
        (arm false)).1 = .ok test := by
      rw [hsplit]
      exact ht
    have hlaid : Laid bound all again m
        (.branch before (Stmt.splitCond (Stmt.splitCond c yes no).1 (arm true) (arm false)).1 test
          (Shape.arms (Stmt.splitCond c yes no).1 (arm true) (arm false)) answer
          fun b => (sub b).again) := by
      refine .branch hcanonical hb hm htest ?_ ?_ ?_
      · intro b hnone
        rw [harms] at hnone
        rw [habsent b (by simpa using hnone)]
        rfl
      · intro b stmts hstmts hv
        rw [harms] at hstmts
        obtain ⟨old, hold, rfl⟩ := Option.map_eq_some_iff.mp hstmts
        rw [hkept b old hold hv]
        rfl
      · intro b stmts hstmts hv
        rw [harms] at hstmts
        obtain ⟨old, hold, rfl⟩ := Option.map_eq_some_iff.mp hstmts
        exact ih b old hold hv
    rw [harms, hsplit] at hlaid
    exact hlaid

end Laid

/-- Laying paths out again changes nothing. Where the answers of a solver depend on the query alone,
a function whose body is replaced by its paths has paths, with that body, and they are found by the
same queries. -/
theorem Function.paths_idempotent {σ : Type} {fn : Function} {solver : Solver σ}
    {ready : Patience × σ → Prop} {answerTo : Query → Except Fault Answer}
    (hsolver : solver.AnswersBy ready answerTo) {e : Exploration} {s s' : Session σ} {p : Paths}
    (h : Walk.Gives (fn.paths solver e) s p s') (hs : ready s.forSolver) {t : Session σ}
    (ht : ready t.forSolver) :
    ∃ p' t', Walk.Gives ({ fn with body := p.body }.paths solver e) t p' t' ∧
      p'.body = p.body ∧
      { fn with body := p.body }.queries solver e t = fn.queries solver e s := by
  obtain ⟨r, hr, rfl⟩ := Function.gives_paths.mp h
  have hlaid := Function.laid hr
  have hvisits := hsolver.answer_of_mem (Function.answers hr) hs
  let again : Function := { fn with body := r.body }
  have hagain : Laid e.bound e.visitUnsat again.body (.init again.params e.fold) r.again :=
    hlaid.again
  have hanswers : ∀ v ∈ r.again.visits, answerTo ⟨again.params, v.path⟩ = .ok v.answer := by
    rw [r.visits_again]
    exact hvisits
  obtain ⟨t', hr'⟩ := (Function.steady_record hsolver hagain hanswers).gives ht
  refine ⟨r.again.paths, t', Function.gives_paths.mpr ⟨r.again, hr', rfl⟩, r.body_again, ?_⟩
  have hqueries := Function.queries_of_record hsolver hagain hanswers ht
  rw [r.visits_again] at hqueries
  exact hqueries.trans (Function.queries_of_record hsolver hlaid hvisits hs).symm

/-- A loop behind two tests that exclude each other. -/
def unreachableLoop : Function where
  name := "unreachableLoop"
  params := [⟨"a", "int"⟩, ⟨"b", "int"⟩]
  results := ["int"]
  body := [
    .branch
      (.binary .and (.binary .gt (.ident "a") (.int 0)) (.binary .lt (.ident "a") (.int 0)))
      (some (.block [
        .whileLoop (.binary .gt (.ident "b") (.int 0)) (some (.expr (.post .dec (.ident "b")))),
        .ret (some (.int 1))]))
      (some (.ret (some (.int 0))))]

/-- The loop stands in an arm that is left as it stood, and it is left there again. -/
theorem Function.paths_idempotent_unreachableLoop :
    ∃ p s', Walk.Gives (unreachableLoop.paths (.bounded ⟨3, 50⟩) { visitUnsat := false })
        ⟨.unlimited, (), #[]⟩ p s' ∧
      (Stmt.walkList (fun _ => true) p.body).any Stmt.isLoop ∧
      ∃ p' t', Walk.Gives ({ unreachableLoop with body := p.body }.paths (.bounded ⟨3, 50⟩)
          { visitUnsat := false }) ⟨.unlimited, (), #[]⟩ p' t' ∧
        p'.body = p.body ∧
        { unreachableLoop with body := p.body }.queries (.bounded ⟨3, 50⟩)
            { visitUnsat := false } ⟨.unlimited, (), #[]⟩ =
          unreachableLoop.queries (.bounded ⟨3, 50⟩) { visitUnsat := false }
            ⟨.unlimited, (), #[]⟩ := by
  obtain ⟨p, s', h, hloop⟩ := Walk.exists_gives_good
    (x := unreachableLoop.paths (.bounded ⟨3, 50⟩) { visitUnsat := false })
    (s := ⟨.unlimited, (), #[]⟩)
    (fun p => (Stmt.walkList (fun _ => true) p.body).any Stmt.isLoop) (by cbv)
  obtain ⟨p', t', h', hbody, hqueries⟩ := Function.paths_idempotent
    (Solver.bounded_answersBy _) h rfl (t := ⟨.unlimited, (), #[]⟩) rfl
  exact ⟨p, s', h, hloop, p', t', h', hbody, hqueries⟩

end PathTree
