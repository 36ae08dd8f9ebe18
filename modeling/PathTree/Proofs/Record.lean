import PathTree.Paths.Walk
import PathTree.Proofs.Canonical

/-!
# The record of a walk

A walk gives back the statements it laid out and the cases it found. Its record also keeps, at
each branch, the condition in terms of the parameters and the two answers of the solver.
`walk_eq_map_record` : a walk is its record with the body and the cases read off, so nothing is
said about a record that is not said about the walk. `answers_of_record` : the visits of a record
are all that the solver was asked and what it answered, in the order of asking.

`Laid` is what a record of a list can be, and `laid_of_record` says that every record is one. It
holds no monad and no solver; later files are inductions over it.
-/

namespace PathTree

/-! ## Steps of a walk -/

section Gives

variable {σ α β : Type}

/-- A step of a walk returns `a` and leads from `s` to `s'`. -/
def Walk.Gives (x : Walk σ α) (s : Session σ) (a : α) (s' : Session σ) : Prop :=
  (x.run.run s).run = (.ok a, s')

theorem Walk.exists_gives {x : Walk σ α} {s : Session σ} (h : (x.run.run s).run.1.isOk) :
    ∃ a s', Walk.Gives x s a s' := by
  unfold Walk.Gives
  rcases hx : (x.run.run s).run with ⟨e | a, s'⟩
  · simp [hx, Except.isOk, Except.toBool] at h
  · exact ⟨a, s', rfl⟩

/-- One run shows that there is a result and that it is good. -/
theorem Walk.exists_gives_good {x : Walk σ α} {s : Session σ} (good : α → Bool)
    (h : (x.run.run s).run.1.toOption.any good) : ∃ a s', Walk.Gives x s a s' ∧ good a := by
  unfold Walk.Gives
  rcases hx : (x.run.run s).run with ⟨e | a, s'⟩
  · simp [hx, Except.toOption] at h
  · exact ⟨a, s', rfl, by simpa [hx, Except.toOption] using h⟩

theorem Walk.of_gives {x : Walk σ α} {s s' : Session σ} {a : α} (h : Walk.Gives x s a s')
    (good : α → Bool) (hg : (x.run.run s).run.1.toOption.any good) : good a := by
  unfold Walk.Gives at h
  simpa [h, Except.toOption] using hg

theorem Walk.gives_pure {a b : α} {s s' : Session σ} :
    Walk.Gives (pure a) s b s' ↔ a = b ∧ s = s' := by
  simp [Walk.Gives]

theorem Walk.gives_throw {f : Fault} {a : α} {s s' : Session σ} :
    ¬Walk.Gives (throw f) s a s' := by
  simp [Walk.Gives]

theorem Walk.gives_bind {x : Walk σ α} {f : α → Walk σ β} {b : β} {s s'' : Session σ} :
    Walk.Gives (x >>= f) s b s'' ↔ ∃ a s', Walk.Gives x s a s' ∧ Walk.Gives (f a) s' b s'' := by
  simp only [Walk.Gives, ExceptT.run_bind, StateT.run_bind, Id.run_bind]
  rcases h : (StateT.run x.run s).run with ⟨e | a, s'⟩
  · simp
  · constructor
    · intro hf
      exact ⟨a, s', rfl, hf⟩
    · rintro ⟨a', s₁, ha, hf⟩
      cases ha
      exact hf

theorem Walk.gives_map {x : Walk σ α} {f : α → β} {b : β} {s s' : Session σ} :
    Walk.Gives (f <$> x) s b s' ↔ ∃ a, Walk.Gives x s a s' ∧ f a = b := by
  rw [← bind_pure_comp, Walk.gives_bind]
  constructor
  · rintro ⟨a, s₁, h, hb⟩
    obtain ⟨rfl, rfl⟩ := Walk.gives_pure.mp hb
    exact ⟨a, h, rfl⟩
  · rintro ⟨a, h, rfl⟩
    exact ⟨a, s', h, Walk.gives_pure.mpr ⟨rfl, rfl⟩⟩

theorem Walk.gives_get {a s s' : Session σ} :
    Walk.Gives (get : Walk σ (Session σ)) s a s' ↔ s = a ∧ s = s' := by
  constructor
  · intro h
    cases h
    exact ⟨rfl, rfl⟩
  · rintro ⟨rfl, rfl⟩
    rfl

theorem Walk.gives_set {a s s' : Session σ} {u : PUnit} :
    Walk.Gives (set a : Walk σ PUnit) s u s' ↔ s' = a := by
  constructor
  · intro h
    cases h
    rfl
  · rintro rfl
    rfl

/-- A handler that only throws does not change what is returned. -/
theorem Walk.gives_tryCatch {x : Walk σ α} {wrap : Fault → Fault} {a : α} {s s' : Session σ} :
    Walk.Gives (tryCatch x fun f => throw (wrap f)) s a s' ↔ Walk.Gives x s a s' := by
  simp only [Walk.Gives, ExceptT.run_tryCatch, StateT.run_bind, Id.run_bind]
  rcases h : (StateT.run x.run s).run with ⟨e | a, s'⟩
  · simp
  · simp

theorem Walker.gives_liftExcept {r : Except Fault α} {a : α} {s s' : Session σ} :
    Walk.Gives (Walker.walk.liftExcept r) s a s' ↔ r = .ok a ∧ s = s' := by
  cases r with
  | error f => simpa [Walker.walk.liftExcept] using Walk.gives_throw
  | ok b => simpa [Walker.walk.liftExcept] using Walk.gives_pure

end Gives

/-! ## Records -/

/-- A test, or its negation. -/
def Expr.side (test : Expr) : Bool → Expr
  | true => test
  | false => test.negate

/-- The case behind a path. -/
def Case.after (path : List Expr) (c : Case) : Case := { c with path := path ++ c.path }

@[simp] theorem Case.after_nil : Case.after [] = id := rfl

@[simp] theorem Case.after_after (p q : List Expr) (c : Case) :
    (c.after q).after p = c.after (p ++ q) := by
  simp [Case.after]

/-- A visit to an arm : the outcomes of the tests that lead to it, the conditions of its query, and
the solver's answer. -/
structure Visit where
  arm : List Bool
  path : List Expr
  answer : Answer

/-- The visit behind an arm and a path. -/
def Visit.after (arm : List Bool) (path : List Expr) (v : Visit) : Visit :=
  ⟨arm ++ v.arm, path ++ v.path, v.answer⟩

/-- What a session holds for the solver. -/
def Session.forSolver {σ : Type} (s : Session σ) : Patience × σ := (s.patience, s.state)

/-- Asked about visits in turn, a solver answers as they say and goes from one state to another. -/
def Solver.Answers {σ : Type} (solver : Solver σ) (params : List Param) :
    List Visit → Patience × σ → Patience × σ → Prop
  | [], s, s' => s = s'
  | v :: rest, s, s'' => ∃ s', solver.solve ⟨params, v.path⟩ s = (.ok v.answer, s') ∧
      solver.Answers params rest s' s''

/-- What a walk saw of a tree. -/
inductive Record where
  /-- An arm that is missing. -/
  | absent
  /-- An arm that was left as it stood. -/
  | kept (stmts : List Stmt)
  /-- The end of a path. -/
  | straight (stmts : List Stmt)
  /-- A branch, its condition in terms of the parameters, the statements of its arms as they stood,
  the solver's answers, and the records of the arms. -/
  | branch (before : List Stmt) (cond test : Expr) (arm : Bool → Option (List Stmt))
      (answer : Bool → Answer) (sub : Bool → Record)

namespace Record

/-- The statements laid out. -/
def body : Record → List Stmt
  | .absent => []
  | .kept stmts => stmts
  | .straight stmts => stmts
  | .branch before cond _ arm _ sub =>
    before ++ [.branch cond ((arm true).map fun _ => .block (sub true).body)
      ((arm false).map fun _ => .block (sub false).body)]

/-- The case of an arm itself, if it can be reached and leaves the function. -/
def ownCase (test : Expr) (arm : Option (List Stmt)) (answer : Answer) (taken : Bool) :
    List Case :=
  if answer.sat && arm.any Stmt.containsTerminal then
    [⟨taken, [test.side taken], answer.assignment.getD []⟩]
  else []

/-- The cases found. -/
def cases : Record → List Case
  | .branch _ _ test arm answer sub =>
    ownCase test (arm true) (answer true) true ++ ownCase test (arm false) (answer false) false ++
      (sub true).cases.map (Case.after [test.side true]) ++
      (sub false).cases.map (Case.after [test.side false])
  | _ => []

/-- The visits made, in order : each arm before what is below it. -/
def visits : Record → List Visit
  | .branch _ _ test _ answer sub =>
    ⟨[true], [test.side true], answer true⟩ ::
      (sub true).visits.map (Visit.after [true] [test.side true]) ++
      ⟨[false], [test.side false], answer false⟩ ::
        (sub false).visits.map (Visit.after [false] [test.side false])
  | _ => []

/-- The statements laid out and the cases found. -/
def paths (r : Record) : Paths := ⟨r.body, r.cases⟩

/-- The visits of a branch are those of its two arms. -/
theorem mem_visits_branch {before : List Stmt} {cond test : Expr}
    {arm : Bool → Option (List Stmt)} {answer : Bool → Answer} {sub : Bool → Record} {v : Visit} :
    v ∈ (Record.branch before cond test arm answer sub).visits ↔
      ∃ b, v = ⟨[b], [test.side b], answer b⟩ ∨
        ∃ u ∈ (sub b).visits, v = u.after [b] [test.side b] := by
  rw [Bool.exists_bool, or_comm]
  simp [visits, eq_comm, or_assoc]

end Record

namespace Solver

variable {σ : Type} {solver : Solver σ} {params : List Param}

theorem answers_append {u v : List Visit} {s s'' : Patience × σ} :
    solver.Answers params (u ++ v) s s'' ↔
      ∃ s', solver.Answers params u s s' ∧ solver.Answers params v s' s'' := by
  induction u generalizing s with
  | nil => simp [Answers]
  | cons x u ih =>
    simp only [List.cons_append, Answers, ih]
    constructor
    · rintro ⟨s₁, hx, s₂, hu, hv⟩
      exact ⟨s₂, ⟨s₁, hx, hu⟩, hv⟩
    · rintro ⟨s₂, ⟨s₁, hx, hu⟩, hv⟩
      exact ⟨s₁, hx, s₂, hu, hv⟩

/-- Where the arms of visits lie does not matter to the solver. -/
theorem answers_congr {u v : List Visit} {s s' : Patience × σ}
    (h : u.map (fun x => (x.path, x.answer)) = v.map fun x => (x.path, x.answer))
    (hu : solver.Answers params u s s') : solver.Answers params v s s' := by
  induction u generalizing v s with
  | nil =>
    rw [List.map_nil, eq_comm, List.map_eq_nil_iff] at h
    rwa [h]
  | cons x u ih =>
    obtain ⟨y, v', rfl, hxy, hv⟩ := List.map_eq_cons_iff.mp h.symm
    obtain ⟨hp, ha⟩ := Prod.mk.inj hxy
    obtain ⟨s₁, hx, hu⟩ := hu
    exact ⟨s₁, by rw [hp, ha, hx], ih hv.symm hu⟩

/-- Each answer was given by the solver. -/
theorem solve_of_answers {vs : List Visit} {s s' : Patience × σ}
    (h : solver.Answers params vs s s') {v : Visit} (hv : v ∈ vs) :
    ∃ t t', solver.solve ⟨params, v.path⟩ t = (.ok v.answer, t') := by
  induction vs generalizing s with
  | nil => simp at hv
  | cons x vs ih =>
    obtain ⟨s₁, hx, h⟩ := h
    rcases List.mem_cons.mp hv with rfl | hv
    · exact ⟨s, s₁, hx⟩
    · exact ih h hv

/-- A recording solver keeps the queries that it answered. -/
theorem log_of_answers {vs : List Visit} {s s' : Patience × σ × List Query}
    (h : solver.recorded.Answers params vs s s') :
    s'.2.2.reverse = s.2.2.reverse ++ vs.map fun v => ⟨params, v.path⟩ := by
  induction vs generalizing s with
  | nil =>
    cases h
    simp
  | cons x vs ih =>
    obtain ⟨s₁, hx, h⟩ := h
    simp only [recorded, Prod.mk.injEq] at hx
    rw [ih h, ← hx.2]
    simp

end Solver

namespace Walker

variable {σ : Type}

/-- Tells what is told about a visit to an arm. -/
def report (w : Walker σ) (taken : Bool) (path : List Expr) (arm : Option (List Stmt))
    (answer : Answer) : Walk σ Unit :=
  if !answer.sat then w.tell .debug "UNSATISFIABLE" path []
  else if arm.any Stmt.containsTerminal then
    let case : Case := ⟨taken, path, answer.assignment.getD []⟩
    w.tell .info (case.label ++ " PATH") path [("assignment", case.assignment.render)]
  else pure ()

/-- The answer about an arm and its record, where `descend` records the arm. -/
def recordArm (w : Walker σ) (taken : Bool) (path : List Expr) (arm : Option (List Stmt))
    (descend : Walk σ Record) : Walk σ (Answer × Record) := do
  let answer ← w.ask path
  w.report taken path arm answer
  match arm with
  | none => pure (answer, .absent)
  | some stmts =>
    if answer.sat || w.visitUnsat then
      let r ← descend
      pure (answer, r)
    else pure (answer, .kept stmts)

/-- The record of a walk. -/
def record (w : Walker σ) : Tree → List Expr → Memory → Walk σ Record
  | .stuck before f, _, m => do
    let _ ← walk.liftExcept (m.executeAll before)
    throw f
  | .straight stmts, _, m => do
    let _ ← walk.liftExcept (m.executeAll stmts)
    pure (.straight stmts)
  | .branch before cond arm sub, path, m => do
    let m ← walk.liftExcept (m.executeAll before)
    let test ← walk.liftExcept (m.resolve cond)
    let yes ← w.recordArm true (path ++ [test.side true]) (arm true)
      (w.record (sub true) (path ++ [test.side true]) m)
    let no ← w.recordArm false (path ++ [test.side false]) (arm false)
      (w.record (sub false) (path ++ [test.side false]) m)
    pure (.branch before cond test arm (fun b => if b then yes.1 else no.1)
      fun b => if b then yes.2 else no.2)

/-! ## The walk and its record -/

/-- What a visit to an arm gives, read off the arm's record. -/
def ArmResult.ofRecord (test : Expr) (taken : Bool) (path : List Expr)
    (arm : Option (List Stmt)) (p : Answer × Record) : ArmResult where
  stmt := arm.map fun _ => .block p.2.body
  own := (Record.ownCase test arm p.1 taken).map (Case.after path)
  below := p.2.cases.map (Case.after (path ++ [test.side taken]))

theorem visitArm_eq_map_recordArm (w : Walker σ) (test : Expr) (taken : Bool)
    (path : List Expr) (arm : Option (List Stmt)) (descend : Walk σ Record) :
    w.visitArm taken (path ++ [test.side taken]) arm
        ((fun r => (r.body, r.cases.map (Case.after (path ++ [test.side taken])))) <$> descend) =
      ArmResult.ofRecord test taken path arm <$>
        w.recordArm taken (path ++ [test.side taken]) arm descend := by
  unfold visitArm recordArm
  rw [map_bind]
  congr 1
  funext answer
  cases arm with
  | none =>
    rcases hs : answer.sat <;>
      simp [report, hs, ArmResult.ofRecord, Record.ownCase, Record.cases]
  | some stmts =>
    rcases hs : answer.sat
    · rcases hu : w.visitUnsat <;>
        simp [report, hs, ArmResult.ofRecord, Record.ownCase, Record.cases, Record.body, map_bind]
    · rcases ht : Stmt.containsTerminal stmts <;>
        simp [report, hs, ht, ArmResult.ofRecord, Record.ownCase, Case.after, map_bind]

/-- A walk is its record with the body and the cases read off. -/
theorem walk_eq_map_record (w : Walker σ) (t : Tree) (path : List Expr) (m : Memory) :
    w.walk t path m = (fun r => (r.body, r.cases.map (Case.after path))) <$> w.record t path m := by
  induction t generalizing path m with
  | stuck before f => simp [walk, record]
  | straight stmts => simp [walk, record, Record.body, Record.cases]
  | branch before cond arm sub ih =>
    simp only [walk, record, map_bind]
    refine bind_congr fun m' => bind_congr fun test => ?_
    have hy := w.visitArm_eq_map_recordArm test true path (arm true)
      (w.record (sub true) (path ++ [test.side true]) m')
    have hn := w.visitArm_eq_map_recordArm test false path (arm false)
      (w.record (sub false) (path ++ [test.side false]) m')
    rw [← ih] at hy hn
    simp only [Expr.side] at hy hn ⊢
    rw [hy, hn]
    simp [ArmResult.ofRecord, Record.body, Record.cases, Expr.side, Function.comp_def]

end Walker

/-- The record of a function's paths. -/
def Function.record {σ : Type} (fn : Function) (solver : Solver σ) (e : Exploration) :
    Walk σ Record :=
  let w : Walker σ :=
    { solver := solver, params := fn.params, visitUnsat := e.visitUnsat,
      logAs := if e.logFound then some fn.name else none }
  w.record (.ofStmts e.bound fn.body) [] (.init fn.params e.fold)

/-- The paths of a function are read off their record. -/
theorem Function.gives_paths {σ : Type} {fn : Function} {solver : Solver σ} {e : Exploration}
    {s s' : Session σ} {p : Paths} :
    Walk.Gives (fn.paths solver e) s p s' ↔
      ∃ r, Walk.Gives (fn.record solver e) s r s' ∧ r.paths = p := by
  unfold Function.paths Function.record
  simp only [Walk.gives_bind, Walk.gives_tryCatch, Walker.walk_eq_map_record, Walk.gives_map]
  constructor
  · rintro ⟨out, s₁, ⟨r, hr, rfl⟩, hp⟩
    obtain ⟨rfl, rfl⟩ := Walk.gives_pure.mp hp
    exact ⟨r, hr, by simp [Record.paths]⟩
  · rintro ⟨r, hr, rfl⟩
    exact ⟨_, s', ⟨r, hr, rfl⟩, Walk.gives_pure.mpr ⟨by simp [Record.paths], rfl⟩⟩

/-! ## What a record can be -/

/-- The records of a list, where `bound` bounds the rounds of loops and `all` says whether arms that
cannot be reached are entered : the canonical form of the list is laid out, its simple statements
can be performed on the memory, its condition can be resolved there, and the record of an arm that
is entered is one of the arm's statements. -/
inductive Laid (bound : Nat) (all : Bool) : List Stmt → Memory → Record → Prop
  | straight {l stmts : List Stmt} {m m' : Memory}
      (hc : Stmt.canonicalize bound l = .ok stmts) (hs : Stmt.Straight stmts)
      (hm : m.executeAll stmts = .ok m') : Laid bound all l m (.straight stmts)
  | branch {l before : List Stmt} {c test : Expr} {yes no : Option Stmt} {m m' : Memory}
      {answer : Bool → Answer} {sub : Bool → Record}
      (hc : Stmt.canonicalize bound l = .ok (before ++ [.branch c yes no]))
      (hb : ∀ t ∈ before, t.isSimple) (hm : m.executeAll before = .ok m')
      (ht : m'.resolve (Stmt.splitCond c yes no).1 = .ok test)
      (habsent : ∀ b, Shape.arms c yes no b = none → sub b = .absent)
      (hkept : ∀ b stmts, Shape.arms c yes no b = some stmts →
        ((answer b).sat || all) = false → sub b = .kept stmts)
      (hentered : ∀ b stmts, Shape.arms c yes no b = some stmts →
        ((answer b).sat || all) = true → Laid bound all stmts m' (sub b)) :
      Laid bound all l m
        (.branch before (Stmt.splitCond c yes no).1 test (Shape.arms c yes no) answer sub)

namespace Walker

variable {σ : Type}

theorem forSolver_of_gives_tell {w : Walker σ} {level : LogLevel} {message : String}
    {path : List Expr} {more : List (String × String)} {s s' : Session σ} {u : Unit}
    (h : Walk.Gives (w.tell level message path more) s u s') : s'.forSolver = s.forSolver := by
  unfold tell at h
  split at h
  · obtain ⟨-, rfl⟩ := Walk.gives_pure.mp h
    rfl
  · simp only [Walk.Gives] at h
    cases h
    rfl

/-- Telling about an arm leaves the solver as it was. -/
theorem forSolver_of_gives_report {w : Walker σ} {taken : Bool} {path : List Expr}
    {arm : Option (List Stmt)} {answer : Answer} {s s' : Session σ} {u : Unit}
    (h : Walk.Gives (w.report taken path arm answer) s u s') : s'.forSolver = s.forSolver := by
  unfold report at h
  split at h
  · exact forSolver_of_gives_tell h
  · split at h
    · exact forSolver_of_gives_tell h
    · rw [(Walk.gives_pure.mp h).2]

/-- A question is answered by the solver, which goes from its state to the next. -/
theorem gives_ask {w : Walker σ} {path : List Expr} {a : Answer} {s s' : Session σ}
    (h : Walk.Gives (w.ask path) s a s') :
    ∃ p t, w.solver.solve ⟨w.params, path⟩ (s.patience, s.state) = (.ok a, (p, t)) ∧
      s' = { s with patience := p, state := t } := by
  unfold ask at h
  obtain ⟨s₀, s₁, h₁, h⟩ := Walk.gives_bind.mp h
  obtain ⟨rfl, rfl⟩ := Walk.gives_get.mp h₁
  rcases hs : w.solver.solve ⟨w.params, path⟩ (s.patience, s.state) with ⟨r, p, t⟩
  simp only [hs] at h
  obtain ⟨u, s₂, h₂, h⟩ := Walk.gives_bind.mp h
  rw [Walk.gives_set.mp h₂] at h
  cases r with
  | error f => exact absurd h Walk.gives_throw
  | ok b =>
    obtain ⟨rfl, rfl⟩ := Walk.gives_pure.mp h
    exact ⟨p, t, rfl, rfl⟩

/-- A visit to an arm asks one query. Then the arm is missing, or it is left as it stands, or it is
entered. -/
theorem gives_recordArm {w : Walker σ} {taken : Bool} {path : List Expr}
    {arm : Option (List Stmt)} {descend : Walk σ Record} {s s' : Session σ}
    {answer : Answer} {r : Record}
    (h : Walk.Gives (w.recordArm taken path arm descend) s (answer, r) s') :
    ∃ s₁ s₂, Walk.Gives (w.ask path) s answer s₁ ∧ s₂.forSolver = s₁.forSolver ∧
      ((arm = none ∧ r = .absent ∧ s₂ = s') ∨
        (∃ stmts, arm = some stmts ∧ (answer.sat || w.visitUnsat) = false ∧ r = .kept stmts ∧
          s₂ = s') ∨
        ∃ stmts, arm = some stmts ∧ (answer.sat || w.visitUnsat) = true ∧
          Walk.Gives descend s₂ r s') := by
  unfold recordArm at h
  obtain ⟨a, s₁, ha, h⟩ := Walk.gives_bind.mp h
  obtain ⟨u, s₂, hu, h⟩ := Walk.gives_bind.mp h
  have hstate := forSolver_of_gives_report hu
  cases arm with
  | none =>
    obtain ⟨he, rfl⟩ := Walk.gives_pure.mp h
    cases he
    exact ⟨s₁, s₂, ha, hstate, Or.inl ⟨rfl, rfl, rfl⟩⟩
  | some stmts =>
    dsimp only at h
    split at h
    · next hv =>
      obtain ⟨r', s₃, hr, h⟩ := Walk.gives_bind.mp h
      obtain ⟨he, rfl⟩ := Walk.gives_pure.mp h
      cases he
      exact ⟨s₁, s₂, ha, hstate, Or.inr (Or.inr ⟨stmts, rfl, hv, hr⟩)⟩
    · next hv =>
      obtain ⟨he, rfl⟩ := Walk.gives_pure.mp h
      cases he
      exact ⟨s₁, s₂, ha, hstate, Or.inr (Or.inl ⟨stmts, rfl, by simpa using hv, rfl, rfl⟩)⟩

/-- The record of a branch : its statements can be performed, its condition can be resolved, and
its arms are visited one after the other. -/
theorem gives_record_branch {w : Walker σ} {before : List Stmt} {cond : Expr}
    {arm : Bool → Option (List Stmt)} {tree : Bool → Tree} {path : List Expr} {m : Memory}
    {s s' : Session σ} {r : Record}
    (h : Walk.Gives (w.record (.branch before cond arm tree) path m) s r s') :
    ∃ m' test answer sub s₁, m.executeAll before = .ok m' ∧ m'.resolve cond = .ok test ∧
      r = .branch before cond test arm answer sub ∧
      Walk.Gives (w.recordArm true (path ++ [test.side true]) (arm true)
        (w.record (tree true) (path ++ [test.side true]) m')) s (answer true, sub true) s₁ ∧
      Walk.Gives (w.recordArm false (path ++ [test.side false]) (arm false)
        (w.record (tree false) (path ++ [test.side false]) m')) s₁ (answer false, sub false) s' := by
  unfold record at h
  obtain ⟨m', s₁, h₁, h⟩ := Walk.gives_bind.mp h
  obtain ⟨hm, rfl⟩ := gives_liftExcept.mp h₁
  obtain ⟨test, s₁, h₂, h⟩ := Walk.gives_bind.mp h
  obtain ⟨ht, rfl⟩ := gives_liftExcept.mp h₂
  obtain ⟨yes, s₁, hy, h⟩ := Walk.gives_bind.mp h
  obtain ⟨no, s₂, hn, h⟩ := Walk.gives_bind.mp h
  obtain ⟨rfl, rfl⟩ := Walk.gives_pure.mp h
  exact ⟨m', test, _, _, s₁, hm, ht, rfl, hy, hn⟩

/-- Every record of a walk through the tree of a list is a record of the list. -/
theorem laid_of_record {w : Walker σ} {b : Nat} (t : Tree) {l : List Stmt}
    (hl : t = Tree.ofStmts b l) {path : List Expr} {m : Memory} {s s' : Session σ} {r : Record}
    (h : Walk.Gives (w.record t path m) s r s') : Laid b w.visitUnsat l m r := by
  induction t generalizing l path m s s' r with
  | stuck before f =>
    unfold record at h
    obtain ⟨m', s₁, -, h⟩ := Walk.gives_bind.mp h
    exact absurd h Walk.gives_throw
  | straight stmts =>
    rcases Tree.ofStmts_cases b l with ⟨f, -, hf⟩ | ⟨stmts', hc, hs, hst⟩ |
      ⟨before, c, yes, no, -, -, hbr⟩
    · simp [hf] at hl
    · rw [hst] at hl
      cases hl
      unfold record at h
      obtain ⟨m', s₁, hm, h⟩ := Walk.gives_bind.mp h
      obtain ⟨rfl, rfl⟩ := Walk.gives_pure.mp h
      exact .straight hc hs (gives_liftExcept.mp hm).1
    · simp [hbr] at hl
  | branch before cond arm tree ih =>
    rcases Tree.ofStmts_cases b l with ⟨f, -, hf⟩ | ⟨stmts', -, -, hst⟩ |
      ⟨before', c, yes, no, hc, hb, hbr⟩
    · simp [hf] at hl
    · simp [hst] at hl
    · rw [hbr] at hl
      cases hl
      obtain ⟨m', test, answer, sub, s₁, hm, ht, rfl, hy, hn⟩ := gives_record_branch h
      -- Both arms alike : the outcome of the test decides which of the two visits is meant.
      have harm : ∀ taken, ∃ s₁ s₂, Walk.Gives (w.recordArm taken (path ++ [test.side taken])
          (Shape.arms c yes no taken) (w.record (Tree.armTree b (Shape.arms c yes no) taken)
            (path ++ [test.side taken]) m')) s₁ (answer taken, sub taken) s₂ := by
        intro taken
        cases taken with
        | true => exact ⟨_, _, hy⟩
        | false => exact ⟨_, _, hn⟩
      refine .branch hc hb hm ht ?_ ?_ ?_
      · intro taken ha
        obtain ⟨s₂, s₃, hv⟩ := harm taken
        obtain ⟨-, -, -, -, ⟨-, hr, -⟩ | ⟨stmts, hs, -⟩ | ⟨stmts, hs, -⟩⟩ := gives_recordArm hv
        · exact hr
        · simp [ha] at hs
        · simp [ha] at hs
      · intro taken stmts ha hv
        obtain ⟨s₂, s₃, hr⟩ := harm taken
        obtain ⟨-, -, -, -, ⟨hs, -⟩ | ⟨stmts', hs, -, hr, -⟩ | ⟨stmts', hs, hv', -⟩⟩ :=
          gives_recordArm hr
        · simp [ha] at hs
        · rw [ha] at hs
          cases hs
          exact hr
        · simp [hv] at hv'
      · intro taken stmts ha hv
        obtain ⟨s₂, s₃, hr⟩ := harm taken
        obtain ⟨-, s₄, -, -, ⟨hs, -⟩ | ⟨stmts', hs, hv', -⟩ | ⟨stmts', hs, -, hr⟩⟩ :=
          gives_recordArm hr
        · simp [ha] at hs
        · simp [hv] at hv'
        · exact ih taken (Tree.armTree_of_eq_some ha) hr

/-! ## Visits and answers -/

/-- The visits of a record are what the solver was asked and what it answered, in order. -/
theorem answers_of_record {w : Walker σ} (t : Tree) {path : List Expr} {m : Memory}
    {s s' : Session σ} {r : Record} (h : Walk.Gives (w.record t path m) s r s') :
    w.solver.Answers w.params (r.visits.map (Visit.after [] path)) s.forSolver s'.forSolver := by
  induction t generalizing path m s s' r with
  | stuck before f =>
    unfold record at h
    obtain ⟨m', s₁, -, h⟩ := Walk.gives_bind.mp h
    exact absurd h Walk.gives_throw
  | straight stmts =>
    unfold record at h
    obtain ⟨m', s₁, hm, h⟩ := Walk.gives_bind.mp h
    obtain ⟨rfl, rfl⟩ := Walk.gives_pure.mp h
    obtain ⟨-, rfl⟩ := gives_liftExcept.mp hm
    rfl
  | branch before cond arm tree ih =>
    obtain ⟨m', test, answer, sub, s₁, hm, ht, rfl, hy, hn⟩ := gives_record_branch h
    -- The part of the talk that an arm accounts for : its own query, then those below it.
    have harm : ∀ taken {s₁ s₂}, Walk.Gives (w.recordArm taken (path ++ [test.side taken])
        (arm taken) (w.record (tree taken) (path ++ [test.side taken]) m')) s₁
          (answer taken, sub taken) s₂ →
        w.solver.Answers w.params (⟨[taken], path ++ [test.side taken], answer taken⟩ ::
          (sub taken).visits.map (Visit.after [] (path ++ [test.side taken])))
          s₁.forSolver s₂.forSolver := by
      intro taken s₁ s₂ hv
      obtain ⟨s₃, s₄, ha, he, hbelow⟩ := gives_recordArm hv
      obtain ⟨p, q, hsolve, rfl⟩ := gives_ask ha
      refine ⟨_, hsolve, ?_⟩
      rcases hbelow with ⟨-, hr, rfl⟩ | ⟨stmts, -, -, hr, rfl⟩ | ⟨stmts, -, -, hr⟩
      · rw [hr]
        exact he.symm
      · rw [hr]
        exact he.symm
      · have := ih taken hr
        rwa [he] at this
    have := Solver.answers_append.mpr ⟨s₁.forSolver, harm true hy, harm false hn⟩
    exact Solver.answers_congr (by simp [Record.visits, Visit.after, Function.comp_def]) this

end Walker

namespace Function

variable {σ : Type} {fn : Function} {e : Exploration}

/-- The record of a function is one of its body. -/
theorem laid {solver : Solver σ} {s s' : Session σ} {r : Record}
    (h : Walk.Gives (fn.record solver e) s r s') :
    Laid e.bound e.visitUnsat fn.body (.init fn.params e.fold) r :=
  Walker.laid_of_record _ rfl h

/-- The visits of a function's record are what its solver was asked and what it answered. -/
theorem answers {solver : Solver σ} {s s' : Session σ} {r : Record}
    (h : Walk.Gives (fn.record solver e) s r s') :
    solver.Answers fn.params r.visits s.forSolver s'.forSolver :=
  Solver.answers_congr (by simp [Visit.after, Function.comp_def]) (Walker.answers_of_record _ h)

/-- The queries that a recording solver keeps are those of the visits. -/
theorem log_eq_visits {solver : Solver σ} {s s' : Session (σ × List Query)} {r : Record}
    (h : Walk.Gives (fn.record solver.recorded e) s r s') (hs : s.state.2 = []) :
    s'.state.2.reverse = r.visits.map fun v => ⟨fn.params, v.path⟩ := by
  have := Solver.log_of_answers (answers h)
  simpa [Session.forSolver, hs] using this

end Function

/-- A loop without a condition, left from a compound test, with a tail behind it. -/
def countdown : Function where
  name := "countdown"
  params := [⟨"n", "int"⟩]
  results := ["int"]
  body := [
    .forLoop none none [.post .dec (.ident "n")]
      (some (.branch
        (.paren (.binary .or (.binary .lt (.ident "n") (.int 0))
          (.binary .eq (.ident "n") (.int 7))))
        (some (.ret (some (.ident "n")))) none)),
    .ret none]

end PathTree
