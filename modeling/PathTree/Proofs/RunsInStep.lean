import PathTree.Engine.Basic
import PathTree.Proofs.Lockstep

/-!
# Runs in step

Two engines that differ in nothing but their solvers work a text out in step, if their solvers are
in step (`Engine.inStep_workOut`). What a run may not touch before it has an outcome, the files and
the stored results, is part of the pairing (`Pairing.onRuns`), so it is left alone also by a run that
is ended before its time.

A function that cannot be laid out is noted, and the run goes on. So a withdrawn request comes to
light only when the caller is asked once more (`Engine.inStep_treat`).
-/

namespace PathTree

open Source Pairing

/-! ## Pairings of workspaces -/

/-- What of a workspace is not changed while a text is worked out. -/
def Workspace.rest {σ : Type} (w : Workspace σ) : Files × Option (Store FileOutcome) × Int :=
  (w.files, w.store, w.now)

/-- The workspace as its solver sees it. -/
def Workspace.forSolver {σ : Type} (w : Workspace σ) : Patience × σ := w.toSession.forSolver

/-- The fault for which a run was stopped. -/
def RunFault.stoppedBy? : RunFault → Option Fault
  | .stopped f => some f
  | _ => none

/-- Asks the caller once, beside a solver's state. -/
def askOnce {σ : Type} (s : Patience × σ) : Except Fault Unit × (Patience × σ) :=
  (s.1.ask.1, s.1.ask.2, s.2)

theorem Patience.ask_eq_error {p : Patience} {f : Fault} (h : p.ask.1 = .error f) :
    ∃ why : Withdrawal, f = why.fault ∧ p = .times 0 why := by
  cases p with
  | unlimited => cases h
  | times n why =>
    cases n with
    | zero =>
      cases h
      exact ⟨why, rfl, rfl⟩
    | succ n => cases h

theorem Withdrawal.isFatal_of_root {f : Fault} {why : Withdrawal} (h : f.root = why.fault) :
    f.isFatal = false := by
  unfold Fault.isFatal
  rw [h]
  cases why <;> rfl

theorem effect_askOn {σ : Type} (w : Workspace σ) :
    effect Run.askOn w =
      (w.patience.ask.1.mapError .stopped, { w with patience := w.patience.ask.2 }) := by
  unfold Run.askOn
  rw [effect_get_bind]
  rcases w.patience.ask with ⟨f | u, p⟩ <;> rfl

namespace Pairing

variable {σ τ : Type} (P : Pairing Fault (Patience × σ) (Patience × τ))

/-- The pairing of workspaces by what their solvers see, where the rest of the first one is as it
was. -/
def onWorkspaces (rest : Files × Option (Store FileOutcome) × Int) :
    Pairing Fault (Workspace σ) (Workspace τ) where
  rel s t := P.rel s.forSolver t.forSolver ∧ s.rest = rest
  good o t := P.good o t.forSolver
  ended f s := P.ended f s.forSolver ∧ s.rest = rest
  good_none := P.good_none

/-- The same for runs : only a withdrawn request ends a run before its time. -/
def onRuns (rest : Files × Option (Store FileOutcome) × Int) :
    Pairing RunFault (Workspace σ) (Workspace τ) where
  rel s t := P.rel s.forSolver t.forSolver ∧ s.rest = rest
  good o t := P.good (o.bind RunFault.stoppedBy?) t.forSolver
  ended f s := ∃ why : Withdrawal, f = .stopped why.fault ∧ P.ended why.fault s.forSolver ∧
    s.rest = rest
  good_none := P.good_none

/-- Nothing but a withdrawn request ends the first program before its time, and a failure that can
be handled says nothing about the second one. -/
structure Waits : Prop extends P.SeesRoots where
  withdrawn : ∀ {f s}, P.ended f s →
    ∃ why : Withdrawal, f.root = why.fault ∧ s.1 = .times 0 why ∧ P.ended why.fault s
  good_of_handled : ∀ {f t}, f.isFatal = false → P.good none t → P.good (some f) t
  ask : P.InStep askOnce askOnce

variable {P} {rest : Files × Option (Store FileOutcome) × Int}

theorem inStep_tell (level : LogLevel) (message : String) (fields : List (String × String)) :
    (P.onRuns rest).InStep (effect (Run.tell level message fields))
      (effect (Run.tell level message fields)) :=
  inStep_modify (fun _ _ h => h) (fun _ h => h)

theorem Waits.inStep_askOn (hP : P.Waits) :
    (P.onRuns rest).InStep (effect Run.askOn) (effect Run.askOn) := by
  intro t ht
  have hask := hP.ask t.forSolver
  rw [effect_askOn] at ht
  have hgood : P.good (failure? (askOnce t.forSolver).1) (askOnce t.forSolver).2 := by
    show P.good (failure? t.patience.ask.1) (t.patience.ask.2, t.state)
    revert ht
    cases t.patience.ask.1 <;> exact id
  obtain ⟨hstart, hall⟩ := hask hgood
  refine ⟨hstart, fun s hs => ?_⟩
  rw [effect_askOn, effect_askOn]
  rcases hall s.forSolver hs.1 with ⟨hres, hrel⟩ | ⟨f, hres, hended⟩
  · have hres : s.patience.ask.1 = t.patience.ask.1 := hres
    exact Or.inl ⟨by simp only [hres], hrel, hs.2⟩
  · have hres : s.patience.ask.1 = .error f := hres
    obtain ⟨why, rfl, -⟩ := Patience.ask_eq_error hres
    exact Or.inr ⟨_, by simp only [hres]; rfl, why, rfl, hended, hs.2⟩

end Pairing

/-! ## Engines -/

/-- Two engines treat functions alike, up to the answers of their solvers. -/
structure Engine.Alike {σ τ : Type} (e : Engine σ) (e' : Engine τ) : Prop where
  loopBound : e.settings.loopBound = e'.settings.loopBound
  visitUnsat : e.settings.visitUnsatPaths = e'.settings.visitUnsatPaths
  fold : e.settings.foldConstants = e'.settings.foldConstants
  maxComplexity : e.settings.maxComplexity = e'.settings.maxComplexity
  selects : ∀ f, e.selects f = e'.selects f

namespace Engine

variable {σ τ : Type} {P : Pairing Fault (Patience × σ) (Patience × τ)}
  {rest : Files × Option (Store FileOutcome) × Int} {e : Engine σ} {e' : Engine τ}

/-- Lays out the paths of a function in a workspace. -/
def layOutIn (e : Engine σ) (fn : Function) (bound : Nat) (w : Workspace σ) :
    Except Fault Paths × Workspace σ :=
  let r := effect (fn.paths e.solver (e.settings.exploration bound)) w.toSession
  (r.1, { w with toSession := r.2 })

/-- What is done with the result of laying a function out. -/
def noteResult (outcome : FuncOutcome) :
    Except Fault Paths → Run σ (FuncOutcome × Option (List Statement))
  | .error fault =>
    if fault.isFatal then throw (.stopped fault)
    else do
      Run.askOn
      pure ({ outcome with error := fault.message }, none)
  | .ok paths =>
    match Stmt.listToSource paths.body with
    | .error fault => pure ({ outcome with error := fault.message }, none)
    | .ok list => pure ({ outcome with cases := paths.cases.map Case.outcome }, some list)

/-- A function that is not skipped and can be lowered is laid out, and the result is noted. -/
theorem effect_treat {complexity : Nat} {d : Directive} {f : FuncDecl} {fn : Function}
    (hskip : e.skips? complexity d = none) (hf : f.lower = .ok fn) :
    effect (e.treat complexity d f) = fun w =>
      effect (noteResult { name := fn.name, line := f.place.line } (e.layOutIn fn d.bound w).1)
        (e.layOutIn fn d.bound w).2 := by
  funext w
  unfold treat
  simp only [hskip, hf]
  have hlayOut : effect (e.layOut fn d.bound) w =
      (.ok (e.layOutIn fn d.bound w).1, (e.layOutIn fn d.bound w).2) := rfl
  rw [effect_bind]
  simp only [hlayOut]
  cases (e.layOutIn fn d.bound w).1 with
  | ok paths => rfl
  | error fault =>
    unfold noteResult
    cases fault.isFatal <;> rfl

/-- Functions are laid out in step, if the solvers are in step on queries with variables. -/
theorem inStep_layOutIn (hP : P.SeesRoots) (he : e.Alike e')
    (hsolve : ∀ q, (∃ vars, q.variables = .ok vars) →
      P.InStep (e.solver.solve q) (e'.solver.solve q))
    {f : FuncDecl} {fn : Function} (hf : f.lower = .ok fn) (bound : Nat) :
    (P.onWorkspaces rest).InStep (e.layOutIn fn bound) (e'.layOutIn fn bound) := by
  have hpaths : (Walker.paired P).InStep
      (effect (fn.paths e.solver (e.settings.exploration bound)))
      (effect (fn.paths e'.solver (e'.settings.exploration bound))) := by
    refine Function.inStep_paths hP hsolve ?_ he.visitUnsat he.fold (FuncDecl.asksOnly_lower hf _ _)
    simp only [Exploration.bound, Settings.exploration, he.loopBound]
  intro t ht
  obtain ⟨hgood, hall⟩ := hpaths t.toSession ht
  refine ⟨hgood, fun s hs => ?_⟩
  rcases hall s.toSession hs.1 with ⟨hres, hrel⟩ | ⟨g, hres, hended⟩
  · exact Or.inl ⟨hres, hrel, hs.2⟩
  · exact Or.inr ⟨g, hres, hended, hs.2⟩

/-- If the request was withdrawn, asking the caller once more ends the run. -/
theorem effect_noteResult_of_withdrawn (outcome : FuncOutcome) {fault : Fault} {why : Withdrawal}
    (hroot : fault.root = why.fault) {s : Workspace σ} (hs : s.patience = .times 0 why) :
    effect (noteResult outcome (.error fault)) s = (.error (.stopped why.fault), s) := by
  have hask : effect Run.askOn s = (.error (.stopped why.fault), s) := by
    have hsame : { s with patience := .times 0 why } = s := by rw [← hs]
    rw [effect_askOn, hs]
    exact congrArg (Prod.mk _) hsame
  simp only [noteResult, Withdrawal.isFatal_of_root hroot, Bool.false_eq_true, if_false]
  rw [effect_bind]
  simp only [hask]

theorem inStep_noteResult (hP : P.Waits) (outcome : FuncOutcome) (r : Except Fault Paths) :
    (P.onRuns rest).InStep (effect (noteResult outcome r)) (effect (noteResult outcome r)) := by
  unfold noteResult
  split
  · split
    · exact inStep_throw _
    · exact hP.inStep_askOn.bind fun _ => inStep_pure _
  · split
    · exact inStep_pure _
    · exact inStep_pure _

/-- A function is treated in step. -/
theorem inStep_treat (hP : P.Waits) (he : e.Alike e')
    (hsolve : ∀ q, (∃ vars, q.variables = .ok vars) →
      P.InStep (e.solver.solve q) (e'.solver.solve q))
    (complexity : Nat) (d : Directive) (f : FuncDecl) :
    (P.onRuns rest).InStep (effect (e.treat complexity d f)) (effect (e'.treat complexity d f)) := by
  have hskips : e'.skips? complexity d = e.skips? complexity d := by
    unfold skips?
    rw [he.maxComplexity]
  cases hskip : e.skips? complexity d with
  | some why =>
    rw [hskip] at hskips
    unfold treat
    simp only [hskip, hskips]
    exact inStep_pure _
  | none =>
    rw [hskip] at hskips
    cases hf : f.lower with
    | error fault =>
      unfold treat
      simp only [hskip, hskips, hf]
      exact inStep_pure _
    | ok fn =>
      rw [effect_treat hskip hf, effect_treat hskips hf]
      have hlayOut : (P.onWorkspaces rest).InStep (e.layOutIn fn d.bound) (e'.layOutIn fn d.bound) :=
        inStep_layOutIn hP.toSeesRoots he hsolve hf d.bound
      have hnote : ∀ outcome r, (P.onRuns rest).InStep (effect (noteResult outcome r))
          (effect (noteResult outcome r)) := inStep_noteResult hP
      refine hlayOut.andThen (Q := P.onRuns rest) (u := fun r s => effect (noteResult _ r) s)
        (v := fun r t => effect (noteResult _ r) t)
        (fun _ h => h) (fun _ _ h => h) ?_ ?_ ?_
      · intro r t ht
        have hstart := (hnote _ r t ht).1
        cases r with
        | ok paths => exact hstart
        | error fault =>
          cases hfatal : fault.isFatal with
          | false => exact hP.good_of_handled hfatal hstart
          | true =>
            simp only [noteResult, hfatal, if_true] at ht
            exact ht
      · intro r s t hs ht
        exact (hnote _ r t ht).2 s hs
      · rintro fault s ⟨hended, hrest⟩
        obtain ⟨why, hroot, hpatience, hwhy⟩ := hP.withdrawn hended
        rw [effect_noteResult_of_withdrawn _ hroot hpatience]
        exact ⟨_, rfl, why, rfl, hwhy, hrest⟩

theorem inStep_treatAll (hP : P.Waits) (he : e.Alike e')
    (hsolve : ∀ q, (∃ vars, q.variables = .ok vars) →
      P.InStep (e.solver.solve q) (e'.solver.solve q))
    (filename : String) (file : Source.File) (set : Directives) (funcs : List (FuncDecl × Nat)) :
    (P.onRuns rest).InStep (effect (e.treatAll filename file set funcs))
      (effect (e'.treatAll filename file set funcs)) := by
  induction funcs with
  | nil => exact inStep_pure _
  | cons f funcs ih =>
    refine (inStep_treat hP he hsolve _ _ _).bind fun r => ?_
    dsimp only
    split
    · exact (inStep_tell _ _ _).bind fun _ => ih.bind fun rs => inStep_pure _
    · exact ih.bind fun rs => inStep_pure _

theorem inStep_forM_tell {α : Type} (l : List α) (level : LogLevel) (message : String)
    (fields : α → List (String × String)) :
    (P.onRuns rest).InStep (effect (l.forM fun a => Run.tell level message (fields a)))
      (effect (l.forM fun a => Run.tell level message (fields a))) := by
  induction l with
  | nil => exact inStep_pure ()
  | cons a l ih => exact (inStep_tell _ _ _).bind fun _ => ih

/-- A text is worked out in step. -/
theorem inStep_workOut (hP : P.Waits) (he : e.Alike e')
    (hsolve : ∀ q, (∃ vars, q.variables = .ok vars) →
      P.InStep (e.solver.solve q) (e'.solver.solve q)) (filename src : String) :
    (P.onRuns rest).InStep (effect (e.workOut filename src)) (effect (e'.workOut filename src)) := by
  have hselects : e'.selects = e.selects := funext fun f => (he.selects f).symm
  unfold workOut
  rw [hselects]
  split
  · exact inStep_throw _
  · refine (inStep_forM_tell _ _ _ _).bind fun _ => ?_
    exact (inStep_treatAll hP he hsolve _ _ _ _).bind fun r => inStep_pure _

end Engine

end PathTree
