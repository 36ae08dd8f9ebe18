import PathTree.Proofs.Replay
import PathTree.Solver.Memo

/-!
# Calls that overlap

A call of a memoising solver takes up to three turns : it looks its query up, it asks the inner
solver if nothing was found, and it puts the answer in. Other calls may take turns in between. So
two calls can miss the same query and both put an answer in, and a call can fail after it has
missed. `Overlap.run` takes the turns of any number of calls in any order, and `solve_eq_run` says
that a call whose turns are not disturbed is what the solver does.

Where the inner solver's answers are determined by the text of a query, `Overlap.Sound` says of a
state that nothing but such answers is remembered and returned. A turn keeps it (`Sound.turn`), and
`Solver.memo_transparent` follows by induction on the moves.
-/

namespace PathTree

/-! ## Calls -/

/-- How far a call has come. -/
inductive Stage where
  | asked
  | missed
  | answered (a : Answer)
  | returned (r : Except Fault Answer)

/-- A call of a memoising solver. Each has a caller of its own. -/
structure Call where
  query : Query
  patience : Patience
  stage : Stage := .asked

namespace Call

/-- Whether a call has looked its query up. -/
def hasLooked (c : Call) : Bool :=
  match c.stage with
  | .asked => false
  | _ => true

/-- How many turns a call takes at most until it has returned. -/
def turnsLeft (c : Call) : Nat :=
  match c.stage with
  | .asked => 3
  | .missed => 2
  | .answered _ => 1
  | .returned _ => 0

/-- The next turn of a call, on what is remembered and on the state of the inner solver. -/
def turn {σ : Type} (hash : String → UInt64) (inner : Solver σ) (c : Call) (m : Memo) (s : σ) :
    Call × Memo × σ :=
  match c.stage with
  | .asked =>
    match m.find? (hash c.query.key) c.query.key with
    | some a => ({ c with stage := .returned (.ok a) }, m.hit, s)
    | none => ({ c with stage := .missed }, m.miss, s)
  | .missed =>
    match inner.solve c.query (c.patience, s) with
    | (.error f, p, s) => (⟨c.query, p, .returned (.error f)⟩, m, s)
    | (.ok a, p, s) => (⟨c.query, p, .answered a⟩, m, s)
  | .answered a =>
    ({ c with stage := .returned (.ok a) }, m.insert ⟨hash c.query.key, c.query.key, a⟩, s)
  | .returned _ => (c, m, s)

end Call

/-- Calls in progress, and what they share : what is remembered, and the inner solver's state. -/
structure Overlap (σ : Type) where
  memo : Memo := {}
  state : σ
  calls : List Call := []

/-- What can happen next : a call is made, or a call that was made takes a turn. -/
inductive Move where
  | call (q : Query) (p : Patience)
  | turn (i : Nat)

/-- Whether a move is a turn of the `i`-th call. -/
def Move.isTurnOf (i : Nat) : Move → Bool
  | .turn j => j == i
  | .call .. => false

namespace Overlap

variable {σ : Type} (hash : String → UInt64) (inner : Solver σ)

/-- What a move leads to. -/
def move (o : Overlap σ) : Move → Overlap σ
  | .call q p => { o with calls := o.calls ++ [⟨q, p, .asked⟩] }
  | .turn i =>
    match o.calls[i]? with
    | none => o
    | some c =>
      let (c, m, s) := c.turn hash inner o.memo o.state
      ⟨m, s, o.calls.set i c⟩

/-- What a list of moves leads to. -/
def run (o : Overlap σ) (moves : List Move) : Overlap σ := moves.foldl (move hash inner) o

/-! ## A call alone -/

/-- A turn of the last call. -/
theorem move_turn_last (m : Memo) (s : σ) (calls : List Call) (c : Call) :
    move hash inner ⟨m, s, calls ++ [c]⟩ (.turn calls.length) =
      ⟨(c.turn hash inner m s).2.1, (c.turn hash inner m s).2.2,
        calls ++ [(c.turn hash inner m s).1]⟩ := by
  have hlast : (calls ++ [c])[calls.length]? = some c := List.getElem?_concat_length
  simp only [move, hlast, List.set_append_right _ _ (Nat.le_refl _), Nat.sub_self, List.set_cons_zero]

/-- A call that takes its turns one right after the other does what the memoising solver does. -/
theorem solve_eq_run (o : Overlap σ) (q : Query) (p : Patience) :
    ∃ c r, (o.run hash inner (.call q p :: List.replicate 3 (.turn o.calls.length))).calls =
        o.calls ++ [c] ∧ c.query = q ∧ c.stage = .returned r ∧
      (Solver.memo hash inner).solve q (p, o.state, o.memo) =
        (r, c.patience,
          (o.run hash inner (.call q p :: List.replicate 3 (.turn o.calls.length))).state,
          (o.run hash inner (.call q p :: List.replicate 3 (.turn o.calls.length))).memo) := by
  obtain ⟨m, s, calls⟩ := o
  simp only [run, List.replicate, List.foldl_cons, List.foldl_nil]
  rw [show move hash inner ⟨m, s, calls⟩ (.call q p) = ⟨m, s, calls ++ [⟨q, p, .asked⟩]⟩ from rfl,
    move_turn_last, move_turn_last, move_turn_last]
  cases hfind : m.find? (hash q.key) q.key with
  | some a => exact ⟨_, .ok a, rfl, by simp [Call.turn, hfind], by simp [Call.turn, hfind],
      by simp [Call.turn, Solver.memo, hfind]⟩
  | none =>
    rcases hsolve : inner.solve q (p, s) with ⟨f | a, p', s'⟩
    · exact ⟨_, .error f, rfl, by simp [Call.turn, hfind, hsolve],
        by simp [Call.turn, hfind, hsolve], by simp [Call.turn, Solver.memo, hfind, hsolve]⟩
    · exact ⟨_, .ok a, rfl, by simp [Call.turn, hfind, hsolve],
        by simp [Call.turn, hfind, hsolve], by simp [Call.turn, Solver.memo, hfind, hsolve]⟩

end Overlap

/-! ## Progress -/

section Progress

variable {σ : Type} (hash : String → UInt64) (inner : Solver σ)

/-- A turn is about the query of the call, and brings it nearer to its end. -/
theorem Call.turn_progress (c : Call) (m : Memo) (s : σ) :
    (c.turn hash inner m s).1.query = c.query ∧
      (c.turn hash inner m s).1.turnsLeft ≤ c.turnsLeft - 1 := by
  obtain ⟨q, p, stage⟩ := c
  cases stage with
  | asked =>
    simp only [turn]
    split <;> simp [turnsLeft]
  | missed =>
    simp only [turn]
    split <;> simp [turnsLeft]
  | answered a => simp [turn, turnsLeft]
  | returned r => simp [turn, turnsLeft]

/-- A call goes on by its own turns only. -/
theorem Overlap.calls_move (o : Overlap σ) (mv : Move) {i : Nat} {c : Call}
    (hc : o.calls[i]? = some c) :
    ∃ c', (o.move hash inner mv).calls[i]? = some c' ∧ c'.query = c.query ∧
      c'.turnsLeft ≤ c.turnsLeft - if mv.isTurnOf i then 1 else 0 := by
  cases mv with
  | call q p =>
    have hi : i < o.calls.length := (List.getElem?_eq_some_iff.mp hc).1
    exact ⟨c, by simp [move, List.getElem?_append_left hi, hc], rfl, by simp [Move.isTurnOf]⟩
  | turn j =>
    by_cases hj : j = i
    · subst hj
      have hi : j < o.calls.length := (List.getElem?_eq_some_iff.mp hc).1
      obtain ⟨hquery, hleft⟩ := c.turn_progress hash inner o.memo o.state
      refine ⟨_, ?_, hquery, ?_⟩
      · simp only [move, hc]
        exact List.getElem?_set_self hi
      · simpa [Move.isTurnOf] using hleft
    · refine ⟨c, ?_, rfl, by simp [Move.isTurnOf, hj]⟩
      unfold move
      dsimp only
      split
      · exact hc
      · rw [List.getElem?_set_ne hj]
        exact hc

theorem Overlap.calls_run (o : Overlap σ) (moves : List Move) {i : Nat} {c : Call}
    (hc : o.calls[i]? = some c) :
    ∃ c', (o.run hash inner moves).calls[i]? = some c' ∧ c'.query = c.query ∧
      c'.turnsLeft ≤ c.turnsLeft - moves.countP (Move.isTurnOf i) := by
  induction moves generalizing o c with
  | nil => exact ⟨c, hc, rfl, by simp⟩
  | cons mv moves ih =>
    obtain ⟨c₁, hc₁, hq₁, hleft₁⟩ := o.calls_move hash inner mv hc
    obtain ⟨c₂, hc₂, hq₂, hleft₂⟩ := ih (o.move hash inner mv) hc₁
    refine ⟨c₂, hc₂, hq₂.trans hq₁, ?_⟩
    rw [List.countP_cons]
    omega

theorem Call.turnsLeft_le (c : Call) : c.turnsLeft ≤ 3 := by
  unfold turnsLeft
  split <;> omega

theorem Call.returned_of_turnsLeft {c : Call} (h : c.turnsLeft = 0) :
    ∃ r, c.stage = .returned r := by
  unfold turnsLeft at h
  split at h
  · cases h
  · cases h
  · cases h
  · next r hr => exact ⟨r, hr⟩

end Progress

/-! ## Answers of the inner solver -/

section Sound

variable {σ : Type} (hash : String → UInt64) (patient : Patience → Prop) (fit : σ → Prop)
  (answerTo : String → Except Fault Answer)

/-- What a call has got so far is the answer of the inner solver. -/
def Call.Sound (c : Call) : Prop :=
  patient c.patience ∧
    match c.stage with
    | .asked | .missed => True
    | .answered a => answerTo c.query.key = .ok a
    | .returned r => r = answerTo c.query.key

/-- What is remembered are answers of the inner solver without failure, what calls have got are its
answers, and the look-ups were counted. -/
structure Overlap.Sound (o : Overlap σ) : Prop where
  entries : ∀ e ∈ o.memo.entries, e.hash = hash e.key ∧ answerTo e.key = .ok e.answer
  fit : fit o.state
  calls : ∀ c ∈ o.calls, c.Sound patient answerTo
  count : o.memo.hits + o.memo.misses = o.calls.countP Call.hasLooked

variable {hash patient fit answerTo} {inner : Solver σ}
  (hinner : inner.AnswersBy (fun s => patient s.1 ∧ fit s.2) fun q => answerTo q.key)

include hinner

/-- A turn on sound memory leaves it sound. It counts the look-up, if it is one. -/
theorem Call.Sound.turn {c : Call} (hc : c.Sound patient answerTo) {m : Memo} {s : σ}
    (hm : ∀ e ∈ m.entries, e.hash = hash e.key ∧ answerTo e.key = .ok e.answer) (hs : fit s) :
    (c.turn hash inner m s).1.Sound patient answerTo ∧
      (∀ e ∈ (c.turn hash inner m s).2.1.entries,
        e.hash = hash e.key ∧ answerTo e.key = .ok e.answer) ∧
      fit (c.turn hash inner m s).2.2 ∧ (c.turn hash inner m s).1.hasLooked ∧
      (c.turn hash inner m s).2.1.hits + (c.turn hash inner m s).2.1.misses =
        m.hits + m.misses + if c.hasLooked then 0 else 1 := by
  obtain ⟨q, p, stage⟩ := c
  obtain ⟨hp, hstage⟩ := hc
  cases stage with
  | asked =>
    simp only [Call.turn]
    cases hfind : m.find? (hash q.key) q.key with
    | some a =>
      obtain ⟨e, he, -, hkey, rfl⟩ := Memo.exists_of_find? hfind
      have ha : answerTo q.key = .ok e.answer := hkey ▸ (hm e he).2
      exact ⟨⟨hp, ha.symm⟩, hm, hs, rfl, by simp [Memo.hit, hasLooked]; omega⟩
    | none => exact ⟨⟨hp, trivial⟩, hm, hs, rfl, by simp [Memo.miss, hasLooked]; omega⟩
  | missed =>
    obtain ⟨hanswer, hp', hs'⟩ := hinner q (p, s) ⟨hp, hs⟩
    simp only [Call.turn]
    rcases hsolve : inner.solve q (p, s) with ⟨f | a, p', s'⟩
    · rw [hsolve] at hanswer hp' hs'
      exact ⟨⟨hp', hanswer⟩, hm, hs', rfl, by simp [hasLooked]⟩
    · rw [hsolve] at hanswer hp' hs'
      exact ⟨⟨hp', hanswer.symm⟩, hm, hs', rfl, by simp [hasLooked]⟩
  | answered a =>
    refine ⟨⟨hp, Eq.symm hstage⟩, ?_, hs, rfl, by simp [Call.turn, Memo.insert, hasLooked]⟩
    intro e he
    rcases List.mem_append.mp he with he | he
    · exact hm e he
    · cases List.mem_singleton.mp he
      exact ⟨rfl, hstage⟩
  | returned r => exact ⟨⟨hp, hstage⟩, hm, hs, rfl, by simp [Call.turn, hasLooked]⟩

/-- A move leaves calls sound, if new callers are patient. -/
theorem Overlap.Sound.move {o : Overlap σ} (h : o.Sound hash patient fit answerTo) (mv : Move)
    (hmv : ∀ q p, mv = .call q p → patient p) :
    (o.move hash inner mv).Sound hash patient fit answerTo := by
  cases mv with
  | call q p =>
    refine ⟨h.entries, h.fit, ?_, ?_⟩
    · intro c hc
      rcases List.mem_append.mp hc with hc | hc
      · exact h.calls c hc
      · cases List.mem_singleton.mp hc
        exact ⟨hmv q p rfl, trivial⟩
    · simpa [Overlap.move, List.countP_append, Call.hasLooked] using h.count
  | turn i =>
    unfold Overlap.move
    dsimp only
    split
    · exact h
    · next c hc =>
      obtain ⟨hi, hget⟩ := List.getElem?_eq_some_iff.mp hc
      obtain ⟨hsound, hentries, hfit, hlooked, hcount⟩ :=
        (h.calls c (List.mem_of_getElem? hc)).turn hinner h.entries h.fit
      refine ⟨hentries, hfit, ?_, ?_⟩
      · intro c' hc'
        rcases List.mem_or_eq_of_mem_set hc' with hc' | rfl
        · exact h.calls c' hc'
        · exact hsound
      · -- The call that took the turn counts from now on, if it did not before.
        have hpos : c.hasLooked → 0 < o.calls.countP Call.hasLooked := fun hl =>
          List.countP_pos_iff.mpr ⟨c, List.mem_of_getElem? hc, hl⟩
        have hold := h.count
        rw [List.countP_set hi, hget, hlooked]
        by_cases hl : c.hasLooked <;> simp_all

theorem Overlap.Sound.run {o : Overlap σ} (h : o.Sound hash patient fit answerTo)
    {moves : List Move} (hmoves : ∀ q p, .call q p ∈ moves → patient p) :
    (o.run hash inner moves).Sound hash patient fit answerTo := by
  induction moves generalizing o with
  | nil => exact h
  | cons mv moves ih =>
    refine ih (h.move hinner mv fun q p hq => ?_) fun q p hq => ?_
    · exact hmoves q p (by simp [hq])
    · exact hmoves q p (List.mem_cons_of_mem _ hq)

end Sound

/-- A memoising solver is transparent, also for calls that overlap. Take an inner solver whose
answer or failure is determined by the text of the query, as long as the caller is patient and its
own state is fit, and any hash, also one that confuses texts. Whatever calls are made and in
whatever order their turns come : a call has returned, at the latest after three turns of its own,
and then what the inner solver gives for its query. What is remembered are answers of the inner
solver for the texts under which they are kept, and never failures. There were as many look-ups as
hits and misses. The memoising solver is the case of a call whose turns nobody disturbs. -/
theorem Solver.memo_transparent {σ : Type} (hash : String → UInt64) (inner : Solver σ)
    {patient : Patience → Prop} {fit : σ → Prop} {answerTo : String → Except Fault Answer}
    (hinner : inner.AnswersBy (fun s => patient s.1 ∧ fit s.2) fun q => answerTo q.key)
    {state : σ} (hstate : fit state) {moves : List Move}
    (hmoves : ∀ q p, .call q p ∈ moves → patient p) :
    let o := Overlap.run hash inner { state } moves
    (∀ c ∈ o.calls, ∀ r, c.stage = .returned r → r = answerTo c.query.key) ∧
      (∀ i c, o.calls[i]? = some c → ∀ more : List Move,
        (∀ q p, .call q p ∈ more → patient p) → 3 ≤ more.countP (Move.isTurnOf i) →
        ∃ c', (o.run hash inner more).calls[i]? = some c' ∧ c'.query = c.query ∧
          c'.stage = .returned (answerTo c.query.key)) ∧
      (∀ e ∈ o.memo.entries, answerTo e.key = .ok e.answer) ∧
      o.memo.hits + o.memo.misses = o.calls.countP Call.hasLooked ∧
      ∀ q p, patient p → ∃ c,
        (o.run hash inner (.call q p :: List.replicate 3 (.turn o.calls.length))).calls =
          o.calls ++ [c] ∧
        ((Solver.memo hash inner).solve q (p, o.state, o.memo)).1 = answerTo q.key ∧
        c.stage = .returned ((Solver.memo hash inner).solve q (p, o.state, o.memo)).1 := by
  intro o
  have hstart : Overlap.Sound hash patient fit answerTo { state } :=
    ⟨by simp, hstate, by simp, rfl⟩
  have ho : o.Sound hash patient fit answerTo := hstart.run hinner hmoves
  -- A call that has returned has returned what the inner solver gives.
  have hreturned : ∀ {o' : Overlap σ}, o'.Sound hash patient fit answerTo → ∀ c ∈ o'.calls, ∀ r,
      c.stage = .returned r → r = answerTo c.query.key := by
    intro o' ho' c hc r hr
    have hsound := (ho'.calls c hc).2
    rwa [hr] at hsound
  refine ⟨hreturned ho, ?_, fun e he => (ho.entries e he).2, ho.count, ?_⟩
  · intro i c hc more hmore hthree
    obtain ⟨c', hc', hquery, hleft⟩ := o.calls_run hash inner more hc
    have hle := c.turnsLeft_le
    obtain ⟨r, hr⟩ := Call.returned_of_turnsLeft (c := c') (by omega)
    have hr' := hreturned (ho.run hinner hmore) c' (List.mem_of_getElem? hc') r hr
    exact ⟨c', hc', hquery, by rw [hr, hr', hquery]⟩
  · intro q p hp
    obtain ⟨c, r, hcalls, rfl, hr, hsolve⟩ := o.solve_eq_run hash inner q p
    have hmore : ∀ q' p', Move.call q' p' ∈
        (Move.call c.query p :: List.replicate 3 (.turn o.calls.length)) → patient p' := by
      intro q' p' hmem
      rcases List.mem_cons.mp hmem with h | h
      · cases h
        exact hp
      · cases List.eq_of_mem_replicate h
    have hr' := hreturned (ho.run hinner hmore) c (by rw [hcalls]; simp) r hr
    exact ⟨c, hcalls, by rw [hsolve]; exact hr', by rw [hsolve]; exact hr⟩

/-- The answers of a solver that fails on all but one text. -/
def answerToOnly (text : String) (key : String) : Except Fault Answer :=
  if key = text then .ok .unsat else .error (.reported "unknown")

/-- Two calls for `a` both miss before either has put an answer in, a call for `b` fails after its
look-up, and a last call for `a` finds the answer. -/
def overlappingMoves : List Move :=
  [.call ⟨[], [.ident "a"]⟩ .unlimited, .call ⟨[], [.ident "a"]⟩ .unlimited,
    .call ⟨[], [.ident "b"]⟩ .unlimited, .turn 0, .turn 1, .turn 2, .turn 1, .turn 2, .turn 0,
    .turn 0, .call ⟨[], [.ident "a"]⟩ .unlimited, .turn 3, .turn 1]

/-- The calls of `overlappingMoves`, under a hash that confuses all texts. -/
def overlappingCalls : Overlap Unit :=
  Overlap.run (fun _ => 0) ⟨fun q s => (answerToOnly "|a;" q.key, s)⟩ { state := () }
    overlappingMoves

theorem Solver.memo_transparent_overlappingCalls :
    overlappingCalls.memo.entries.map (·.key) = ["|a;", "|a;"] ∧
      (overlappingCalls.memo.hits, overlappingCalls.memo.misses) = (1, 3) ∧
      (∀ c ∈ overlappingCalls.calls, ∀ r, c.stage = .returned r →
        r = answerToOnly "|a;" c.query.key) ∧
      (∀ e ∈ overlappingCalls.memo.entries, answerToOnly "|a;" e.key = .ok e.answer) ∧
      overlappingCalls.memo.hits + overlappingCalls.memo.misses =
        overlappingCalls.calls.countP Call.hasLooked := by
  have h := @Solver.memo_transparent Unit (fun _ => 0)
    ⟨fun q s => (answerToOnly "|a;" q.key, s)⟩ (fun _ => True) (fun _ => True)
    (answerToOnly "|a;") (fun _ _ _ => ⟨rfl, trivial, trivial⟩) () trivial overlappingMoves
    (fun _ _ _ => trivial)
  exact ⟨by decide, by decide, h.1, h.2.2.1, h.2.2.2.1⟩

end PathTree
