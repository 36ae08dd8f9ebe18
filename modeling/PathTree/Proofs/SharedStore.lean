import PathTree.Proofs.Cancellation
import PathTree.Proofs.Salts
import PathTree.Proofs.SavedRecords

/-!
# Engines that share their stored results

Engines are made at different times, with settings and names of their own, over one tree of files.
Each one opens the store that is saved in its directory when it is made, looks texts up in it, and
saves it as a whole after every outcome that it puts in. So it gives outcomes back that another
engine has worked out. A `History` is what came of a list of such events.

`History.store_transparent` : every request is answered as if nothing were stored, and only requests
with one text, from engines that agree on all that the outcome depends on, have one key. An outcome
that was saved in between may have been given its stored form. What this takes of the requests is
said by `Unambiguous` ; in the history of `History.answered_for_other_names` two engines are given
other names, and the names give one text.
-/

namespace PathTree

/-! ## Histories -/

/-- An engine in use, with its store and what its solver remembers. -/
structure Client where
  engine : Engine Settings.SolverState
  store : Option (Store FileOutcome)
  state : Settings.SolverState

/-- Where a client works. -/
def Client.workspace (c : Client) (files : Files) (patience : Patience) (now : Int) :
    Workspace Settings.SolverState :=
  { patience, state := c.state, files, store := c.store, now }

/-- A request for the outcome of a text : which client it was made to, how long its caller is
willing to wait, and what was answered. -/
structure Request where
  client : Nat
  engine : Engine Settings.SolverState
  filename : String
  src : String
  patience : Patience
  result : Except RunFault FileOutcome

/-- What happens. -/
inductive ClientEvent where
  /-- An engine is made. If that fails, nothing has happened. -/
  | start (settings : Settings) (funcs : List String)
  /-- A request is made to a client, at a time. -/
  | request (client : Nat) (filename src : String) (patience : Patience) (now : Int)

/-- The files, the clients in the order in which they were made, and the requests in order. -/
structure History where
  files : Files := {}
  clients : List Client := []
  requests : List Request := []

namespace History

/-- An engine is made, if that does not fail. -/
def start (h : History) (settings : Settings) (funcs : List String) : History :=
  match Engine.create settings settings.newSolver funcs with
  | .error _ => h
  | .ok e =>
    match e.enter ((), {}) .unlimited h.files with
    | .error _ => h
    | .ok w => { h with files := w.files, clients := h.clients ++ [⟨e, w.store, w.state⟩] }

/-- A request is made to a client. -/
def request (h : History) (i : Nat) (filename src : String) (patience : Patience) (now : Int) :
    History :=
  match h.clients[i]? with
  | none => h
  | some c =>
    let (result, w) := effect (c.engine.runSource filename src) (c.workspace h.files patience now)
    { files := w.files
      clients := h.clients.set i ⟨c.engine, w.store, w.state⟩
      requests := h.requests ++ [⟨i, c.engine, filename, src, patience, result⟩] }

/-- What comes of an event. -/
def step (h : History) : ClientEvent → History
  | .start settings funcs => h.start settings funcs
  | .request i filename src patience now => h.request i filename src patience now

/-- What comes of events. -/
def run (h : History) (events : List ClientEvent) : History := events.foldl step h

end History

/-! ## Requests -/

namespace Request

/-- The key that the outcome of a request is stored under. -/
def key (r : Request) : UInt64 := Store.keyOf r.src r.engine.salt

/-- What the engine of a request gives when it is new and has no store, to a caller who waits. -/
def unstored (r : Request) : Except RunFault FileOutcome :=
  (effect (r.engine.runSource r.filename r.src) { patience := .unlimited, state := ((), {}) }).1

/-- A request is answered as if nothing were stored, up to the form of outcomes that were saved,
unless its caller did not want to wait. -/
def Answered (r : Request) : Prop :=
  r.result = r.unstored ∨ r.result = r.unstored.map FileOutcome.stored ∨
    ∃ n why, r.patience = .times n why ∧ r.result = .error (.stopped why.fault)

end Request

/-- Requests that a store can tell apart. -/
structure Unambiguous (requests : List Request) : Prop where
  /-- Engines are given names that functions can have. -/
  names : ∀ r ∈ requests, ∀ name ∈ r.engine.funcs, isFuncName name
  /-- Different texts and salts have different keys. -/
  keys : ∀ r ∈ requests, ∀ r' ∈ requests, r.key = r'.key →
    r.src = r'.src ∧ r.engine.salt = r'.engine.salt
  /-- What a client is asked for two texts, it answers alike for each of them alone. -/
  answers : ∀ r ∈ requests, ∀ r' ∈ requests, r.client = r'.client →
    (r.engine.remembered r.filename r.src).WithinOn (r'.engine.queries r'.filename r'.src)
      (r'.engine.remembered r'.filename r'.src)

theorem Unambiguous.mono {requests requests' : List Request} (h : Unambiguous requests')
    (hsub : requests ⊆ requests') : Unambiguous requests where
  names r hr := h.names r (hsub hr)
  keys r hr r' hr' := h.keys r (hsub hr) r' (hsub hr')
  answers r hr r' hr' := h.answers r (hsub hr) r' (hsub hr')

/-! ## Engines of one key -/

namespace Engine

/-- An engine has the solver that its settings name. -/
structure IsStandard (e : Engine Settings.SolverState) : Prop where
  named : e.settings.solver = "bounded"
  solver : e.solver = Solver.memo Digest.ofText (.bounded e.settings.bounded)

theorem isStandard_of_create {settings : Settings} {funcs : List String}
    {e : Engine Settings.SolverState} (he : create settings settings.newSolver funcs = .ok e) :
    e.IsStandard := by
  obtain rfl := create_eq_ok he
  refine ⟨?_, rfl⟩
  obtain ⟨_, hvalid, he⟩ := bind_eq_ok.mp he
  obtain ⟨solver, hsolver, -⟩ := bind_eq_ok.mp he
  have hknown : settings.solver = "bounded" ∨ settings.solver = "z3" := by
    by_contra hnone
    simp [Settings.validate, Settings.solverNames, not_or.mp hnone, Except.mapError] at hvalid
  refine hknown.resolve_right fun hz3 => ?_
  simp [Settings.newSolver, hz3, Except.mapError] at hsolver

/-- Engines that agree give the same, each one alone. -/
theorem Agrees.alone_eq {e e' : Engine Settings.SolverState} (h : e.Agrees e') (he : e.IsStandard)
    (he' : e'.IsStandard) (filename src : String) :
    (e.alone filename src).1 = (e'.alone filename src).1 := by
  have hsolver : e.solver = e'.solver := by rw [he.solver, he'.solver, h.bounded]
  exact (workOut_viewing id h.alike (fun q t => by rw [hsolver]; rfl) filename src rfl).1

/-- What a run does that starts with answers which the run alone finds too, as far as it asks for
them : it gives what it finds, or else what the run alone gives, or its caller was not willing to
wait. -/
theorem runSource_resumed {e : Engine Settings.SolverState} (he : e.IsStandard)
    {filename src : String} {w : Workspace Settings.SolverState}
    (hw : w.state.2.WithinOn (e.queries filename src) (e.remembered filename src)) :
    (effect (e.runSource filename src) w).2.state.2.WithinEither w.state.2
        (e.remembered filename src) ∧
      ((∃ out, found filename (Store.keyOf src e.salt) w.store w.now = some out ∧
          (effect (e.runSource filename src) w).1 = .ok out) ∨
        (effect (e.runSource filename src) w).1 = (e.alone filename src).1 ∨
        ∃ n why, w.patience = .times n why ∧
          (effect (e.runSource filename src) w).1 = .error (.stopped why.fault)) := by
  rw [effect_runSource]
  cases found filename (Store.keyOf src e.salt) w.store w.now with
  | some out => exact ⟨fun _ _ _ h => Or.inl h, Or.inl ⟨out, rfl, rfl⟩⟩
  | none =>
    obtain ⟨-, hmemo, hres⟩ := workOut_resumed he.solver filename src
      (w := lookedUp filename (Store.keyOf src e.salt) w) hw
    dsimp only
    rcases heffect : effect (e.workOut filename src)
      (lookedUp filename (Store.keyOf src e.salt) w) with ⟨f | out, w'⟩
    · rw [heffect] at hmemo hres
      exact ⟨hmemo, Or.inr hres⟩
    · rw [heffect] at hmemo hres
      have hstate := (rememberIn_eq e filename (Store.keyOf src e.salt) out w').2.1
      refine ⟨?_, Or.inr hres⟩
      dsimp only
      rw [hstate]
      exact hmemo

end Engine

/-- Without a store a request is answered by the run alone. -/
theorem Request.unstored_eq {r : Request} (hr : r.engine.IsStandard) :
    r.unstored = (r.engine.alone r.filename r.src).1 :=
  Engine.runSource_of_unlimited hr.solver (Memo.within_of_empty _) rfl

/-- Requests for one text of one file, made to engines that agree, have one answer. -/
theorem Request.unstored_congr {r r' : Request} (hr : r.engine.IsStandard)
    (hr' : r'.engine.IsStandard) (hagrees : r.engine.Agrees r'.engine)
    (hfilename : r.filename = r'.filename) (hsrc : r.src = r'.src) : r.unstored = r'.unstored := by
  rw [unstored_eq hr, unstored_eq hr', hfilename, hsrc, hagrees.alone_eq hr hr']

/-- Requests of one key are for one text, and their engines agree. -/
theorem Unambiguous.agrees {requests : List Request} (h : Unambiguous requests)
    (hstandard : ∀ r ∈ requests, r.engine.IsStandard) {r r' : Request} (hr : r ∈ requests)
    (hr' : r' ∈ requests) (hkey : r.key = r'.key) :
    r.src = r'.src ∧ r.engine.Agrees r'.engine := by
  obtain ⟨hsrc, hsalt⟩ := h.keys r hr r' hr' hkey
  refine ⟨hsrc, Engine.agrees_of_salt_eq ?_ (h.names r hr) (h.names r' hr') hsalt⟩
  rw [(hstandard r hr).named, (hstandard r' hr').named]

/-! ## What the requests account for -/

/-- Whether a stored outcome comes from one of the requests : it is what the request is answered
without a store, as it is or as it is saved. -/
def StoredBy (requests : List Request) (name : String) (s : Stored FileOutcome) : Prop :=
  ∃ r ∈ requests, r.filename = name ∧ r.key = s.key ∧
    ∃ out, r.unstored = .ok out ∧ (s.value = out ∨ s.value = out.stored)

theorem StoredBy.mono {requests requests' : List Request} (hsub : requests ⊆ requests')
    {name : String} {s : Stored FileOutcome} (h : StoredBy requests name s) :
    StoredBy requests' name s := by
  obtain ⟨r, hr, hrest⟩ := h
  exact ⟨r, hsub hr, hrest⟩

theorem StoredBy.packed {requests : List Request} {name : String} {s : Stored FileOutcome}
    (h : StoredBy requests name s) :
    StoredBy requests name { s with value := s.value.stored } := by
  obtain ⟨r, hr, hname, hkey, out, hout, hvalue⟩ := h
  refine ⟨r, hr, hname, hkey, out, hout, Or.inr ?_⟩
  rcases hvalue with hvalue | hvalue
  · rw [hvalue]
  · rw [hvalue, FileOutcome.stored_stored]

namespace History

variable {h : History}

/-- Everything that is stored, saved or remembered comes from the requests, and these were
answered. -/
structure Accounted (h : History) : Prop where
  files : h.files.AllSaved fun records => ∀ s ∈ records, StoredBy h.requests s.1 s.2
  stores : ∀ c ∈ h.clients, ∀ s ∈ c.store, ∀ entry ∈ s.entries,
    StoredBy h.requests entry.1 entry.2
  standard : ∀ c ∈ h.clients, c.engine.IsStandard
  requested : ∀ r ∈ h.requests, r.engine.IsStandard
  remembered : ∀ i c, h.clients[i]? = some c → ∀ hash key a, c.state.2.find? hash key = some a →
    ∃ r ∈ h.requests, r.client = i ∧
      (r.engine.remembered r.filename r.src).find? hash key = some a
  answered : ∀ r ∈ h.requests, r.Answered

/-- An engine that is made knows nothing but what was saved. -/
theorem Accounted.start (hh : h.Accounted) (settings : Settings) (funcs : List String) :
    (h.start settings funcs).Accounted := by
  unfold History.start
  split
  · exact hh
  · next e he =>
    split
    · exact hh
    · next w hw =>
      have hstored := Engine.allStored_enter hh.files hw
      have hstate : w.state = ((), {}) := Engine.state_enter hw
      refine ⟨hstored.files, ?_, ?_, hh.requested, ?_, hh.answered⟩
      · intro c hc
        rcases List.mem_append.mp hc with hc | hc
        · exact hh.stores c hc
        · cases List.mem_singleton.mp hc
          exact hstored.store
      · intro c hc
        rcases List.mem_append.mp hc with hc | hc
        · exact hh.standard c hc
        · cases List.mem_singleton.mp hc
          exact Engine.isStandard_of_create he
      · intro i c hc hash key a ha
        rcases lt_or_ge i h.clients.length with hi | hi
        · rw [List.getElem?_append_left hi] at hc
          exact hh.remembered i c hc hash key a ha
        · rw [List.getElem?_append_right hi] at hc
          cases List.mem_singleton.mp (List.mem_of_getElem? hc)
          rw [hstate] at ha
          cases ha

/-- A client remembers nothing for a request that the run alone would not find. -/
theorem Accounted.withinOn (hh : h.Accounted) {r : Request} {c : Client}
    (hu : Unambiguous (h.requests ++ [r])) (hc : h.clients[r.client]? = some c) :
    c.state.2.WithinOn (r.engine.queries r.filename r.src)
      (r.engine.remembered r.filename r.src) := by
  intro q hq a ha
  obtain ⟨r', hr', hclient, ha'⟩ := hh.remembered r.client c hc _ _ _ ha
  exact hu.answers r' (by simp [hr']) r (by simp) hclient q hq a ha'

/-- A request for which an outcome was found that is stored by earlier requests is answered. -/
theorem Accounted.answered_of_found (hh : h.Accounted) {r : Request} (hr : r.engine.IsStandard)
    (hu : Unambiguous (h.requests ++ [r])) {out : FileOutcome} {createdAt : Int}
    (hstored : StoredBy h.requests r.filename ⟨r.key, out, createdAt⟩) (hout : r.result = .ok out) :
    r.Answered := by
  obtain ⟨r', hr', hfilename, hkey, out', hout', hvalue⟩ := hstored
  have hstandard : ∀ r' ∈ h.requests ++ [r], r'.engine.IsStandard := by
    intro r' hr'
    rcases List.mem_append.mp hr' with hr' | hr'
    · exact hh.requested r' hr'
    · cases List.mem_singleton.mp hr'
      exact hr
  obtain ⟨hsrc, hagrees⟩ := hu.agrees hstandard (by simp [hr']) (by simp) hkey
  have hsame := Request.unstored_congr (hh.requested r' hr') hr hagrees hfilename hsrc
  rw [hsame] at hout'
  rcases hvalue with rfl | rfl
  · exact Or.inl (hout.trans hout'.symm)
  · exact Or.inr (Or.inl (by rw [hout, hout']; rfl))

/-- The request for a text to a client, with what it gives. -/
def asked (h : History) (i : Nat) (c : Client) (filename src : String) (patience : Patience)
    (now : Int) : Request :=
  ⟨i, c.engine, filename, src, patience,
    (effect (c.engine.runSource filename src) (c.workspace h.files patience now)).1⟩

section Asked

variable {i : Nat} {c : Client} {filename src : String} {patience : Patience} {now : Int}

theorem request_eq (hc : h.clients[i]? = some c) : h.request i filename src patience now =
    let w := (effect (c.engine.runSource filename src) (c.workspace h.files patience now)).2
    { files := w.files
      clients := h.clients.set i ⟨c.engine, w.store, w.state⟩
      requests := h.requests ++ [h.asked i c filename src patience now] } := by
  simp only [History.request, hc]
  rfl

variable (hh : h.Accounted) (hc : h.clients[i]? = some c)
  (hu : Unambiguous (h.requests ++ [h.asked i c filename src patience now]))

include hh hc hu

theorem Accounted.withinOn_asked : (c.workspace h.files patience now).state.2.WithinOn
    (c.engine.queries filename src) (c.engine.remembered filename src) :=
  hh.withinOn (r := h.asked i c filename src patience now) hu hc

theorem Accounted.answered_asked : (h.asked i c filename src patience now).Answered := by
  have hstandard := hh.standard c (List.mem_of_getElem? hc)
  have hstart : (c.workspace h.files patience now).AllStored (StoredBy h.requests) :=
    ⟨hh.files, hh.stores c (List.mem_of_getElem? hc)⟩
  rcases (Engine.runSource_resumed hstandard (hh.withinOn_asked hc hu)).2 with
    ⟨out, hfound, hout⟩ | hout | hstopped
  · obtain ⟨createdAt, hstored⟩ := hstart.found hfound
    exact hh.answered_of_found hstandard hu hstored hout
  · refine Or.inl (hout.trans ?_)
    exact (Request.unstored_eq (r := h.asked i c filename src patience now) hstandard).symm
  · exact Or.inr (Or.inr hstopped)

/-- All that is stored after a request comes from it or from earlier ones. -/
theorem Accounted.allStored_asked :
    (effect (c.engine.runSource filename src) (c.workspace h.files patience now)).2.AllStored
      (StoredBy (h.requests ++ [h.asked i c filename src patience now])) := by
  have hstandard := hh.standard c (List.mem_of_getElem? hc)
  have hstart : (c.workspace h.files patience now).AllStored (StoredBy h.requests) :=
    ⟨hh.files, hh.stores c (List.mem_of_getElem? hc)⟩
  refine Workspace.AllStored.runSource (fun _ _ => StoredBy.packed)
    (hstart.mono fun _ _ => StoredBy.mono (List.subset_append_left _ _)) c.engine ?_
  intro res w' heffect
  obtain ⟨hrest, -, hwork⟩ := Engine.workOut_resumed hstandard.solver filename src
    (w := Engine.lookedUp filename (Store.keyOf src c.engine.salt)
      (c.workspace h.files patience now)) (hh.withinOn_asked hc hu)
  rw [heffect] at hrest hwork
  refine ⟨hrest, ?_⟩
  rintro out rfl
  rcases hwork with hwork | ⟨_, _, -, hwork⟩
  · exact ⟨h.asked i c filename src patience now, by simp, rfl, rfl, out,
      (Request.unstored_eq hstandard).trans hwork.symm, Or.inl rfl⟩
  · cases hwork

/-- What a client remembers after a request comes from it or from earlier ones to that client. -/
theorem Accounted.remembered_asked {j : Nat} {c' : Client}
    (hc' : (h.request i filename src patience now).clients[j]? = some c') {hash : UInt64}
    {key : String} {a : Answer} (ha : c'.state.2.find? hash key = some a) :
    ∃ r ∈ h.requests ++ [h.asked i c filename src patience now], r.client = j ∧
      (r.engine.remembered r.filename r.src).find? hash key = some a := by
  have hearlier {j : Nat} {c' : Client} (hc' : h.clients[j]? = some c')
      (ha : c'.state.2.find? hash key = some a) :
      ∃ r ∈ h.requests ++ [h.asked i c filename src patience now], r.client = j ∧
        (r.engine.remembered r.filename r.src).find? hash key = some a := by
    obtain ⟨r, hr, hrest⟩ := hh.remembered j c' hc' hash key a ha
    exact ⟨r, List.mem_append_left _ hr, hrest⟩
  rw [request_eq hc] at hc'
  by_cases hj : i = j
  · subst hj
    obtain ⟨hi, -⟩ := List.getElem?_eq_some_iff.mp hc
    rw [List.getElem?_set_self hi] at hc'
    cases hc'
    have hstandard := hh.standard c (List.mem_of_getElem? hc)
    rcases (Engine.runSource_resumed hstandard (hh.withinOn_asked hc hu)).1 hash key a ha with
      ha | ha
    · exact hearlier hc ha
    · exact ⟨h.asked i c filename src patience now, by simp, rfl, ha⟩
  · rw [List.getElem?_set_ne hj] at hc'
    exact hearlier hc' ha

end Asked

/-- A request is answered, and what it leaves behind is accounted for. -/
theorem Accounted.request (hh : h.Accounted) (i : Nat) (filename src : String)
    (patience : Patience) (now : Int)
    (hu : Unambiguous (h.request i filename src patience now).requests) :
    (h.request i filename src patience now).Accounted := by
  cases hc : h.clients[i]? with
  | none =>
    rw [History.request, hc]
    exact hh
  | some c =>
    rw [request_eq hc] at hu ⊢
    have hstandard := hh.standard c (List.mem_of_getElem? hc)
    have hstored := hh.allStored_asked hc hu
    refine ⟨hstored.files, ?_, ?_, ?_, ?_, ?_⟩
    · intro c' hc'
      rcases List.mem_or_eq_of_mem_set hc' with hc' | rfl
      · exact fun s hs entry hentry =>
          (hh.stores c' hc' s hs entry hentry).mono (List.subset_append_left _ _)
      · exact hstored.store
    · intro c' hc'
      rcases List.mem_or_eq_of_mem_set hc' with hc' | rfl
      · exact hh.standard c' hc'
      · exact hstandard
    · intro r hr
      rcases List.mem_append.mp hr with hr | hr
      · exact hh.requested r hr
      · cases List.mem_singleton.mp hr
        exact hstandard
    · intro j c' hc' hash key a ha
      exact hh.remembered_asked hc hu (request_eq hc ▸ hc') ha
    · intro r hr
      rcases List.mem_append.mp hr with hr | hr
      · exact hh.answered r hr
      · cases List.mem_singleton.mp hr
        exact hh.answered_asked hc hu

/-! ## Histories -/

theorem requests_start (h : History) (settings : Settings) (funcs : List String) :
    (h.start settings funcs).requests = h.requests := by
  unfold History.start
  split
  · rfl
  · split <;> rfl

theorem requests_subset_request (h : History) (i : Nat) (filename src : String)
    (patience : Patience) (now : Int) :
    h.requests ⊆ (h.request i filename src patience now).requests := by
  unfold History.request
  split
  · exact List.Subset.refl _
  · exact List.subset_append_left _ _

theorem requests_subset_run (h : History) (events : List ClientEvent) :
    h.requests ⊆ (h.run events).requests := by
  induction events generalizing h with
  | nil => exact List.Subset.refl _
  | cons ev events ih =>
    refine List.Subset.trans ?_ (ih (h.step ev))
    cases ev with
    | start settings funcs =>
      rw [show h.step (.start settings funcs) = h.start settings funcs from rfl, requests_start]
      exact List.Subset.refl _
    | request i filename src patience now =>
      exact h.requests_subset_request i filename src patience now

theorem Accounted.run (hh : h.Accounted) {events : List ClientEvent}
    (hu : Unambiguous (h.run events).requests) : (h.run events).Accounted := by
  induction events generalizing h with
  | nil => exact hh
  | cons ev events ih =>
    refine ih ?_ hu
    have hstep : Unambiguous (h.step ev).requests := hu.mono (requests_subset_run _ events)
    cases ev with
    | start settings funcs => exact hh.start settings funcs
    | request i filename src patience now => exact hh.request i filename src patience now hstep

theorem accounted_of_empty {files : Files} (hfiles : files.AllSaved fun records => records = []) :
    Accounted { files } where
  files := hfiles.mono (by rintro records rfl; simp)
  stores := by simp
  standard := by simp
  requested := by simp
  remembered := by simp
  answered := by simp

/-- Stored results are transparent. Take any engines that are made over one tree of files in which
nothing is saved yet, with any settings and names, and any requests to them in any order. If the
store can tell the requests apart, each of them is answered as a new engine answers it that has no
store, up to the form of outcomes that were saved, unless its caller did not want to wait. Only
requests for one text share a key, and then their engines agree on all that an outcome depends
on. -/
theorem store_transparent {files : Files} (hfiles : files.AllSaved fun records => records = [])
    {events : List ClientEvent} (hu : Unambiguous (History.run { files } events).requests) :
    (∀ r ∈ (History.run { files } events).requests, r.Answered) ∧
      ∀ r ∈ (History.run { files } events).requests,
        ∀ r' ∈ (History.run { files } events).requests, r.key = r'.key →
          r.src = r'.src ∧ r.engine.Agrees r'.engine := by
  have hend := (accounted_of_empty hfiles).run hu
  exact ⟨hend.answered, fun r hr r' hr' hkey => hu.agrees hend.requested hr hr' hkey⟩

/-! ## One client after the other -/

/-- Settings with which results are stored. -/
def storingSettings : Settings := { cacheDir := "c" }

/-- A source with one function. -/
def plainSource : String := "package p\nfunc a() \x7b\n\x7d\n"

/-- The engine of `storingSettings` for functions of given names. -/
def storingEngine (funcs : List String) : Engine Settings.SolverState :=
  ⟨storingSettings, Solver.memo Digest.ofText (.bounded .standard), funcs, false⟩

/-- An engine is made and asked for `plainSource`, and then another one is made and asked for it. -/
def oneAfterTheOther (funcs funcs' : List String) : List ClientEvent :=
  [.start storingSettings funcs, .request 0 "a.go" plainSource .unlimited 0,
    .start storingSettings funcs', .request 1 "a.go" plainSource .unlimited 1]

section Request

variable {h : History} {i : Nat} {c : Client} (hc : h.clients[i]? = some c) (filename src : String)
  (patience : Patience) (now : Int)

include hc

theorem files_request : (h.request i filename src patience now).files =
    (effect (c.engine.runSource filename src) (c.workspace h.files patience now)).2.files := by
  unfold History.request
  rw [hc]

theorem length_clients_request :
    (h.request i filename src patience now).clients.length = h.clients.length := by
  unfold History.request
  rw [hc]
  exact List.length_set

theorem requests_request : (h.request i filename src patience now).requests =
    h.requests ++ [⟨i, c.engine, filename, src, patience,
      (effect (c.engine.runSource filename src) (c.workspace h.files patience now)).1⟩] := by
  unfold History.request
  rw [hc]

end Request

theorem start_storingSettings {h : History} {files : Files} {s : Store FileOutcome}
    (hopen : Store.openAt h.files "c" = .ok (s, files)) (funcs : List String) :
    h.start storingSettings funcs =
      { h with files, clients := h.clients ++ [⟨storingEngine funcs, some s, ((), {})⟩] } := by
  have hcreate : Engine.create storingSettings storingSettings.newSolver funcs =
      .ok (storingEngine funcs) := rfl
  have hdir : (storingEngine funcs).settings.cacheDir ≠ "" := by
    simp [storingEngine, storingSettings]
  unfold History.start
  simp only [hcreate, Engine.enter_of_openAt hdir hopen]

/-- A tree in which an outcome of `plainSource` is saved. -/
def savedFiles (key : UInt64) (out : FileOutcome) : Files :=
  ⟨[(["c", "tpath_cache.gob"], .saved [("a.go", ⟨key, out, 0⟩)]), (["c"], .dir)]⟩

theorem saveAt_storingSettings (key : UInt64) (out : FileOutcome) :
    (Store.put {} 0 "a.go" key out).saveAt FileOutcome.stored ⟨[(["c"], .dir)]⟩ "c" =
      .ok (savedFiles key out.stored) := rfl

theorem openAt_savedFiles (key : UInt64) (out : FileOutcome) :
    Store.openAt (savedFiles key out) "c" =
      .ok ({ entries := [("a.go", ⟨key, out, 0⟩)] }, savedFiles key out) := rfl

theorem found_saved (key : UInt64) (out : FileOutcome) (now : Int) :
    Engine.found "a.go" key (some { entries := [("a.go", ⟨key, out, 0⟩)] }) now = some out := by
  simp [Engine.found, Store.get?, Table.get?, Store.serves]

/-- The first engine works the text out and saves the outcome. -/
theorem runSource_storingEngine {funcs : List String} {out : FileOutcome}
    (hout : ((storingEngine funcs).alone "a.go" plainSource).1 = .ok out)
    {w : Workspace Settings.SolverState} (hpatience : w.patience = .unlimited)
    (hstate : w.state = ((), {})) (hfiles : w.files = ⟨[(["c"], .dir)]⟩)
    (hstore : w.store = some {}) (hnow : w.now = 0) :
    (effect ((storingEngine funcs).runSource "a.go" plainSource) w).1 = .ok out ∧
      (effect ((storingEngine funcs).runSource "a.go" plainSource) w).2.files =
        savedFiles (Store.keyOf plainSource (storingEngine funcs).salt) out.stored := by
  set key := Store.keyOf plainSource (storingEngine funcs).salt with hkey
  have hfound : Engine.found "a.go" key w.store w.now = none := by rw [hstore]; rfl
  have hlooked : Engine.lookedUp "a.go" key w = w := by
    have hsame : { w with store := some {} } = w := by rw [← hstore]
    unfold Engine.lookedUp
    rw [hstore]
    exact hsame
  obtain ⟨hrest, -, hres⟩ := Engine.workOut_resumed (e := storingEngine funcs) (b := .standard) rfl
    "a.go" plainSource (w := w) fun _ _ _ ha => by rw [hstate] at ha; cases ha
  rcases hwork : effect ((storingEngine funcs).workOut "a.go" plainSource) w with ⟨res, w'⟩
  rw [hwork] at hrest hres
  obtain ⟨hfiles', hrest⟩ := Prod.mk.inj hrest
  obtain ⟨hstore', hnow'⟩ := Prod.mk.inj hrest
  have hok : res = .ok out := by
    rcases hres with hres | ⟨n, why, hp, -⟩
    · exact hres.trans hout
    · rw [hpatience] at hp
      cases hp
  rw [Engine.effect_runSource_of_ok hfound (by rw [← hkey, hlooked, hwork, hok])]
  refine ⟨rfl, Engine.files_rememberIn (hstore'.trans hstore) ?_⟩
  rw [hfiles', hfiles, hnow', hnow]
  exact saveAt_storingSettings key out

/-- If the salts are the same, the second engine gives what the first one has worked out. -/
theorem requests_oneAfterTheOther {funcs funcs' : List String} {out : FileOutcome}
    (hsalt : (storingEngine funcs').salt = (storingEngine funcs).salt)
    (hout : ((storingEngine funcs).alone "a.go" plainSource).1 = .ok out) :
    (History.run {} (oneAfterTheOther funcs funcs')).requests =
      [⟨0, storingEngine funcs, "a.go", plainSource, .unlimited, .ok out⟩,
        ⟨1, storingEngine funcs', "a.go", plainSource, .unlimited, .ok out.stored⟩] := by
  let key := Store.keyOf plainSource (storingEngine funcs).salt
  let first : Client := ⟨storingEngine funcs, some {}, ((), {})⟩
  let second : Client :=
    ⟨storingEngine funcs', some { entries := [("a.go", ⟨key, out.stored, 0⟩)] }, ((), {})⟩
  obtain ⟨hresult, hfiles⟩ := runSource_storingEngine hout
    (w := first.workspace ⟨[(["c"], .dir)]⟩ .unlimited 0) rfl rfl rfl rfl rfl
  have hanswer : ∀ files, (effect ((storingEngine funcs').runSource "a.go" plainSource)
      (second.workspace files .unlimited 1)).1 = .ok out.stored := by
    intro files
    refine congrArg Prod.fst (Engine.effect_runSource_of_found ?_)
    rw [hsalt]
    exact found_saved key out.stored 1
  -- The history behind each of the events.
  let h₁ : History := ⟨⟨[(["c"], .dir)]⟩, [first], []⟩
  have hstart : History.start {} storingSettings funcs = h₁ := start_storingSettings rfl funcs
  have hfirst : h₁.clients[0]? = some first := rfl
  have hrequests := requests_request hfirst "a.go" plainSource .unlimited 0
  have hclients := length_clients_request hfirst "a.go" plainSource .unlimited 0
  have hsaved := (files_request hfirst "a.go" plainSource .unlimited 0).trans hfiles
  generalize hh₂ : h₁.request 0 "a.go" plainSource .unlimited 0 = h₂ at hrequests hclients hsaved
  have hrestart := start_storingSettings (h := h₂)
    ((congrArg (Store.openAt · "c") hsaved).trans (openAt_savedFiles key out.stored)) funcs'
  have hsecond : (h₂.clients ++ [second])[1]? = some second := by
    rw [List.getElem?_append_right (by rw [hclients]; rfl), hclients]
    rfl
  simp only [History.run, oneAfterTheOther, List.foldl_cons, List.foldl_nil, step]
  rw [hstart, hh₂, hrestart, requests_request hsecond, hrequests, hanswer]
  rw [hresult]
  rfl

theorem exists_ok_of_map {ε α β : Type} {r : Except ε α} {f : α → β} {b : β}
    (h : r.toOption.map f = some b) : ∃ a, r = .ok a ∧ f a = b := by
  cases r with
  | error f => cases h
  | ok a => exact ⟨a, rfl, Option.some.inj h⟩

/-- The engines are given the same name, and the second one gives what the first one has saved. -/
theorem store_transparent_sameName :
    ∃ out : FileOutcome, out.laidOut = 1 ∧
      (History.run {} (oneAfterTheOther ["a"] ["a"])).requests.map (·.result) =
        [.ok out, .ok out.stored] ∧
      ∀ r ∈ (History.run {} (oneAfterTheOther ["a"] ["a"])).requests, r.Answered := by
  have halone : ((storingEngine ["a"]).alone "a.go" plainSource).1.toOption.map (·.laidOut) =
      some 1 := by decide +kernel
  obtain ⟨out, hout, hlaidOut⟩ := exists_ok_of_map halone
  have hrequests := requests_oneAfterTheOther rfl hout
  refine ⟨out, hlaidOut, by rw [hrequests]; rfl,
    (store_transparent (by simp [FileTree.AllSaved]) ?_).1⟩
  rw [hrequests]
  refine ⟨?_, ?_, ?_⟩
  · simp [storingEngine, isFuncName, commasInside]
  · simp
  · simp only [List.forall_mem_cons]
    simp [Memo.WithinOn]

/-- The first engine is given one name, which no function has, and the second one is given two. Both
have one salt, so the second one gives the outcome of the first one, in which no function was looked
at. -/
theorem answered_for_other_names :
    ∃ r ∈ (History.run {} (oneAfterTheOther ["a,b"] ["a", "b"])).requests, ¬ r.Answered := by
  have hnames : (storingEngine ["a", "b"]).names = ["a", "b"] := by
    have honce : (storingEngine ["a", "b"]).funcs.eraseDups = ["a", "b"] := by decide
    unfold Engine.names
    rw [honce]
    exact List.mergeSort_of_pairwise (by decide)
  have hsalt : (storingEngine ["a", "b"]).salt = (storingEngine ["a,b"]).salt := by
    have hname : (storingEngine ["a,b"]).names = ["a,b"] := List.mergeSort_singleton _
    unfold Engine.salt
    rw [hnames, hname]
    rfl
  have hfirst : ((storingEngine ["a,b"]).alone "a.go" plainSource).1.toOption.map
      (·.funcs.isSome) = some false := by with_unfolding_all decide
  have hsecond : ((storingEngine ["a", "b"]).alone "a.go" plainSource).1.toOption.map
      (·.funcs.isSome) = some true := by decide +kernel
  obtain ⟨out, hout, hnone⟩ := exists_ok_of_map hfirst
  obtain ⟨out', hout', hsome⟩ := exists_ok_of_map hsecond
  rw [requests_oneAfterTheOther hsalt hout]
  refine ⟨_, List.mem_cons_of_mem _ List.mem_cons_self, ?_⟩
  have hunstored := Request.unstored_eq (r := ⟨1, storingEngine ["a", "b"], "a.go", plainSource,
    .unlimited, .ok out.stored⟩) ⟨rfl, rfl⟩
  have hstored : ∀ out : FileOutcome, out.stored.funcs.isSome = out.funcs.isSome := by
    simp [FileOutcome.stored]
  rintro (hsame | hsame | ⟨_, _, hp, -⟩)
  · rw [hunstored, hout'] at hsame
    cases hsame
    rw [hstored, hnone] at hsome
    cases hsome
  · rw [hunstored, hout'] at hsame
    have hsame : out.stored = out'.stored := Except.ok.inj hsame
    rw [← hstored, ← hsame, hstored, hnone] at hsome
    cases hsome
  · cases hp

end History

end PathTree
