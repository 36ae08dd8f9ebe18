import PathTree.Proofs.ClosedMemory
import PathTree.Proofs.Lowering
import PathTree.Proofs.Ways

/-!
# The variables of a function's queries

Not every query has variables : a condition with a `++` in it fails to have them. A memory brings
such a condition about if a counted up literal is assigned (`Memory.step`), and the statement trees
allow that. Functions that are lowered from source assign nothing of this kind
(`FuncDecl.countsNames_lower`), so their memories hold tests only (`Memory.HoldsTests`) and all their
queries have variables (`FuncDecl.asksOnly_lower`).

`Tree.AsksOnly` says what the queries of a walk are like, whatever the answers are.
-/

namespace PathTree

/-! ## Tests -/

namespace Expr

/-- Whether an expression is a test : no `++`, `--` or assignment stands in it, apart from calls and
member accesses, which are unknowns of a query. -/
def isTest : Expr → Bool
  | .lit _ | .ident _ | .call .. | .member .. => true
  | .paren x | .cast _ x => x.isTest
  | .pre .not x | .pre .neg x | .pre .plus x => x.isTest
  | .binary _ x y => x.isTest && y.isTest
  | _ => false

theorem isTest_side {x : Expr} (h : x.isTest) (taken : Bool) : (x.side taken).isTest := by
  cases taken with
  | true => exact h
  | false =>
    cases x with
    | paren x => exact h
    | _ => exact h

end Expr

theorem exists_bind_eq_ok {ε α β : Type} {x : Except ε α} {f : α → Except ε β} {a : α}
    (hx : x = .ok a) (hf : ∃ b, f a = .ok b) : ∃ b, x >>= f = .ok b := by
  obtain ⟨b, hb⟩ := hf
  exact ⟨b, bind_eq_ok.mpr ⟨a, hx, hb⟩⟩

/-- A test has variables, if all names that are read have sorts. -/
theorem Variable.exists_collect {sorts : Table ValueSort} (x : Expr) (hx : x.isTest)
    (hr : ∀ name, x.Reads name → ∃ s, sorts.get? name = some s) (want : ValueSort)
    (vars : List Variable) : ∃ r, collect sorts x want vars = .ok r := by
  fun_induction collect sorts x want vars with
  | case1 l want vars => exact ⟨_, rfl⟩
  | case2 n want vars hn =>
    obtain ⟨s, hs⟩ := hr n (Expr.reads_ident.mpr rfl)
    rw [hn] at hs
    cases hs
  | case3 n want vars sort hn => exact ⟨_, rfl⟩
  | case4 g args want vars => exact ⟨_, rfl⟩
  | case5 x s want vars => exact ⟨_, rfl⟩
  | case6 x want vars ih => exact ih hx fun name hn => hr name (Expr.reads_paren.mpr hn)
  | case7 t x want vars ih => exact ih hx fun name hn => hr name (Expr.reads_cast.mpr hn)
  | case8 x want vars ih | case9 x want vars ih | case10 x want vars ih =>
    obtain ⟨r, h⟩ := ih hx fun name hn => hr name (Expr.reads_pre.mpr hn)
    exact exists_bind_eq_ok h ⟨_, rfl⟩
  | case11 op x want vars h1 h2 h3 => cases op <;> simp_all [Expr.isTest]
  | case12 op x y want vars hop ihx ihy =>
    obtain ⟨hx, hy⟩ := Bool.and_eq_true_iff.mp hx
    obtain ⟨r, h⟩ := ihx hx fun name hn => hr name (Expr.reads_binary.mpr (Or.inl hn))
    obtain ⟨r', h'⟩ := ihy r.2 hy fun name hn => hr name (Expr.reads_binary.mpr (Or.inr hn))
    exact exists_bind_eq_ok h (exists_bind_eq_ok h' ⟨_, rfl⟩)
  | case13 op x y want vars hop ihx ihy ihx' =>
    obtain ⟨hx, hy⟩ := Bool.and_eq_true_iff.mp hx
    have hrx := fun name hn => hr name (Expr.reads_binary.mpr (Or.inl hn))
    obtain ⟨r, h⟩ := ihx hx hrx
    obtain ⟨r', h'⟩ := ihy r.1 r.2 hy fun name hn => hr name (Expr.reads_binary.mpr (Or.inr hn))
    refine exists_bind_eq_ok h (exists_bind_eq_ok h' ?_)
    -- The left operand is visited again if only the right one has a known sort.
    dsimp only
    split
    · obtain ⟨r'', h''⟩ := ihx' r'.1 r'.2 hx hrx
      exact exists_bind_eq_ok h'' ⟨_, rfl⟩
    · exact ⟨_, rfl⟩
  | case14 x want vars => cases x <;> simp_all [Expr.isTest]

/-- A query for tests on the parameters has variables. -/
theorem Query.exists_variables {q : Query} (hq : q.ReadsParams) (ht : ∀ c ∈ q.conds, c.isTest) :
    ∃ vars, q.variables = .ok vars := by
  have hsorts : ∀ c ∈ q.conds, ∀ name, c.Reads name →
      ∃ s, (Variable.paramSorts q.params).get? name = some s := by
    intro c hc name hn
    obtain ⟨p, hp, rfl⟩ := hq c hc name hn
    exact Table.exists_get?_putAll (Or.inr ⟨_, List.mem_map.mpr ⟨p, hp, rfl⟩, rfl⟩)
  have hall : ∀ vars, ∃ out,
      Variable.collectAll (Variable.paramSorts q.params) q.conds vars = .ok out := by
    generalize q.conds = conds at ht hsorts
    induction conds with
    | nil => exact fun vars => ⟨vars, rfl⟩
    | cons c cs ih =>
      intro vars
      obtain ⟨hc, hcs⟩ := List.forall_mem_cons.mp ht
      obtain ⟨hsc, hscs⟩ := List.forall_mem_cons.mp hsorts
      obtain ⟨r, hr⟩ := Variable.exists_collect c hc hsc .bool vars
      obtain ⟨out, hout⟩ := ih hcs hscs r.2
      exact ⟨out, bind_eq_ok.mpr ⟨r, hr, hout⟩⟩
  obtain ⟨vars, hvars⟩ := hall []
  exact ⟨_, bind_eq_ok.mpr ⟨vars, hvars, rfl⟩⟩

/-! ## Memories of tests -/

/-- Whether an expression that is assigned counts names up and down only, and no literals. -/
def Expr.countsNames : Expr → Bool
  | .paren x => x.countsNames
  | .binary _ x y => x.countsNames && y.countsNames
  | .pre op x => !op.isStep || x.ident?.isSome
  | .post _ x => x.ident?.isSome
  | _ => true

namespace Memory

/-- Every stored value is a test. -/
def HoldsTests (m : Memory) : Prop := ∀ name x, m.vars.get? name = some x → x.isTest

variable {m m' : Memory}

theorem holdsTests_init (params : List Param) (fold : Bool) : (init params fold).HoldsTests := by
  intro name x hx
  obtain ⟨rfl, -⟩ := eq_ident_of_get?_init hx
  rfl

theorem HoldsTests.step (h : m.HoldsTests) {node x y : Expr} {op : UnaryOp}
    (hx : x.ident?.isSome) (hy : m.step node op x = .ok y) : y.isTest := by
  rcases step_eq_ok hy with ⟨⟨l, hl⟩, -⟩ | ⟨name, v, -, hv, rfl⟩
  · simp [Expr.ident?, hl] at hx
  · simp [Expr.isTest, h name v hv, Expr.int]

/-- What is stored for an assigned value is a test, unless a literal is counted up or down. -/
theorem HoldsTests.substitute (h : m.HoldsTests) (x : Expr) {y : Expr} (hx : x.countsNames)
    (hy : m.substitute x = .ok y) : y.isTest := by
  cases x with
  | lit l =>
    cases hy
    rfl
  | ident name => exact h name y (lookup_eq_ok.mp hy)
  | paren x => exact h.substitute x hx hy
  | binary op x z =>
    obtain ⟨hx, hz⟩ := Bool.and_eq_true_iff.mp hx
    obtain ⟨l, hl, hy⟩ := bind_eq_ok.mp hy
    obtain ⟨r, hr, hy⟩ := bind_eq_ok.mp hy
    cases hy
    simp [Expr.isTest, h.substitute x hx hl, h.substitute z hz hr]
  | pre op x =>
    rcases substitute_pre hy with ⟨hop, hy⟩ | ⟨hop, l, -, rfl⟩
    · exact h.step (by simpa [Expr.countsNames, hop] using hx) hy
    · cases op with
      | invalid => simp [Memory.substitute] at hy
      | inc => cases hop
      | dec => cases hop
      | _ => rfl
  | post op x => exact h.step hx hy
  | cast type x => cases hy
  | call f args => cases hy
  | member x s => cases hy
  | assign op name value => cases hy

theorem HoldsTests.store (h : m.HoldsTests) {name : String} {x : Expr} (hx : x.countsNames)
    (hm : m.store name x = .ok m') : m'.HoldsTests :=
  forall_store h hm (fun _ => rfl) fun _ hy => h.substitute x hx hy

/-- A test in terms of a memory of tests is a test, whatever the condition was. -/
theorem HoldsTests.resolve (h : m.HoldsTests) (c : Expr) {t : Expr} (ht : m.resolve c = .ok t) :
    t.isTest := by
  cases c with
  | lit l =>
    cases ht
    rfl
  | ident name => exact h name t (lookup_eq_ok.mp ht)
  | binary op x y =>
    obtain ⟨l, hl, ht⟩ := bind_eq_ok.mp ht
    obtain ⟨r, hr, ht⟩ := bind_eq_ok.mp ht
    cases ht
    simp [Expr.isTest, h.resolve x hl, h.resolve y hr]
  | pre op x =>
    obtain ⟨-, y, hy, rfl⟩ := resolve_pre ht
    have hyt := h.resolve x hy
    cases op with
    | not => exact hyt
    | neg => exact hyt
    | plus => exact hyt
    | _ => simp [Memory.resolve] at ht
  | paren x =>
    obtain ⟨y, hy, ht⟩ := bind_eq_ok.mp ht
    cases ht
    have hyt := h.resolve x hy
    exact hyt
  | cast type x =>
    obtain ⟨y, hy, ht⟩ := bind_eq_ok.mp ht
    cases ht
    have hyt := h.resolve x hy
    exact hyt
  | call f args =>
    obtain ⟨args', -, ht⟩ := bind_eq_ok.mp ht
    cases ht
    rfl
  | member x s =>
    cases ht
    rfl
  | post op x => cases ht
  | assign op name value => cases ht

end Memory

/-! ## Assignments on the ways through a list -/

/-- Whether a statement that assigns a value counts names up and down only. -/
def Stmt.countsNames (s : Stmt) : Bool := s.assigned?.all fun a => a.2.all Expr.countsNames

namespace Memory

variable {m m' : Memory}

theorem HoldsTests.execute (h : m.HoldsTests) {s : Stmt} (hs : s.countsNames)
    (hm : m.execute s = .ok m') : m'.HoldsTests := by
  rcases store_of_execute hm with ⟨-, rfl⟩ | ⟨name, x, ha, hstore⟩
  · exact h
  · exact h.store (by simpa [Stmt.countsNames, ha] using hs) hstore

theorem HoldsTests.executeAll (h : m.HoldsTests) {l : List Stmt} (hl : ∀ s ∈ l, s.countsNames)
    (hm : m.executeAll l = .ok m') : m'.HoldsTests := by
  induction l generalizing m with
  | nil =>
    cases hm
    exact h
  | cons s l ih =>
    obtain ⟨hs, hl⟩ := List.forall_mem_cons.mp hl
    obtain ⟨m₁, hm₁, hm⟩ := bind_eq_ok.mp hm
    exact ih (h.execute hs hm₁) hl hm

end Memory

/-- The check for literals that are counted up or down. It needs no state. -/
def counts : Scan Unit where
  allows _ s := s.countsNames
  allowsTest _ _ := true
  after _ _ := ()
  enter _ := ()
  enter_enter _ := rfl
  allowsTest_logical _ _ _ _ _ := rfl
  allowsTest_paren _ _ := rfl

/-- No way through a list assigns a literal that is counted up or down. -/
def Stmt.waysCountNames (bound : Nat) (l : List Stmt) : Prop :=
  counts.waysList bound true l (fun _ => true) () = true

namespace Scan

/-- A statement is passed on all ways, if what follows it is. -/
def Passes (arm : Option Stmt) : Prop :=
  ∀ bound last k, k () = true → counts.waysArm bound last arm k () = true

/-- A list is passed on all ways, if what follows it is. -/
def PassesList (l : List Stmt) : Prop :=
  ∀ bound last k, k () = true → counts.waysList bound last l k () = true

variable {l l' : List Stmt} {arm yes no init : Option Stmt} {bound : Nat} {k : Unit → Bool}

theorem passes_none : Passes none := fun _ _ _ hk => hk

theorem passesList_nil : PassesList [] := fun _ _ _ hk => hk

theorem passesList_cons {s : Stmt} (hs : Passes (some s)) (hl : PassesList l) :
    PassesList (s :: l) := by
  intro bound last k hk
  rw [waysList]
  exact hs bound _ _ (hl bound last k hk)

theorem passesList_append (hl : PassesList l) (hl' : PassesList l') : PassesList (l ++ l') := by
  intro bound last k hk
  rw [waysList_append]
  exact hl bound _ _ (hl' bound last k hk)

theorem passes_block (hl : PassesList l) : Passes (some (.block l)) := by
  intro bound last k hk
  rw [waysArm, ways]
  exact hl bound last k hk

theorem passesList_statements (h : Passes arm) : PassesList (Stmt.statements arm) := by
  intro bound last k hk
  rw [waysList_statements]
  exact h bound last k hk

theorem passes_of_countsNames {s : Stmt} (hs : s.isSimple ∨ s.isTerminal)
    (h : s.countsNames) : Passes (some s) := by
  intro bound last k hk
  have hallows : counts.allows () s = true := h
  rcases hs with hs | hs
  · rw [waysArm, ways_of_isSimple hs]
    exact Bool.and_eq_true_iff.mpr ⟨hallows, hk⟩
  · rw [waysArm, ways_of_isTerminal hs]
    exact Bool.and_eq_true_iff.mpr ⟨hallows, by simp [hk]⟩

theorem passes_branch {c : Expr} (hy : Passes yes) (hn : Passes no) :
    Passes (some (.branch c yes no)) := by
  intro bound last k hk
  rw [waysArm, ways]
  exact Bool.and_eq_true_iff.mpr ⟨hy bound true k hk, hn bound true k hk⟩

theorem waysRounds_counts {c : Expr} {round : Bool → (Unit → Bool) → Unit → Bool}
    (hround : ∀ last k, k () = true → round last k () = true) (n : Nat) (hk : k () = true) :
    counts.waysRounds c round n k () = true := by
  fun_induction waysRounds counts c round n k with
  | case1 k n ih =>
    exact Bool.and_eq_true_iff.mpr ⟨hround _ _ (ih hk), hk⟩
  | case2 n k _ => exact Bool.and_eq_true_iff.mpr ⟨hround _ _ hk, hk⟩

theorem passes_loop {start : Option Stmt} {c : Option Expr} {post : List Expr}
    (hs : Passes start) (hp : PassesList (post.map .expr)) (hl : PassesList l) :
    Passes (some (.ofLoop start c post l)) := by
  intro bound last k hk
  have hround : ∀ last k, k () = true →
      counts.waysArm bound last (some (.block l)) k () = true := fun last k hk =>
    passes_block hl bound last k hk
  unfold Stmt.ofLoop
  split
  · rw [waysArm, ways]
    exact waysRounds_counts hround bound hk
  · rw [waysArm, ways]
    refine hs bound false _ (waysRounds_counts (fun last k hk => hround _ _ ?_) bound hk)
    have hsteps := hp bound true k hk
    rwa [waysList_map_expr] at hsteps

theorem passes_hoist {start : Option Stmt} {s : Stmt} (hs : Passes start)
    (h : Passes (some s)) : Passes (some (.hoist start s)) := by
  cases start with
  | none => exact h
  | some t => exact passes_block (passesList_cons hs (passesList_cons h passesList_nil))

theorem passes_single (h : PassesList l) : Passes (some (.single l)) := by
  unfold Stmt.single
  split
  · intro bound last k hk
    rw [waysArm, ← waysList_singleton]
    exact h bound last k hk
  · exact passes_block h

end Scan

/-! ## Lowered functions -/

namespace Source

open Lower Scan

/-- What an expression becomes counts nothing. -/
theorem Node.countsNames_lower (n : Node) {y : Expr} (h : n.lower = .ok y) : y.countsNames := by
  cases Node.lowersTo h with
  | name name =>
    unfold nameExpr
    split_ifs <;> rfl
  | literal text hk => rfl
  | signed hn hk => rfl
  | @unary op un x y hop hn hx => cases op <;> cases hop <;> rfl
  | @binary op bin x₁ x₂ y₁ y₂ hop h₁ h₂ =>
    exact Bool.and_eq_true_iff.mpr ⟨x₁.countsNames_lower h₁, x₂.countsNames_lower h₂⟩
  | @paren x y hx =>
    have hy := x.countsNames_lower hx
    exact hy
  | member sel hx => rfl
  | @named name args ys ha =>
    obtain ⟨x, -, -, hc⟩ | ⟨-, hc⟩ := namedCall_cases name ys <;> rw [hc] <;> rfl
  | method sel hx ha => rfl

theorem passesList_lowerNames {type : String} {names : List String} {values : List Node}
    {l : List Stmt} {sc sc' : Scopes} (h : Gives (lowerNames type names values) sc l sc') :
    PassesList l := by
  induction names generalizing values l sc with
  | nil =>
    obtain ⟨rfl, -⟩ := gives_lowerNames_nil.mp h
    exact passesList_nil
  | cons name names ih =>
    obtain ⟨value, sc₁, rest, hv, -, hrest, rfl⟩ := gives_lowerNames_cons h
    refine passesList_cons (passes_of_countsNames (Or.inl rfl) ?_) (ih hrest)
    obtain ⟨-, rfl⟩ | ⟨n, z, -, hz, rfl⟩ := lowerOption_eq_ok hv
    · show (zeroValue type).toOption.all Expr.countsNames = true
      unfold zeroValue
      split_ifs <;> rfl
    · exact n.countsNames_lower hz

theorem passesList_lowerSpecs {specs : List ValueSpec} {decls : List (List Stmt)}
    {sc sc' : Scopes} (h : Gives (specs.mapM lowerSpec) sc decls sc') :
    PassesList decls.flatten := by
  induction specs generalizing decls sc with
  | nil =>
    obtain ⟨rfl, -⟩ := gives_mapM_nil.mp h
    exact passesList_nil
  | cons spec specs ih =>
    obtain ⟨l, sc₁, more, hl, hmore, rfl⟩ := gives_mapM_cons.mp h
    rw [List.flatten_cons]
    exact passesList_append (passesList_lowerNames (gives_lowerSpec hl).2) (ih hmore)

/-- Lowering a statement without others in it gives one that counts no literals. -/
theorem passes_lower_of_not_isCompound {s : Statement} {r : Option Stmt} {sc sc' : Scopes}
    (h : s.LowersTo sc r sc') (hs : s.isCompound = false) : Passes r := by
  cases h with
  | block => cases hs
  | branch => cases hs
  | loop => cases hs
  | retNone => exact passes_of_countsNames (Or.inr rfl) rfl
  | ret hx => exact passes_of_countsNames (Or.inr rfl) rfl
  | @define name x y _ _ hx hd =>
    exact passes_of_countsNames (Or.inl rfl) (x.countsNames_lower hx)
  | @assign op aop name x y _ hop hx =>
    have hy := x.countsNames_lower hx
    refine passes_of_countsNames (Or.inl rfl) ?_
    cases aop <;> simp [Stmt.countsNames, Stmt.assigned?, AssignOp.binary?, Expr.countsNames, hy]
  | @count x y up _ hx =>
    refine passes_of_countsNames (Or.inl rfl) ?_
    cases hy : y.ident? <;> simp [Stmt.countsNames, Stmt.assigned?, Expr.countsNames, hy]
  | vars hd => exact passes_single (passesList_lowerSpecs hd)
  | throw spread hv => exact passes_of_countsNames (Or.inr rfl) rfl
  | @call callee args spread y _ hp hx =>
    refine passes_of_countsNames (Or.inl rfl) ?_
    cases Node.lowersTo hx with
    | @named name _ ys ha =>
      obtain ⟨x, -, -, hc⟩ | ⟨-, hc⟩ := namedCall_cases name ys <;> rw [hc] <;> rfl
    | method sel hx ha => rfl
  | empty => exact passes_none

mutual
theorem Statement.passes_lower (s : Statement) {r : Option Stmt} {sc sc' : Scopes}
    (h : s.LowersTo sc r sc') : Passes r := by
  cases s with
  | block l =>
    obtain ⟨out, hl, rfl⟩ := h.of_block
    exact passes_block (passesList_lowerList l hl)
  | branch init cond body other =>
    obtain ⟨start, c, yes, no, sc₁, sc₂, sc₃, hi, -, hb, ho, rfl, -⟩ := h.of_branch
    exact passes_hoist (passes_lowerSimple init hi)
      (passes_branch (passes_block (passesList_lowerList body hb)) (passes_lowerElse other ho))
  | loop init cond step body =>
    obtain ⟨start, c, list, next, post, sc₁, sc₂, sc₃, hi, -, hb, hs, hp, rfl, -⟩ := h.of_loop
    refine passes_loop (passes_lowerSimple init hi) ?_ (passesList_lowerList body hb)
    have hnext := passes_lowerSimple step hs
    rcases hp with ⟨-, rfl⟩ | ⟨x, rfl, rfl⟩
    · exact passesList_nil
    · exact passesList_cons hnext passesList_nil
  | _ => exact passes_lower_of_not_isCompound h rfl

theorem passesList_lowerList (list : List Statement) {out : List Stmt} {sc sc' : Scopes}
    (h : Gives (lowerList list) sc out sc') : PassesList out := by
  cases list with
  | nil =>
    obtain ⟨rfl, -⟩ := gives_lowerList_nil.mp h
    exact passesList_nil
  | cons s rest =>
    obtain ⟨t, sc₁, more, hs, hr, rfl⟩ := gives_lowerList_cons h
    have ht := s.passes_lower hs
    refine passesList_append ?_ (passesList_lowerList rest hr)
    cases t with
    | none => exact passesList_nil
    | some t => exact passesList_cons ht passesList_nil

theorem passes_lowerElse (other : Option Statement) {no : Option Stmt} {sc sc' : Scopes}
    (h : Gives (lowerElse other) sc no sc') : Passes no := by
  cases other with
  | none =>
    obtain ⟨-, rfl, -⟩ | ⟨-, -, -, ⟨⟩, -⟩ | ⟨-, -, ⟨⟩, -⟩ := gives_lowerElse h
    exact passes_none
  | some s =>
    cases s with
    | block l =>
      obtain ⟨out, inner, hl, rfl, -⟩ := gives_lowerElse_block h
      exact passes_block (passesList_lowerList l hl)
    | _ =>
      obtain ⟨t, hs, rfl⟩ := gives_lowerElse_statement (by simp) h
      exact passes_block (passesList_statements (Statement.passes_lower _ hs))

theorem passes_lowerSimple (init : Option Statement) {start : Option Stmt} {sc sc' : Scopes}
    (h : Gives (lowerSimple init) sc start sc') : Passes start := by
  cases init with
  | none =>
    obtain ⟨-, rfl, -⟩ | ⟨-, ⟨⟩, -⟩ := gives_lowerSimple h
    exact passes_none
  | some s =>
    obtain ⟨⟨⟩, -⟩ | ⟨s', he, -, hl⟩ := gives_lowerSimple h
    cases he
    exact s.passes_lower hl
end

/-- No way through a function that is lowered from source counts a literal. -/
theorem FuncDecl.waysCountNames_lower {f : FuncDecl} {fn : Function} (h : f.lower = .ok fn)
    (bound : Nat) : Stmt.waysCountNames bound fn.body := by
  obtain ⟨body, sc, -, hl⟩ := FuncDecl.lower_eq_ok h
  exact passesList_lowerList body.list hl bound true _ rfl

end Source

/-! ## Queries -/

namespace Stmt

variable {bound : Nat} {l : List Stmt}

/-- Simple statements in front of a list count no literals, and neither do the ways through it. -/
theorem waysCountNames_append {before : List Stmt} (hb : ∀ s ∈ before, s.isSimple) :
    waysCountNames bound (before ++ l) ↔
      (∀ s ∈ before, s.countsNames) ∧ waysCountNames bound l := by
  induction before with
  | nil => simp
  | cons s before ih =>
    obtain ⟨hs, hbefore⟩ := List.forall_mem_cons.mp hb
    have hallows : counts.allows () s = s.countsNames := rfl
    unfold waysCountNames at ih ⊢
    rw [List.cons_append, Scan.waysList, Scan.ways_of_isSimple hs, List.forall_mem_cons, and_assoc,
      ← ih hbefore, ← hallows]
    exact Bool.and_eq_true_iff

/-- The ways through an arm count no literals, if those through its branch do not. -/
theorem waysCountNames_arms {c : Expr} {yes no : Option Stmt}
    (h : waysCountNames bound [.branch c yes no]) {taken : Bool} {stmts : List Stmt}
    (ha : Shape.arms c yes no taken = some stmts) : waysCountNames bound stmts := by
  unfold waysCountNames at h ⊢
  rw [Scan.waysList_singleton, ← Scan.ways_splitCond, Scan.ways] at h
  obtain ⟨h, hno⟩ := Bool.and_eq_true_iff.mp h
  obtain ⟨-, hyes⟩ := Bool.and_eq_true_iff.mp h
  rw [Scan.waysList_arms ha]
  cases taken with
  | true => exact hyes
  | false => exact hno

end Stmt

/-- Every query that a walk through a tree can ask is good, whatever the answers are. -/
def Tree.AsksOnly (params : List Param) (good : Query → Prop) : Tree → List Expr → Memory → Prop
  | .branch before cond _ sub, path, m =>
    ∀ m' test, m.executeAll before = .ok m' → m'.resolve cond = .ok test → ∀ taken,
      good ⟨params, path ++ [test.side taken]⟩ ∧
        (sub taken).AsksOnly params good (path ++ [test.side taken]) m'
  | _, _, _ => True

/-- A list of which no way counts a literal has only queries with variables, if the memory holds
tests on the parameters and so does the path. -/
theorem Tree.asksOnly_ofStmts {params : List Param} {bound : Nat} {l : List Stmt}
    (hl : Stmt.waysCountNames bound l) {path : List Expr} {m : Memory}
    (hm : m.ClosedOver params) (ht : m.HoldsTests) (hp : (Query.mk params path).ReadsParams)
    (hpt : ∀ c ∈ path, c.isTest) :
    (Tree.ofStmts bound l).AsksOnly params (fun q => ∃ vars, q.variables = .ok vars) path m := by
  induction hn : Stmt.weightList bound l using Nat.strongRecOn generalizing l path m with
  | ind n ih =>
  rcases Tree.ofStmts_cases bound l with ⟨f, hc, h⟩ | ⟨stmts, hc, hs, h⟩ |
    ⟨before, c, yes, no, hc, hb, h⟩
  · rw [h]
    trivial
  · rw [h]
    trivial
  · rw [h]
    intro m' test hm' htest taken
    have hways : Stmt.waysCountNames bound (before ++ [Stmt.branch c yes no]) := by
      unfold Stmt.waysCountNames
      rw [Scan.waysList_canonicalize hc]
      exact hl
    obtain ⟨hbefore, hbranch⟩ := (Stmt.waysCountNames_append hb).mp hways
    have hclosed := hm.executeAll hm'
    have htests := ht.executeAll hbefore hm'
    have hreads : (Query.mk params (path ++ [test.side taken])).ReadsParams := by
      intro x hx name hn
      rcases List.mem_append.mp hx with hx | hx
      · exact hp x hx name hn
      · rw [List.mem_singleton.mp hx, Expr.reads_side] at hn
        exact hclosed.reads_resolve _ htest hn
    have hpath : ∀ x ∈ path ++ [test.side taken], x.isTest := by
      simpa [or_imp, forall_and] using ⟨hpt, Expr.isTest_side (htests.resolve _ htest) taken⟩
    refine ⟨Query.exists_variables hreads hpath, ?_⟩
    cases ha : Shape.arms c yes no taken with
    | none =>
      unfold Tree.armTree
      rw [ha]
      trivial
    | some stmts =>
      have hlt : Stmt.weightList bound stmts < n := by
        calc Stmt.weightList bound stmts
            < Stmt.weight bound (.branch c yes no) := Stmt.weightList_arms_lt ha
          _ ≤ Stmt.weightList bound (before ++ [Stmt.branch c yes no]) :=
              Stmt.weight_le_of_mem (by simp)
          _ ≤ Stmt.weightList bound l := Stmt.weightList_canonicalize_le l hc
          _ = n := hn
      rw [Tree.armTree_of_eq_some ha]
      exact ih _ hlt (Stmt.waysCountNames_arms hbranch ha) hclosed htests hreads hpath rfl

/-- Every query of a function that is lowered from source has variables. -/
theorem Source.FuncDecl.asksOnly_lower {f : FuncDecl} {fn : Function} (h : f.lower = .ok fn)
    (bound : Nat) (fold : Bool) :
    (Tree.ofStmts bound fn.body).AsksOnly fn.params (fun q => ∃ vars, q.variables = .ok vars) []
      (.init fn.params fold) :=
  Tree.asksOnly_ofStmts (FuncDecl.waysCountNames_lower h bound)
    (Memory.closedOver_init fn.params fold) (Memory.holdsTests_init fn.params fold)
    (by simp [Query.ReadsParams]) (by simp)

end PathTree
