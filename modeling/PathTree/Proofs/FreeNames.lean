import PathTree.Proofs.BlockDeclarations
import PathTree.Proofs.Marking
import PathTree.Source.Emit

/-!
# Free names

A name of a function that is not local must not come into the scope of a local of the same name. A
local is refused only if its name is visible as that of another local, so a function may use a name
that is not local and declare a local of this name, in a scope where the name is not used. When its
paths are laid out, what follows a branch is copied behind the declarations in its arms, whose scope
was over, and then the name is captured.

`FuncDecl.captured_paths` says when this happens. With all arms laid out, a name is captured if and
only if some way through the function meets a declaration of the name and later a mention that is
free. Whatever arms are laid out, nothing is captured if locals have names of their own.
-/

namespace PathTree

open Source

/-! ## Names that are not local -/

/-- The names in the text of a type. -/
def typeNames (text : String) : List String := (typeNode text).toOption.elim [] Node.names

theorem typeNames_empty : typeNames "" = [] := by with_unfolding_all decide

theorem typeNames_conversion : ∀ text ∈ conversionTypes, typeNames text = [text] := by
  with_unfolding_all decide

/-- What a name stands for that is marked or read by its spelling. -/
def outsideName (name : String) : List String :=
  match marked? name with
  | some x => [x]
  | none => [name].filter (spelledNames.contains ·)

mutual
/-- The names in an expression that are not local : those that are marked, those that are read by
their spelling and those of types. -/
def Expr.outside : Expr → List String
  | .lit l =>
    if l.kind = .bool ∨ l.kind = .nil then [l.text].filter (spelledNames.contains ·) else []
  | .ident name => outsideName name
  | .binary _ x y => x.outside ++ y.outside
  | .pre _ x => x.outside
  | .post _ x => x.outside
  | .paren x => x.outside
  | .cast type x => typeNames type ++ x.outside
  | .call f args => f.outside ++ Expr.outsideList args
  | .member x _ => x.outside
  | .assign _ name v => outsideName name ++ v.outside

/-- The names in expressions that are not local. -/
def Expr.outsideList : List Expr → List String
  | [] => []
  | x :: rest => x.outside ++ Expr.outsideList rest
end

namespace Stmt

/-- The names in a statement without others in it that are not local. -/
def outside : Stmt → List String
  | .ret v => v.toList.flatMap Expr.outside
  | .throw v => "panic" :: v.toList.flatMap Expr.outside
  | .expr x => x.outside
  | .decl _ type v => typeNames type ++ v.toList.flatMap Expr.outside
  | _ => []

mutual
/-- The names in a statement that are not local but stand in the scope of a declaration, where the
names of `scope` are declared. -/
def captured (scope : List String) : Stmt → List String
  | .block list => capturedList scope list
  | .branch c yes no =>
    c.outside.filter (scope.contains ·) ++ capturedArm scope yes ++ capturedArm scope no
  | .whileLoop c body => c.outside.filter (scope.contains ·) ++ capturedArm scope body
  | .forLoop init c step body =>
    let inner := (init.bind declared?).toList ++ scope
    capturedArm scope init ++ (loopCond c).outside.filter (inner.contains ·) ++
      (step.flatMap Expr.outside).filter (inner.contains ·) ++ capturedArm inner body
  | s => s.outside.filter (scope.contains ·)

/-- The names in an arm that are not local but stand in the scope of a declaration. -/
def capturedArm (scope : List String) : Option Stmt → List String
  | none => []
  | some s => captured scope s

/-- The names in a list that are not local but stand in the scope of a declaration. -/
def capturedList (scope : List String) : List Stmt → List String
  | [] => []
  | s :: rest => captured scope s ++ capturedList (s.declared?.toList ++ scope) rest
end

/-! ## Checks -/

/-- The check for a name that is mentioned, but not as a local, behind a declaration of it. Its
state is the names that were declared. -/
def captures : Scan (List String) where
  allows scope s := s.outside.all (! scope.contains ·)
  allowsTest scope c := c.outside.all (! scope.contains ·)
  after scope s := s.declared?.toList ++ scope
  enter scope := scope
  enter_enter _ := rfl
  allowsTest_logical scope op x y _ := by simp only [Expr.outside, List.all_append]
  allowsTest_paren _ _ := rfl

/-- Whether no way through a list, with loops going at most `bound` rounds, meets a declaration of a
name and later a mention of the name that is not local. -/
def waysCaptureNothing (bound : Nat) (l : List Stmt) : Bool :=
  captures.waysList bound true l (fun _ => true) []

theorem filter_contains_eq_nil {names scope : List String} :
    names.filter (scope.contains ·) = [] ↔ names.all (! scope.contains ·) = true := by
  simp [List.filter_eq_nil_iff]

theorem waysSteps_captures (xs : List Expr) (scope : List String) :
    captures.waysSteps xs (fun _ => true) scope =
      (xs.flatMap Expr.outside).all (! scope.contains ·) := by
  induction xs with
  | nil => rfl
  | cons x xs ih =>
    rw [List.flatMap_cons, List.all_append, ← ih]
    rfl

mutual
theorem blocks_captures (s : Stmt) (scope : List String) :
    captures.blocks s scope = true ↔ captured scope s = [] := by
  cases s with
  | block list =>
    rw [Scan.blocks, captured]
    exact blocksList_captures list scope
  | branch c yes no =>
    simp only [Scan.blocks, captured, Bool.and_eq_true, List.append_eq_nil_iff,
      filter_contains_eq_nil, ← blocksArm_captures]
    rfl
  | whileLoop c body =>
    simp only [Scan.blocks, captured, Bool.and_eq_true, List.append_eq_nil_iff,
      filter_contains_eq_nil, ← blocksArm_captures]
    rfl
  | forLoop init c step body =>
    have hinner :
        init.elim scope (captures.after scope) = (init.bind declared?).toList ++ scope := by
      cases init <;> rfl
    simp only [Scan.blocks, captured, Bool.and_eq_true, List.append_eq_nil_iff,
      filter_contains_eq_nil, ← blocksArm_captures, ← waysSteps_captures, ← hinner, and_assoc]
    rfl
  | ret v => exact filter_contains_eq_nil.symm
  | throw v => exact filter_contains_eq_nil.symm
  | expr x => exact filter_contains_eq_nil.symm
  | decl name type v => exact filter_contains_eq_nil.symm

theorem blocksArm_captures (arm : Option Stmt) (scope : List String) :
    captures.blocksArm arm scope = true ↔ capturedArm scope arm = [] := by
  cases arm with
  | none => simp only [Scan.blocksArm, capturedArm]
  | some s => simpa only [Scan.blocksArm, capturedArm] using blocks_captures s scope

/-- The check of all blocks of a list finds the names that are captured. -/
theorem blocksList_captures (l : List Stmt) (scope : List String) :
    captures.blocksList l scope = true ↔ capturedList scope l = [] := by
  cases l with
  | nil => simp only [Scan.blocksList, capturedList]
  | cons s rest =>
    have hafter : (if s.isSimple then captures.after scope s else scope) =
        s.declared?.toList ++ scope := by
      cases s <;> rfl
    simp only [Scan.blocksList, capturedList, Bool.and_eq_true, List.append_eq_nil_iff, hafter,
      blocks_captures s, blocksList_captures rest]
end

end Stmt

/-- With all arms laid out, a name is captured if and only if a way meets it behind a declaration.
-/
theorem LaidOut.capturedList_eq_nil {bound : Nat} {l body : List Stmt}
    (h : LaidOut bound true l body) :
    Stmt.capturedList [] body = [] ↔ Stmt.waysCaptureNothing bound l := by
  rw [Stmt.waysCaptureNothing, ← h.blocksList_eq, Stmt.blocksList_captures]

/-! ## Locals with names of their own -/

section Apart

variable {F T L : List String}

/-- No local has the name of a free name, a name that is read by its spelling or a name in a type.
-/
structure Apart (F T L : List String) : Prop where
  free : ∀ name ∈ L, name ∉ F
  spelled : ∀ name ∈ L, name ∉ spelledNames
  types : ∀ name ∈ L, ∀ text ∈ T, name ∉ typeNames text

theorem Apart.outsideName (h : Apart F T L) {name : String}
    (hn : (Renaming.within F T L).use name = name) : ∀ n ∈ outsideName name, n ∉ L := by
  intro n hout hL
  unfold PathTree.outsideName at hout
  split at hout
  · next x hx =>
    obtain rfl := List.mem_singleton.mp hout
    rcases Renaming.use_within.mp hn with hfree | rfl
    · exact h.free n hL (hfree n hx)
    · simp [show marked? "_" = none from by decide] at hx
  · obtain ⟨-, hs⟩ := List.mem_filter.mp hout
    exact h.spelled n hL (by simpa using hs)

theorem Apart.typeNames (h : Apart F T L) {text : String}
    (ht : (Renaming.within F T L).type text = text) : ∀ n ∈ typeNames text, n ∉ L := by
  intro n hn hL
  rcases Renaming.type_within.mp ht with ht | rfl
  · exact h.types n hL text ht hn
  · simp [typeNames_empty] at hn

mutual
theorem Apart.outside (h : Apart F T L) {x : Expr} (hx : x.rename (.within F T L) = x) :
    ∀ n ∈ x.outside, n ∉ L := by
  cases x with
  | lit l =>
    intro n hn hL
    rw [Expr.outside] at hn
    split at hn
    · exact h.spelled n hL (by simpa using (List.mem_filter.mp hn).2)
    · cases hn
  | ident name => exact h.outsideName (by simpa [Expr.rename] using hx)
  | binary op x y =>
    simp only [Expr.rename, Expr.binary.injEq] at hx
    exact List.forall_mem_append.mpr ⟨h.outside hx.2.1, h.outside hx.2.2⟩
  | pre op x =>
    simp only [Expr.rename, Expr.pre.injEq] at hx
    rw [Expr.outside]
    exact h.outside hx.2
  | post op x =>
    simp only [Expr.rename, Expr.post.injEq] at hx
    rw [Expr.outside]
    exact h.outside hx.2
  | paren x =>
    simp only [Expr.rename, Expr.paren.injEq] at hx
    rw [Expr.outside]
    exact h.outside hx
  | cast type x =>
    simp only [Expr.rename, Expr.cast.injEq] at hx
    exact List.forall_mem_append.mpr ⟨h.typeNames hx.1, h.outside hx.2⟩
  | call f args =>
    simp only [Expr.rename, Expr.call.injEq] at hx
    exact List.forall_mem_append.mpr ⟨h.outside hx.1, h.outsideList hx.2⟩
  | member x sel =>
    simp only [Expr.rename, Expr.member.injEq] at hx
    rw [Expr.outside]
    exact h.outside hx.1
  | assign op name v =>
    simp only [Expr.rename, Expr.assign.injEq] at hx
    exact List.forall_mem_append.mpr ⟨h.outsideName hx.2.1, h.outside hx.2.2⟩

theorem Apart.outsideList (h : Apart F T L) {xs : List Expr}
    (hx : Expr.renameList (.within F T L) xs = xs) : ∀ n ∈ Expr.outsideList xs, n ∉ L := by
  cases xs with
  | nil => simp [Expr.outsideList]
  | cons x rest =>
    simp only [Expr.renameList, List.cons.injEq] at hx
    exact List.forall_mem_append.mpr ⟨h.outside hx.1, h.outsideList hx.2⟩
end

theorem Apart.outsideOption (h : Apart F T L) {v : Option Expr}
    (hv : v.map (Expr.rename (.within F T L)) = v) :
    ∀ n ∈ v.toList.flatMap Expr.outside, n ∉ L := by
  cases v with
  | none => simp
  | some x => simpa using h.outside (by simpa using hv)

theorem Apart.outsideSteps (h : Apart F T L) {xs : List Expr}
    (hx : xs.map (Expr.rename (.within F T L)) = xs) : ∀ n ∈ xs.flatMap Expr.outside, n ∉ L := by
  induction xs with
  | nil => simp
  | cons x rest ih =>
    simp only [List.map_cons, List.cons.injEq] at hx
    exact List.forall_mem_append.mpr ⟨h.outside hx.1, ih hx.2⟩

theorem filter_eq_nil_of_subset {names scope : List String} (hn : ∀ n ∈ names, n ∉ L)
    (hs : scope ⊆ L) : names.filter (scope.contains ·) = [] := by
  simpa [List.filter_eq_nil_iff] using fun n hm hscope => hn n hm (hs hscope)

theorem declared_subset {s : Stmt} (h : s.rename (.within F T L) = s) {scope : List String}
    (hs : scope ⊆ L) : s.declared?.toList ++ scope ⊆ L := by
  refine List.append_subset.mpr ⟨?_, hs⟩
  cases s with
  | decl name type v =>
    simp only [Stmt.rename, Stmt.decl.injEq] at h
    intro n hn
    by_cases hb : name = "_"
    · simp [Stmt.declared?, hb] at hn
    · have hname : n = name := by simpa [Stmt.declared?, hb] using hn
      rw [hname]
      exact (Renaming.declared_within.mp h.1).resolve_right hb
  | _ => simp [Stmt.declared?]

mutual
/-- Nothing is captured in a statement if its locals have names of their own. -/
theorem Apart.captured (h : Apart F T L) {scope : List String} {s : Stmt}
    (hr : s.rename (.within F T L) = s) (hs : scope ⊆ L) : Stmt.captured scope s = [] := by
  cases s with
  | block list =>
    simp only [Stmt.rename, Stmt.block.injEq] at hr
    exact h.capturedList hr hs
  | branch c yes no =>
    simp only [Stmt.rename, Stmt.branch.injEq] at hr
    simp only [Stmt.captured, filter_eq_nil_of_subset (h.outside hr.1) hs, h.capturedArm hr.2.1 hs,
      h.capturedArm hr.2.2 hs, List.append_nil]
  | whileLoop c body =>
    simp only [Stmt.rename, Stmt.whileLoop.injEq] at hr
    simp only [Stmt.captured, filter_eq_nil_of_subset (h.outside hr.1) hs, h.capturedArm hr.2 hs,
      List.append_nil]
  | forLoop init c step body =>
    simp only [Stmt.rename, Stmt.forLoop.injEq] at hr
    obtain ⟨hinit, hc, hstep, hbody⟩ := hr
    have hinner : (init.bind Stmt.declared?).toList ++ scope ⊆ L := by
      cases init with
      | none => exact hs
      | some t => exact declared_subset (by simpa [Stmt.renameArm] using hinit) hs
    have hcond : (Stmt.loopCond c).rename (.within F T L) = Stmt.loopCond c := by
      rw [← Stmt.loopCond_rename, hc]
    simp only [Stmt.captured, h.capturedArm hinit hs,
      filter_eq_nil_of_subset (h.outside hcond) hinner,
      filter_eq_nil_of_subset (h.outsideSteps hstep) hinner, h.capturedArm hbody hinner,
      List.append_nil]
  | ret v =>
    simp only [Stmt.rename, Stmt.ret.injEq] at hr
    exact filter_eq_nil_of_subset (h.outsideOption hr) hs
  | throw v =>
    simp only [Stmt.rename, Stmt.throw.injEq] at hr
    refine filter_eq_nil_of_subset (List.forall_mem_cons.mpr ⟨fun hL => ?_, h.outsideOption hr⟩) hs
    exact h.spelled _ hL (by decide)
  | expr x =>
    simp only [Stmt.rename, Stmt.expr.injEq] at hr
    exact filter_eq_nil_of_subset (h.outside hr) hs
  | decl name type v =>
    simp only [Stmt.rename, Stmt.decl.injEq] at hr
    exact filter_eq_nil_of_subset
      (List.forall_mem_append.mpr ⟨h.typeNames hr.2.1, h.outsideOption hr.2.2⟩) hs

theorem Apart.capturedArm (h : Apart F T L) {scope : List String} {arm : Option Stmt}
    (hr : Stmt.renameArm (.within F T L) arm = arm) (hs : scope ⊆ L) :
    Stmt.capturedArm scope arm = [] := by
  cases arm with
  | none => rfl
  | some s =>
    simp only [Stmt.renameArm, Option.some.injEq] at hr
    exact h.captured hr hs

theorem Apart.capturedList (h : Apart F T L) {scope : List String} {l : List Stmt}
    (hr : Stmt.renameList (.within F T L) l = l) (hs : scope ⊆ L) :
    Stmt.capturedList scope l = [] := by
  cases l with
  | nil => rfl
  | cons s rest =>
    simp only [Stmt.renameList, List.cons.injEq] at hr
    rw [Stmt.capturedList, h.captured hr.1 hs, h.capturedList hr.2 (declared_subset hr.1 hs),
      List.append_nil]
end

end Apart

/-! ## Functions -/

namespace Source.FuncDecl

/-- Whether no local has the name of a free name, a name that is read by its spelling or a name in a
type. -/
def localsApart (f : FuncDecl) : Bool :=
  f.locals.all fun name => !f.free.contains name && !spelledNames.contains name &&
    f.types.all fun text => !(typeNames text).contains name

theorem apart_of_localsApart {f : FuncDecl} (h : f.localsApart) :
    Apart f.free (conversionTypes ++ f.types) f.locals := by
  have hname : ∀ name ∈ f.locals,
      (name ∉ f.free ∧ name ∉ spelledNames) ∧ ∀ text ∈ f.types, name ∉ typeNames text := by
    simpa [localsApart] using h
  refine ⟨fun name hn => (hname name hn).1.1, fun name hn => (hname name hn).1.2,
    fun name hn text ht => ?_⟩
  rcases List.mem_append.mp ht with ht | ht
  · rw [typeNames_conversion text ht, List.mem_singleton]
    rintro rfl
    exact (hname name hn).1.2 (List.mem_append_right _ ht)
  · exact (hname name hn).2 text ht

/-- What is laid out for a function is also laid out for the function with marks, which come
through. -/
theorem exists_marked_paths {f : FuncDecl} {fn : Function} (h : f.lower = .ok fn)
    (hplain : ∀ name ∈ f.locals, marked? name = none) {σ : Type} {solver : Solver σ}
    {e : Exploration} {s s' : Session σ} {p : Paths} (hp : Walk.Gives (fn.paths solver e) s p s') :
    ∃ fn' body, f.marked.lower = .ok fn' ∧ LaidOut e.bound e.visitUnsat fn'.body body ∧
      Renaming.Lifts (.within f.free (conversionTypes ++ f.types) f.locals) Stmt.renameList body
        p.body := by
  obtain ⟨fn', hfn', hun, hin⟩ := lower_marked h hplain
  obtain ⟨r, hr, rfl⟩ := Function.gives_paths.mp hp
  have hlaid := (Function.laid hr).laidOut
  rw [← hun] at hlaid
  obtain ⟨body, hbody, hbody'⟩ := hlaid.of_rename
  exact ⟨fn', body, hfn', hbody, hbody',
    hbody.rename_eq_self (Renaming.within_idempotent _ _ _) hin⟩

/-- The paths of a function, laid out with the names marked that are free in its source. If all arms
are laid out, a free name is captured if and only if some way through the function meets a
declaration of the name and later a free mention of it. Whatever the solver and the exploration, no
name is captured if no local has the name of something that is not local. The names of locals are
those of the grammar, which has no name with the sign of a mark. -/
theorem captured_paths {f : FuncDecl} {fn : Function} (h : f.lower = .ok fn)
    (hplain : ∀ name ∈ f.locals, marked? name = none) {σ : Type} {solver : Solver σ}
    {e : Exploration} {s s' : Session σ} {p : Paths} (hp : Walk.Gives (fn.paths solver e) s p s') :
    ∃ fn' body, f.marked.lower = .ok fn' ∧ LaidOut e.bound e.visitUnsat fn'.body body ∧
      Stmt.renameList .unmark body = p.body ∧
      (e.visitUnsat = true →
        (Stmt.capturedList [] body = [] ↔ Stmt.waysCaptureNothing e.bound fn'.body)) ∧
      (f.localsApart → Stmt.capturedList [] body = []) := by
  obtain ⟨fn', body, hfn', hlaid, hun, hin⟩ := exists_marked_paths h hplain hp
  refine ⟨fn', body, hfn', hlaid, hun, fun hall => ?_, fun hapart => ?_⟩
  · rw [hall] at hlaid
    exact hlaid.capturedList_eq_nil
  · exact (apart_of_localsApart hapart).capturedList hin (List.nil_subset _)

/-- Statements for the case that `a` is greater than 0. -/
def ifPositive (list : List Statement) : Statement :=
  .branch none (.binary (.base .gt) (.ident "a") (.literal .int "0")) list none

/-- The declaration of a local `limit`, which is then added to `a`. -/
def addLimit : List Statement :=
  [.assign [.ident "limit"] .define [.literal .int "1"],
    .assign [.ident "a"] (.base .add) [.ident "limit"]]

/-- A free name is used in front of a local of the same name. -/
def limitBefore : FuncDecl :=
  .ofStatements "limitBefore"
    (ifPositive [.ret [.ident "limit"]] :: addLimit ++ [.ret [.ident "a"]])

theorem captured_paths_limitBefore :
    ∃ fn p s', limitBefore.lower = .ok fn ∧
      Walk.Gives (fn.paths (.always ⟨true, some []⟩) {}) ⟨.unlimited, (), #[]⟩ p s' ∧
      ∃ fn' body, limitBefore.marked.lower = .ok fn' ∧ LaidOut 2 true fn'.body body ∧
        Stmt.renameList .unmark body = p.body ∧ Stmt.capturedList [] body = [] := by
  have h := lower_eq_lowered (f := limitBefore) rfl
  obtain ⟨p, s', hp⟩ := Walk.exists_gives
    (x := limitBefore.lowered.paths (σ := Unit) (.always ⟨true, some []⟩) {})
    (s := ⟨.unlimited, (), #[]⟩) (by with_unfolding_all decide)
  obtain ⟨fn', body, hfn', hlaid, hun, hiff, -⟩ := captured_paths h (by decide) hp
  obtain rfl : limitBefore.marked.lowered = fn' :=
    Except.ok.inj ((lower_eq_lowered rfl).symm.trans hfn')
  exact ⟨_, p, s', h, hp, _, body, hfn', hlaid, hun, (hiff rfl).mpr (by with_unfolding_all decide)⟩

/-- A free name is used behind a branch with a local of the same name. -/
def limitBehind : FuncDecl :=
  .ofStatements "limitBehind"
    [ifPositive addLimit, .ret [.binary (.base .add) (.ident "a") (.ident "limit")]]

/-- A function that can be lowered and laid out, where a free name is captured. -/
theorem captured_limitBehind :
    ∃ fn p s', limitBehind.lower = .ok fn ∧
      Walk.Gives (fn.paths (.always ⟨true, some []⟩) {}) ⟨.unlimited, (), #[]⟩ p s' ∧
      ∃ fn' body, limitBehind.marked.lower = .ok fn' ∧ LaidOut 2 true fn'.body body ∧
        Stmt.renameList .unmark body = p.body ∧ Stmt.capturedList [] body ≠ [] := by
  have h := lower_eq_lowered (f := limitBehind) rfl
  obtain ⟨p, s', hp⟩ := Walk.exists_gives
    (x := limitBehind.lowered.paths (σ := Unit) (.always ⟨true, some []⟩) {})
    (s := ⟨.unlimited, (), #[]⟩) (by with_unfolding_all decide)
  obtain ⟨fn', body, hfn', hlaid, hun, -⟩ := exists_marked_paths h (by decide) hp
  obtain rfl : limitBehind.marked.lowered = fn' :=
    Except.ok.inj ((lower_eq_lowered rfl).symm.trans hfn')
  refine ⟨_, p, s', h, hp, _, body, hfn', hlaid, hun, fun hnil => ?_⟩
  have hways := LaidOut.capturedList_eq_nil hlaid |>.mp hnil
  exact absurd hways (by with_unfolding_all decide)

end Source.FuncDecl

end PathTree
