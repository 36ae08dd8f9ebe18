import PathTree.Proofs.Lowering
import PathTree.Proofs.Ways

/-!
# Declarations of a block

A local must not have a name that is visible where it is declared. But what follows a branch is
copied into its arms, so a declaration behind a branch can come into one block with a declaration of
the same name in an arm, whose scope was over. `Function.declaresAnew_paths_iff` says when this
happens : the paths that are laid out have a block which declares a name twice if and only if some
way through the function meets two declarations of the name without a test between them.
-/

namespace PathTree

namespace Stmt

/-- The name that a statement declares. The blank name declares nothing. -/
def declared? : Stmt → Option String
  | .decl name _ _ => if name = "_" then none else some name
  | _ => none

/-- Whether a statement declares only new names : a block declares no name twice, and a declaration
without a type, which is a short one, has a name. -/
def declaresAnew : Stmt → Bool
  | .block list => (list.filterMap declared?).Nodup
  | .decl name type _ => !(name = "_" && type = "")
  | _ => true

/-- The check for two declarations of a name without a test between them. Its state is the names
that were declared since the last test. -/
def declarations : Scan (List String) where
  allows names s := s.declaresAnew && s.declared?.all (! names.contains ·)
  allowsTest _ _ := true
  after names s := s.declared?.toList ++ names
  enter _ := []
  enter_enter _ := rfl
  allowsTest_logical _ _ _ _ _ := rfl
  allowsTest_paren _ _ := rfl

/-- Whether no way through a list, with loops going at most `bound` rounds, meets two declarations
of a name without a test between them, or a short declaration of the blank name. -/
def waysDeclareAnew (bound : Nat) (l : List Stmt) : Bool :=
  declarations.waysList bound true l (fun _ => true) []

@[simp] theorem enter_declarations (names : List String) : declarations.enter names = [] := rfl

@[simp] theorem allowsTest_declarations (names : List String) (c : Expr) :
    declarations.allowsTest names c = true := rfl

theorem waysSteps_declarations (xs : List Expr) (names : List String) :
    declarations.waysSteps xs (fun _ => true) names = true := by
  induction xs generalizing names with
  | nil => rfl
  | cons x xs ih =>
    simp only [Scan.waysSteps, ih, Bool.and_true]
    rfl

mutual
/-- The check of a statement finds what is wrong with it or in it. -/
theorem blocks_declarations (s : Stmt) (names : List String) :
    declarations.blocks s names = true ↔
      (∀ name, s.declared? = some name → name ∉ names) ∧
        ∀ t ∈ walk (fun _ => true) s, t.declaresAnew := by
  cases s with
  | block list =>
    simp [Scan.blocks, blocksList_declarations list, walk, declaresAnew, declared?]
  | branch c yes no =>
    simp [Scan.blocks, blocksArm_declarations yes, blocksArm_declarations no, walk, declaresAnew,
      declared?, or_imp, forall_and]
  | whileLoop c body =>
    simp [Scan.blocks, blocksArm_declarations body, walk, declaresAnew, declared?]
  | forLoop init c step body =>
    simp [Scan.blocks, blocksArm_declarations init, blocksArm_declarations body,
      waysSteps_declarations, walk, declaresAnew, declared?, or_imp, forall_and]
  | ret v => simp [Scan.blocks, declarations, walk, declaresAnew, declared?]
  | throw v => simp [Scan.blocks, declarations, walk, declaresAnew, declared?]
  | expr x => simp [Scan.blocks, declarations, walk, declaresAnew, declared?]
  | decl name type v =>
    by_cases hb : name = "_" <;>
      simp [Scan.blocks, declarations, walk, declaresAnew, declared?, hb]

theorem blocksArm_declarations (arm : Option Stmt) (names : List String) :
    declarations.blocksArm arm names = true ↔
      (∀ s ∈ arm, ∀ name, s.declared? = some name → name ∉ names) ∧
        ∀ t ∈ walkArm (fun _ => true) arm, t.declaresAnew := by
  cases arm with
  | none => simp [Scan.blocksArm, walkArm]
  | some s => simpa [Scan.blocksArm, walkArm] using blocks_declarations s names

theorem blocksList_declarations (l : List Stmt) (names : List String) :
    declarations.blocksList l names = true ↔
      ((l.filterMap declared?).Nodup ∧ ∀ name ∈ l.filterMap declared?, name ∉ names) ∧
        ∀ t ∈ walkList (fun _ => true) l, t.declaresAnew := by
  cases l with
  | nil => simp [Scan.blocksList, walkList]
  | cons s rest =>
    have hafter : (if s.isSimple then declarations.after names s else names) =
        s.declared?.toList ++ names := by
      cases s <;> rfl
    simp only [Scan.blocksList, Bool.and_eq_true, blocks_declarations s, hafter,
      blocksList_declarations rest, walkList, List.forall_mem_append, List.filterMap_cons]
    cases s.declared? with
    | none => simp [and_left_comm]
    | some name =>
      simp
      grind
end

end Stmt

/-- What is laid out for a list declares only new names if and only if no way through the list meets
two declarations of a name without a test between them. -/
theorem LaidOut.walk_declaresAnew {bound : Nat} {l body : List Stmt}
    (h : LaidOut bound true l body) :
    (∀ t ∈ Stmt.walk (fun _ => true) (.block body), t.declaresAnew) ↔
      Stmt.waysDeclareAnew bound l := by
  rw [Stmt.waysDeclareAnew, ← h.blocksList_eq, Stmt.blocksList_declarations]
  simp [Stmt.walk, Stmt.declaresAnew]

/-- The paths of a function, laid out with all arms, declare only new names, in each block and in
short declarations, if and only if no way through the function meets two declarations of a name
without a test between them, or a short declaration of the blank name. -/
theorem Function.declaresAnew_paths_iff {σ : Type} {fn : Function} {solver : Solver σ}
    {e : Exploration} {s s' : Session σ} {p : Paths} (h : Walk.Gives (fn.paths solver e) s p s')
    (hall : e.visitUnsat = true) :
    (∀ t ∈ Stmt.walk (fun _ => true) (.block p.body), t.declaresAnew) ↔
      Stmt.waysDeclareAnew e.bound fn.body := by
  obtain ⟨r, hr, rfl⟩ := Function.gives_paths.mp h
  have hlaid := (Function.laid hr).laidOut
  rw [hall] at hlaid
  exact hlaid.walk_declaresAnew

namespace Source

/-- The declaration of a local `x`, which is then added to `a`. -/
def FuncDecl.addLocal (value : String) : List Statement :=
  [.assign [.ident "x"] .define [.literal .int value],
    .assign [.ident "a"] (.base .add) [.ident "x"]]

/-- The name of a local is used in both arms of a branch. -/
def FuncDecl.eitherLocal : FuncDecl :=
  .ofStatements "eitherLocal"
    [.branch none (.binary (.base .gt) (.ident "a") (.literal .int "0")) (addLocal "1")
      (some (.block (addLocal "2"))), .ret [.ident "a"]]

/-- The name of a local in an arm of a branch is used again behind the branch. -/
def FuncDecl.laterLocal : FuncDecl :=
  .ofStatements "laterLocal"
    [.branch none (.binary (.base .gt) (.ident "a") (.literal .int "0")) (addLocal "1") none,
      .assign [.ident "x"] .define [.ident "a"], .ret [.ident "x"]]

end Source

theorem Function.declaresAnew_paths_eitherLocal :
    ∃ fn, Source.FuncDecl.eitherLocal.lower = .ok fn ∧
      ∃ p s', Walk.Gives (fn.paths (.always ⟨true, some []⟩) {}) ⟨.unlimited, (), #[]⟩ p s' ∧
        ∀ t ∈ Stmt.walk (fun _ => true) (.block p.body), t.declaresAnew := by
  have hf := Source.FuncDecl.lower_eq_lowered (f := .eitherLocal) rfl
  obtain ⟨p, s', hp⟩ := Walk.exists_gives
    (x := Source.FuncDecl.eitherLocal.lowered.paths (σ := Unit) (.always ⟨true, some []⟩) {})
    (s := ⟨.unlimited, (), #[]⟩) (by with_unfolding_all decide)
  exact ⟨_, hf, p, s', hp, (Function.declaresAnew_paths_iff hp rfl).mpr (by decide)⟩

/-- A function that can be lowered and laid out, where a block declares a name twice. -/
theorem Function.declares_twice_laterLocal :
    ∃ fn, Source.FuncDecl.laterLocal.lower = .ok fn ∧
      ∃ p s', Walk.Gives (fn.paths (.always ⟨true, some []⟩) {}) ⟨.unlimited, (), #[]⟩ p s' ∧
        ¬∀ t ∈ Stmt.walk (fun _ => true) (.block p.body), t.declaresAnew := by
  have hf := Source.FuncDecl.lower_eq_lowered (f := .laterLocal) rfl
  obtain ⟨p, s', hp, hbad⟩ := Walk.exists_gives_good
    (x := Source.FuncDecl.laterLocal.lowered.paths (σ := Unit) (.always ⟨true, some []⟩) {})
    (s := ⟨.unlimited, (), #[]⟩)
    (fun p => !(Stmt.walk (fun _ => true) (.block p.body)).all Stmt.declaresAnew)
    (by with_unfolding_all decide)
  exact ⟨_, hf, p, s', hp, by simpa using hbad⟩

end PathTree
