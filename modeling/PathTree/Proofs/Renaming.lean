import PathTree.Proofs.Ways

/-!
# Renaming

Laying out the paths of a list splices, unrolls and copies statements, and never looks at a name. So
it commutes with every renaming : what is laid out for a list with renamed names is what is laid out
for the list, with its names renamed (`LaidOut.of_rename`). In particular a renaming that leaves a
list as it is leaves what is laid out for it as it is (`LaidOut.rename_eq_self`), which says that
nothing is laid out with a name that the list does not have.
-/

namespace PathTree

/-- New names for the names that are used, for the texts of types and for the names that are
declared. -/
structure Renaming where
  use : String → String
  type : String → String
  declared : String → String

/-- A renaming that renames nothing once more. -/
structure Renaming.Idempotent (ρ : Renaming) : Prop where
  use : ∀ name, ρ.use (ρ.use name) = ρ.use name
  type : ∀ text, ρ.type (ρ.type text) = ρ.type text
  declared : ∀ name, ρ.declared (ρ.declared name) = ρ.declared name

/-! ## Expressions -/

mutual
/-- An expression with its names renamed. Selectors stay as they are. -/
def Expr.rename (ρ : Renaming) : Expr → Expr
  | .lit l => .lit l
  | .ident name => .ident (ρ.use name)
  | .binary op x y => .binary op (x.rename ρ) (y.rename ρ)
  | .pre op x => .pre op (x.rename ρ)
  | .post op x => .post op (x.rename ρ)
  | .paren x => .paren (x.rename ρ)
  | .cast type x => .cast (ρ.type type) (x.rename ρ)
  | .call f args => .call (f.rename ρ) (Expr.renameList ρ args)
  | .member x sel => .member (x.rename ρ) sel
  | .assign op name v => .assign op (ρ.use name) (v.rename ρ)

/-- Expressions with their names renamed. -/
def Expr.renameList (ρ : Renaming) : List Expr → List Expr
  | [] => []
  | x :: rest => x.rename ρ :: Expr.renameList ρ rest
end

mutual
theorem Expr.rename_rename {ρ : Renaming} (hρ : ρ.Idempotent) (x : Expr) :
    (x.rename ρ).rename ρ = x.rename ρ := by
  cases x with
  | lit l => rfl
  | ident name => simp only [Expr.rename, hρ.use]
  | binary op x y => simp only [Expr.rename, Expr.rename_rename hρ x, Expr.rename_rename hρ y]
  | cast type x => simp only [Expr.rename, hρ.type, Expr.rename_rename hρ x]
  | call f args =>
    simp only [Expr.rename, Expr.rename_rename hρ f, Expr.renameList_renameList hρ args]
  | assign op name v => simp only [Expr.rename, hρ.use, Expr.rename_rename hρ v]
  | pre op x | post op x | paren x | member x sel =>
    simp only [Expr.rename, Expr.rename_rename hρ x]

theorem Expr.renameList_renameList {ρ : Renaming} (hρ : ρ.Idempotent) (xs : List Expr) :
    Expr.renameList ρ (Expr.renameList ρ xs) = Expr.renameList ρ xs := by
  cases xs with
  | nil => rfl
  | cons x rest =>
    simp only [Expr.renameList, Expr.rename_rename hρ x, Expr.renameList_renameList hρ rest]
end

theorem Expr.isCompound_rename (ρ : Renaming) (x : Expr) :
    (x.rename ρ).isCompound = x.isCompound := by
  induction x using Expr.unparen.induct with
  | case1 x ih => exact ih
  | case2 x hx =>
    cases x with
    | paren y => exact absurd rfl (hx y)
    | _ => rfl

/-! ## Statements -/

namespace Stmt

mutual
/-- A statement with its names renamed. -/
def rename (ρ : Renaming) : Stmt → Stmt
  | .block list => .block (renameList ρ list)
  | .branch c yes no => .branch (c.rename ρ) (renameArm ρ yes) (renameArm ρ no)
  | .whileLoop c body => .whileLoop (c.rename ρ) (renameArm ρ body)
  | .forLoop init c step body =>
    .forLoop (renameArm ρ init) (c.map (Expr.rename ρ)) (step.map (Expr.rename ρ))
      (renameArm ρ body)
  | .ret v => .ret (v.map (Expr.rename ρ))
  | .throw v => .throw (v.map (Expr.rename ρ))
  | .expr x => .expr (x.rename ρ)
  | .decl name type v => .decl (ρ.declared name) (ρ.type type) (v.map (Expr.rename ρ))

/-- An arm with its names renamed. -/
def renameArm (ρ : Renaming) : Option Stmt → Option Stmt
  | none => none
  | some s => some (rename ρ s)

/-- A list with its names renamed. -/
def renameList (ρ : Renaming) : List Stmt → List Stmt
  | [] => []
  | s :: rest => rename ρ s :: renameList ρ rest
end

theorem renameList_eq_map (ρ : Renaming) (l : List Stmt) : renameList ρ l = l.map (rename ρ) := by
  induction l with
  | nil => rfl
  | cons s l ih => rw [renameList, ih, List.map_cons]

mutual
theorem rename_rename {ρ : Renaming} (hρ : ρ.Idempotent) (s : Stmt) :
    rename ρ (rename ρ s) = rename ρ s := by
  have hoption : ∀ v : Option Expr, (v.map (Expr.rename ρ)).map (Expr.rename ρ) =
      v.map (Expr.rename ρ) := by
    rintro (_ | v)
    · rfl
    · simp only [Option.map_some, Expr.rename_rename hρ]
  have hlist : ∀ xs : List Expr, (xs.map (Expr.rename ρ)).map (Expr.rename ρ) =
      xs.map (Expr.rename ρ) := by
    intro xs
    simp only [List.map_map, Function.comp_def, Expr.rename_rename hρ]
  cases s with
  | block list => simp only [rename, renameList_renameList hρ list]
  | branch c yes no =>
    simp only [rename, Expr.rename_rename hρ, renameArm_renameArm hρ yes, renameArm_renameArm hρ no]
  | whileLoop c body => simp only [rename, Expr.rename_rename hρ, renameArm_renameArm hρ body]
  | forLoop init c step body =>
    simp only [rename, hoption, hlist, renameArm_renameArm hρ init, renameArm_renameArm hρ body]
  | ret v => simp only [rename, hoption]
  | throw v => simp only [rename, hoption]
  | expr x => simp only [rename, Expr.rename_rename hρ]
  | decl name type v => simp only [rename, hρ.declared, hρ.type, hoption]

theorem renameArm_renameArm {ρ : Renaming} (hρ : ρ.Idempotent) (arm : Option Stmt) :
    renameArm ρ (renameArm ρ arm) = renameArm ρ arm := by
  cases arm with
  | none => rfl
  | some s => simp only [renameArm, rename_rename hρ s]

theorem renameList_renameList {ρ : Renaming} (hρ : ρ.Idempotent) (l : List Stmt) :
    renameList ρ (renameList ρ l) = renameList ρ l := by
  cases l with
  | nil => rfl
  | cons s rest => simp only [renameList, rename_rename hρ s, renameList_renameList hρ rest]
end

variable (ρ : Renaming)

@[simp] theorem isSimple_rename (s : Stmt) : (rename ρ s).isSimple = s.isSimple := by
  cases s <;> rfl

@[simp] theorem isTerminal_rename (s : Stmt) : (rename ρ s).isTerminal = s.isTerminal := by
  cases s <;> rfl

@[simp] theorem isLoop_rename (s : Stmt) : (rename ρ s).isLoop = s.isLoop := by
  cases s <;> rfl

@[simp] theorem renameList_append (a b : List Stmt) :
    renameList ρ (a ++ b) = renameList ρ a ++ renameList ρ b := by
  simp only [renameList_eq_map, List.map_append]

theorem endsTerminal_renameList (l : List Stmt) :
    endsTerminal (renameList ρ l) = endsTerminal l := by
  rw [renameList_eq_map, endsTerminal, List.getLast?_map, endsTerminal]
  cases l.getLast? <;> simp

theorem statements_renameArm (arm : Option Stmt) :
    statements (renameArm ρ arm) = renameList ρ (statements arm) := by
  cases arm with
  | none => rfl
  | some s => cases s <;> rfl

mutual
theorem spliced_rename (s : Stmt) : spliced (rename ρ s) = renameList ρ (spliced s) := by
  cases s with
  | block l => simp only [rename, spliced, flatten_renameList l]
  | _ => rfl

theorem flatten_renameList (l : List Stmt) :
    flatten (renameList ρ l) = renameList ρ (flatten l) := by
  cases l with
  | nil => rfl
  | cons s rest =>
    simp only [renameList, flatten, spliced_rename s, flatten_renameList rest, renameList_append]
end

/-! ## The canonical form -/

theorem unroll_rename (c : Expr) (body : List Stmt) (n : Nat) :
    unroll (c.rename ρ) (renameList ρ body) n = rename ρ (unroll c body n) := by
  fun_induction unroll c body n with
  | case1 n ih => simp only [unroll, ih, rename, renameArm, renameList_append, renameList]
  | case2 n h =>
    unfold unroll
    split
    · exact absurd rfl (h _)
    · rfl

theorem loopCond_rename (c : Option Expr) :
    loopCond (c.map (Expr.rename ρ)) = (loopCond c).rename ρ := by
  cases c <;> rfl

theorem loopInit_renameArm (init : Option Stmt) :
    (loopInit (renameArm ρ init)).toOption = (loopInit init).toOption.map (renameList ρ) := by
  cases init with
  | none => rfl
  | some s =>
    simp only [renameArm, loopInit, isSimple_rename]
    split <;> rfl

theorem toOption_bind {α β : Type} (x : Except Fault α) (f : α → Except Fault β) :
    (x >>= f).toOption = x.toOption.bind fun a => (f a).toOption := by
  cases x <;> rfl

mutual
theorem expandOne_rename (b : Nat) (s : Stmt) :
    (expandOne b (rename ρ s)).toOption = (expandOne b s).toOption.map (renameList ρ) := by
  cases s with
  | block l => simp only [rename, expandOne, expand_renameList b l]
  | whileLoop c body =>
    simp only [rename, expandOne, statements_renameArm, unroll_rename]
    rfl
  | forLoop init c step body =>
    have hsteps : (step.map (Expr.rename ρ)).map Stmt.expr = renameList ρ (step.map .expr) := by
      simp only [renameList_eq_map, List.map_map]
      rfl
    simp only [rename, expandOne, List.length_map]
    split
    · rfl
    · rw [toOption_bind, toOption_bind, loopInit_renameArm, Option.map_bind]
      simp only [statements_renameArm, loopCond_rename, hsteps, ← renameList_append, unroll_rename]
      cases (loopInit init).toOption with
      | none => rfl
      | some first => simp [Except.toOption, renameList]
  | _ => rfl

/-- Blocks are spliced and loops unrolled whatever the names are. -/
theorem expand_renameList (b : Nat) (l : List Stmt) :
    (expand b (renameList ρ l)).toOption = (expand b l).toOption.map (renameList ρ) := by
  cases l with
  | nil => rfl
  | cons s rest =>
    simp only [renameList, expand, toOption_bind, expandOne_rename b s, expand_renameList b rest]
    cases (expandOne b s).toOption with
    | none => rfl
    | some first =>
      cases (expand b rest).toOption with
      | none => rfl
      | some more => simp [Except.toOption]
end

theorem withTail_renameList (arm tail : List Stmt) :
    withTail (renameList ρ arm) (renameList ρ tail) = renameList ρ (withTail arm tail) := by
  unfold withTail
  rw [endsTerminal_renameList]
  split
  · rfl
  · rw [renameList_append]

theorem mergeTail_rename (c : Expr) (yes no : Option Stmt) (tail : List Stmt) :
    mergeTail (c.rename ρ) (renameArm ρ yes) (renameArm ρ no) (renameList ρ tail) =
      rename ρ (mergeTail c yes no tail) := by
  have harm : ∀ l : List Stmt,
      (if (renameList ρ l).isEmpty then none else some (Stmt.block (renameList ρ l))) =
        renameArm ρ (if l.isEmpty then none else some (.block l)) := by
    intro l
    cases l <;> rfl
  have hyes : withTail (flatten (statements (renameArm ρ yes))) (renameList ρ tail) =
      renameList ρ (withTail (flatten (statements yes)) tail) := by
    rw [statements_renameArm, flatten_renameList, withTail_renameList]
  cases no with
  | none =>
    simp only [mergeTail, hyes, rename]
    exact congrArg (Stmt.branch _ _) (harm tail)
  | some s =>
    have hno : withTail (flatten (statements (some (rename ρ s)))) (renameList ρ tail) =
        renameList ρ (withTail (flatten (statements (some s))) tail) := by
      rw [← withTail_renameList, ← flatten_renameList, ← statements_renameArm, renameArm]
    simp only [mergeTail, hyes, renameArm, rename, hno, harm]

theorem joinTails_renameList (l : List Stmt) :
    (joinTails (renameList ρ l)).toOption = (joinTails l).toOption.map (renameList ρ) := by
  induction l with
  | nil => rfl
  | cons s rest ih =>
    have hall : ∀ more : List Stmt, (renameList ρ more).all isSimple = more.all isSimple := by
      intro more
      rw [renameList_eq_map, List.all_map]
      exact congrArg _ (funext (isSimple_rename ρ))
    simp only [renameList, joinTails, toOption_bind, ih]
    cases (joinTails rest).toOption with
    | none => rfl
    | some more =>
      simp only [Option.map_some, Option.bind_some, isSimple_rename, isLoop_rename, hall]
      split
      · rfl
      · split
        · rfl
        · split
          · rfl
          · cases s with
            | branch c yes no => simp only [rename, mergeTail_rename]; rfl
            | _ => rfl

theorem mergeLast_renameList (l : List Stmt) :
    mergeLast (renameList ρ l) = renameList ρ (mergeLast l) := by
  fun_induction mergeLast l with
  | case1 => rfl
  | case2 c yes no tail h =>
    rw [List.isEmpty_iff.mp h]
    rfl
  | case3 c yes no tail h =>
    have hne : (renameList ρ tail).isEmpty = false := by
      cases tail <;> simp_all [renameList]
    simp only [renameList, rename, mergeLast, hne, mergeTail_rename]
    rfl
  | case4 s rest hb h ih =>
    cases s with
    | branch c yes no => cases h
    | _ => simp_all [renameList, mergeLast, rename, isSimple]
  | case5 s rest hb h =>
    cases s with
    | branch c yes no => exact absurd rfl (hb c yes no)
    | _ => simp_all [renameList, mergeLast, rename, isSimple]

/-- The canonical form is made whatever the names are. -/
theorem canonicalize_renameList (b : Nat) (l : List Stmt) :
    (canonicalize b (renameList ρ l)).toOption =
      (canonicalize b l).toOption.map (renameList ρ) := by
  simp only [canonicalize, toOption_bind, expand_renameList]
  cases (expand b l).toOption with
  | none => rfl
  | some flat =>
    simp only [Option.map_some, Option.bind_some, joinTails_renameList]
    cases (joinTails flat).toOption with
    | none => rfl
    | some joined => simp [Except.toOption, mergeLast_renameList]

/-! ## Conditions -/

theorem splitCond_rename (c : Expr) (yes no : Option Stmt) :
    splitCond (c.rename ρ) (renameArm ρ yes) (renameArm ρ no) =
      ((splitCond c yes no).1.rename ρ, renameArm ρ (splitCond c yes no).2.1,
        renameArm ρ (splitCond c yes no).2.2) := by
  fun_induction splitCond c yes no with
  | case1 x y yes no ih => exact ih
  | case2 x y yes no ih => exact ih
  | case3 x yes no h ih =>
    rw [Expr.rename, splitCond, if_pos (by rw [Expr.isCompound_rename]; exact h), ih]
  | case4 x yes no h =>
    rw [Expr.rename, splitCond, if_neg (by rw [Expr.isCompound_rename]; exact h)]
  | case5 x yes no h₁ h₂ h₃ =>
    cases x with
    | binary op x y =>
      cases op with
      | and => exact absurd rfl (h₁ x y)
      | or => exact absurd rfl (h₂ x y)
      | _ => rfl
    | paren x => exact absurd rfl (h₃ x)
    | _ => rfl

end Stmt

theorem Shape.arms_rename (ρ : Renaming) (c : Expr) (yes no : Option Stmt) (b : Bool) :
    arms (c.rename ρ) (Stmt.renameArm ρ yes) (Stmt.renameArm ρ no) b =
      (arms c yes no b).map (Stmt.renameList ρ) := by
  have harm : ∀ arm : Option Stmt,
      armStmts (Stmt.renameArm ρ arm) = (armStmts arm).map (Stmt.renameList ρ) := by
    intro arm
    cases arm with
    | none => rfl
    | some s =>
      have := Stmt.statements_renameArm ρ (some s)
      simp only [Stmt.renameArm] at this
      simp only [Stmt.renameArm, armStmts, this, Stmt.flatten_renameList, Option.map_some]
  unfold arms
  rw [Stmt.splitCond_rename]
  cases b <;> exact harm _

/-! ## What is laid out -/

namespace Stmt

variable {ρ : Renaming}

theorem exists_canonicalize_of_rename {b : Nat} {l out : List Stmt}
    (h : canonicalize b (renameList ρ l) = .ok out) :
    ∃ out', canonicalize b l = .ok out' ∧ out = renameList ρ out' := by
  have hopt := canonicalize_renameList ρ b l
  rw [h] at hopt
  cases hc : canonicalize b l with
  | error f => simp [hc, Except.toOption] at hopt
  | ok out' =>
    refine ⟨out', rfl, ?_⟩
    simpa [hc, Except.toOption] using hopt

theorem isSimple_of_renameList {l : List Stmt} (h : ∀ s ∈ renameList ρ l, s.isSimple) :
    ∀ s ∈ l, s.isSimple := by
  simpa [renameList_eq_map] using h

theorem Straight.of_rename {l : List Stmt} (h : Straight (renameList ρ l)) : Straight l := by
  generalize hl : renameList ρ l = out at h
  cases h with
  | simple h => exact .simple (isSimple_of_renameList (hl ▸ h))
  | leaves before hb hs ha =>
    rw [renameList_eq_map] at hl
    obtain ⟨before', rest, rfl, rfl, hrest⟩ := List.map_eq_append_iff.mp hl
    obtain ⟨s', after', rfl, rfl, rfl⟩ := List.map_eq_cons_iff.mp hrest
    simp only [← renameList_eq_map] at hb ha
    exact .leaves before' (isSimple_of_renameList hb) (by simpa using hs)
      (isSimple_of_renameList ha)

/-- A renamed list that ends with a branch comes from a list that ends with a branch. -/
theorem of_renameList_branch {l before : List Stmt} {c : Expr} {yes no : Option Stmt}
    (h : renameList ρ l = before ++ [branch c yes no]) :
    ∃ before' c' yes' no', l = before' ++ [branch c' yes' no'] ∧ before = renameList ρ before' ∧
      c = c'.rename ρ ∧ yes = renameArm ρ yes' ∧ no = renameArm ρ no' := by
  rw [renameList_eq_map] at h
  obtain ⟨before', last, rfl, rfl, hlast⟩ := List.map_eq_append_iff.mp h
  obtain ⟨s, after, rfl, hs, hafter⟩ := List.map_eq_cons_iff.mp hlast
  obtain rfl := List.map_eq_nil_iff.mp hafter
  cases s with
  | branch c' yes' no' =>
    cases hs
    exact ⟨before', c', yes', no', rfl, (renameList_eq_map ρ before').symm, rfl, rfl, rfl⟩
  | _ => cases hs

end Stmt

/-- What is laid out for a renamed list is what is laid out for the list, with its names renamed. -/
theorem LaidOut.of_rename {ρ : Renaming} {bound : Nat} {all : Bool} {l body : List Stmt}
    (h : LaidOut bound all (Stmt.renameList ρ l) body) :
    ∃ body', LaidOut bound all l body' ∧ Stmt.renameList ρ body' = body := by
  generalize hl : Stmt.renameList ρ l = renamed at h
  induction h generalizing l with
  | straight hc hs =>
    subst hl
    obtain ⟨stmts', hc', rfl⟩ := Stmt.exists_canonicalize_of_rename hc
    exact ⟨stmts', .straight hc' hs.of_rename, rfl⟩
  | @branch _ before c yes no sub kept hc hb hall hkept hsub ih =>
    subst hl
    obtain ⟨out, hc', hout⟩ := Stmt.exists_canonicalize_of_rename hc
    obtain ⟨before', c', yes', no', rfl, rfl, rfl, rfl, rfl⟩ := Stmt.of_renameList_branch hout.symm
    -- An arm as it was laid out comes from the arm before it was renamed.
    have harm : ∀ b, ∃ sub', (∀ stmts, Shape.arms c' yes' no' b = some stmts →
        (kept b → sub' = stmts) ∧ (kept b = false → LaidOut bound all stmts sub') ∧
          Stmt.renameList ρ sub' = sub b) := by
      intro b
      cases ha : Shape.arms c' yes' no' b with
      | none => exact ⟨[], by simp⟩
      | some stmts =>
        have ha' : Shape.arms (c'.rename ρ) (Stmt.renameArm ρ yes') (Stmt.renameArm ρ no') b =
            some (Stmt.renameList ρ stmts) := by rw [Shape.arms_rename, ha]; rfl
        cases hk : kept b with
        | true => exact ⟨stmts, by simp [hkept b _ ha' hk]⟩
        | false =>
          obtain ⟨sub', hlaid, hsub'⟩ := ih b _ ha' hk rfl
          exact ⟨sub', by simpa using ⟨hlaid, hsub'⟩⟩
    choose sub' hsub' using harm
    refine ⟨_, .branch sub' kept hc' (Stmt.isSimple_of_renameList hb) hall
      (fun b stmts ha hk => (hsub' b stmts ha).1 hk)
      (fun b stmts ha hk => (hsub' b stmts ha).2.1 hk), ?_⟩
    have hblock : ∀ b, Stmt.renameArm ρ ((Shape.arms c' yes' no' b).map fun _ => .block (sub' b)) =
        (Shape.arms (c'.rename ρ) (Stmt.renameArm ρ yes') (Stmt.renameArm ρ no') b).map
          fun _ => .block (sub b) := by
      intro b
      rw [Shape.arms_rename]
      cases ha : Shape.arms c' yes' no' b with
      | none => rfl
      | some stmts =>
        simp only [Option.map_some, Stmt.renameArm, Stmt.rename, (hsub' b stmts ha).2.2]
    rw [Stmt.renameList_append, Stmt.splitCond_rename]
    simp only [Stmt.renameList, Stmt.rename, hblock]

/-- A renaming that leaves a list as it is leaves what is laid out for it as it is. -/
theorem LaidOut.rename_eq_self {ρ : Renaming} (hρ : ρ.Idempotent) {bound : Nat} {all : Bool}
    {l body : List Stmt} (h : LaidOut bound all l body) (hl : Stmt.renameList ρ l = l) :
    Stmt.renameList ρ body = body := by
  rw [← hl] at h
  obtain ⟨body', -, rfl⟩ := h.of_rename
  exact Stmt.renameList_renameList hρ body'

end PathTree
