import PathTree.Proofs.Renaming
import PathTree.Proofs.Scoping

/-!
# Marked names

To follow the names of a function that are not local through everything that is done with it, they
are marked : each mention of a name outside the scope of all its declarations gets a sign in front
of it that no name has. Marking does not get in the way of lowering (`FuncDecl.lower_marked`). The
function with marks is lowered as the function is, and without the marks the results are the same.

Names that are read by their spelling are not marked, because a marked name would not be read. The
texts of types are not marked either, because no local is mentioned in them.
-/

namespace PathTree

namespace Source

/-! ## Marks -/

/-- The name that was marked, if the name is marked. -/
def marked? (name : String) : Option String :=
  match name.toList with
  | '#' :: rest => some (String.ofList rest)
  | _ => none

/-- A name without its mark. -/
def unmark (name : String) : String := (marked? name).getD name

/-- A name as it is mentioned where the names of `scope` are visible. -/
def markIn (scope : List String) (name : String) : String :=
  if scope.contains name || spelledNames.contains name then name else "#" ++ name

theorem marked?_mark (name : String) : marked? ("#" ++ name) = some name := by
  simp [marked?]

theorem marked?_of_spelled {name : String} (h : name ∈ spelledNames) : marked? name = none := by
  have hall : ∀ name ∈ spelledNames, marked? name = none := by decide
  exact hall name h

mutual
/-- An expression with the names marked that are not visible. -/
def Node.mark (scope : List String) : Node → Node
  | .ident name => .ident (markIn scope name)
  | .paren x => .paren (x.mark scope)
  | .selector x sel => .selector (x.mark scope) sel
  | .call callee args spread => .call (callee.mark scope) (markArgs scope args) spread
  | .unary op x => .unary op (x.mark scope)
  | .binary op x y => .binary op (x.mark scope) (y.mark scope)
  | x => x

/-- Arguments with the names marked that are not visible. -/
def markArgs (scope : List String) : List Node → List Node
  | [] => []
  | x :: rest => x.mark scope :: markArgs scope rest
end

/-- A list of variables with the names marked in its values that are not visible. -/
def ValueSpec.mark (scope : List String) (spec : ValueSpec) : ValueSpec :=
  { spec with values := spec.values.map (Node.mark scope) }

/-- Lists of variables, one after the other, with marks. -/
def markSpecs (scope : List String) : List ValueSpec → List ValueSpec
  | [] => []
  | spec :: rest => spec.mark scope :: markSpecs (spec.binds ++ scope) rest

namespace Statement

mutual
/-- A statement with the names marked that are free in it, where the names of `scope` are visible.
-/
def mark (scope : List String) : Statement → Statement
  | .block list => .block (markList scope list)
  | .branch init cond body second =>
    .branch (markOption scope init) (cond.mark (bindsOption init ++ scope))
      (markList (bindsOption init ++ scope) body) (markOption (bindsOption init ++ scope) second)
  | .loop init cond step body =>
    .loop (markOption scope init) (cond.map (Node.mark (bindsOption init ++ scope)))
      (markOption (bindsOption init ++ scope) step) (markList (bindsOption init ++ scope) body)
  | .ret results => .ret (results.map (Node.mark scope))
  | .assign targets op values =>
    .assign (if op = .define then targets else targets.map (Node.mark scope)) op
      (values.map (Node.mark scope))
  | .count x up => .count (x.mark scope) up
  | .vars specs => .vars (markSpecs scope specs)
  | .expr x => .expr (x.mark scope)
  | s => s

/-- A list of statements with the names marked that are free in it. -/
def markList (scope : List String) : List Statement → List Statement
  | [] => []
  | s :: rest => s.mark scope :: markList (s.binds ++ scope) rest

/-- A statement that may be missing, with the names marked that are free in it. -/
def markOption (scope : List String) : Option Statement → Option Statement
  | none => none
  | some s => some (s.mark scope)
end

mutual
/-- The texts of the types that variables of a statement are declared with, at any depth. -/
def types : Statement → List String
  | .block list => typesList list
  | .branch init _ body second => typesOption init ++ typesList body ++ typesOption second
  | .loop init _ step body => typesOption init ++ typesOption step ++ typesList body
  | .vars specs => specs.map fun spec => spec.type.elim "" Node.typeText
  | _ => []

/-- The texts of the types that variables of a list are declared with, at any depth. -/
def typesList : List Statement → List String
  | [] => []
  | s :: rest => s.types ++ typesList rest

/-- The texts of the types that variables of a statement which may be missing are declared with. -/
def typesOption : Option Statement → List String
  | none => []
  | some s => s.types
end

end Statement

namespace FuncDecl

/-- A function with the names marked that are free in its body. -/
def marked (f : FuncDecl) : FuncDecl :=
  { f with
    body := f.body.map fun body => { body with list := Statement.markList f.headNames body.list } }

/-- The texts of the types in the body of a function. -/
def types (f : FuncDecl) : List String := Statement.typesList f.list

end FuncDecl

end Source

open Source Lower

/-! ## Trees with marks -/

namespace Renaming

/-- Takes the marks away. -/
def unmark : Renaming := ⟨Source.unmark, id, id⟩

/-- A name that is good stays, and the others become `other`. -/
def keep (good : String → Bool) (other name : String) : String := if good name then name else other

theorem keep_eq_self (good : String → Bool) {other name : String} :
    keep good other name = name ↔ good name ∨ name = other := by
  unfold keep
  split
  · next h => simp [h]
  · next h => simpa [h] using eq_comm

theorem keep_keep (good : String → Bool) (other name : String) :
    keep good other (keep good other name) = keep good other name := by
  rw [keep_eq_self]
  by_cases h : good name
  · exact Or.inl (by rw [keep, if_pos h]; exact h)
  · exact Or.inr (by rw [keep, if_neg h])

/-- Leaves a tree as it is if the marked names in it are among `free`, the types among `types` and
the declared names among `locals`. -/
def within (free types locals : List String) : Renaming where
  use := keep (fun name => (marked? name).all (free.contains ·)) "_"
  type := keep (types.contains ·) ""
  declared := keep (locals.contains ·) "_"

theorem within_idempotent (free types locals : List String) :
    (within free types locals).Idempotent where
  use := keep_keep (fun name => (marked? name).all (free.contains ·)) "_"
  type := keep_keep (types.contains ·) ""
  declared := keep_keep (locals.contains ·) "_"

theorem use_within {free types locals : List String} {name : String} :
    (within free types locals).use name = name ↔
      (∀ x, marked? name = some x → x ∈ free) ∨ name = "_" := by
  refine (keep_eq_self fun name => (marked? name).all (free.contains ·)).trans ?_
  cases marked? name <;> simp

theorem type_within {free types locals : List String} {text : String} :
    (within free types locals).type text = text ↔ text ∈ types ∨ text = "" := by
  refine (keep_eq_self (types.contains ·)).trans ?_
  simp

theorem declared_within {free types locals : List String} {name : String} :
    (within free types locals).declared name = name ↔ name ∈ locals ∨ name = "_" := by
  refine (keep_eq_self (locals.contains ·)).trans ?_
  simp

/-- `x'` is `x` with marks, and `ρ` leaves it as it is. -/
def Lifts {α : Type} (ρ : Renaming) (rename : Renaming → α → α) (x' x : α) : Prop :=
  rename .unmark x' = x ∧ rename ρ x' = x'

end Renaming

namespace Stmt

variable (ρ : Renaming)

theorem rename_hoist (start : Option Stmt) (s : Stmt) :
    rename ρ (hoist start s) = hoist (renameArm ρ start) (rename ρ s) := by
  cases start <;> rfl

theorem rename_single (l : List Stmt) : rename ρ (single l) = single (renameList ρ l) := by
  unfold single
  split
  · rfl
  · next h =>
    split
    · next s hs =>
      rw [renameList_eq_map] at hs
      obtain ⟨t, rfl, -⟩ := List.map_eq_singleton_iff.mp hs
      exact absurd rfl (h t)
    · rfl

theorem rename_ofLoop (start : Option Stmt) (c : Option Expr) (post : List Expr)
    (list : List Stmt) :
    rename ρ (ofLoop start c post list) =
      ofLoop (renameArm ρ start) (c.map (Expr.rename ρ)) (post.map (Expr.rename ρ))
        (renameList ρ list) := by
  cases start <;> cases c <;> cases post <;> rfl

end Stmt

namespace Source

section Lowering

variable {F T L scope : List String}

/-! ## Lowering with marks -/

/-- What is visible is a local, and the names of locals have no mark. -/
structure Plain (L scope : List String) : Prop where
  subset : scope ⊆ L
  plain : ∀ name ∈ L, marked? name = none

theorem Plain.append {new : List String} (h : Plain L scope) (hnew : new ⊆ L) :
    Plain L (new ++ scope) :=
  ⟨List.append_subset.mpr ⟨hnew, h.subset⟩, h.plain⟩

/-- A name is mentioned as it is, or it is free and gets a mark. -/
theorem markIn_cases (scope : List String) (name : String) :
    (markIn scope name = name ∧ (name ∈ scope ∨ name ∈ spelledNames)) ∨
      (markIn scope name = "#" ++ name ∧ name ∉ scope ∧ name ∉ spelledNames) := by
  unfold markIn
  split
  · next h => exact Or.inl ⟨rfl, by simpa using h⟩
  · next h => exact Or.inr ⟨rfl, by simpa using h⟩

theorem markIn_of_spelled {name : String} (h : name ∈ spelledNames) : markIn scope name = name := by
  simp [markIn, h]

theorem lifts_markIn (hp : Plain L scope) (name : String) (hf : name ∉ scope → name ∈ F) :
    unmark (markIn scope name) = name ∧
      (Renaming.within F T L).use (markIn scope name) = markIn scope name := by
  rcases markIn_cases scope name with ⟨hm, h⟩ | ⟨hm, hs, -⟩
  · have hplain : marked? name = none :=
      h.elim (fun h => hp.plain name (hp.subset h)) marked?_of_spelled
    rw [hm]
    exact ⟨by simp [unmark, hplain], Renaming.use_within.mpr (Or.inl (by simp [hplain]))⟩
  · rw [hm]
    exact ⟨by simp [unmark, marked?_mark],
      Renaming.use_within.mpr (Or.inl (by simpa [marked?_mark] using hf hs))⟩

/-- A marked name is not read by its spelling. -/
theorem markIn_mem_iff (scope : List String) {names : List String} (h : names ⊆ spelledNames)
    (name : String) :
    markIn scope name ∈ names ↔ name ∈ names := by
  rcases markIn_cases scope name with ⟨hm, -⟩ | ⟨hm, -, hs⟩
  · rw [hm]
  · have hmark : markIn scope name ∉ names := fun hn => by
      have := marked?_of_spelled (h hn)
      rw [hm, marked?_mark] at this
      cases this
    exact iff_of_false hmark fun hn => hs (h hn)

theorem lifts_nameExpr (hp : Plain L scope) {name : String} (hf : name ∉ scope → name ∈ F) :
    Renaming.Lifts (.within F T L) Expr.rename (nameExpr (markIn scope name)) (nameExpr name) := by
  rcases nameExpr_cases name with ⟨hs, l, hl⟩ | hi
  · rw [markIn_of_spelled hs, hl]
    exact ⟨rfl, rfl⟩
  · have hmark : nameExpr (markIn scope name) = .ident (markIn scope name) := by
      rcases nameExpr_cases (markIn scope name) with ⟨hs, -⟩ | hm
      · rw [markIn_of_spelled ((markIn_mem_iff scope (List.Subset.refl _) name).mp hs), hi]
      · exact hm
    obtain ⟨hun, hin⟩ := lifts_markIn (T := T) hp name hf
    rw [hmark, hi]
    exact ⟨congrArg Expr.ident hun, congrArg Expr.ident hin⟩

theorem lifts_namedCall (hp : Plain L scope) (ht : conversionTypes ⊆ T) {name : String}
    (hf : name ∉ scope → name ∈ F) {ys ys' : List Expr}
    (hy : Renaming.Lifts (.within F T L) Expr.renameList ys' ys) :
    Renaming.Lifts (.within F T L) Expr.rename (namedCall (markIn scope name) ys')
      (namedCall name ys) := by
  obtain ⟨hun, hin⟩ := lifts_markIn (T := T) hp name hf
  obtain ⟨rfl, hys⟩ := hy
  have hconv : markIn scope name ∈ conversionTypes ↔ name ∈ conversionTypes :=
    markIn_mem_iff scope (List.subset_append_right _ _) name
  obtain ⟨y', rfl, hc, he⟩ | ⟨hc, he⟩ := namedCall_cases (markIn scope name) ys'
  · have hspelled : name ∈ spelledNames := List.mem_append_right _ (hconv.mp hc)
    have hcast :
        namedCall name (Expr.renameList .unmark [y']) = .cast name (y'.rename .unmark) := by
      simp [Expr.renameList, namedCall, hconv.mp hc]
    rw [he, hcast, markIn_of_spelled hspelled]
    refine ⟨rfl, ?_⟩
    have hy' : y'.rename (.within F T L) = y' := by simpa [Expr.renameList] using hys
    rw [Expr.rename, hy', Renaming.type_within.mpr (Or.inl (ht (hconv.mp hc)))]
  · have hcall : namedCall name (Expr.renameList .unmark ys') =
        .call (.ident name) (Expr.renameList .unmark ys') := by
      obtain ⟨z, hz, hn, -⟩ | ⟨-, hcall⟩ := namedCall_cases name (Expr.renameList .unmark ys')
      · obtain ⟨y', rfl⟩ : ∃ y', ys' = [y'] := by
          match ys', hz with
          | [y'], _ => exact ⟨y', rfl⟩
        exact absurd (hconv.mpr hn) (hc y' rfl)
      · exact hcall
    rw [he, hcall]
    refine ⟨?_, by rw [Expr.rename, Expr.rename, hin, hys]⟩
    rw [Expr.rename, Expr.rename]
    exact congrArg (Expr.call · _) (congrArg Expr.ident hun)

theorem isNumber_mark (scope : List String) (x : Node) : (x.mark scope).isNumber = x.isNumber := by
  cases x <;> rfl

mutual
/-- An expression with marks is lowered to the tree with marks. -/
theorem lower_mark (hp : Plain L scope) (ht : conversionTypes ⊆ T) {n : Node} {y : Expr}
    (h : n.lower = .ok y) (hf : n.free scope ⊆ F) :
    ∃ y', (n.mark scope).lower = .ok y' ∧ Renaming.Lifts (.within F T L) Expr.rename y' y := by
  cases Node.lowersTo h with
  | name name =>
    refine ⟨_, (Node.LowersTo.name (markIn scope name)).lower, lifts_nameExpr hp fun hs => hf ?_⟩
    simp [Node.free, Node.names, hs]
  | literal text hk => exact ⟨_, (Node.LowersTo.literal text hk).lower, rfl, rfl⟩
  | signed hn hk => exact ⟨_, (Node.LowersTo.signed hn hk).lower, rfl, rfl⟩
  | @unary op un x z hop hn hx =>
    obtain ⟨z', hz, rfl, hin⟩ := lower_mark hp ht hx (by simpa [Node.free, Node.names] using hf)
    exact ⟨_, (Node.LowersTo.unary hop (by rwa [isNumber_mark]) hz).lower, rfl, by
      rw [Expr.rename, hin]⟩
  | @binary op bin x₁ x₂ y₁ y₂ hop h₁ h₂ =>
    simp only [Node.free, Node.names, List.filter_append, List.append_subset] at hf
    obtain ⟨z₁, hz₁, rfl, hin₁⟩ := lower_mark hp ht h₁ hf.1
    obtain ⟨z₂, hz₂, rfl, hin₂⟩ := lower_mark hp ht h₂ hf.2
    exact ⟨_, (Node.LowersTo.binary hop hz₁ hz₂).lower, rfl, by rw [Expr.rename, hin₁, hin₂]⟩
  | @paren x z hx =>
    obtain ⟨z', hz, rfl, hin⟩ := lower_mark hp ht hx (by simpa [Node.free, Node.names] using hf)
    exact ⟨_, (Node.LowersTo.paren hz).lower, rfl, by rw [Expr.rename, hin]⟩
  | @member x z sel hx =>
    obtain ⟨z', hz, rfl, hin⟩ := lower_mark hp ht hx (by simpa [Node.free, Node.names] using hf)
    exact ⟨_, (Node.LowersTo.member sel hz).lower, rfl, by rw [Expr.rename, hin]⟩
  | @named name args ys ha =>
    simp only [Node.free, Node.names, List.filter_append, List.append_subset] at hf
    obtain ⟨ys', hys, hlift⟩ := lowerArgs_mark hp ht ha hf.2
    refine ⟨_, (Node.LowersTo.named (markIn scope name) hys).lower,
      lifts_namedCall hp ht (fun hs => ?_) hlift⟩
    exact hf.1 (by simp [hs])
  | @method x z sel args ys hx ha =>
    simp only [Node.free, Node.names, List.filter_append, List.append_subset] at hf
    obtain ⟨z', hz, rfl, hin⟩ := lower_mark hp ht hx hf.1
    obtain ⟨ys', hys, rfl, hins⟩ := lowerArgs_mark hp ht ha hf.2
    exact ⟨_, (Node.LowersTo.method sel hz hys).lower, rfl, by
      rw [Expr.rename, Expr.rename, hin, hins]⟩

theorem lowerArgs_mark (hp : Plain L scope) (ht : conversionTypes ⊆ T) {args : List Node}
    {ys : List Expr} (h : lowerArgs args = .ok ys)
    (hf : (namesList args).filter (! scope.contains ·) ⊆ F) :
    ∃ ys', lowerArgs (markArgs scope args) = .ok ys' ∧
      Renaming.Lifts (.within F T L) Expr.renameList ys' ys := by
  cases args with
  | nil =>
    cases h
    exact ⟨[], rfl, rfl, rfl⟩
  | cons x rest =>
    obtain ⟨y, more, hx, hr, rfl⟩ := lowerArgs_cons h
    simp only [namesList, List.filter_append, List.append_subset] at hf
    obtain ⟨y', hy, rfl, hin⟩ := lower_mark hp ht hx hf.1
    obtain ⟨more', hmore, rfl, hins⟩ := lowerArgs_mark hp ht hr hf.2
    refine ⟨y' :: more', ?_, rfl, by rw [Expr.renameList, hin, hins]⟩
    simp only [markArgs, lowerArgs, hy, hmore]
    rfl
end

theorem lowerOption_mark (hp : Plain L scope) (ht : conversionTypes ⊆ T) {x : Option Node}
    {y : Option Expr} (h : lowerOption x = .ok y) (hf : x.toList.flatMap (Node.free scope) ⊆ F) :
    ∃ y', lowerOption (x.map (Node.mark scope)) = .ok y' ∧
      y'.map (Expr.rename .unmark) = y ∧ y'.map (Expr.rename (.within F T L)) = y' := by
  rcases lowerOption_eq_ok h with ⟨rfl, rfl⟩ | ⟨n, z, rfl, hn, rfl⟩
  · exact ⟨none, rfl, rfl, rfl⟩
  · obtain ⟨z', hz, rfl, hin⟩ := lower_mark hp ht hn (by simpa using hf)
    refine ⟨some z', ?_, rfl, congrArg some hin⟩
    simp only [Option.map_some, lowerOption, hz]
    rfl

theorem lowerNames_mark (hp : Plain L scope) (ht : conversionTypes ⊆ T) {type : String}
    {names : List String} {values : List Node} {l : List Stmt} {sc sc' : Scopes}
    (h : Gives (lowerNames type names values) sc l sc') (hl : names.filter (· != "_") ⊆ L)
    (hf : values.flatMap (Node.free scope) ⊆ F) (htype : type ∈ T) :
    ∃ l', Gives (lowerNames type names (values.map (Node.mark scope))) sc l' sc' ∧
      Renaming.Lifts (.within F T L) Stmt.renameList l' l := by
  induction names generalizing values l sc with
  | nil =>
    obtain ⟨rfl, rfl⟩ := gives_lowerNames_nil.mp h
    exact ⟨[], gives_lowerNames_nil.mpr ⟨rfl, rfl⟩, rfl, rfl⟩
  | cons name names ih =>
    obtain ⟨value, sc₁, rest, hv, hd, hrest, rfl⟩ := gives_lowerNames_cons h
    have hhead : values.head?.toList.flatMap (Node.free scope) ⊆ F := by
      cases values <;> simp_all
    have hdrop : (values.drop 1).flatMap (Node.free scope) ⊆ F := by
      cases values <;> simp_all
    have hname : name ∈ L ∨ name = "_" := by
      by_cases hb : name = "_"
      · exact Or.inr hb
      · exact Or.inl (hl (by simp [hb]))
    have hnames : names.filter (· != "_") ⊆ L := fun n hn => hl (by
      obtain ⟨hmem, hb⟩ := List.mem_filter.mp hn
      exact List.mem_filter.mpr ⟨List.mem_cons_of_mem _ hmem, hb⟩)
    obtain ⟨value', hv', rfl, hin⟩ := lowerOption_mark hp ht hv hhead
    obtain ⟨rest', hrest', rfl, hins⟩ := ih hrest hnames hdrop
    refine ⟨_, gives_lowerNames_of_cons (by rwa [List.head?_map]) hd (by rwa [← List.map_drop]),
      rfl, ?_⟩
    rw [Stmt.renameList, hins, Stmt.rename, hin, Renaming.declared_within.mpr hname,
      Renaming.type_within.mpr (Or.inl htype)]

theorem lowerSpecs_mark (hp : Plain L scope) (ht : conversionTypes ⊆ T) {specs : List ValueSpec}
    {decls : List (List Stmt)} {sc sc' : Scopes} (h : Gives (specs.mapM lowerSpec) sc decls sc')
    (hl : bindsSpecs specs ⊆ L) (hf : freeSpecs scope specs ⊆ F)
    (htype : ∀ spec ∈ specs, spec.type.elim "" Node.typeText ∈ T) :
    ∃ decls', Gives ((markSpecs scope specs).mapM lowerSpec) sc decls' sc' ∧
      Renaming.Lifts (.within F T L) Stmt.renameList decls'.flatten decls.flatten := by
  induction specs generalizing scope decls sc with
  | nil =>
    obtain ⟨rfl, rfl⟩ := gives_mapM_nil.mp h
    exact ⟨[], gives_mapM_nil.mpr ⟨rfl, rfl⟩, rfl, rfl⟩
  | cons spec specs ih =>
    obtain ⟨l, sc₁, more, hspec, hmore, rfl⟩ := gives_mapM_cons.mp h
    obtain ⟨hlen, hnames⟩ := gives_lowerSpec hspec
    simp only [bindsSpecs, freeSpecs, List.append_subset] at hl hf
    obtain ⟨hhead, htypes⟩ := List.forall_mem_cons.mp htype
    obtain ⟨l', hl', rfl, hin⟩ := lowerNames_mark hp ht hnames hl.2 hf.1 hhead
    obtain ⟨more', hmore', hun, hins⟩ := ih (hp.append hl.2) hmore hl.1 hf.2 htypes
    have hspec' : Gives (lowerSpec (spec.mark scope)) sc l' sc₁ := by
      refine gives_lowerSpec_of_names ?_ hl'
      simpa [ValueSpec.mark] using hlen
    refine ⟨l' :: more', gives_mapM_cons.mpr ⟨l', sc₁, more', hspec', hmore', rfl⟩, ?_, ?_⟩
    · rw [List.flatten_cons, Stmt.renameList_append, hun, List.flatten_cons]
    · rw [List.flatten_cons, Stmt.renameList_append, hins, hin]

theorem isSimple_mark (scope : List String) (s : Statement) :
    (s.mark scope).isSimple = s.isSimple := by
  cases s <;> rfl

/-- Marks make no call of `panic`. -/
theorem mark_ne_panic {callee : Node} {args : List Node}
    (h : ∀ v, callee = .ident "panic" → args ≠ [v]) :
    ∀ v, callee.mark scope = .ident "panic" → markArgs scope args ≠ [v] := by
  intro v hc ha
  cases callee with
  | ident name =>
    have hm : markIn scope name = "panic" := by simpa [Node.mark] using hc
    have hname : name ∈ ["panic"] := (markIn_mem_iff scope (by decide) name).mp (by simp [hm])
    obtain ⟨x, rfl⟩ : ∃ x, args = [x] := by
      match args, ha with
      | [x], _ => exact ⟨x, rfl⟩
    exact h x (by rw [List.mem_singleton.mp hname]) rfl
  | _ => simp [Node.mark] at hc

/-- A statement without others in it, with marks, is lowered to the tree with marks. -/
theorem lowersTo_mark_of_not_isCompound {s : Statement} {r : Option Stmt} {sc sc' : Scopes}
    (hp : Plain L scope) (ht : conversionTypes ⊆ T) (h : s.LowersTo sc r sc') (hl : s.locals ⊆ L)
    (hf : s.free scope ⊆ F) (hty : s.types ⊆ T) (hs : s.isCompound = false) :
    ∃ r', (s.mark scope).LowersTo sc r' sc' ∧
      Renaming.Lifts (.within F T L) Stmt.renameArm r' r := by
  cases h with
  | block => cases hs
  | branch => cases hs
  | loop => cases hs
  | retNone => exact ⟨_, .retNone, rfl, rfl⟩
  | @ret x y _ hx =>
    obtain ⟨y', hy, rfl, hin⟩ := lower_mark hp ht hx (by simpa [Statement.free] using hf)
    exact ⟨_, .ret hy, rfl, by rw [Stmt.renameArm, Stmt.rename, Option.map_some, hin]⟩
  | @define name x y _ _ hx hd =>
    obtain ⟨y', hy, rfl, hin⟩ := lower_mark hp ht hx (by simpa [Statement.free] using hf)
    have hname : name ∈ L ∨ name = "_" := by
      by_cases hb : name = "_"
      · exact Or.inr hb
      · exact Or.inl (hl (by simp [Statement.locals, Statement.binds, hb]))
    refine ⟨_, .define hy hd, rfl, ?_⟩
    rw [Stmt.renameArm, Stmt.declare, Stmt.rename, Option.map_some, hin,
      Renaming.declared_within.mpr hname, Renaming.type_within.mpr (Or.inr rfl)]
  | @assign op aop name x y _ hop hx =>
    have hne : op ≠ .define := by
      rintro rfl
      cases hop
    simp only [Statement.free, if_neg hne, List.flatMap_singleton, List.append_subset] at hf
    obtain ⟨y', hy, rfl, hin⟩ := lower_mark hp ht hx hf.2
    obtain ⟨hun, hinn⟩ := lifts_markIn (T := T) (F := F) hp name fun hs =>
      hf.1 (by simp [Node.free, Node.names, hs])
    have hmark : (Statement.assign [.ident name] op [x]).mark scope =
        .assign [.ident (markIn scope name)] op [x.mark scope] := by
      simp only [Statement.mark, if_neg hne, List.map_cons, List.map_nil, Node.mark]
    rw [hmark]
    refine ⟨_, .assign hop hy, ?_, ?_⟩
    · rw [Stmt.renameArm, Stmt.rename, Expr.rename]
      exact congrArg (fun n => some (Stmt.expr (.assign aop n _))) hun
    · rw [Stmt.renameArm, Stmt.rename, Expr.rename, hinn, hin]
  | @count x y up _ hx =>
    obtain ⟨y', hy, rfl, hin⟩ := lower_mark hp ht hx hf
    exact ⟨_, .count up hy, rfl, by rw [Stmt.renameArm, Stmt.rename, Expr.rename, hin]⟩
  | @vars specs decls _ _ hd =>
    obtain ⟨decls', hd', hun, hin⟩ := lowerSpecs_mark hp ht hd hl hf fun spec hs =>
      hty (List.mem_map_of_mem hs)
    refine ⟨_, .vars hd', ?_, ?_⟩
    · rw [Stmt.renameArm, Stmt.rename_single, hun]
    · rw [Stmt.renameArm, Stmt.rename_single, hin]
  | @throw v spread y _ hv =>
    simp only [Statement.free, Node.free, Node.names, namesList, List.append_nil,
      List.filter_append, List.append_subset] at hf
    obtain ⟨y', hy, rfl, hin⟩ := lower_mark hp ht hv hf.2
    have hmark : (Statement.expr (.call (.ident "panic") [v] spread)).mark scope =
        .expr (.call (.ident "panic") [v.mark scope] spread) := by
      simp only [Statement.mark, Node.mark, markArgs,
        markIn_of_spelled (show "panic" ∈ spelledNames by decide)]
    rw [hmark]
    exact ⟨_, .throw spread hy, rfl, by rw [Stmt.renameArm, Stmt.rename, Option.map_some, hin]⟩
  | @call callee args spread y _ hpanic hx =>
    obtain ⟨y', hy, rfl, hin⟩ := lower_mark hp ht hx hf
    exact ⟨_, .call (mark_ne_panic hpanic) hy, rfl, by rw [Stmt.renameArm, Stmt.rename, hin]⟩
  | empty => exact ⟨none, .empty, rfl, rfl⟩

mutual
/-- A statement with marks is lowered to the tree with marks. -/
theorem lowersTo_mark {scope : List String} {s : Statement} {r : Option Stmt} {sc sc' : Scopes}
    (hp : Plain L scope) (ht : conversionTypes ⊆ T) (h : s.LowersTo sc r sc') (hl : s.locals ⊆ L)
    (hf : s.free scope ⊆ F) (hty : s.types ⊆ T) :
    ∃ r', (s.mark scope).LowersTo sc r' sc' ∧
      Renaming.Lifts (.within F T L) Stmt.renameArm r' r := by
  cases s with
  | block l =>
    obtain ⟨out, hlist, rfl⟩ := h.of_block
    obtain ⟨out', hout, rfl, hin⟩ := lowerList_mark hp ht hlist hl hf hty
    exact ⟨_, .block hout, rfl, by rw [Stmt.renameArm, Stmt.rename, hin]⟩
  | branch init cond body other =>
    obtain ⟨start, c, yes, no, sc₁, sc₂, sc₃, hi, hc, hb, ho, rfl, rfl⟩ := h.of_branch
    simp only [Statement.locals, Statement.free, Statement.types, List.append_subset] at hl hf hty
    have hp₁ := hp.append (List.Subset.trans (Statement.bindsOption_subset_locals init) hl.1.1)
    obtain ⟨start', hstart, rfl, hins⟩ := lowerSimple_mark hp ht hi hl.1.1 hf.1.1.1 hty.1.1
    obtain ⟨c', hc', rfl, hinc⟩ := lower_mark hp₁ ht hc hf.1.1.2
    obtain ⟨yes', hyes, rfl, hiny⟩ := lowerList_mark hp₁ ht hb hl.1.2 hf.1.2 hty.1.2
    obtain ⟨no', hno, rfl, hinn⟩ := lowerElse_mark hp₁ ht ho hl.2 hf.2 hty.2
    refine ⟨_, .branch hstart hc' hyes hno, ?_, ?_⟩
    · simp only [Stmt.renameArm, Stmt.rename_hoist, Stmt.rename]
    · simp only [Stmt.renameArm, Stmt.rename_hoist, Stmt.rename, hins, hinc, hiny, hinn]
  | loop init cond step body =>
    obtain ⟨start, c, list, next, post, sc₁, sc₂, sc₃, hi, hc, hb, hs, hpost, rfl, rfl⟩ := h.of_loop
    simp only [Statement.locals, Statement.free, Statement.types, List.append_subset] at hl hf hty
    have hp₁ := hp.append (List.Subset.trans (Statement.bindsOption_subset_locals init) hl.1.1)
    obtain ⟨start', hstart, rfl, hins⟩ := lowerSimple_mark hp ht hi hl.1.1 hf.1.1.1 hty.1.1
    obtain ⟨c', hc', rfl, hinc⟩ := lowerOption_mark hp₁ ht hc hf.1.1.2
    obtain ⟨list', hlist, rfl, hinl⟩ := lowerList_mark hp₁ ht hb hl.2 hf.2 hty.2
    obtain ⟨next', hnext, hun, hinx⟩ := lowerSimple_mark hp₁ ht hs hl.1.2 hf.1.2 hty.1.2
    -- The step is missing, or it is an expression before and behind the marks.
    obtain ⟨post', hpost', rfl, hinp⟩ : ∃ post' : List Expr,
        ((Statement.markOption (Statement.bindsOption init ++ scope) step = none ∧ post' = []) ∨
          ∃ x, next' = some (.expr x) ∧ post' = [x]) ∧
        post'.map (Expr.rename .unmark) = post ∧
        post'.map (Expr.rename (.within F T L)) = post' := by
      rcases hpost with ⟨rfl, rfl⟩ | ⟨x, rfl, rfl⟩
      · exact ⟨[], Or.inl ⟨rfl, rfl⟩, rfl, rfl⟩
      · cases next' with
        | none => cases hun
        | some t =>
          cases t with
          | expr x' =>
            cases hun
            exact ⟨[x'], Or.inr ⟨x', rfl, rfl⟩, rfl, by
              simpa [Stmt.renameArm, Stmt.rename] using hinx⟩
          | _ => cases hun
    refine ⟨_, .loop hstart hc' hlist hnext hpost', ?_, ?_⟩
    · simp only [Stmt.renameArm, Stmt.rename_ofLoop]
    · simp only [Stmt.renameArm, Stmt.rename_ofLoop, hins, hinc, hinl, hinp]
  | _ => exact lowersTo_mark_of_not_isCompound hp ht h hl hf hty rfl

theorem lowerList_mark {scope : List String} {l : List Statement} {out : List Stmt}
    {sc sc' : Scopes} (hp : Plain L scope) (ht : conversionTypes ⊆ T)
    (h : Gives (lowerList l) sc out sc') (hl : Statement.localsList l ⊆ L)
    (hf : Statement.freeList scope l ⊆ F) (hty : Statement.typesList l ⊆ T) :
    ∃ out', Gives (lowerList (Statement.markList scope l)) sc out' sc' ∧
      Renaming.Lifts (.within F T L) Stmt.renameList out' out := by
  cases l with
  | nil =>
    obtain ⟨rfl, rfl⟩ := gives_lowerList_nil.mp h
    exact ⟨[], gives_lowerList_nil.mpr ⟨rfl, rfl⟩, rfl, rfl⟩
  | cons s rest =>
    obtain ⟨t, sc₁, more, hs, hr, rfl⟩ := gives_lowerList_cons h
    simp only [Statement.localsList, Statement.freeList, Statement.typesList, List.append_subset]
      at hl hf hty
    have hp₁ := hp.append (List.Subset.trans s.binds_subset_locals hl.1)
    obtain ⟨t', hs', rfl, hin⟩ := lowersTo_mark hp ht hs hl.1 hf.1 hty.1
    obtain ⟨more', hr', rfl, hins⟩ := lowerList_mark hp₁ ht hr hl.2 hf.2 hty.2
    have harm : ∀ (ρ : Renaming) (t : Option Stmt),
        Stmt.renameList ρ t.toList = (Stmt.renameArm ρ t).toList := by
      intro ρ t
      cases t <;> rfl
    refine ⟨_, gives_lowerList_of_cons hs'.gives hr', ?_, ?_⟩
    · rw [Stmt.renameList_append, harm]
    · rw [Stmt.renameList_append, harm, hin, hins]

theorem lowerElse_mark {scope : List String} {other : Option Statement} {no : Option Stmt}
    {sc sc' : Scopes} (hp : Plain L scope) (ht : conversionTypes ⊆ T)
    (h : Gives (lowerElse other) sc no sc') (hl : Statement.localsOption other ⊆ L)
    (hf : Statement.freeOption scope other ⊆ F) (hty : Statement.typesOption other ⊆ T) :
    ∃ no', Gives (lowerElse (Statement.markOption scope other)) sc no' sc' ∧
      Renaming.Lifts (.within F T L) Stmt.renameArm no' no := by
  cases other with
  | none =>
    obtain ⟨-, rfl, rfl⟩ | ⟨-, -, -, ⟨⟩, -⟩ | ⟨-, -, ⟨⟩, -⟩ := gives_lowerElse h
    refine ⟨none, ?_, rfl, rfl⟩
    unfold Statement.markOption lowerElse
    exact gives_pure.mpr ⟨rfl, rfl⟩
  | some s =>
    cases s with
    | block l =>
      obtain ⟨out, inner, hlist, rfl, rfl⟩ := gives_lowerElse_block h
      obtain ⟨out', hout, rfl, hin⟩ := lowerList_mark hp ht hlist hl hf hty
      refine ⟨some (.block out'), ?_, rfl, by rw [Stmt.renameArm, Stmt.rename, hin]⟩
      unfold Statement.markOption Statement.mark lowerElse
      exact gives_bind.mpr ⟨_, _, gives_inScope.mpr ⟨_, hout, rfl⟩, gives_pure.mpr ⟨rfl, rfl⟩⟩
    | _ =>
      obtain ⟨t, hlow, rfl⟩ := gives_lowerElse_statement (by simp) h
      obtain ⟨t', hlow', rfl, hin⟩ := lowersTo_mark hp ht hlow hl hf hty
      refine ⟨_, gives_lowerElse_of_lowersTo (by simp [Statement.mark]) hlow', ?_, ?_⟩
      · rw [Stmt.renameArm, Stmt.rename, Stmt.statements_renameArm]
      · rw [Stmt.renameArm, Stmt.rename, ← Stmt.statements_renameArm, hin]

theorem lowerSimple_mark {scope : List String} {init : Option Statement} {start : Option Stmt}
    {sc sc' : Scopes} (hp : Plain L scope) (ht : conversionTypes ⊆ T)
    (h : Gives (lowerSimple init) sc start sc') (hl : Statement.localsOption init ⊆ L)
    (hf : Statement.freeOption scope init ⊆ F) (hty : Statement.typesOption init ⊆ T) :
    ∃ start', Gives (lowerSimple (Statement.markOption scope init)) sc start' sc' ∧
      Renaming.Lifts (.within F T L) Stmt.renameArm start' start := by
  cases init with
  | none =>
    obtain ⟨-, rfl, rfl⟩ | ⟨-, ⟨⟩, -⟩ := gives_lowerSimple h
    refine ⟨none, ?_, rfl, rfl⟩
    unfold Statement.markOption lowerSimple
    exact gives_pure.mpr ⟨rfl, rfl⟩
  | some s =>
    obtain ⟨⟨⟩, -⟩ | ⟨s', he, hs, hlow⟩ := gives_lowerSimple h
    cases he
    obtain ⟨t', hlow', hlift⟩ := lowersTo_mark hp ht hlow hl hf hty
    refine ⟨t', ?_, hlift⟩
    unfold Statement.markOption lowerSimple
    rw [if_pos (by rw [isSimple_mark]; exact hs)]
    exact hlow'.gives
end

end Lowering

/-- A function with marks is lowered as the function is : the marks come through, and without them
the trees are the same. Marked names are free names of the function, and what is declared is one of
its locals. -/
theorem FuncDecl.lower_marked {f : FuncDecl} {fn : Function} (h : f.lower = .ok fn)
    (hplain : ∀ name ∈ f.locals, marked? name = none) :
    ∃ fn', f.marked.lower = .ok fn' ∧
      Renaming.Lifts (.within f.free (conversionTypes ++ f.types) f.locals) Stmt.renameList fn'.body
        fn.body := by
  obtain ⟨body, sc, hbody, hlist⟩ := FuncDecl.lower_eq_ok h
  have hl : f.list = body.list := by rw [FuncDecl.list, hbody, Option.elim]
  rw [← hl] at hlist
  obtain ⟨out, hout, hlift⟩ := lowerList_mark ⟨List.subset_append_left _ _, hplain⟩
    (List.subset_append_left _ _) hlist (List.subset_append_right _ _) (List.Subset.refl _)
    (List.subset_append_right _ _)
  have hmarked : f.marked.body =
      some { body with list := Statement.markList f.headNames body.list } := by
    rw [marked, hbody]
    rfl
  exact ⟨_, lower_of_gives hmarked (hl ▸ hout), hlift⟩

end Source

end PathTree
