import PathTree.Proofs.Readings
import PathTree.Solver.Memo

/-!
# Texts of conditions

A memoising solver tells queries apart by their texts. `Expr.WellFormed.isReadBack` : the text of a
well-formed expression is read as its gist, by induction on the expression with the precedence it is
read at. So the text determines the gist, also in a query, where the texts of the conditions are put
one behind the other (`Query.map_gist_eq`), and the value depends on the gist alone.
`renderings_unambiguous` is the main statement.
-/

namespace PathTree

open Source Reading
open List (readAt readArgs)

/-- How a well-formed expression is read. -/
structure Expr.IsReadBack (x : Expr) : Prop where
  read : IsRead (min x.precedence unaryPrecedence) x.render.toList x.gist
  term : x.isLiteral = false → unaryPrecedence < x.precedence → IsTerm x.render.toList x.gist

namespace Expr.IsReadBack

variable {x : Expr}

theorem of_isTerm (h : IsTerm x.render.toList x.gist) : x.IsReadBack :=
  ⟨h.isRead.mono (min_le_right _ _), fun _ _ => h⟩

theorem isRead_zero (h : x.IsReadBack) : IsRead 0 x.render.toList x.gist := h.read.mono (Nat.zero_le _)

theorem paren (h : x.IsReadBack) : IsTerm ("(" ++ x.render ++ ")").toList x.gist := by
  simpa using h.isRead_zero.paren

/-- An operand in its place is read. -/
theorem isRead_wrapBelow (h : x.IsReadBack) {least : Nat} (hle : least ≤ unaryPrecedence) :
    IsRead least (wrapBelow least x x.render).toList x.gist := by
  unfold wrapBelow
  split
  · exact h.paren.isRead.mono hle
  · next hp => exact h.read.mono (le_min (not_lt.mp hp) hle)

theorem isTerm_wrapBelow (h : x.IsReadBack) (hlit : x.isLiteral = false) :
    IsTerm (wrapBelow primaryPrecedence x x.render).toList x.gist := by
  unfold wrapBelow
  split
  · exact h.paren
  · next hp => exact h.term hlit (not_lt.mp hp)

theorem toList_render_call (f : Expr) (args : List Expr) :
    (Expr.call f args).render.toList = (wrapBelow primaryPrecedence f f.render).toList ++
      '(' :: ((", ".intercalate (renderList args)).toList ++ [')']) := by
  simp [render]

/-- A call that is no conversion is read as a name. -/
theorem call {f : Expr} {args : List Expr} (hf : f.IsReadBack) (hlit : f.isLiteral = false)
    (hargs : ∀ x ∈ args, x.IsReadBack)
    (hne : ∀ x, args = [x] → wrapBelow primaryPrecedence f f.render ∉ conversionTypes) :
    (Expr.call f args).IsReadBack := by
  refine .of_isTerm ?_
  have hterm := (hf.isTerm_wrapBelow hlit).apply
    (readArgs_eq fun x hx => (hargs x hx).isRead_zero)
  rw [← toList_render_call, String.ofList_toList, String.ofList_toList, applied_of_ne] at hterm
  · exact hterm
  · intro y hy
    obtain ⟨x, rfl, -⟩ := List.map_eq_singleton_iff.mp hy
    exact hne x rfl

end Expr.IsReadBack

namespace Literal

theorem eq_cons_of_cutMinus {cs ds : List Char} (h : cutMinus cs = (true, ds)) :
    cs = '-' :: ds := by
  unfold cutMinus at h
  split at h
  · cases h
    rfl
  · cases h

theorem eq_of_cutMinus {cs ds : List Char} (h : cutMinus cs = (false, ds)) : ds = cs := by
  unfold cutMinus at h
  split at h
  · cases h
  · cases h
    rfl

/-- A number is read with its sign. -/
theorem isOperand_gist {l : Literal} (form : LiteralForm)
    (hkind : form.kind? = some l.kind) (h : isToken (.literal form) l.unsigned) :
    IsOperand l.text.toList l.gist := by
  have hplain := isOperand_literal hkind h
  unfold gist
  unfold unsigned at hplain
  split
  · next cs hcut =>
    rw [eq_cons_of_cutMinus hcut]
    rw [hcut, String.toList_ofList] at hplain
    exact hplain.isRead.pre (show UnaryOp.neg ∈ [UnaryOp.not, .neg, .plus] by decide)
  · next cs hcut =>
    rw [hcut, eq_of_cutMinus hcut, String.ofList_toList] at hplain
    exact hplain

/-- A literal without a sign is its gist. -/
theorem gist_eq_lit {l : Literal} (h : cutMinus l.text.toList = (false, l.text.toList)) :
    l.gist = .lit l := by
  unfold gist
  rw [h]

theorem isOperand_of_isWellFormed {l : Literal} (h : l.isWellFormed) :
    IsOperand l.text.toList l.gist := by
  obtain ⟨kind, text⟩ := l
  cases kind with
  | int => exact isOperand_gist .int rfl h
  | float => exact isOperand_gist .float rfl h
  | char => exact isOperand_gist .char rfl h
  | string =>
    rw [gist_eq_lit (cutMinus_of_isToken (show isToken (.literal .string) text from h))]
    exact isOperand_literal rfl h
  | bool =>
    rcases (by simpa [isWellFormed] using h : text = "true" ∨ text = "false") with rfl | rfl
    · exact (isTerm_name (show isToken .name "true" by decide)).isOperand
    · exact (isTerm_name (show isToken .name "false" by decide)).isOperand
  | nil =>
    obtain rfl : text = "nil" := by simpa [isWellFormed] using h
    exact (isTerm_name (show isToken .name "nil" by decide)).isOperand
  | invalid => cases h

end Literal

theorem isToken_of_mem_conversionTypes :
    ∀ type ∈ conversionTypes, isToken .name type := by decide

theorem nameExpr_of_not_mem {name : String} (h : name ∉ literalNames) :
    nameExpr name = .ident name := by
  simp only [literalNames, List.mem_cons, List.not_mem_nil, or_false, not_or] at h
  simp [nameExpr, h]

theorem Expr.WellFormed.isReadBack {x : Expr} (h : x.WellFormed) : x.IsReadBack := by
  induction h with
  | @lit l h =>
    refine ⟨?_, fun hlit => by cases hlit⟩
    exact (Literal.isOperand_of_isWellFormed h).isRead.mono (min_le_right _ _)
  | @ident name hn h =>
    refine .of_isTerm ?_
    simpa [Expr.render, Expr.gist, nameExpr_of_not_mem h] using isTerm_name hn
  | @binary op x y hop hx hy ihx ihy =>
    have hlt : op.precedence < unaryPrecedence := by cases op <;> decide
    refine ⟨?_, fun _ hp => absurd hp (not_lt.mpr hlt.le)⟩
    have hread := (ihx.isRead_wrapBelow hlt.le).binary hop (ihy.isRead_wrapBelow hlt)
    simpa [Expr.precedence, min_eq_left hlt.le, Expr.render, Expr.gist, between] using hread
  | @pre op x hop hx ih =>
    refine ⟨IsOperand.isRead ?_ |>.mono (min_le_right _ _), fun _ hp => absurd hp (lt_irrefl _)⟩
    rw [Expr.render, String.toList_append]
    refine IsRead.pre hop ?_
    split
    · exact ih.paren.isRead
    · exact ih.isRead_wrapBelow le_rfl
  | @paren x hx ih => exact .of_isTerm ih.paren
  | @cast type x ht hx ih =>
    refine .of_isTerm ?_
    have hargs : ∀ rest, readArgs (x.render.toList ++ ')' :: rest) = some ([x.gist], rest) :=
      fun rest => by
        have hread := readArgs_eq (List.forall_mem_singleton.mpr ih.isRead_zero) rest
        rwa [toList_intercalate_render, List.flatMap_nil, List.append_nil] at hread
    have hterm := (isTerm_name (isToken_of_mem_conversionTypes type ht)).apply hargs
    simpa [applied, ht, Expr.render, Expr.gist] using hterm
  | @named name args hf hn ha ihf iha =>
    refine ihf.call rfl iha fun x hx => ?_
    simpa [wrapBelow, primaryPrecedence, Expr.precedence, Expr.render] using hn x hx
  | @method x sel args hf ha ihf iha =>
    refine ihf.call rfl iha fun _ _ hmem => ?_
    have hpoint := (by decide : ∀ t ∈ conversionTypes, '.' ∉ t.toList) _ hmem
    simp [wrapBelow, primaryPrecedence, Expr.precedence, Expr.render] at hpoint
  | @member x sel hx hlit hs ih =>
    refine .of_isTerm ?_
    have hterm := (ih.isTerm_wrapBelow hlit).select hs
    simpa [Expr.render, Expr.gist, String.append_assoc] using hterm

/-! ## Texts that are alike -/

/-- What a well-formed expression leaves of a text. -/
theorem Expr.WellFormed.readAt_render {x : Expr} (h : x.WellFormed) {rest : List Char}
    (hrest : Follows 0 rest) : readAt 0 (x.render.toList ++ rest) = some (x.gist, rest) := by
  rw [h.isReadBack.isRead_zero 0 le_rfl rest hrest, readChain_zero]

/-- Expressions with one text differ in nothing that values depend on. -/
theorem Expr.WellFormed.gist_eq {x y : Expr} (hx : x.WellFormed) (hy : y.WellFormed)
    (h : x.render = y.render) : x.gist = y.gist := by
  have hread := hx.readAt_render .nil
  rw [h, hy.readAt_render .nil] at hread
  exact (congrArg Prod.fst (Option.some.inj hread)).symm

theorem map_gist_eq_of_texts {conds conds' : List Expr} (h : ∀ c ∈ conds, c.WellFormed)
    (h' : ∀ c ∈ conds', c.WellFormed)
    (htext : conds.flatMap (fun c => c.render.toList ++ [';']) =
      conds'.flatMap fun c => c.render.toList ++ [';']) :
    conds.map Expr.gist = conds'.map Expr.gist := by
  induction conds generalizing conds' with
  | nil =>
    cases conds' with
    | nil => rfl
    | cons c' cs' => simp at htext
  | cons c cs ih =>
    cases conds' with
    | nil => simp at htext
    | cons c' cs' =>
      obtain ⟨hc, hcs⟩ := List.forall_mem_cons.mp h
      obtain ⟨hc', hcs'⟩ := List.forall_mem_cons.mp h'
      simp only [List.flatMap_cons, List.append_assoc, List.singleton_append] at htext
      have hend : Follows 0 (';' :: cs.flatMap fun c => c.render.toList ++ [';']) :=
        .of_closing (by decide) _
      have hread := hc.readAt_render hend
      rw [htext, hc'.readAt_render (.of_closing (by decide) _)] at hread
      obtain ⟨hgist, hmore⟩ := Prod.mk.inj (Option.some.inj hread)
      rw [List.map_cons, List.map_cons, hgist, ih hcs hcs' (List.cons.inj hmore).2.symm]

/-- The text of a query for given parameters determines the gists of its conditions. -/
theorem Query.map_gist_eq {params : List Param} {conds conds' : List Expr}
    (h : ∀ c ∈ conds, c.WellFormed) (h' : ∀ c ∈ conds', c.WellFormed)
    (hkey : (Query.mk params conds).key = (Query.mk params conds').key) :
    conds.map Expr.gist = conds'.map Expr.gist := by
  have htext := congrArg String.toList hkey
  simp only [key, String.toList_append, List.append_cancel_left_eq, String.toList_join] at htext
  refine map_gist_eq_of_texts h h' ?_
  simpa [List.flatMap_map] using htext

namespace Env

variable (env : Env)

theorem mapError_eval_eq {x y : Expr} (hx : x.WellFormed) (hy : y.WellFormed)
    (h : x.gist = y.gist) :
    (env.eval x).mapError Fault.isFatal = (env.eval y).mapError Fault.isFatal := by
  rw [← env.eval_gist hx, ← env.eval_gist hy, h]

theorem mapError_holds_cons (c : Expr) (cs : List Expr) :
    (env.holds (c :: cs)).mapError Fault.isFatal =
      match (env.eval c).mapError Fault.isFatal with
      | .ok (.bool true) => (env.holds cs).mapError Fault.isFatal
      | .ok _ => .ok false
      | .error fatal => if fatal then .error true else .ok false := by
  rw [holds]
  rcases env.eval c with f | v
  · cases hf : f.isFatal <;> simp [Except.mapError, hf]
  · rcases v with n | q | s | b
    · rfl
    · rfl
    · rfl
    · cases b <;> rfl

theorem mapError_holds_eq {conds conds' : List Expr} (h : ∀ c ∈ conds, c.WellFormed)
    (h' : ∀ c ∈ conds', c.WellFormed) (hgist : conds.map Expr.gist = conds'.map Expr.gist) :
    (env.holds conds).mapError Fault.isFatal = (env.holds conds').mapError Fault.isFatal := by
  induction conds generalizing conds' with
  | nil =>
    cases conds' with
    | nil => rfl
    | cons c' cs' => cases hgist
  | cons c cs ih =>
    cases conds' with
    | nil => cases hgist
    | cons c' cs' =>
      obtain ⟨hc, hcs⟩ := List.forall_mem_cons.mp h
      obtain ⟨hc', hcs'⟩ := List.forall_mem_cons.mp h'
      obtain ⟨hhead, htail⟩ := List.cons.inj hgist
      rw [mapError_holds_cons, mapError_holds_cons, env.mapError_eval_eq hc hc' hhead,
        ih hcs hcs' htail]

end Env

/-- Texts of conditions are unambiguous. Well-formed expressions with one text have one value under
every assignment of values, or none ; the faults may have other words, but none of them is one that
no caller handles unless both are. Well-formed conditions on the same parameters that give one text
of a query are as many, and hold under the same assignments. -/
theorem renderings_unambiguous :
    (∀ x y : Expr, x.WellFormed → y.WellFormed → x.render = y.render →
      ∀ env : Env, (env.eval x).mapError Fault.isFatal = (env.eval y).mapError Fault.isFatal) ∧
    ∀ (params : List Param) (conds conds' : List Expr), (∀ c ∈ conds, c.WellFormed) →
      (∀ c ∈ conds', c.WellFormed) → (Query.mk params conds).key = (Query.mk params conds').key →
      conds.length = conds'.length ∧
        ∀ env : Env, (env.holds conds = .ok true ↔ env.holds conds' = .ok true) ∧
          (env.holds conds).mapError Fault.isFatal = (env.holds conds').mapError Fault.isFatal := by
  refine ⟨fun x y hx hy h env => env.mapError_eval_eq hx hy (hx.gist_eq hy h), ?_⟩
  intro params conds conds' h h' hkey
  have hgist := Query.map_gist_eq h h' hkey
  refine ⟨by simpa using congrArg List.length hgist, fun env => ?_⟩
  have hholds := env.mapError_holds_eq h h' hgist
  refine ⟨?_, hholds⟩
  constructor
  · intro ht
    rw [ht] at hholds
    exact mapError_eq_ok.mp hholds.symm
  · intro ht
    rw [ht] at hholds
    exact mapError_eq_ok.mp hholds

/-- A condition with the sign in a literal and no parentheses around the disjunction, on a text that
has a semicolon in it. -/
def signedLiteral : List Expr :=
  [.binary .lt (.binary .sub (.ident "x") (.lit ⟨.int, "-5"⟩)) (.ident "n"),
    .pre .not (.binary .or (.ident "b") (.call (.ident "f") [.lit ⟨.string, "\";\""⟩]))]

/-- The same texts with the sign as an operator and with the parentheses in the tree. -/
def signOperator : List Expr :=
  [.binary .lt (.binary .sub (.ident "x") (.pre .neg (.lit ⟨.int, "5"⟩))) (.ident "n"),
    .pre .not (.paren (.binary .or (.ident "b") (.call (.ident "f") [.lit ⟨.string, "\";\""⟩])))]

theorem Expr.WellFormed.ident_of_letter {name : String} (h : name ∈ ["x", "n", "b", "f"]) :
    (Expr.ident name).WellFormed :=
  .ident ((by decide : ∀ name ∈ ["x", "n", "b", "f"], isToken .name name) name h)
    ((by decide : ∀ name ∈ ["x", "n", "b", "f"], name ∉ literalNames) name h)

theorem wellFormed_callOfText :
    (Expr.call (.ident "f") [.lit ⟨.string, "\";\""⟩]).WellFormed := by
  refine .named (.ident_of_letter (by decide)) (fun _ _ => by decide) ?_
  exact List.forall_mem_singleton.mpr (.lit (by with_unfolding_all decide))

theorem wellFormed_signedLiteral : ∀ c ∈ signedLiteral, c.WellFormed := by
  refine List.forall_mem_cons.mpr ⟨?_, List.forall_mem_singleton.mpr ?_⟩
  · exact .binary (by decide) (.binary (by decide) (.ident_of_letter (by decide))
      (.lit (by decide))) (.ident_of_letter (by decide))
  · exact .pre (by decide) (.binary (by decide) (.ident_of_letter (by decide))
      wellFormed_callOfText)

theorem wellFormed_signOperator : ∀ c ∈ signOperator, c.WellFormed := by
  refine List.forall_mem_cons.mpr ⟨?_, List.forall_mem_singleton.mpr ?_⟩
  · exact .binary (by decide) (.binary (by decide) (.ident_of_letter (by decide))
      (.pre (by decide) (.lit (by decide)))) (.ident_of_letter (by decide))
  · exact .pre (by decide) (.paren (.binary (by decide) (.ident_of_letter (by decide))
      wellFormed_callOfText))

theorem renderings_unambiguous_signs :
    (Query.mk [] signedLiteral).key = (Query.mk [] signOperator).key ∧
      ∀ env : Env, env.holds signedLiteral = .ok true ↔ env.holds signOperator = .ok true := by
  have hkey : (Query.mk [] signedLiteral).key = (Query.mk [] signOperator).key := by
    decide
  exact ⟨hkey, fun env => ((renderings_unambiguous.2 [] _ _ wellFormed_signedLiteral
    wellFormed_signOperator hkey).2 env).1⟩

end PathTree
