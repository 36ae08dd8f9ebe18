import PathTree.Proofs.Lexemes
import PathTree.Proofs.Printable
import PathTree.Solver.Env

/-!
# The gist of a condition

Two conditions can have one text : parentheses stand in it where the tree has them and where they
are needed, and the sign of a number is not told from an operator. `Expr.gist` forgets what cannot
be told from the text of a well-formed expression, and `Env.eval_gist` : the value does not depend
on it.
-/

namespace PathTree

open Source

/-! ## Well-formed expressions -/

/-- The text of a literal without its sign. -/
def Literal.unsigned (l : Literal) : String := String.ofList (cutMinus l.text.toList).2

/-- Literals whose text is a token of their kind. A number may have a sign. -/
def Literal.isWellFormed (l : Literal) : Bool :=
  match l.kind with
  | .int => isToken (.literal .int) l.unsigned
  | .float => isToken (.literal .float) l.unsigned
  | .char => isToken (.literal .char) l.unsigned
  | .string => isToken (.literal .string) l.text
  | .bool => l.text == "true" || l.text == "false"
  | .nil => l.text == "nil"
  | .invalid => false

/-- Whether an expression is a literal. -/
def Expr.isLiteral : Expr → Bool
  | .lit _ => true
  | _ => false

/-- The expressions of conditions. A call of a type with one argument would be a conversion, and a
point behind a literal would become part of it. -/
inductive Expr.WellFormed : Expr → Prop
  | lit {l : Literal} (h : l.isWellFormed) : WellFormed (.lit l)
  | ident {name : String} (hn : isToken .name name) (h : name ∉ literalNames) :
      WellFormed (.ident name)
  | binary {op : BinaryOp} {x y : Expr} (hop : op ≠ .invalid) (hx : WellFormed x)
      (hy : WellFormed y) : WellFormed (.binary op x y)
  | pre {op : UnaryOp} {x : Expr} (hop : op ∈ [UnaryOp.not, .neg, .plus]) (hx : WellFormed x) :
      WellFormed (.pre op x)
  | paren {x : Expr} (hx : WellFormed x) : WellFormed (.paren x)
  | cast {type : String} {x : Expr} (ht : type ∈ conversionTypes) (hx : WellFormed x) :
      WellFormed (.cast type x)
  | named {name : String} {args : List Expr} (hf : WellFormed (.ident name))
      (hn : ∀ x, args = [x] → name ∉ conversionTypes) (ha : ∀ x ∈ args, WellFormed x) :
      WellFormed (.call (.ident name) args)
  | method {x : Expr} {sel : String} {args : List Expr} (hf : WellFormed (.member x sel))
      (ha : ∀ x ∈ args, WellFormed x) : WellFormed (.call (.member x sel) args)
  | member {x : Expr} {sel : String} (hx : WellFormed x) (hlit : x.isLiteral = false)
      (hs : isToken .name sel) : WellFormed (.member x sel)

/-! ## What the value depends on -/

/-- A literal with its sign as an operator. -/
def Literal.gist (l : Literal) : Expr :=
  match cutMinus l.text.toList with
  | (true, cs) => .pre .neg (.lit ⟨l.kind, String.ofList cs⟩)
  | (false, _) => .lit l

/-- An expression without parentheses and conversions, where calls and member accesses are names
and signs are operators. -/
def Expr.gist : Expr → Expr
  | .lit l => l.gist
  | .binary op x y => .binary op x.gist y.gist
  | .pre op x => .pre op x.gist
  | .paren x => x.gist
  | .cast _ x => x.gist
  | .call f args => .ident (Expr.call f args).render
  | .member x sel => .ident (Expr.member x sel).render
  | x => x

/-- The value of a constant expression, or whether the fault is one that no caller handles. -/
def Expr.outcome (x : Expr) : Except Bool Value := x.constant.mapError Fault.isFatal

theorem Expr.outcome_lit (l : Literal) :
    (Expr.lit l).outcome = l.value.mapError Fault.isFatal := rfl

theorem mapError_bind {ε ε' α β : Type} (g : ε → ε') (x : Except ε α) (f : α → Except ε β) :
    (x >>= f).mapError g = x.mapError g >>= fun a => (f a).mapError g := by
  cases x <;> rfl

theorem Expr.outcome_pre (op : UnaryOp) (x : Expr) :
    (Expr.pre op x).outcome =
      x.outcome >>= fun v => (Value.unary op v).mapError Fault.isFatal := by
  exact mapError_bind Fault.isFatal x.constant (Value.unary op)

theorem Expr.outcome_binary (op : BinaryOp) (x y : Expr) :
    (Expr.binary op x y).outcome =
      x.outcome >>= fun l => y.outcome >>= fun r =>
        (Value.binary op l r).mapError Fault.isFatal := by
  refine (mapError_bind Fault.isFatal x.constant _).trans (bind_congr fun l => ?_)
  exact mapError_bind Fault.isFatal y.constant (Value.binary op l)

/-- A literal's token has no sign. -/
theorem Source.cutMinus_of_isToken {form : LiteralForm} {text : String}
    (h : isToken (.literal form) text) :
    Literal.cutMinus text.toList = (false, text.toList) := by
  obtain ⟨c, cs, htext, hlex⟩ := isToken_iff.mp h
  rw [htext]
  by_cases hc : c = '-'
  · subst hc
    rcases kind_lexeme_of_mem_operandMarks (c := '-') (by decide) cs with hkind | hkind
    · simp [hlex] at hkind
    · simp [hlex] at hkind
  · unfold Literal.cutMinus
    split
    · simp_all
    · rfl

/-- The kinds of literals that stand for numbers. -/
def LitKind.isNumber : LitKind → Bool
  | .int | .float | .char => true
  | _ => false

/-- What a literal of a number spells is a number. -/
theorem Literal.negated_eq_unary {kind : LitKind} (hkind : kind.isNumber) {cs : List Char}
    {v : Value} (h : read? kind cs = some v) : negated v = Value.unary .neg v := by
  cases kind with
  | int | float | char =>
    obtain ⟨_, -, rfl⟩ := Option.map_eq_some_iff.mp h
    rfl
  | string | bool | nil | invalid => cases hkind

theorem LitKind.mem_of_isNumber {kind : LitKind} (hkind : kind.isNumber) :
    kind ∈ [LitKind.int, .float, .char, .string] := by
  cases kind with
  | int | float | char => decide
  | string | bool | nil | invalid => cases hkind

/-- The sign of a number is as good as an operator. -/
theorem Literal.outcome_signed {kind : LitKind} (hkind : kind.isNumber) {text : String}
    {cs : List Char} (hsigned : cutMinus text.toList = (true, cs))
    (hcs : cutMinus cs = (false, cs)) :
    (Expr.pre .neg (.lit ⟨kind, String.ofList cs⟩)).outcome = (Expr.lit ⟨kind, text⟩).outcome := by
  have hplain : cutMinus (String.ofList cs).toList = (false, cs) := by
    rw [String.toList_ofList, hcs]
  have hread := LitKind.mem_of_isNumber hkind
  rw [Expr.outcome_pre, Expr.outcome_lit, Expr.outcome_lit]
  cases h : read? kind cs with
  | none =>
    rw [value_of_read?_none hread hplain h, value_of_read?_none hread hsigned h]
    rfl
  | some v =>
    rw [value_of_read? hread hplain h, value_of_read? hread hsigned h, if_pos rfl,
      negated_eq_unary hkind h]
    rfl

theorem Literal.outcome_gist {l : Literal} (h : l.isWellFormed) :
    l.gist.outcome = (Expr.lit l).outcome := by
  unfold gist
  split
  · next cs hcut =>
    obtain ⟨kind, text⟩ := l
    have hnumber : ∀ form, kind.isNumber → isToken (.literal form) (unsigned ⟨kind, text⟩) →
        (Expr.pre .neg (.lit ⟨kind, String.ofList cs⟩)).outcome =
          (Expr.lit ⟨kind, text⟩).outcome := by
      intro form hkind htoken
      have hcs := cutMinus_of_isToken htoken
      simp only [unsigned, hcut, String.toList_ofList] at hcs
      exact outcome_signed hkind hcut hcs
    cases kind with
    | int | float | char => exact hnumber _ rfl h
    | string =>
      have hcs := cutMinus_of_isToken (show isToken (.literal .string) text from h)
      rw [hcut] at hcs
      cases hcs
    | bool =>
      rcases (by simpa [isWellFormed] using h : text = "true" ∨ text = "false") with rfl | rfl
      · cases hcut
      · cases hcut
    | nil =>
      obtain rfl : text = "nil" := by simpa [isWellFormed] using h
      cases hcut
    | invalid => cases h
  · rfl

namespace Env

variable (env : Env)

theorem map_outcome_bind_pre (op : UnaryOp) (x : Expr) :
    (env.bind (.pre op x)).map Expr.outcome =
      ((env.bind x).map Expr.outcome).map fun r =>
        r >>= fun v => (Value.unary op v).mapError Fault.isFatal := by
  rw [bind]
  cases env.bind x with
  | error f => rfl
  | ok a => exact congrArg Except.ok (Expr.outcome_pre op a)

theorem map_outcome_bind_binary (op : BinaryOp) (x y : Expr) :
    (env.bind (.binary op x y)).map Expr.outcome =
      (env.bind x).map Expr.outcome >>= fun l =>
        ((env.bind y).map Expr.outcome).map fun r =>
          l >>= fun v => r >>= fun w => (Value.binary op v w).mapError Fault.isFatal := by
  rw [bind]
  cases env.bind x with
  | error f => rfl
  | ok a =>
    cases env.bind y with
    | error f => rfl
    | ok b => exact congrArg Except.ok (Expr.outcome_binary op a b)

theorem mapError_eval (x : Expr) :
    (env.eval x).mapError Fault.isFatal =
      ((env.bind x).map Expr.outcome).mapError Fault.isFatal >>= id := by
  unfold eval
  cases env.bind x <;> rfl

theorem map_outcome_bind_gist {x : Expr} (h : x.WellFormed) :
    (env.bind x.gist).map Expr.outcome = (env.bind x).map Expr.outcome := by
  induction h with
  | @lit l h =>
    have hbind : ∀ y : Expr, y = l.gist → env.bind y = .ok y := by
      rintro _ rfl
      unfold Literal.gist
      split <;> rfl
    rw [Expr.gist, hbind _ rfl]
    exact congrArg Except.ok (Literal.outcome_gist h)
  | ident hn h => rfl
  | binary hop hx hy ihx ihy =>
    rw [Expr.gist, map_outcome_bind_binary, map_outcome_bind_binary, ihx, ihy]
  | pre hop hx ih => rw [Expr.gist, map_outcome_bind_pre, map_outcome_bind_pre, ih]
  | paren hx ih => exact ih
  | cast ht hx ih => exact ih
  | named hf hn ha ihf iha => rfl
  | method hf ha ihf iha => rfl
  | member hx hlit hs ih => rfl

/-- The value of a well-formed expression is the value of its gist. -/
theorem eval_gist {x : Expr} (h : x.WellFormed) :
    (env.eval x.gist).mapError Fault.isFatal = (env.eval x).mapError Fault.isFatal := by
  rw [mapError_eval, mapError_eval, map_outcome_bind_gist env h]

end Env

end PathTree
