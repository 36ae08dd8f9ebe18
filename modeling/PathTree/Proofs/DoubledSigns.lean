import PathTree.Proofs.Folding
import PathTree.Proofs.SignedTexts

/-!
# Texts that read as increments

The text of an operand behind a sign is put in parentheses if it starts with the same operator, so
that the two do not read as an increment or a decrement. It is not put in parentheses if it starts
with a literal that has the sign in its own text, and computed numbers have.
`Expr.doublesSign_render` says that this is the only place where a sign is doubled : by induction on
the expression, two texts meet at a blank, a comma, a parenthesis, a point, or behind a prefix
operator, and what stands there at the front is a literal or has no sign (`Expr.head?_behind`).

Values that are plain stay so when they are stored, computed and put in place of variables
(`Memory.plain_run`, `Memory.Plain.resolve`), so the tests on a path are among the expressions that
this is about. `renderings_doubleSign` is the main statement.
-/

namespace PathTree

open Source

/-! ## Plain expressions -/

/-- The expressions of conditions : names, literals, of which only numbers may start with a sign,
operators, parentheses, conversions to types that neither start with a sign nor have a doubled one,
calls and member accesses. -/
inductive Expr.Plain : Expr → Prop
  | lit {l : Literal} (h : l.IsNumber ∨ Text.startsWithSign l.text.toList = false) : Plain (.lit l)
  | ident {name : String} (h : isToken .name name) : Plain (.ident name)
  | binary {op : BinaryOp} {x y : Expr} (hx : Plain x) (hy : Plain y) : Plain (.binary op x y)
  | pre {op : UnaryOp} {x : Expr} (hop : op ∈ [UnaryOp.not, .neg, .plus]) (hx : Plain x) :
      Plain (.pre op x)
  | paren {x : Expr} (hx : Plain x) : Plain (.paren x)
  | cast {type : String} {x : Expr} (hfront : Text.startsWithSign type.toList = false)
      (ht : Text.doublesSign type.toList = false) (hx : Plain x) : Plain (.cast type x)
  | call {f : Expr} {args : List Expr} (hf : Plain f) (ha : ∀ x ∈ args, Plain x) :
      Plain (.call f args)
  | member {x : Expr} {sel : String} (hx : Plain x) (hs : isToken .name sel) :
      Plain (.member x sel)

namespace Expr

/-- The expression whose text stands in front, if it is in no parentheses : what is called, and what
a member is taken of. -/
def base : Expr → Expr
  | .call f _ => f.base
  | .member x _ => x.base
  | x => x

/-- The first character of the literal that stands in front. -/
def front? (x : Expr) : Option Char :=
  match x.base with
  | .lit l => l.text.toList.head?
  | _ => none

/-- Whether a sign is doubled at a node : in the text of a literal, or where a sign stands in front
of a literal with the same sign. -/
def doublesSign : Expr → Bool
  | .lit l => Text.doublesSign l.text.toList
  | .pre .neg x => x.front? == some '-'
  | .pre .plus x => x.front? == some '+'
  | _ => false

/-- All nodes of an expression. -/
def nodes (x : Expr) : List Expr := x.walk fun _ => true

theorem any_walkList (p : Expr → Bool) (args : List Expr) :
    (walkList (fun _ => true) args).any p = args.any fun x => x.nodes.any p := by
  induction args with
  | nil => rfl
  | cons x args ih => simp [walkList, ih, nodes]

theorem startsWithSign_paren (text : String) :
    Text.startsWithSign ("(" ++ text).toList = false := by
  simp [Text.startsWithSign, Text.isSign]

theorem startsWithSign_point (text : String) :
    Text.startsWithSign ("." ++ text).toList = false := by
  simp [Text.startsWithSign, Text.isSign]

theorem doublesSign_parens (text : String) :
    Text.doublesSign ("(" ++ text ++ ")").toList = Text.doublesSign text.toList := by
  rw [String.toList_append, String.toList_append, Text.doublesSign_append rfl,
    Text.doublesSign_append_of_signs rfl]
  exact Bool.or_false _

theorem doublesSign_applied (front text : String) :
    Text.doublesSign (front ++ "(" ++ text ++ ")").toList =
      (Text.doublesSign front.toList || Text.doublesSign text.toList) := by
  have hassoc : front ++ "(" ++ text ++ ")" = front ++ ("(" ++ text ++ ")") := by
    simp only [String.append_assoc]
  rw [hassoc, String.toList_append, Text.doublesSign_append, doublesSign_parens]
  rw [String.append_assoc]
  exact startsWithSign_paren _

theorem doublesSign_wrapBelow (least : Nat) (x : Expr) (text : String) :
    Text.doublesSign (wrapBelow least x text).toList = Text.doublesSign text.toList := by
  unfold wrapBelow
  split
  · exact doublesSign_parens text
  · rfl

theorem head?_append_of_not {cs ds : List Char} {c : Char} (hc : Text.isSign c)
    (hds : Text.startsWithSign ds = false) : (cs ++ ds).head? = some c ↔ cs.head? = some c := by
  cases cs with
  | nil => exact iff_of_false (Text.head?_ne_of_not hc hds) nofun
  | cons => rfl

theorem precedence_binary_lt (op : BinaryOp) : op.precedence < unaryPrecedence := by
  cases op <;> decide

theorem precedence_le (x : Expr) : x.precedence ≤ primaryPrecedence := by
  cases x with
  | binary op x y => exact Nat.le_of_lt (Nat.lt_succ_of_lt (precedence_binary_lt op))
  | _ => simp [precedence, unaryPrecedence, primaryPrecedence]

theorem wrapBelow_of_eq {least : Nat} {x : Expr} (hle : least ≤ primaryPrecedence)
    (hx : x.precedence = primaryPrecedence) (text : String) : wrapBelow least x text = text := by
  rw [wrapBelow, if_neg (by omega)]

/-- The text of an operand starts with a sign if the literal in front does. -/
theorem head?_wrapBelow {x : Expr} (h : x.Plain) {least : Nat} (hle : least ≤ primaryPrecedence)
    (hleast : x.precedence < least ∨ x.precedence = primaryPrecedence) {c : Char}
    (hc : Text.isSign c) :
    (wrapBelow least x x.render).toList.head? = some c ↔ x.front? = some c := by
  have hparens (text : String) : ("(" ++ text).toList.head? ≠ some c :=
    Text.head?_ne_of_not hc (startsWithSign_paren text)
  induction h generalizing least with
  | lit h =>
    rw [wrapBelow_of_eq hle rfl, render]
    rfl
  | ident h =>
    rw [wrapBelow_of_eq hle rfl, render]
    exact iff_of_false (Text.head?_ne_of_not hc
      (Text.startsWithSign_of_signs_eq_zero (signs_of_isName h))) nofun
  | @binary op x y hx hy =>
    have hlt := precedence_binary_lt op
    have hlow : (binary op x y).precedence < least :=
      hleast.resolve_right (Nat.ne_of_lt (Nat.lt_succ_of_lt hlt))
    rw [wrapBelow, if_pos hlow, String.append_assoc]
    exact iff_of_false (hparens _) nofun
  | @pre op x hop hx ih =>
    have hlow : (pre op x).precedence < least := hleast.resolve_right
      (by simp [precedence, unaryPrecedence, primaryPrecedence])
    rw [wrapBelow, if_pos hlow, String.append_assoc]
    exact iff_of_false (hparens _) nofun
  | paren hx ih =>
    rw [wrapBelow_of_eq hle rfl, render, String.append_assoc]
    exact iff_of_false (hparens _) nofun
  | cast hfront ht hx ih =>
    rw [wrapBelow_of_eq hle rfl, render, String.append_assoc, String.append_assoc,
      String.toList_append, head?_append_of_not hc (startsWithSign_paren _)]
    exact iff_of_false (Text.head?_ne_of_not hc hfront) nofun
  | @call f args hf ha ihf iha =>
    rw [wrapBelow_of_eq hle rfl, render, String.append_assoc, String.append_assoc,
      String.toList_append, head?_append_of_not hc (startsWithSign_paren _)]
    exact ihf (Nat.le_refl _) (Nat.lt_or_eq_of_le (precedence_le f))
  | @member x sel hx hs ih =>
    rw [wrapBelow_of_eq hle rfl, render, String.append_assoc, String.toList_append,
      head?_append_of_not hc (startsWithSign_point _)]
    exact ih (Nat.le_refl _) (Nat.lt_or_eq_of_le (precedence_le x))

/-- The text of an operand behind a prefix operator. -/
def behind (op : UnaryOp) (x : Expr) : String :=
  if sticksTo op x then "(" ++ x.render ++ ")" else wrapBelow unaryPrecedence x x.render

theorem doublesSign_behind (op : UnaryOp) (x : Expr) :
    Text.doublesSign (behind op x).toList = Text.doublesSign x.render.toList := by
  unfold behind
  split
  · exact doublesSign_parens x.render
  · exact doublesSign_wrapBelow unaryPrecedence x x.render

/-- Operators of one character start with different ones. -/
theorem head?_symbol_ne (inner op : UnaryOp) : inner ∈ [UnaryOp.not, .neg, .plus] → inner ≠ op →
    op.symbol.toList.length = 1 → inner.symbol.toList.head? ≠ op.symbol.toList.head? := by
  cases inner <;> cases op <;> decide

/-- A sign meets the same sign behind it only in a literal : an operator that is the same is put in
parentheses. -/
theorem head?_behind {op : UnaryOp} {x : Expr} (hx : x.Plain) {c : Char}
    (hop : op.symbol.toList = [c]) (hc : Text.isSign c) : (behind op x).toList.head? = some c ↔ x.front? = some c := by
  unfold behind
  split
  · next hsticks =>
    cases x with
    | pre inner y =>
      rw [String.append_assoc]
      exact iff_of_false (Text.head?_ne_of_not hc (startsWithSign_paren _)) nofun
    | _ => cases hsticks
  · next hsticks =>
    cases x with
    | pre inner y =>
      cases hx with
      | pre hinner hy =>
      have hne : inner ≠ op := by
        rintro rfl
        simp [sticksTo] at hsticks
      have hsymbol := head?_symbol_ne inner op hinner hne (by rw [hop]; rfl)
      have hhead : (inner.symbol ++ behind inner y).toList.head? ≠ some c := by
        rw [String.toList_append, List.head?_append_of_ne_nil _ (by cases inner <;> decide)]
        rwa [hop] at hsymbol
      exact iff_of_false hhead nofun
    | binary op x y => exact head?_wrapBelow hx (by decide) (Or.inl (precedence_binary_lt op)) hc
    | assign | post => cases hx
    | _ => exact head?_wrapBelow hx (by decide) (Or.inr rfl) hc

/-- The text of a plain expression doubles a sign if a node does. -/
theorem doublesSign_render {x : Expr} (h : x.Plain) :
    Text.doublesSign x.render.toList = x.nodes.any doublesSign := by
  induction h with
  | lit h => simp [render, nodes, walk, doublesSign]
  | ident h =>
    have := Text.doublesSign_of_signs_le_one (by rw [signs_of_isName h]; decide)
    simp [render, nodes, walk, doublesSign, this]
  | @binary op x y hx hy ihx ihy =>
    have hop : Text.doublesSign op.symbol.toList = false := by cases op <;> decide
    have hnodes : (binary op x y).nodes = binary op x y :: (x.nodes ++ y.nodes) := rfl
    simp only [render, String.toList_append, List.append_assoc]
    rw [Text.doublesSign_append rfl, Text.doublesSign_append_of_signs rfl,
      Text.doublesSign_append rfl, Text.doublesSign_append_of_signs rfl,
      doublesSign_wrapBelow, doublesSign_wrapBelow, hop, ihx, ihy, hnodes]
    simp [doublesSign]
  | @pre op x hop hx ih =>
    have hnodes : (pre op x).nodes = pre op x :: x.nodes := rfl
    have hrender : (pre op x).render.toList = op.symbol.toList ++ (behind op x).toList := by
      rw [render, String.toList_append, behind]
    have hhead {c : Char} (hop : op.symbol.toList = [c]) (hc : Text.isSign c) :
        ((behind op x).toList.head? == some c) = (x.front? == some c) := by
      rw [Bool.eq_iff_iff, beq_iff_eq, beq_iff_eq, head?_behind hx hop hc]
    rw [hrender, hnodes, List.any_cons, ← ih, ← doublesSign_behind op x]
    cases op with
    | not => rfl
    | neg =>
      have hmeet := hhead (c := '-') rfl rfl
      simp [UnaryOp.symbol, Text.doublesSign, doublesSign, Text.isSign, hmeet]
    | plus =>
      have hmeet := hhead (c := '+') rfl rfl
      simp [UnaryOp.symbol, Text.doublesSign, doublesSign, Text.isSign, hmeet]
    | inc | dec | invalid => simp at hop
  | @paren x hx ih =>
    rw [render, doublesSign_parens, ih]
    rfl
  | @cast type x hfront ht hx ih =>
    rw [render, doublesSign_applied, ht, ih]
    rfl
  | @call f args hf ha ihf iha =>
    have hargs : (args.any fun x => Text.doublesSign x.render.toList) =
        args.any fun x => x.nodes.any doublesSign := by
      rw [Bool.eq_iff_iff, List.any_eq_true, List.any_eq_true]
      exact exists_congr fun x => and_congr_right fun hx => by rw [iha x hx]
    have hnodes : (call f args).nodes = call f args :: (f.nodes ++ walkList (fun _ => true) args) :=
      rfl
    rw [render, doublesSign_applied, doublesSign_wrapBelow, ihf, renderList_eq_map,
      Text.doublesSign_intercalate (by decide) rfl, List.any_map, hnodes, List.any_cons,
      List.any_append, any_walkList, ← hargs]
    rfl
  | @member x sel hx hs ih =>
    have hsel : Text.doublesSign ("." ++ sel).toList = false := by
      rw [String.toList_append, Text.doublesSign_append_of_signs rfl]
      exact Text.doublesSign_of_signs_le_one (by rw [signs_of_isName hs]; decide)
    rw [render, String.append_assoc, String.toList_append,
      Text.doublesSign_append (startsWithSign_point _), doublesSign_wrapBelow, ih, hsel,
      Bool.or_false]
    rfl

theorem Plain.unparen {x : Expr} (h : x.Plain) : x.unparen.Plain := by
  fun_induction Expr.unparen x with
  | case1 x ih =>
    cases h with
    | paren hx => exact ih hx
  | case2 x => exact h

/-- An assigned value is plain, or a variable is counted up or down. -/
def Assignable (x : Expr) : Prop :=
  x.Plain ∨ ∃ op y name, y.ident? = some name ∧ (x = .post op y ∨ op.isStep ∧ x = .pre op y)

end Expr

/-- What a value is written as is plain. -/
theorem Value.plain_literal (v : Value) : (Expr.lit v.literal).Plain := by
  cases v with
  | int n => exact .lit (Or.inl (.ofInt n))
  | float q => exact .lit (Or.inl (.ofRational q))
  | text s =>
    exact .lit (Or.inr (by
      simp [literal, literalWith, Text.quoteWith, Text.startsWithSign, Text.isSign]))
  | bool b => exact .lit (Or.inr (by cases b <;> decide))

theorem plain_zeroValue {type : String} {x : Expr} (h : zeroValue type = .ok x) : x.Plain := by
  unfold zeroValue at h
  split at h
  · cases h
    exact (Value.int 0).plain_literal
  · split at h
    · cases h
      exact .lit (Or.inr (by decide))
    · split at h
      · cases h
        exact (Value.bool false).plain_literal
      · split at h
        · cases h
          exact (Value.text (Text.bytesOf "")).plain_literal
        · cases h

namespace Memory

variable {m m' : Memory}

/-- Every stored value is plain. -/
def Plain (m : Memory) : Prop := ∀ name x, m.vars.get? name = some x → x.Plain

theorem plain_init {params : List Param} (h : ∀ p ∈ params, isToken .name p.name) (fold : Bool) :
    (init params fold).Plain := by
  intro name x hx
  obtain ⟨rfl, p, hp, rfl⟩ := eq_ident_of_get?_init hx
  exact .ident (h p hp)

theorem Plain.step (h : m.Plain) {node x y : Expr} {op : UnaryOp} {name : String}
    (hx : x.ident? = some name) (hy : m.step node op x = .ok y) : y.Plain := by
  rcases step_eq_ok hy with ⟨⟨l, hl⟩, -⟩ | ⟨name', v, -, hv, rfl⟩
  · simp [Expr.ident?, hl] at hx
  · exact .binary (h name' v hv) (Value.int 1).plain_literal

theorem Plain.substitute (h : m.Plain) {x : Expr} (hx : x.Plain) {y : Expr}
    (hy : m.substitute x = .ok y) : y.Plain := by
  induction hx generalizing y with
  | lit hl =>
    cases hy
    exact .lit hl
  | ident => exact h _ y (lookup_eq_ok.mp hy)
  | paren hx ih => exact ih hy
  | binary hx hz ihx ihz =>
    obtain ⟨l, hl, hy⟩ := bind_eq_ok.mp hy
    obtain ⟨r, hr, hy⟩ := bind_eq_ok.mp hy
    cases hy
    exact .binary (ihx hl) (ihz hr)
  | @pre op x hop hx ih =>
    rcases substitute_pre hy with ⟨hstep, -⟩ | ⟨-, l, hl, rfl⟩
    · cases op <;> simp [UnaryOp.isStep] at hop hstep
    · exact .pre hop (hl ▸ hx.unparen)
  | cast | call | member => cases hy

theorem Plain.substitute_assignable (h : m.Plain) {x y : Expr} (hx : x.Assignable)
    (hy : m.substitute x = .ok y) : y.Plain := by
  rcases hx with hx | ⟨op, z, name, hz, rfl | ⟨hop, rfl⟩⟩
  · exact h.substitute hx hy
  · exact h.step hz hy
  · rcases substitute_pre hy with ⟨-, hy⟩ | ⟨hnot, -⟩
    · exact h.step hz hy
    · rw [hop] at hnot
      cases hnot

/-- Storing an assigned value keeps a memory plain. -/
theorem Plain.store (h : m.Plain) {name : String} {x : Expr} (hx : x.Assignable)
    (hm : m.store name x = .ok m') : m'.Plain :=
  forall_store h hm Value.plain_literal fun _ hy => h.substitute_assignable hx hy

/-- What is written in a step may be assigned. -/
def Action.IsPlain (a : Action) : Prop := ∀ x ∈ a.written?, x.Assignable

theorem Action.IsPlain.assignable {a : Action} (ha : a.IsPlain) {x : Expr}
    (hx : a.value? = some x) : x.Assignable := by
  rcases Action.written_of_value hx with hwritten | ⟨type, hzero⟩
  · exact ha x hwritten
  · exact Or.inl (plain_zeroValue hzero)

theorem plain_run {pool : List Memory} (h : ∀ m ∈ pool, m.Plain) {actions : List Action}
    (ha : ∀ a ∈ actions, a.IsPlain) : ∀ m ∈ run pool actions, m.Plain :=
  forall_run h fun a ham _ _ _ _ hm hx hstore => hm.store ((ha a ham).assignable hx) hstore

theorem forall_resolveList {good : Expr → Prop} {xs ys : List Expr} (h : m.resolveList xs = .ok ys)
    (hgood : ∀ x ∈ xs, ∀ y, m.resolve x = .ok y → good y) : ∀ y ∈ ys, good y := by
  induction xs generalizing ys with
  | nil =>
    cases h
    simp
  | cons x xs ih =>
    obtain ⟨hx, hxs⟩ := List.forall_mem_cons.mp hgood
    obtain ⟨y, hy, h⟩ := bind_eq_ok.mp h
    obtain ⟨rest, hrest, h⟩ := bind_eq_ok.mp h
    cases h
    exact List.forall_mem_cons.mpr ⟨hx y hy, ih hrest hxs⟩

/-- A plain test in terms of a plain memory is plain, by induction on the test : callees and member
accesses are left as they are. -/
theorem Plain.resolve (h : m.Plain) {c : Expr} (hc : c.Plain) {t : Expr}
    (ht : m.resolve c = .ok t) : t.Plain := by
  induction hc generalizing t with
  | lit hl =>
    cases ht
    exact .lit hl
  | ident => exact h _ t (lookup_eq_ok.mp ht)
  | binary hx hy ihx ihy =>
    obtain ⟨l, hl, ht⟩ := bind_eq_ok.mp ht
    obtain ⟨r, hr, ht⟩ := bind_eq_ok.mp ht
    cases ht
    exact .binary (ihx hl) (ihy hr)
  | pre hop hx ih =>
    obtain ⟨-, y, hy, rfl⟩ := resolve_pre ht
    exact .pre hop (ih hy)
  | paren hx ih =>
    obtain ⟨y, hy, ht⟩ := bind_eq_ok.mp ht
    cases ht
    exact .paren (ih hy)
  | cast hfront htype hx ih =>
    obtain ⟨y, hy, ht⟩ := bind_eq_ok.mp ht
    cases ht
    exact .cast hfront htype (ih hy)
  | @call f args hf ha ihf iha =>
    obtain ⟨ys, hys, ht⟩ := bind_eq_ok.mp ht
    cases ht
    exact .call hf (forall_resolveList hys fun x hx y hy => iha x hx hy)
  | member hx hs ih =>
    cases ht
    exact .member hx hs

end Memory

/-! ## Traces -/

/-- The text of a path doubles a sign if the text of a condition does. -/
theorem doublesSign_traceOf (path : List Expr) :
    Text.doublesSign (traceOf path).toList =
      path.any fun c => Text.doublesSign c.render.toList := by
  unfold traceOf
  dsimp only
  rw [Text.doublesSign_intercalate (by decide) rfl, List.any_map]
  congr 1
  funext c
  dsimp only [Function.comp]
  split
  · rfl
  · exact Expr.doublesSign_parens _

theorem Expr.Plain.negate {x : Expr} (h : x.Plain) : x.negate.Plain := by
  fun_cases Expr.negate x with
  | case1 x =>
    cases h with
    | paren hx => exact .pre (by decide) (.paren hx)
  | case2 => exact .pre (by decide) (.paren h)

/-- Texts of conditions read as an increment or a decrement in one case only. The text of a plain
expression has `++` or `--` in it exactly if a sign is doubled at one of its nodes : a sign stands
in front of a literal that starts with the same sign, or a literal that is no number has them in its
text. What a plain test is resolved to, in a memory that plain values were assigned in, is plain
again, and so is its negation : so this holds of the tests on a path. The trace of a path has `++`
or `--` in it exactly if a test has. -/
theorem renderings_doubleSign {params : List Param} {actions : List Memory.Action}
    (hparams : ∀ p ∈ params, isToken .name p.name) (hactions : ∀ a ∈ actions, a.IsPlain)
    (fold : Bool) {x : Expr} (hx : x.Plain) {path : List Expr} (hpath : ∀ c ∈ path, c.Plain) :
    (∀ l : Literal, l.IsNumber → (Expr.lit l).doublesSign = false) ∧
    (("++".toList <:+: x.render.toList ∨ "--".toList <:+: x.render.toList) ↔
      ∃ y ∈ x.nodes, y.doublesSign) ∧
    (∀ m ∈ Memory.run [.init params fold] actions, ∀ t, m.resolve x = .ok t →
      t.Plain ∧ t.negate.Plain) ∧
    (("++".toList <:+: (traceOf path).toList ∨ "--".toList <:+: (traceOf path).toList) ↔
      ∃ c ∈ path, ∃ y ∈ c.nodes, y.doublesSign) := by
  have hplus : "++".toList = ['+', '+'] := by decide
  have hminus : "--".toList = ['-', '-'] := by decide
  rw [hplus, hminus]
  refine ⟨fun l hl => hl.isSigned.doublesSign, ?_, fun m hm t ht => ?_, ?_⟩
  · rw [← Text.doublesSign_iff, Expr.doublesSign_render hx, List.any_eq_true]
  · have hplain := Memory.plain_run (by simpa using Memory.plain_init hparams fold) hactions m hm
    exact ⟨hplain.resolve hx ht, (hplain.resolve hx ht).negate⟩
  · rw [← Text.doublesSign_iff, doublesSign_traceOf, List.any_eq_true]
    exact exists_congr fun c => and_congr_right fun hc => by
      rw [Expr.doublesSign_render (hpath c hc), List.any_eq_true]

/-- A variable is given a negative number, which is computed. -/
def negativeLocal : List Memory.Action :=
  [.declare 0 "b" "int" (some (.pre .neg (.int 5)))]

/-- A test of the variable with a sign in front of it. -/
def negatedLocal : Expr := .binary .gt (.pre .neg (.ident "b")) (.ident "a")

theorem renderings_doubleSign_negatedLocal :
    ∃ m ∈ Memory.run [.init [⟨"a", "int"⟩] true] negativeLocal, ∃ t,
      m.resolve negatedLocal = .ok t ∧ t.Plain ∧ (∃ y ∈ t.nodes, y.doublesSign) ∧
        ("++".toList <:+: t.render.toList ∨ "--".toList <:+: t.render.toList) ∧
        ("++".toList <:+: (traceOf [t]).toList ∨ "--".toList <:+: (traceOf [t]).toList) := by
  have hname : ∀ name ∈ ["a", "b"], isToken .name name := by decide
  have hnumber : (Expr.int 5).Plain := (Value.int 5).plain_literal
  have htest : negatedLocal.Plain :=
    .binary (.pre (by decide) (.ident (hname "b" (by simp)))) (.ident (hname "a" (by simp)))
  have hactions : ∀ a ∈ negativeLocal, a.IsPlain := by
    intro a ha x hx
    obtain rfl := List.mem_singleton.mp ha
    cases hx
    exact Or.inl (.pre (by decide) hnumber)
  let m : Memory := ⟨[("b", .lit ⟨.int, "-5"⟩), ("a", .ident "a")], true⟩
  let t : Expr := .binary .gt (.pre .neg (.lit ⟨.int, "-5"⟩)) (.ident "a")
  have hm : m ∈ Memory.run [.init [⟨"a", "int"⟩] true] negativeLocal := List.mem_singleton.mpr rfl
  have hparams : ∀ p ∈ [(⟨"a", "int"⟩ : Param)], isToken .name p.name := by
    simpa using hname "a" (by simp)
  obtain ⟨-, -, hresolve, -⟩ :=
    renderings_doubleSign hparams hactions true htest (List.forall_mem_nil _)
  obtain ⟨ht, -⟩ := hresolve m hm t rfl
  obtain ⟨-, hrender, -, htrace⟩ := renderings_doubleSign hparams hactions true ht
    (List.forall_mem_singleton.mpr ht)
  have hdoubled : ∃ y ∈ t.nodes, y.doublesSign :=
    ⟨.pre .neg (.lit ⟨.int, "-5"⟩), by simp [t, Expr.nodes, Expr.walk], by decide⟩
  exact ⟨m, hm, t, rfl, ht, hdoubled, hrender.mpr hdoubled, htrace.mpr ⟨t, by simp, hdoubled⟩⟩

/-- The test of the negated variable reads as a decrement in terms of the parameters. -/
theorem Memory.resolve_negatedLocal :
    ∃ m ∈ Memory.run [.init [⟨"a", "int"⟩] true] negativeLocal, ∃ t,
      m.resolve negatedLocal = .ok t ∧ t.render = "--5 > a" ∧ traceOf [t] = "(--5 > a)" ∧
        "--".toList <:+: t.render.toList :=
  ⟨_, List.mem_singleton.mpr rfl, _, rfl, rfl, rfl, [], "5 > a".toList, by decide⟩

end PathTree
