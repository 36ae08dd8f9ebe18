import Mathlib
import PathTree.Proofs.Gists
import PathTree.Text.Blank

/-!
# Reading the texts of conditions

`List.readAt` reads an expression off the front of a text and gives its gist and the rest. Its level
is the least precedence of the operators that it reads. It and the readers of the parts of an
expression are functions of the text, and a call of one is written behind the text that it reads.

`IsRead`, `IsOperand` and `IsTerm` say of a text that it is read as an expression, whatever stands
behind it as long as it cannot belong to it ; there is one rule for each form of expressions, such
as `IsRead.binary` and `IsTerm.select`.
-/

namespace PathTree

open Source

/-! ## Reading a text -/

namespace Reading

/-- The operators with two operands. -/
def binaryOps : List BinaryOp :=
  [.or, .and, .eq, .ne, .lt, .le, .gt, .ge, .add, .sub, .mul, .div, .mod]

/-- An operator as it stands between its operands. -/
def between (op : BinaryOp) : List Char := ' ' :: (op.symbol.toList ++ [' '])

/-- The operator at the front of a text that stands behind an operand, and what follows it. -/
def infix? (cs : List Char) : Option (BinaryOp × List Char) :=
  binaryOps.findSome? fun op => (Text.cutFront? (between op) cs).map (op, ·)

/-- What was read of a text when `rest` is left over. -/
def consumed (start rest : List Char) : String :=
  String.ofList (start.take (start.length - rest.length))

/-- The gist of a call with its text : a conversion, or a name. -/
def applied (callee text : String) : List Expr → Expr
  | [x] => if callee ∈ conversionTypes then x else .ident text
  | _ => .ident text

end Reading

end PathTree

section Readers

open PathTree PathTree.Source PathTree.Reading

mutual
/-- Reads operands and the operators between them that bind as tightly as `level` or tighter. -/
def List.readAt (level : Nat) (cs : List Char) : Option (Expr × List Char) :=
  if level < Expr.unaryPrecedence then do
    let (x, rest) ← cs |>.readAt (level + 1)
    rest |>.readChain level x
  else cs |>.readOperand
partial_fixpoint

/-- Reads on behind an operand, as long as operators of precedence `level` follow. -/
def List.readChain (level : Nat) (x : Expr) (cs : List Char) : Option (Expr × List Char) :=
  match infix? cs with
  | none => some (x, cs)
  | some (op, rest) =>
    if op.precedence = level then do
      let (y, rest) ← rest |>.readAt (level + 1)
      rest |>.readChain level (.binary op x y)
    else some (x, cs)
partial_fixpoint

/-- Reads an operand. -/
def List.readOperand (cs : List Char) : Option (Expr × List Char) :=
  match cs with
  | '!' :: rest => do
    let (x, rest) ← rest |>.readOperand
    some (.pre .not x, rest)
  | '-' :: rest => do
    let (x, rest) ← rest |>.readOperand
    some (.pre .neg x, rest)
  | '+' :: rest => do
    let (x, rest) ← rest |>.readOperand
    some (.pre .plus x, rest)
  | '(' :: more => do
    let (x, rest) ← more |>.readAt 0
    match rest with
    | ')' :: rest => cs |>.readBehind x rest
    | _ => none
  | ')' :: _ => none
  | c :: rest => rest |>.readToken c
  | [] => none
partial_fixpoint

/-- Reads a literal, or a name and what is selected and called behind it. -/
def List.readToken (c : Char) (cs : List Char) : Option (Expr × List Char) :=
  let l := lexeme c cs
  let text := String.ofList l.chars
  let rest := (c :: cs).drop l.chars.length
  match l.kind with
  | .token .name => c :: cs |>.readBehind (nameExpr text) rest
  | .token (.literal form) => form.kind?.map fun kind => (.lit ⟨kind, text⟩, rest)
  | _ => none
partial_fixpoint

/-- Reads the selections and calls behind an operand that started at `start`. -/
def List.readBehind (start : List Char) (x : Expr) (cs : List Char) : Option (Expr × List Char) :=
  match cs with
  | '.' :: more =>
    let rest := more.dropWhile inName
    start |>.readBehind (.ident (consumed start rest)) rest
  | '(' :: more => do
    let (args, rest) ← more |>.readArgs
    start |>.readBehind (applied (consumed start cs) (consumed start rest) args) rest
  | _ => some (x, cs)
partial_fixpoint

/-- Reads arguments and the parenthesis behind them. -/
def List.readArgs (cs : List Char) : Option (List Expr × List Char) :=
  match cs with
  | ')' :: rest => some ([], rest)
  | _ => do
    let (x, rest) ← cs |>.readAt 0
    let (xs, rest) ← rest |>.readMore
    some (x :: xs, rest)
partial_fixpoint

/-- Reads the arguments behind the first one. -/
def List.readMore (cs : List Char) : Option (List Expr × List Char) :=
  match cs with
  | ')' :: rest => some ([], rest)
  | ',' :: ' ' :: more => do
    let (x, rest) ← more |>.readAt 0
    let (xs, rest) ← rest |>.readMore
    some (x :: xs, rest)
  | _ => none
partial_fixpoint
end

end Readers

namespace PathTree

namespace Reading

open Source
open List (readAt readChain readOperand readToken readBehind readArgs readMore)

/-! ## Operators -/

/-- The operator between two operands is read. -/
theorem infix?_between {op : BinaryOp} (hop : op ≠ .invalid) (cs : List Char) :
    infix? (between op ++ cs) = some (op, cs) := by
  cases op <;> first | rfl | exact absurd rfl hop

theorem infix?_of_closing {c : Char} (hc : c ∈ [')', ',', ';']) (cs : List Char) :
    infix? (c :: cs) = none := by
  rcases (by simpa using hc : c = ')' ∨ c = ',' ∨ c = ';') with rfl | rfl | rfl <;> rfl

theorem precedence_of_infix? {cs rest : List Char} {op : BinaryOp}
    (h : infix? cs = some (op, rest)) :
    0 < op.precedence ∧ op.precedence < Expr.unaryPrecedence := by
  cases op <;> decide

/-! ## What is read -/

/-- What can follow where operators of precedence `level` are read on : no operator that binds
tighter. -/
structure Follows (level : Nat) (rest : List Char) : Prop where
  behind : isBehind rest
  calm : ∀ op more, infix? rest = some (op, more) → op.precedence ≤ level

/-- A text is read as an operand. -/
def IsOperand (t : List Char) (x : Expr) : Prop :=
  ∀ rest, isBehind rest → readOperand (t ++ rest) = some (x, rest)

/-- A text is read as an operand, and selections and calls can follow. -/
def IsTerm (t : List Char) (x : Expr) : Prop :=
  ∀ rest, stopsAt inName rest → readOperand (t ++ rest) = readBehind (t ++ rest) x rest

/-- A text is read where operators of precedence `most` or less are. -/
def IsRead (most : Nat) (t : List Char) (x : Expr) : Prop :=
  ∀ level ≤ most, ∀ rest, Follows level rest → readAt level (t ++ rest) = readChain level x rest

section Levels

variable {level most : Nat} {t u rest : List Char} {x y : Expr}

theorem Follows.mono (h : Follows level rest) (hle : level ≤ most) : Follows most rest :=
  ⟨h.behind, fun op more hop => (h.calm op more hop).trans hle⟩

theorem Follows.of_isBehind (h : isBehind rest) : Follows Expr.unaryPrecedence rest :=
  ⟨h, fun _ _ hop => (precedence_of_infix? hop).2.le⟩

/-- What closes an operand can follow everywhere. -/
theorem Follows.of_closing {c : Char} (hc : c ∈ [')', ',', ';']) (cs : List Char) :
    Follows level (c :: cs) := by
  refine ⟨?_, fun op more hop => ?_⟩
  · have hbehind : c ∈ afterOperand := List.mem_cons_of_mem _ hc
    simpa [isBehind] using hbehind
  · rw [infix?_of_closing hc] at hop
    cases hop

theorem Follows.nil : Follows level [] := ⟨rfl, fun _ _ hop => by cases hop⟩

theorem Follows.between {op : BinaryOp} (hop : op ≠ .invalid) (cs : List Char) :
    Follows op.precedence (between op ++ cs) := by
  refine ⟨rfl, fun op' more h => ?_⟩
  rw [infix?_between hop] at h
  cases h
  exact le_rfl

theorem readChain_eq (h : ∀ op more, infix? rest = some (op, more) → op.precedence ≠ level) :
    readChain level x rest = some (x, rest) := by
  rw [readChain]
  split
  · rfl
  · next op more hop => rw [if_neg (h op more hop)]

theorem readChain_of_lt (h : Follows level rest) (hlt : level < most) :
    readChain most x rest = some (x, rest) :=
  readChain_eq fun op more hop => by
    have := h.calm op more hop
    omega

/-- Nothing is read on where an expression ends. -/
theorem readChain_zero : readChain 0 x rest = some (x, rest) :=
  readChain_eq fun _ _ hop => (precedence_of_infix? hop).1.ne'

/-- A text that is read at one level is read at the levels below. -/
theorem IsRead.of_readAt (hmost : most ≤ Expr.unaryPrecedence)
    (h : ∀ rest, Follows most rest → readAt most (t ++ rest) = readChain most x rest) :
    IsRead most t x := by
  intro level hle
  induction hd : most - level generalizing level with
  | zero =>
    obtain rfl : level = most := by omega
    exact h
  | succ d ih =>
    intro rest hrest
    rw [readAt, if_pos (by omega), ih (level + 1) (by omega) (by omega) rest
      (hrest.mono level.le_succ), readChain_of_lt hrest level.lt_succ_self]
    rfl

theorem IsRead.mono (h : IsRead most t x) (hle : level ≤ most) : IsRead level t x :=
  fun l hl => h l (hl.trans hle)

theorem IsOperand.isRead (h : IsOperand t x) : IsRead Expr.unaryPrecedence t x := by
  refine IsRead.of_readAt le_rfl fun rest hrest => ?_
  rw [readAt, if_neg (lt_irrefl _), h rest hrest.behind,
    readChain_eq fun _ _ hop => (precedence_of_infix? hop).2.ne]

theorem IsRead.isOperand (h : IsRead Expr.unaryPrecedence t x) : IsOperand t x := by
  intro rest hrest
  have hread := h _ le_rfl rest (.of_isBehind hrest)
  rwa [readAt, if_neg (lt_irrefl _), readChain_eq fun _ _ hop => (precedence_of_infix? hop).2.ne]
    at hread

/-- Two operands are read with the operator between them. -/
theorem IsRead.binary {op : BinaryOp} (hop : op ≠ .invalid) (hx : IsRead op.precedence t x)
    (hy : IsRead (op.precedence + 1) u y) :
    IsRead op.precedence (t ++ (between op ++ u)) (.binary op x y) := by
  have hlt : op.precedence < Expr.unaryPrecedence := by cases op <;> decide
  refine IsRead.of_readAt hlt.le fun rest hrest => ?_
  rw [List.append_assoc, List.append_assoc, hx _ le_rfl _ (.between hop _), readChain,
    infix?_between hop]
  simp only [if_true]
  rw [hy _ le_rfl _ (hrest.mono (Nat.le_succ _)), readChain_of_lt hrest (Nat.lt_succ_self _)]
  rfl

end Levels

/-! ## Operands -/

section Operands

variable {t u : List Char} {x y : Expr}

theorem readBehind_of_isBehind {start rest : List Char} (h : isBehind rest) :
    readBehind start x rest = some (x, rest) := by
  rw [readBehind]
  · rintro more rfl
    simp [isBehind, afterOperand] at h
  · rintro more rfl
    simp [isBehind, afterOperand] at h

theorem stopsAt_inName {rest : List Char} (h : isBehind rest) : stopsAt inName rest :=
  stopsAt_of_isBehind (by decide) h

/-- Names do not go on with a selection or a call. -/
theorem stopsAt_inName_of_mem {c : Char} (hc : c ∈ ['.', '(']) (cs : List Char) :
    stopsAt inName (c :: cs) := by
  have hname : ¬inName c :=
    List.any_eq_false.mp (by decide : ['.', '('].any inName = false) c hc
  simp [stopsAt, hname]

theorem IsTerm.isOperand (h : IsTerm t x) : IsOperand t x := by
  intro rest hrest
  rw [h rest (stopsAt_inName hrest), readBehind_of_isBehind hrest]

theorem IsTerm.isRead (h : IsTerm t x) : IsRead Expr.unaryPrecedence t x := h.isOperand.isRead

/-- What is in parentheses is read as an operand. -/
theorem IsRead.paren (h : IsRead 0 t x) : IsTerm ('(' :: (t ++ [')'])) x := by
  intro rest _
  simp only [List.cons_append, List.append_assoc, List.nil_append]
  rw [readOperand, h 0 le_rfl _ (.of_closing (by decide) _), readChain_zero]
  rfl

theorem IsRead.pre {op : UnaryOp} (hop : op ∈ [UnaryOp.not, .neg, .plus])
    (h : IsRead Expr.unaryPrecedence t x) : IsOperand (op.symbol.toList ++ t) (.pre op x) := by
  intro rest hrest
  have hx := h.isOperand rest hrest
  rcases (by simpa using hop : op = .not ∨ op = .neg ∨ op = .plus) with rfl | rfl | rfl
  · change readOperand ('!' :: (t ++ rest)) = _
    rw [readOperand, hx]
    rfl
  · change readOperand ('-' :: (t ++ rest)) = _
    rw [readOperand, hx]
    rfl
  · change readOperand ('+' :: (t ++ rest)) = _
    rw [readOperand, hx]
    rfl

theorem consumed_append (t rest : List Char) : consumed (t ++ rest) rest = String.ofList t := by
  simp [consumed]

/-- The first token of a text that starts with no mark is read. -/
theorem readOperand_eq_readToken {c : Char} (hc : c ∉ operandMarks) (cs : List Char) :
    readOperand (c :: cs) = readToken c cs := by
  simp only [operandMarks, List.mem_cons, List.not_mem_nil, or_false, not_or] at hc
  rw [readOperand] <;> simp_all

theorem not_mem_operandMarks {kind : TokenKind} {c : Char} {cs : List Char}
    (h : lexeme c cs = ⟨.token kind, c :: cs, none⟩) (hmark : kind ≠ .mark)
    (hillegal : kind ≠ .illegal) : c ∉ operandMarks := by
  intro hc
  rcases kind_lexeme_of_mem_operandMarks hc cs with hkind | hkind
  · rw [h] at hkind
    exact hmark (LexemeKind.token.inj hkind)
  · rw [h] at hkind
    exact hillegal (LexemeKind.token.inj hkind)

theorem isTerm_name {name : String} (h : isToken .name name) :
    IsTerm name.toList (nameExpr name) := by
  obtain ⟨c, cs, hname, hlex⟩ := isToken_iff.mp h
  intro rest hrest
  have hlex' := lexeme_append_of_name hlex hrest
  rw [hname, List.cons_append, readOperand_eq_readToken
    (not_mem_operandMarks hlex (by simp) (by simp)), readToken]
  simp only [hlex']
  rw [← hname, String.ofList_toList, hname]
  simp

theorem isOperand_literal {form : LiteralForm} {kind : LitKind} (hkind : form.kind? = some kind)
    {text : String} (h : isToken (.literal form) text) :
    IsOperand text.toList (.lit ⟨kind, text⟩) := by
  obtain ⟨c, cs, htext, hlex⟩ := isToken_iff.mp h
  intro rest hrest
  have hlex' := lexeme_append_of_literal hlex hrest
  rw [htext, List.cons_append, readOperand_eq_readToken
    (not_mem_operandMarks hlex (by simp) (by simp)), readToken]
  simp only [hlex', hkind]
  rw [← htext, String.ofList_toList, htext]
  simp

theorem IsTerm.select (h : IsTerm t x) {sel : String} (hsel : isToken .name sel) :
    IsTerm (t ++ '.' :: sel.toList) (.ident (String.ofList (t ++ '.' :: sel.toList))) := by
  obtain ⟨c, cs, hname, hlex⟩ := isToken_iff.mp hsel
  have hall : ∀ d ∈ sel.toList, inName d := hname ▸ (inName_of_lexeme hlex).2
  intro rest hrest
  have hdrop : (sel.toList ++ rest).dropWhile inName = rest := by
    rw [dropWhile_append hrest, List.dropWhile_eq_nil_iff.mpr hall, List.nil_append]
  rw [List.append_assoc, List.cons_append, h _ (stopsAt_inName_of_mem (by decide) _), readBehind]
  simp only [hdrop]
  rw [← List.cons_append, ← List.append_assoc, consumed_append]

theorem IsTerm.apply (h : IsTerm t x) {args : List Char} {xs : List Expr}
    (hargs : ∀ rest, readArgs (args ++ ')' :: rest) = some (xs, rest)) :
    IsTerm (t ++ '(' :: (args ++ [')']))
      (applied (String.ofList t) (String.ofList (t ++ '(' :: (args ++ [')']))) xs) := by
  intro rest _
  have htext : t ++ '(' :: (args ++ [')']) ++ rest = t ++ '(' :: (args ++ ')' :: rest) := by simp
  rw [htext, h _ (stopsAt_inName_of_mem (by decide) _), readBehind, hargs]
  simp only [Option.bind_eq_bind, Option.bind_some]
  rw [consumed_append, ← htext, consumed_append]

end Operands

/-- A call that is no conversion is a name. -/
theorem applied_of_ne {callee text : String} {xs : List Expr}
    (h : ∀ x, xs = [x] → callee ∉ conversionTypes) : applied callee text xs = .ident text := by
  unfold applied
  split
  · next x => rw [if_neg (h x rfl)]
  · rfl

/-! ## Arguments -/

/-- No expression starts with a closing parenthesis. -/
theorem readAt_closing (level : Nat) (cs : List Char) : readAt level (')' :: cs) = none := by
  induction hd : Expr.unaryPrecedence - level generalizing level with
  | zero => rw [readAt, if_neg (by omega), readOperand]
  | succ d ih =>
    rw [readAt, if_pos (by omega), ih (level + 1) (by omega)]
    rfl

theorem follows_args (args : List Expr) (rest : List Char) :
    Follows 0 (args.flatMap (fun x => ',' :: ' ' :: x.render.toList) ++ ')' :: rest) := by
  cases args with
  | nil => exact .of_closing (by decide) _
  | cons y args => exact .of_closing (by decide) _

section Arguments

variable {args : List Expr} (h : ∀ x ∈ args, IsRead 0 x.render.toList x.gist)

include h

theorem readMore_eq (rest : List Char) :
    readMore (args.flatMap (fun x => ',' :: ' ' :: x.render.toList) ++ ')' :: rest) =
      some (args.map Expr.gist, rest) := by
  induction args with
  | nil => rw [List.flatMap_nil, List.nil_append, readMore, List.map_nil]
  | cons x args ih =>
    obtain ⟨hx, hargs⟩ := List.forall_mem_cons.mp h
    simp only [List.flatMap_cons, List.cons_append, List.append_assoc]
    rw [readMore.eq_2, hx 0 le_rfl _ (follows_args args rest), readChain_zero]
    simp only [Option.bind_eq_bind, Option.bind_some, ih hargs, List.map_cons]

omit h in
theorem toList_intercalate_render (x : Expr) (args : List Expr) :
    (", ".intercalate (Expr.renderList (x :: args))).toList =
      x.render.toList ++ args.flatMap fun x => ',' :: ' ' :: x.render.toList := by
  rw [String.toList_intercalate, Expr.renderList_eq_map]
  induction args generalizing x with
  | nil => simp [List.intercalate]
  | cons y args ih =>
    have hy := ih y
    simp only [List.intercalate, List.map_cons, List.intersperse_cons_cons, List.flatten_cons]
      at hy ⊢
    rw [hy]
    simp

/-- Arguments are read up to the parenthesis that closes them. -/
theorem readArgs_eq (rest : List Char) :
    readArgs ((", ".intercalate (Expr.renderList args)).toList ++ ')' :: rest) =
      some (args.map Expr.gist, rest) := by
  cases args with
  | nil =>
    change readArgs (')' :: rest) = _
    rw [readArgs, List.map_nil]
  | cons x args =>
    obtain ⟨hx, hargs⟩ := List.forall_mem_cons.mp h
    have hread : readAt 0 (x.render.toList ++ (args.flatMap
        (fun x => ',' :: ' ' :: x.render.toList) ++ ')' :: rest)) = some (x.gist, args.flatMap
        (fun x => ',' :: ' ' :: x.render.toList) ++ ')' :: rest) := by
      rw [hx 0 le_rfl _ (follows_args args rest), readChain_zero]
    rw [toList_intercalate_render, List.append_assoc, readArgs, hread]
    · simp only [Option.bind_eq_bind, Option.bind_some, readMore_eq hargs, List.map_cons]
    · intro more hmore
      rw [hmore, readAt_closing] at hread
      cases hread

end Arguments

end Reading

end PathTree
