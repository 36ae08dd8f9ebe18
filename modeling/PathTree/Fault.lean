import PathTree.Text.Quoted
import PathTree.Syntax.Render

/-!
# Faults

Why an operation on trees failed, as causes. `Fault.message` is the wording of each cause, and
`Fault.root` is the cause without the accounts of what was being done when it arose.
-/

namespace PathTree

/-- The reasons why an expression has no constant value. -/
inductive NotConstant where
  /-- A node that is no literal, operator or parenthesis. -/
  | node (kind : String)
  /-- A literal of a kind that has no values. -/
  | kindOf (kind : LitKind)
  /-- The text of a literal does not spell a value of its kind. -/
  | malformed (text : String)
  /-- A unary operator on a value of the wrong kind. -/
  | unary (op : UnaryOp) (kind : String)
  /-- A binary operator on values of the wrong kinds. -/
  | binary (op : BinaryOp) (left right : String)
  /-- A quotient or remainder by zero. -/
  | divisionByZero
  deriving DecidableEq, Repr

/-- The wording of a reason. -/
def NotConstant.message : NotConstant → String
  | .node kind => kind
  | .kindOf kind => kind.name ++ " literal"
  | .malformed text => "malformed literal " ++ Text.quoteText text
  | .unary op kind => op.symbol ++ kind
  | .binary op left right => left ++ " " ++ op.symbol ++ " " ++ right
  | .divisionByZero => "division by zero"

/-- The causes of failure. -/
inductive Fault where
  /-- A construct that the operation does not cover. -/
  | unsupported (kind detail : String)
  /-- A name without a value. -/
  | unknownName (name : String)
  /-- An expression without a constant value. -/
  | notConstant (why : NotConstant)
  /-- A text that is no truth value. -/
  | notTruth (text : String)
  /-- A condition whose value is no truth value. -/
  | notCondition (cond : Expr)
  /-- The caller withdrew the request. -/
  | cancelled
  /-- The time for the request is over. -/
  | expired
  /-- A failure reported by a solver from outside. -/
  | reported (text : String)
  /-- The text of a type that is none. -/
  | notType (text : String)
  /-- A text literal with a sign in front of it was evaluated. No caller handles this one. -/
  | signedText
  /-- What was being done, and the cause. -/
  | during (what : String) (cause : Fault)

namespace Fault

/-- The fault for an expression that an operation does not cover. -/
def ofExpr (x : Expr) (detail : String) : Fault := .unsupported x.kind detail

/-- The fault for a statement that an operation does not cover. -/
def ofStmt (s : Stmt) (detail : String) : Fault := .unsupported s.kind detail

/-- The wording of a fault. -/
def message : Fault → String
  | .unsupported kind detail =>
    "unsupported construct: " ++ kind ++ if detail = "" then "" else " (" ++ detail ++ ")"
  | .unknownName name => "unknown identifier: " ++ Text.quoteText name
  | .notConstant why => "not a constant expression: " ++ why.message
  | .notTruth text => "strconv.ParseBool: parsing " ++ Text.quoteText text ++ ": invalid syntax"
  | .notCondition cond => "condition " ++ cond.render ++ " is not boolean"
  | .cancelled => "context canceled"
  | .expired => "context deadline exceeded"
  | .reported text => text
  | .notType text => text
  | .signedText => "sign in front of a text"
  | .during what cause => what ++ ": " ++ cause.message

/-- The cause without the accounts around it. -/
def root : Fault → Fault
  | .during _ cause => cause.root
  | f => f

/-- Whether the fault is one that no caller handles. -/
def isFatal (f : Fault) : Bool :=
  match f.root with
  | .signedText => true
  | _ => false

end Fault

/-- Two steps succeed if the first does and then the second. -/
theorem bind_eq_ok {ε α β : Type} {x : Except ε α} {f : α → Except ε β} {b : β} :
    x >>= f = .ok b ↔ ∃ a, x = .ok a ∧ f a = .ok b := by
  cases x <;> simp [bind, Except.bind]

/-- A step succeeds whatever its failures are turned into. -/
theorem mapError_eq_ok {ε δ α : Type} {x : Except ε α} {f : ε → δ} {a : α} :
    x.mapError f = .ok a ↔ x = .ok a := by
  cases x with
  | error e => exact ⟨nofun, nofun⟩
  | ok b => exact ⟨fun h => congrArg Except.ok (Except.ok.inj h),
      fun h => congrArg Except.ok (Except.ok.inj h)⟩

/-- Two steps fail if the first does, or if the second does after it. -/
theorem bind_eq_error {ε α β : Type} {x : Except ε α} {f : α → Except ε β} {e : ε} :
    x >>= f = .error e ↔ x = .error e ∨ ∃ a, x = .ok a ∧ f a = .error e := by
  cases x <;> simp [bind, Except.bind]

end PathTree
