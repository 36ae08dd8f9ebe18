import PathTree.Constant.Eval

/-!
# Queries and solvers

A query asks for values of the parameters under which all of a list of conditions hold. A solver
is a step on a state of its own: it may remember, count or follow a script. It may also be asked
to stop: `Patience` says how often the caller is still willing to wait.
-/

namespace PathTree

/-- A list of conditions on the parameters of a function. -/
structure Query where
  params : List Param
  conds : List Expr

/-- A parameter and the value it is given. -/
structure Binding where
  name : String
  value : Literal
  deriving DecidableEq, Repr

/-- Values for parameters, in order. -/
abbrev Assignment := List Binding

namespace Assignment

/-- The first value given to a name. -/
def lookup (a : Assignment) (name : String) : Option Literal :=
  (a.find? (fun b => b.name = name)).map (·.value)

/-- The assignment as text. -/
def render (a : Assignment) : String :=
  ", ".intercalate (a.map fun b => b.name ++ "=" ++ b.value.text)

end Assignment

/-- The answer to a query: whether it can be satisfied, and by which values. -/
structure Answer where
  sat : Bool
  assignment : Option Assignment
  deriving DecidableEq, Repr

/-- The answer that no values satisfy the conditions. -/
def Answer.unsat : Answer := ⟨false, none⟩

/-! ## Patience -/

/-- Why a caller is no longer willing to wait. -/
inductive Withdrawal where
  | cancelled
  | expired
  /-- For a reason in the caller's own words. -/
  | stated (reason : String)
  deriving DecidableEq, Repr

/-- The withdrawal as a fault. -/
def Withdrawal.fault : Withdrawal → Fault
  | .cancelled => .cancelled
  | .expired => .expired
  | .stated reason => .reported reason

/-- How often the caller still says that it is willing to wait: always, or so many times, and then
no more for one and the same reason. -/
inductive Patience where
  | unlimited
  | times (n : Nat) (why : Withdrawal := .cancelled)
  deriving DecidableEq, Repr

/-- Asks the caller once; it fails when the caller is no longer willing. -/
def Patience.ask : Patience → Except Fault Unit × Patience
  | .unlimited => (.ok (), .unlimited)
  | .times 0 why => (.error why.fault, .times 0 why)
  | .times (n + 1) why => (.ok (), .times n why)

/-- A request that is withdrawn from the start. -/
def Patience.spent : Patience := .times 0

/-- A request whose time is over from the start. -/
def Patience.expired : Patience := .times 0 .expired

/-! ## Solvers -/

/-- A solver with a state of type `σ`: a step that answers one query. -/
structure Solver (σ : Type) where
  solve : Query → Patience × σ → Except Fault Answer × (Patience × σ)

namespace Solver

variable {σ : Type}

/-- The solver that always gives the same answer. -/
def always (a : Answer) : Solver σ where
  solve _ s := (.ok a, s)

/-- The solver that gives the answers of its state in turn, then finds nothing. -/
def scripted : Solver (List (Except Fault Answer)) where
  solve _ s :=
    match s.2 with
    | [] => (.ok .unsat, s)
    | a :: rest => (a, (s.1, rest))

/-- A solver that also keeps the queries it was asked, the last one first. -/
def recorded (inner : Solver σ) : Solver (σ × List Query) where
  solve q s :=
    let (a, p, t) := inner.solve q (s.1, s.2.1)
    (a, (p, (t, q :: s.2.2)))

end Solver

end PathTree
