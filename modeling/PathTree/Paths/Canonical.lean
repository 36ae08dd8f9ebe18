import PathTree.Fault

/-!
# Canonical statement lists

A statement list is canonical when its declarations and expressions are followed by at most one
structural statement. Loops are unrolled, blocks are spliced, and what follows a branch is copied
into those of its arms that do not leave the function.

`canonicalize` brings a list into this form. It works on the list itself only: arms are brought
into canonical form when they are entered.
-/

namespace PathTree

namespace Stmt

/-- Declarations and expressions; all other statements are structural. -/
def isSimple : Stmt → Bool
  | .decl .. | .expr _ => true
  | _ => false

/-- The two kinds of loops. -/
def isLoop : Stmt → Bool
  | .whileLoop .. | .forLoop .. => true
  | _ => false

/-! ## Loops -/

/-- A loop as nested branches: at most `bound` rounds, and one if `bound` is 0. -/
def unroll (cond : Expr) (body : List Stmt) : (bound : Nat) → Stmt
  | n + 2 => .branch cond (some (.block (body ++ [unroll cond body (n + 1)]))) none
  | _ => .branch cond (some (.block body)) none

/-- What runs before a loop: nothing, a declaration or an expression. -/
def loopInit : Option Stmt → Except Fault (List Stmt)
  | none => .ok []
  | some s => if s.isSimple then .ok [s] else .error (.ofStmt s "for loop init")

/-- The condition of a loop; a missing one is true. -/
def loopCond (cond : Option Expr) : Expr := cond.getD (.lit (.ofBool true))

mutual
/-- A statement as the list that stands for it when blocks are spliced and loops unrolled. -/
def expandOne (bound : Nat) : Stmt → Except Fault (List Stmt)
  | .block inner => expand bound inner
  | .whileLoop cond body => .ok [unroll cond (statements body) bound]
  | .forLoop init cond step body =>
    if step.length > 1 then
      .error (.ofStmt (.forLoop init cond step body) "more than one post statement")
    else do
      let first ← loopInit init
      .ok (first ++ [unroll (loopCond cond) (statements body ++ step.map .expr) bound])
  | s => .ok [s]

/-- A list with blocks spliced and loops unrolled. -/
def expand (bound : Nat) : List Stmt → Except Fault (List Stmt)
  | [] => .ok []
  | s :: rest => do
    let first ← expandOne bound s
    let rest ← expand bound rest
    .ok (first ++ rest)
end

/-! ## Tails -/

/-- The statements of an arm with what follows the branch behind them, unless they leave the
function. -/
def withTail (arm tail : List Stmt) : List Stmt :=
  if endsTerminal arm then arm else arm ++ tail

/-- A branch with what follows it in its arms. -/
def mergeTail (cond : Expr) (yes no : Option Stmt) (tail : List Stmt) : Stmt :=
  let yes := withTail (flatten (statements yes)) tail
  let no := match no with
    | none => tail
    | some s => withTail (flatten (statements (some s))) tail
  .branch cond (some (.block yes)) (if no.isEmpty then none else some (.block no))

/-- Copies what follows a branch into its arms, from the end on, until one structural statement
is left. What follows the last one stays where it is. -/
def joinTails : List Stmt → Except Fault (List Stmt)
  | [] => .ok []
  | s :: rest => do
    let rest ← joinTails rest
    if s.isSimple then .ok (s :: rest)
    else if s.isLoop then .error (.ofStmt s "loop left after unrolling")
    else if rest.all isSimple then .ok (s :: rest)
    else match s with
      | .branch cond yes no => .ok [mergeTail cond yes no rest]
      | s => .error (.ofStmt s "only a branch may precede the last structural statement")

/-- Copies simple statements behind the first structural one into its arms if it is a branch. -/
def mergeLast : List Stmt → List Stmt
  | [] => []
  | .branch cond yes no :: tail =>
    if tail.isEmpty then [.branch cond yes no] else [mergeTail cond yes no tail]
  | s :: rest => if s.isSimple then s :: mergeLast rest else s :: rest

/-- The canonical form of a statement list. -/
def canonicalize (bound : Nat) (list : List Stmt) : Except Fault (List Stmt) := do
  let stmts ← expand bound list
  let stmts ← joinTails stmts
  .ok (mergeLast stmts)

/-! ## Conditions -/

end Stmt

/-- Whether a condition is a `&&` or `||`, in parentheses or not. -/
def Expr.isCompound (x : Expr) : Bool :=
  match x.unparen with
  | .binary op _ _ => op.isLogical
  | _ => false

/-- A branch on a `&&` or `||` as nested branches, left operand first, until the outer condition
is neither. The arm that both operands can lead to is copied. -/
def Stmt.splitCond : Expr → Option Stmt → Option Stmt → Expr × Option Stmt × Option Stmt
  | .binary .and x y, yes, no => splitCond x (some (.block [.branch y yes no])) no
  | .binary .or x y, yes, no => splitCond x yes (some (.block [.branch y yes no]))
  | .paren x, yes, no => if x.isCompound then splitCond x yes no else (.paren x, yes, no)
  | x, yes, no => (x, yes, no)

end PathTree
