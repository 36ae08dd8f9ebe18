import PathTree.Source.TypeText
import PathTree.Fault

/-!
# From source trees to statement trees

`FuncDecl.lower` turns a function declaration into a `Function`. The statements behind a branch end
up inside its arms, where all names share one scope, so a local must not have the name of one that
is visible where it is declared: `Scopes.declare` refuses it.
-/

namespace PathTree

/-! ## Statements put together -/

namespace Stmt

/-- One statement stands for itself, and any other number of them for a block. -/
def single : List Stmt → Stmt
  | [s] => s
  | list => .block list

/-- A statement with what it starts with in front of it. -/
def hoist : Option Stmt → Stmt → Stmt
  | none, s => s
  | some init, s => .block [init, s]

/-- A loop by what stands in its head. With a condition and nothing else it is a while loop. -/
def ofLoop : Option Stmt → Option Expr → List Expr → List Stmt → Stmt
  | none, some cond, [], body => .whileLoop cond (some (.block body))
  | init, cond, step, body => .forLoop init cond step (some (.block body))

end Stmt

namespace Source

/-! ## Expressions -/

/-- The types whose call with one argument is a conversion. -/
def conversionTypes : List String :=
  ["bool", "string", "byte", "rune", "int", "int8", "int16", "int32", "int64", "uint", "uint8",
    "uint16", "uint32", "uint64", "uintptr", "float32", "float64"]

/-- The fault for a node that has no counterpart. -/
def Node.refuse {α : Type} (x : Node) (detail : String) : Except Fault α :=
  .error (.unsupported x.kind detail)

/-- The kind of literals of a form. Imaginary numbers have none. -/
def LiteralForm.kind? : LiteralForm → Option LitKind
  | .int => some .int
  | .float => some .float
  | .char => some .char
  | .string => some .string
  | .imaginary => none

/-- The meaning of a name: three names are literals. -/
def nameExpr (name : String) : Expr :=
  if name = "true" then .lit (.ofBool true)
  else if name = "false" then .lit (.ofBool false)
  else if name = "nil" then .lit .nilValue
  else .ident name

/-- The counterpart of an operator in front of an operand. -/
def PrefixOp.unary? : PrefixOp → Option UnaryOp
  | .not => some .not
  | .neg => some .neg
  | .plus => some .plus
  | .complement | .address | .receive | .underlying => none

/-- The counterpart of an operator between operands. -/
def InfixOp.binary? : InfixOp → Option BinaryOp
  | .base .invalid => none
  | .base op => some op
  | .bits _ => none

/-- A call by name: the types among the names convert their one argument. -/
def namedCall (name : String) (args : List Expr) : Expr :=
  match args with
  | [x] => if conversionTypes.contains name then .cast name x else .call (.ident name) [x]
  | args => .call (.ident name) args

mutual
/-- The counterpart of an expression. The sign of a number becomes part of its literal. -/
def Node.lower : Node → Except Fault Expr
  | .ident name => .ok (nameExpr name)
  | .literal form text =>
    match form.kind? with
    | some kind => .ok (.lit ⟨kind, text⟩)
    | none => (Node.literal form text).refuse "IMAG literal"
  | .unary .neg (.literal .int text) => .ok (.lit ⟨.int, "-" ++ text⟩)
  | .unary .neg (.literal .float text) => .ok (.lit ⟨.float, "-" ++ text⟩)
  | .unary op x =>
    match op.unary? with
    | some un => do pure (.pre un (← x.lower))
    | none => (Node.unary op x).refuse ("operator " ++ op.symbol)
  | .binary op x y =>
    match op.binary? with
    | some bin => do
      let x ← x.lower
      let y ← y.lower
      pure (.binary bin x y)
    | none => (Node.binary op x y).refuse ("operator " ++ op.symbol)
  | .paren x => do pure (.paren (← x.lower))
  | .selector x sel => do pure (.member (← x.lower) sel)
  | .call callee args true => (Node.call callee args true).refuse "variadic call"
  | .call (.ident name) args false => do pure (namedCall name (← lowerArgs args))
  | .call (.selector x sel) args false => do
    let args ← lowerArgs args
    let x ← x.lower
    pure (.call (.member x sel) args)
  | .call callee args false => do
    let _ ← lowerArgs args
    callee.refuse "callee"
  | x => x.refuse "expression"

/-- The counterparts of arguments, from left to right. -/
def lowerArgs : List Node → Except Fault (List Expr)
  | [] => .ok []
  | x :: rest => do
    let x ← x.lower
    let rest ← lowerArgs rest
    pure (x :: rest)
end

/-- The counterpart of an expression that may be missing. -/
def lowerOption : Option Node → Except Fault (Option Expr)
  | none => .ok none
  | some x => do pure (some (← x.lower))

/-! ## Scopes -/

/-- The names that were declared in each open scope, the innermost scope first. -/
abbrev Scopes := List (List String)

/-- A step of lowering that may declare names. -/
abbrev Lower := StateT Scopes (Except Fault)

namespace Scopes

/-- Declares a name in the innermost scope without any question. -/
def bind (name : String) : Scopes → Scopes
  | [] => [[name]]
  | scope :: rest => (name :: scope) :: rest

/-- Declares a name in the innermost scope. It must not be declared in any open scope; `what` is the
form that declares it. The blank name declares nothing. -/
def declare (what name : String) (scopes : Scopes) : Except Fault Scopes :=
  if name = "_" then .ok scopes
  else if scopes.head?.any (·.contains name) then
    .error (.unsupported what ("redeclared variable " ++ name))
  else if scopes.any (·.contains name) then
    .error (.unsupported what ("shadowed variable " ++ name))
  else .ok (scopes.bind name)

end Scopes

/-- Runs a step in a scope of its own. -/
def inScope {α : Type} (step : Lower α) : Lower α := do
  modify ([] :: ·)
  let a ← step
  modify (·.drop 1)
  pure a

/-- Declares a name. -/
def declareName (what name : String) : Lower Unit := do
  set (← (← get).declare what name)

/-! ## Statements -/

/-- The fault for a statement that has no counterpart. -/
def Statement.refuse {α : Type} (s : Statement) (detail : String) : Lower α :=
  throw (.unsupported s.kind detail)

/-- Whether a statement may start a branch or loop: assignments, counts and expressions may. -/
def Statement.isSimple : Statement → Bool
  | .assign .. | .count .. | .expr _ => true
  | _ => false

/-- The counterpart of an assignment operator. -/
def SetOp.assign? : SetOp → Option AssignOp
  | .base .invalid => none
  | .base op => some op
  | .define | .bits _ => none

/-- The counterpart of an assignment. -/
def lowerAssign (targets : List Node) (op : SetOp) (values : List Node) : Lower Stmt := do
  let s := Statement.assign targets op values
  match targets, values with
  | [target], [value] =>
    match target with
    | .ident name =>
      let value ← value.lower
      if op = .define then
        declareName s.kind name
        pure (.declare name (some value))
      else
        match op.assign? with
        | some op => pure (.expr (.assign op name value))
        | none => s.refuse op.symbol
    | _ => (target.refuse "assignment target" : Except Fault Stmt)
  | _, _ => s.refuse "multiple assignment"

/-- The declarations of names with their values. -/
def lowerNames (type : String) : List String → List Node → Lower (List Stmt)
  | [], _ => pure []
  | name :: names, values => do
    let value ← lowerOption values.head?
    declareName "ValueSpec" name
    let rest ← lowerNames type names (values.drop 1)
    pure (.decl name type value :: rest)

/-- The declarations of a list of variables with a type. -/
def lowerSpec (spec : ValueSpec) : Lower (List Stmt) := do
  if !spec.values.isEmpty && spec.values.length != spec.names.length then
    throw (.unsupported "ValueSpec" "multiple value declaration")
  lowerNames (spec.type.elim "" Node.typeText) spec.names spec.values

/-- The counterpart of a declaration of variables: one declaration for each name. -/
def lowerVars (specs : List ValueSpec) : Lower Stmt := do
  let decls ← specs.mapM lowerSpec
  pure (.single decls.flatten)

/-- The counterpart of an expression that is a statement. A call of `panic` with one argument leaves
the function. -/
def lowerCall (x : Node) : Except Fault Stmt :=
  match x with
  | .call (.ident "panic") [v] _ => do pure (.throw (some (← v.lower)))
  | .call .. => do pure (.expr (← x.lower))
  | _ => x.refuse "expression statement"

/-- The counterpart of a return statement. -/
def lowerReturn (results : List Node) : Lower Stmt := do
  match results with
  | [] => pure (.ret none)
  | [x] =>
    let x ← x.lower
    pure (.ret (some x))
  | _ => (Statement.ret results).refuse "more than one result"

/-- What is evaluated after each round of a loop: an expression, if there is a step at all. -/
def stepExpr : Option Statement → Option Stmt → Lower (List Expr)
  | none, _ => pure []
  | some _, some (.expr x) => pure [x]
  | some step, _ => step.refuse "for loop post statement"

mutual
/-- The counterpart of a statement; an empty statement has none. A block shares the scope around it,
because it is spliced there. What a branch or loop starts with stands in front of it. -/
def Statement.lower : Statement → Lower (Option Stmt)
  | .block list => do
    let list ← lowerList list
    pure (some (.block list))
  | .branch init cond body other => inScope do
    let init ← lowerSimple init
    let cond ← cond.lower
    let yes ← inScope (lowerList body)
    let no ← lowerElse other
    pure (some (.hoist init (.branch cond (some (.block yes)) no)))
  | .loop init cond step body => inScope do
    let init ← lowerSimple init
    let cond ← lowerOption cond
    let body ← inScope (lowerList body)
    let next ← lowerSimple step
    let post ← stepExpr step next
    pure (some (.ofLoop init cond post body))
  | .ret results => some <$> lowerReturn results
  | .assign targets op values => some <$> lowerAssign targets op values
  | .count x up => do
    let x ← x.lower
    pure (some (.expr (.post (if up then .inc else .dec) x)))
  | .vars specs => some <$> lowerVars specs
  | .constants => Statement.constants.refuse "declaration"
  | .expr x => some <$> (lowerCall x : Lower Stmt)
  | .empty => pure none
  | .other form => (Statement.other form).refuse "statement"

/-- The counterparts of statements, from first to last. -/
def lowerList : List Statement → Lower (List Stmt)
  | [] => pure []
  | s :: rest => do
    let s ← s.lower
    let rest ← lowerList rest
    pure (s.toList ++ rest)

/-- The counterpart of the arm for a condition that does not hold. -/
def lowerElse : Option Statement → Lower (Option Stmt)
  | none => pure none
  | some (.block list) => do
    let list ← inScope (lowerList list)
    pure (some (.block list))
  | some s => do
    let s ← s.lower
    pure (some (.block (Stmt.statements s)))

/-- The counterpart of what a branch or loop starts with, or of the step of a loop: an assignment, a
count or a call. -/
def lowerSimple : Option Statement → Lower (Option Stmt)
  | none => pure none
  | some s => if s.isSimple then s.lower else s.refuse "init or post statement"
end

/-! ## Functions -/

/-- The name of a function; that of a method has the receiver's type in front of it. -/
def FuncDecl.qualifiedName (f : FuncDecl) : String :=
  match f.receiver with
  | some (r :: _) =>
    let type := match r.fieldType with
      | .star x => x
      | x => x
    type.typeText ++ "." ++ f.name
  | _ => f.name

/-- The parameters that have names. -/
def FuncDecl.namedParams (f : FuncDecl) : List Param :=
  f.params.flatMap fun p =>
    (p.fieldNames.filter (· != "_")).map fun name => ⟨name, p.fieldType.typeText⟩

/-- The types of the results, one for each result. -/
def FuncDecl.resultTypes (f : FuncDecl) : List String :=
  f.results.flatMap fun r => List.replicate (max 1 r.fieldNames.length) r.fieldType.typeText

/-- The names that are declared by the head of a function. -/
def FuncDecl.headNames (f : FuncDecl) : List String :=
  (f.receiver.getD []).flatMap Node.fieldNames ++ f.namedParams.map Param.name ++
    f.results.flatMap Node.fieldNames

/-- The function that a declaration declares. -/
def FuncDecl.lower (f : FuncDecl) : Except Fault Function :=
  match f.body with
  | none => .error (.unsupported "FuncDecl" "function without body")
  | some body =>
    match (lowerList body.list).run [f.headNames] with
    | .ok (list, _) => .ok ⟨f.qualifiedName, f.namedParams, f.resultTypes, list⟩
    | .error fault => .error (.during f.qualifiedName fault)

end Source

end PathTree
