import PathTree.Source.Parser.Basic

/-!
# Parsing types

The rules for types, parameter lists and signatures.
-/

namespace PathTree.Source

open Parse

variable (rules : Rules)

/-! ## Names of types -/

/-- Reads what is left of a type name: a selector behind a package name. -/
def typeNameFrom (name : String) : Parse Node := do
  if ← skip "." then
    let sel ← Parse.name
    pure (.selector (.ident name) sel)
  else pure (.ident name)

/-- Reads the type arguments of a generic type. -/
def typeArguments (type : Node) : Parse Node := do
  let _ ← mark "["
  let args ← inBrackets (listUpTo "]" rules.type)
  let _ ← mark "]"
  if args.isEmpty then expected "type argument" else pure (.index type args)

/-- Reads what is left of a type name with its type arguments. -/
def qualifiedFrom (name : String) : Parse Node := do
  let type ← typeNameFrom name
  if ← sees "[" then typeArguments rules type else pure type

/-! ## Unions of types -/

/-- Reads a term of a union of types. -/
def unionTerm : Parse Node := do
  if ← skip "~" then
    let type ← rules.type
    pure (.unary .underlying type)
  else
    match ← rules .type? with
    | some type => pure type
    | none => expected "~ term or type"

/-- Reads the terms behind the first one. -/
def unionFrom (first : Node) : Parse Node :=
  loop (fun x => do
    if ← skip "|" then
      let y ← unionTerm rules
      pure (.inl (.binary (.bits .or) x y))
    else pure (.inr x)) first

/-! ## Parameters -/

/-- A parameter before types are shared: a name, a type, or both. -/
structure RawParam where
  name : Option String
  type : Option Node

/-- Reads what follows a name and an opening bracket: the type of an array with that name, or type
arguments. -/
def arrayOrInstance (name : String) : Parse RawParam := do
  let _ ← mark "["
  let (args, comma) ← inBrackets (loop (fun (acc : List Node) => do
    if ← sees "]" then pure (.inr (acc.reverse, !acc.isEmpty))
    else
      let x ← rules .expr
      if ← skip "," then pure (.inl (x :: acc)) else pure (.inr ((x :: acc).reverse, false))) [])
  let _ ← mark "]"
  match args with
  | [] =>
    let element ← rules.type
    pure ⟨some name, some (.arrayType none element)⟩
  | [length] =>
    match ← rules .type? with
    | some element =>
      if comma then expected "]" else pure ⟨some name, some (.arrayType (some length) element)⟩
    | none => pure ⟨none, some (.index (.ident name) args)⟩
  | _ => pure ⟨none, some (.index (.ident name) args)⟩

/-- Reads a type that takes any number of arguments. -/
def variadicType : Parse Node := do
  let _ ← mark "..."
  let element ← rules.type
  pure (.ellipsis (some element))

/-- Reads what follows the name of a parameter. In a list of type parameters (`unions`) the type may
be a union. -/
def paramFrom (unions : Bool) (name : String) : Parse RawParam := do
  let open_ (p : RawParam) : Parse RawParam := do
    match p.type with
    | some type =>
      if unions && (← sees "|") then
        let type ← unionFrom rules type
        pure { p with type := some type }
      else pure p
    | none => pure p
  if ← sees "[" then open_ (← arrayOrInstance rules name)
  else if ← sees "..." then
    let type ← variadicType rules
    pure ⟨some name, some type⟩
  else if ← sees "." then
    let type ← qualifiedFrom rules name
    open_ ⟨none, some type⟩
  else if unions && (← sees "~") then
    let first ← unionTerm rules
    let type ← unionFrom rules first
    pure ⟨some name, some type⟩
  else if unions && (← sees "|") then
    let type ← unionFrom rules (.ident name)
    pure ⟨none, some type⟩
  else
    let type ← rules .type?
    open_ ⟨some name, type⟩

/-- The marks that start a type. -/
def typeMarks : List String := ["*", "<-", "func", "[", "chan", "map", "struct", "interface", "("]

/-- Reads a parameter. -/
def param (unions : Bool) : Parse RawParam := do
  if ← atName then
    let name ← Parse.name
    paramFrom rules unions name
  else if unions && (← sees "~") then
    let first ← unionTerm rules
    let type ← unionFrom rules first
    pure ⟨none, some type⟩
  else if ← seesAny typeMarks then
    let type ← rules.type
    if unions && (← sees "|") then
      let type ← unionFrom rules type
      pure ⟨none, some type⟩
    else pure ⟨none, some type⟩
  else if ← sees "..." then
    let type ← variadicType rules
    pure ⟨none, some type⟩
  else expected "')'"

/-- Shares types among names: names without a type take that of the next one that has it, and make
one field with it. No result if a name has no type to take, or a type no name. -/
def sharedFields : (names : List String) → List RawParam → Option (List Node)
  | [], [] => some []
  | _ :: _, [] => none
  | names, ⟨some name, some type⟩ :: rest =>
    (sharedFields [] rest).map (.field (names ++ [name]) type :: ·)
  | names, ⟨some name, none⟩ :: rest => sharedFields (names ++ [name]) rest
  | _, ⟨none, _⟩ :: _ => none

/-- The type that a parameter without a name is. -/
def RawParam.alone (p : RawParam) : Node :=
  .field [] (p.type.getD (.ident (p.name.getD "")))

/-- The fields of a parameter list. If no parameter has both a name and a type, all are types, and
type parameters cannot be that. -/
def paramFields (unions : Bool) (list : List RawParam) : Option (List Node) :=
  if list.all (fun p => p.name.isNone || p.type.isNone) then
    if unions && !list.isEmpty then none else some (list.map RawParam.alone)
  else sharedFields [] list

/-- Reads the parameters up to a closing bracket, which is not taken. -/
def paramList (closing : String) : Parse (List Node) := do
  let unions := closing == "]"
  let list ← listUpTo closing (param rules unions)
  match paramFields unions list with
  | some fields => pure fields
  | none => expected "parameter with name and type"

/-- Reads parameters in parentheses. -/
def parameters : Parse (List Node) := do
  let _ ← mark "("
  let fields ← paramList rules ")"
  let _ ← mark ")"
  pure fields

/-- Reads type parameters in brackets. -/
def typeParameters : Parse Unit := do
  let _ ← mark "["
  let fields ← paramList rules "]"
  let _ ← mark "]"
  require (!fields.isEmpty) "type parameter"

/-- Reads the results of a function. -/
def results : Parse (List Node) := do
  if ← sees "(" then parameters rules
  else
    match ← rules .type? with
    | some type => pure [.field [] type]
    | none => pure []

/-- Reads a function type. -/
def funcType : Parse Node := do
  let _ ← mark "func"
  let params ← parameters rules
  let results ← results rules
  pure (.funcType params results)

/-! ## Composite types -/

/-- Reads what follows the opening bracket of an array type, onto its length if that was read. -/
def arrayFrom (length : Option Node) : Parse Node := do
  let length ← match length with
    | some x => pure (some x)
    | none => inBrackets do
      if ← skip "..." then pure (some (.ellipsis none))
      else if ← sees "]" then pure none
      else
        let x ← rules .expr
        pure (some x)
  let _ ← mark "]"
  let element ← rules.type
  pure (.arrayType length element)

/-- Reads a field of a struct. -/
def structField : Parse Node := do
  let field ←
    if ← skip "*" then
      let name ← Parse.name
      let type ← qualifiedFrom rules name
      pure (.field [] (.star type))
    else
      let name ← Parse.name
      if ← sees "." then
        let type ← qualifiedFrom rules name
        pure (.field [] type)
      else if (← atText) || (← atSemicolon) || (← sees "\x7d") then
        pure (.field [] (.ident name))
      else if ← sees "," then
        let _ ← advance
        let more ← commaList Parse.name
        let type ← rules.type
        pure (.field (name :: more) type)
      else if ← sees "[" then
        let p ← arrayOrInstance rules name
        pure (.field p.name.toList (p.type.getD (.ident name)))
      else
        let type ← rules.type
        pure (.field [name] type)
  if ← atText then
    let _ ← advance
  semicolon
  pure field

/-- Reads a struct type. -/
def structType : Parse Node := do
  let _ ← mark "struct"
  let _ ← mark "\x7b"
  let fields ← many (do pure ((← atName) || (← sees "*"))) (structField rules)
  let _ ← mark "\x7d"
  pure (.structType fields)

/-- Reads a member of an interface that starts with a name: a method or an embedded type. -/
def namedMember : Parse Node := do
  let name ← Parse.name
  if ← sees "(" then
    let params ← parameters rules
    let results ← results rules
    pure (.field [name] (.funcType params results))
  else
    let type ←
      if ← sees "." then qualifiedFrom rules name
      else if ← skip "[" then
        let first ← inBrackets (rules .expr)
        let more ←
          if ← skip "," then inBrackets (listUpTo "]" rules.type) else pure []
        let _ ← mark "]"
        pure (.index (.ident name) (first :: more))
      else pure (.ident name)
    let type ← unionFrom rules type
    pure (.field [] type)

/-- Reads an interface type. -/
def interfaceType : Parse Node := do
  let _ ← mark "interface"
  let _ ← mark "\x7b"
  let members ← many (do pure ((← atName) || (← sees "~") || (← seesAny typeMarks))) do
    let member ←
      if ← atName then namedMember rules
      else
        let first ← unionTerm rules
        let type ← unionFrom rules first
        pure (.field [] type)
    semicolon
    pure member
  let _ ← mark "\x7d"
  pure (.interfaceType members)

/-- Reads a map type. -/
def mapType : Parse Node := do
  let _ ← mark "map"
  let _ ← mark "["
  let key ← rules.type
  let _ ← mark "]"
  let value ← rules.type
  pure (.mapType key value)

/-- Reads a channel type. -/
def chanType : Parse Node := do
  if ← skip "<-" then
    let _ ← mark "chan"
    let element ← rules.type
    pure (.chanType .receive element)
  else
    let _ ← mark "chan"
    let dir := if ← skip "<-" then ChanDir.send else .both
    let element ← rules.type
    pure (.chanType dir element)

/-- Reads a type, if there is one. -/
def type? : Parse (Option Node) := do
  if ← atName then
    let name ← Parse.name
    some <$> qualifiedFrom rules name
  else if ← skip "[" then some <$> arrayFrom rules none
  else if ← sees "struct" then some <$> structType rules
  else if ← skip "*" then some <$> Node.star <$> rules.type
  else if ← sees "func" then some <$> funcType rules
  else if ← sees "interface" then some <$> interfaceType rules
  else if ← sees "map" then some <$> mapType rules
  else if (← sees "chan") || (← sees "<-") then some <$> chanType rules
  else if ← skip "(" then
    let type ← rules.type
    let _ ← mark ")"
    pure (some (.paren type))
  else pure none

end PathTree.Source
