import PathTree.Constant.Value

/-!
# Basic types

What is known of a type from its text alone: the sort of its values and its zero value. Types
that are not basic have neither.
-/

namespace PathTree

/-- The sorts of values that conditions speak about. Integers and floating point numbers have one
sort. -/
inductive ValueSort where
  | unknown | int | bool | string
  deriving DecidableEq, Repr

/-- The name of a sort. -/
def ValueSort.name : ValueSort → String
  | .unknown => "Unknown"
  | .int => "Int"
  | .bool => "Bool"
  | .string => "String"

/-- The names of the integer types. -/
def integerTypes : List String :=
  ["int", "int8", "int16", "int32", "int64", "uint", "uint8", "uint16", "uint32", "uint64",
    "uintptr", "byte", "rune"]

/-- The names of the floating point types. -/
def floatTypes : List String := ["float32", "float64"]

/-- The sort of the values of a type. -/
def sortOf (type : String) : ValueSort :=
  if integerTypes.contains type || floatTypes.contains type then .int
  else if type = "bool" then .bool
  else if type = "string" then .string
  else .unknown

/-- The value of a variable that is declared without one. -/
def zeroValue (type : String) : Except Fault Expr :=
  if integerTypes.contains type then .ok (.int 0)
  else if floatTypes.contains type then .ok (.lit ⟨.float, "0.0"⟩)
  else if type = "bool" then .ok (.lit (.ofBool false))
  else if type = "string" then .ok (.lit (.ofText ""))
  else .error (.unsupported "LocalDeclaration" ("no initializer for type " ++ type))

end PathTree
