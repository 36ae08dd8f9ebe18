/-!
# Outcomes

What came out of a run: for each file its functions, and for each function the cases with the inputs
that lead to them, or why there are none.
-/

namespace PathTree

/-- The value chosen for a parameter. -/
structure Input where
  name : String
  value : String
  deriving DecidableEq, Repr

/-- A path that can be taken. The inputs are `none` where they were stored with no value. -/
structure CaseOutcome where
  label : String
  path : String
  inputs : Option (List Input)
  deriving DecidableEq, Repr

/-- What came out for a function. At most one of `skipped` and `error` has a text; if none has, the
paths of the function were laid out. -/
structure FuncOutcome where
  name : String
  line : Int
  cases : List CaseOutcome := []
  skipped : String := ""
  error : String := ""
  deriving DecidableEq, Repr

/-- How a function fared. -/
inductive Status where
  | laidOut | skipped | failed
  deriving DecidableEq, Repr

/-- How a function fared. A failure counts before anything else. -/
def FuncOutcome.status (f : FuncOutcome) : Status :=
  if f.error != "" then .failed else if f.skipped != "" then .skipped else .laidOut

/-- What came out for a file, and its new text. The functions are `none` if none was looked at. -/
structure FileOutcome where
  filename : String
  funcs : Option (List FuncOutcome) := none
  source : String := ""
  deriving DecidableEq, Repr

namespace FileOutcome

/-- The functions that were looked at. -/
def functions (r : FileOutcome) : List FuncOutcome := r.funcs.getD []

/-- The number of functions that fared in one way. -/
def count (r : FileOutcome) (s : Status) : Nat := (r.functions.filter (·.status = s)).length

/-- Whether a function failed. -/
def failed (r : FileOutcome) : Bool := 0 < r.count .failed

/-- The number of functions whose paths were laid out. -/
def laidOut (r : FileOutcome) : Nat := r.count .laidOut

/-- An outcome as it is stored: an empty list of inputs is stored with no value. -/
def stored (r : FileOutcome) : FileOutcome :=
  let keep (c : CaseOutcome) : CaseOutcome := { c with inputs := c.inputs.filter (!·.isEmpty) }
  { r with funcs := r.funcs.map fun fs => fs.map fun f => { f with cases := f.cases.map keep } }

/-- The functions that were not laid out. -/
def shortfall (r : FileOutcome) : FileOutcome :=
  { r with funcs := some (r.functions.filter (·.status != .laidOut)) }

end FileOutcome

end PathTree
