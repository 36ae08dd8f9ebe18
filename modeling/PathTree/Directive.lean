import PathTree.Source.Lower
import PathTree.Text.Blank
import PathTree.Text.Integer

/-!
# Directives

Comments that start with `//tpath:` say how functions are treated: `skip` leaves a function as it is,
and `bound=3` unrolls its loops three times; several settings are divided by commas. A directive
before the package clause is for every function of the file. Any other is for the function that its
comment documents, or that starts on the line below it.

`Directives.ofFile` collects them, and `Directives.of` gives the settings of a function.
-/

namespace PathTree

open Source

/-- The settings of a function. A bound of zero is none. -/
structure Directive where
  skip : Bool
  bound : Nat
  deriving DecidableEq, Repr

/-- Why a directive is malformed. -/
inductive DirectiveFault where
  | valueOfSkip
  | badBound (value : String)
  | unknownKey (key : String)
  deriving DecidableEq, Repr

/-- The wording of a fault. -/
def DirectiveFault.message : DirectiveFault → String
  | .valueOfSkip => "skip takes no value"
  | .badBound value => "invalid bound " ++ Text.quoteText value
  | .unknownKey key => "unknown directive " ++ Text.quoteText key

namespace Directive

/-- No settings. -/
def none : Directive := ⟨false, 0⟩

/-- Settings and others that go before them. -/
def merge (d other : Directive) : Directive :=
  ⟨d.skip || other.skip, if 0 < other.bound then other.bound else d.bound⟩

/-- The text in front of the settings of a directive. -/
def announcement : List Char := "//tpath:".toList

/-- Reads one setting. -/
def setting (d : Directive) (field : List Char) : Except DirectiveFault Directive :=
  let (key, value) := match Text.cutAt? '=' field with
    | some (key, value) => (key, some value)
    | Option.none => (field, Option.none)
  match String.ofList key with
  | "skip" => if value.isSome then .error .valueOfSkip else .ok { d with skip := true }
  | "bound" =>
    let value := value.getD []
    match Text.readInt? value with
    | some n =>
      if 1 ≤ n then .ok { d with bound := n.toNat } else .error (.badBound (String.ofList value))
    | Option.none => .error (.badBound (String.ofList value))
  | "" => .ok d
  | key => .error (.unknownKey key)

/-- Reads the settings behind the announcement. -/
def settings (text : List Char) : Except DirectiveFault Directive :=
  (Text.splitAt ',' text).foldlM (fun d field => setting d (Text.trim field)) none

/-- The directive of a comment, if it is one. -/
def ofComment? (c : Comment) : Option (Except DirectiveFault Directive) :=
  (Text.cutFront? announcement c.text.toList).map settings

end Directive

/-- The directives of a file: those for every function, and those for the function with a number. -/
structure Directives where
  everywhere : Directive
  attached : List (Nat × Directive)

/-- The number of the function that a directive on a line is for, counting from `i`: the group of
its comment documents the function, or the function starts on the next line. Functions stand in the
order of their lines, so none below the line needs to be looked at. -/
def attachedTo? (group line : Nat) (i : Nat) : List FuncDecl → Option Nat
  | [] => none
  | f :: rest =>
    if f.doc = some group then some i
    else if f.place.line = line + 1 then some i
    else if line < f.place.line then none
    else attachedTo? group line (i + 1) rest

namespace Directives

/-- Adds the directive of a comment in the group with a number. A malformed directive changes no
settings. -/
def add (file : File) (group : Nat) (c : Comment) :
    Directives × List (Place × DirectiveFault) → Directives × List (Place × DirectiveFault)
  | (set, faults) =>
    match Directive.ofComment? c with
    | none => (set, faults)
    | some (.error fault) => (set, faults ++ [(c.place, fault)])
    | some (.ok d) =>
      if c.place.line < file.package.line then
        ({ set with everywhere := set.everywhere.merge d }, faults)
      else
        match attachedTo? group c.place.line 0 file.funcs with
        | some i => ({ set with attached := set.attached ++ [(i, d)] }, faults)
        | none => (set, faults)

/-- The directives of a file and what is wrong with the malformed ones. -/
def ofFile (file : File) : Directives × List (Place × DirectiveFault) :=
  (file.groups.zipIdx.flatMap fun (g, i) => g.map fun c => (i, c)).foldl
    (fun acc (i, c) => add file i c acc) (⟨Directive.none, []⟩, [])

/-- The settings of the function with a number. -/
def of (set : Directives) (i : Nat) : Directive :=
  set.everywhere.merge
    (((set.attached.filter (·.1 == i)).map (·.2)).foldl Directive.merge Directive.none)

end Directives

/-- The wording of a malformed directive with its place in a file. -/
def directiveMessage (filename : String) (place : Place) (fault : DirectiveFault) : String :=
  (if filename = "" then "" else filename ++ ":") ++ toString place.line ++ ":" ++
    toString place.column ++ ": " ++ fault.message

end PathTree
