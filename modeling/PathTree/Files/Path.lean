import PathTree.Text.Blank

/-!
# Paths

Texts that name files: names divided by slashes. `clean` is the shortest path for the same place as
far as the text alone tells.
-/

namespace PathTree.Path

/-- The pieces of a path between its slashes. -/
def pieces (path : String) : List String :=
  (Text.splitAt '/' path.toList).map String.ofList

/-- Whether a path starts at the top. -/
def isRooted (path : String) : Bool := path.toList.head? = some '/'

/-- Adds a piece to the pieces of a clean path, the last one first. -/
def pushPiece (rooted : Bool) (done : List String) (piece : String) : List String :=
  if piece = "" ∨ piece = "." then done
  else if piece = ".." then
    match done with
    | [] => if rooted then [] else [".."]
    | last :: rest => if last = ".." then ".." :: last :: rest else rest
  else piece :: done

/-- The shortest path for the same place: no empty piece, no `.`, and `..` only at the front. -/
def clean (path : String) : String :=
  let rooted := isRooted path
  let names := ((pieces path).foldl (pushPiece rooted) []).reverse
  if rooted then "/" ++ "/".intercalate names
  else if names.isEmpty then "."
  else "/".intercalate names

/-- A path below another one. -/
def join (front name : String) : String :=
  if front = "" then (if name = "" then "" else clean name) else clean (front ++ "/" ++ name)

/-- The last name of a path. -/
def base (path : String) : String :=
  if path = "" then "."
  else
    let cs := path.toList.reverse.dropWhile (· == '/')
    if cs.isEmpty then "/" else String.ofList (cs.takeWhile (· != '/')).reverse

/-- The path of the directory that a path is in. -/
def dir (path : String) : String :=
  clean (String.ofList (path.toList.reverse.dropWhile (· != '/')).reverse)

/-- The ending of the last name, from its last dot on. -/
def ext (path : String) : String :=
  let last := path.toList.reverse.takeWhile (· != '/')
  if last.contains '.' then String.ofList ('.' :: (last.takeWhile (· != '.')).reverse) else ""

/-- Whether a name ends in a text. -/
def endsWith (name ending : String) : Bool :=
  (Text.cutFront? ending.toList.reverse name.toList.reverse).isSome

/-- Whether a path is a place or below it, where both are read from the same directory. -/
def isWithin (place path : String) : Bool :=
  let names (p : String) := ((pieces ("/./" ++ p)).foldl (pushPiece true) []).reverse
  (names place).isPrefixOf (names path)

end PathTree.Path
