import PathTree.Source.Layout
import PathTree.Text.Blank

/-!
# New bodies in a file

A file with new bodies for some of its functions. All else stays as it is written, except that a
function of one line that took several before is set off from a function on the next line.
-/

namespace PathTree.Source

/-- A piece of a text, from one offset up to another, and what comes in its place. -/
structure Edit where
  start : Nat
  stop : Nat
  text : String

/-- A text with pieces replaced. The pieces stand in the order of their offsets, and `at_` is the
offset of the rest. -/
def splice (at_ : Nat) : List Edit → List Char → List Char
  | [], cs => cs
  | e :: rest, cs =>
    cs.take (e.start - at_) ++ e.text.toList ++ splice e.stop rest (cs.drop (e.stop - at_))

/-- The number of bytes of a function's head, if it is on one line. -/
def FuncDecl.headSize? (f : FuncDecl) (body : Body) (cs : List Char) : Option Nat :=
  let head := Text.trim ((cs.drop f.place.offset).take (body.opening.offset - f.place.offset))
  if head.contains '\n' then none else some (String.ofList head).utf8ByteSize

/-- The page that a function's new body goes on. The layout starts on the line on which the head of
the function ends. -/
def Body.page (body : Body) (cs : List Char) : Page :=
  ⟨some (String.ofList (cs.takeWhile (· != '\n'))).utf8ByteSize, body.opening.line == 1⟩

/-- The number of lines from where the layout of a new body is to the line behind the old one. -/
def Body.distance (body : Body) (page : Page) : Nat :=
  body.closing.line + 1 - if page.atTop then 1 else body.opening.line

/-- The edit that gives a function a new body. The next function is set off from it by an empty line
if it is two lines or more below the layout. -/
def FuncDecl.newBody (f : FuncDecl) (body : Body) (list : List Statement) (cs : List Char) : Edit :=
  let stop := body.closing.offset + 1
  let (text, page) := bodyLayout (f.headSize? body cs) list (body.page cs)
  let touches := (Text.cutFront? "\nfunc".toList (cs.drop stop)).isSome
  let gap := if touches && 2 ≤ body.distance page then "\n" else ""
  ⟨body.opening.offset, stop, text ++ gap⟩

/-- The text of a file with new bodies for the functions that have one. -/
def withBodies (text : String) (bodies : List (FuncDecl × List Statement)) : String :=
  let cs := text.toList
  let edits := bodies.filterMap fun (f, list) => f.body.map fun body => f.newBody body list cs
  String.ofList (splice 0 edits cs)

end PathTree.Source
