import PathTree.Files.Path

/-!
# Trees of files

What a directory holds, all the way down, as a list of places with what is there. A file holds a
text or saved records of some type `β`. A place is the list of names that lead to it, and the
directory itself is the empty list.

`locate` follows a path to a place; the operations fail as the cause tells.
-/

namespace PathTree

/-- Why a path does not lead to what was asked for. -/
inductive FileCause where
  | missing
  | notDirectory
  | isDirectory
  | alreadyThere
  deriving DecidableEq, Repr

/-- The wording of a cause. -/
def FileCause.message : FileCause → String
  | .missing => "no such file or directory"
  | .notDirectory => "not a directory"
  | .isDirectory => "is a directory"
  | .alreadyThere => "file exists"

/-- A failed operation on a path. -/
structure FileFault where
  action : String
  path : String
  cause : FileCause
  deriving DecidableEq, Repr

/-- The wording of a failed operation. -/
def FileFault.message (f : FileFault) : String :=
  f.action ++ " " ++ f.path ++ ": " ++ f.cause.message

/-- The names that lead to a place. -/
abbrev Spot := List String

/-- What is at a place. -/
inductive FileEntry (β : Type) where
  | text (content : String)
  | saved (records : β)
  | dir

/-- Whether it is a directory. -/
def FileEntry.isDir {β : Type} : FileEntry β → Bool
  | .dir => true
  | _ => false

/-- The places below a directory that hold something. -/
structure FileTree (β : Type) where
  entries : List (Spot × FileEntry β) := []

namespace FileTree

variable {β : Type}

/-! ## Places -/

/-- What is at a place. -/
def get? (t : FileTree β) : Spot → Option (FileEntry β)
  | [] => some .dir
  | spot => t.entries.lookup spot

/-- Puts something at a place. -/
def put (t : FileTree β) (spot : Spot) (e : FileEntry β) : FileTree β :=
  ⟨(spot, e) :: t.entries.filter (·.1 != spot)⟩

/-- Removes a place and all below it. -/
def prune (t : FileTree β) (spot : Spot) : FileTree β :=
  ⟨t.entries.filter fun e => !spot.isPrefixOf e.1⟩

/-- Moves a place and all below it. -/
def move (t : FileTree β) (spot goal : Spot) : FileTree β :=
  ⟨(t.entries.filter fun e => !goal.isPrefixOf e.1).map fun e =>
    if spot.isPrefixOf e.1 then (goal ++ e.1.drop spot.length, e.2) else e⟩

/-- The place that a piece of a path leads to. -/
def step (spot : Spot) (piece : String) : Spot :=
  if piece = "" ∨ piece = "." then spot
  else if piece = ".." then spot.dropLast
  else spot ++ [piece]

/-- Follows the pieces of a path. Every place on the way is a directory. -/
def follow (t : FileTree β) (spot : Spot) : List String → Except FileCause Spot
  | [] => .ok spot
  | piece :: rest =>
    match t.get? spot with
    | none => .error .missing
    | some .dir => t.follow (step spot piece) rest
    | some _ => .error .notDirectory

/-- The place that a path leads to, whether something is there or not. -/
def locate (t : FileTree β) (path : String) : Except FileCause Spot :=
  if path = "" then .error .missing else t.follow [] (Path.pieces path)

/-- The place that a path leads to and what is there. -/
def find (t : FileTree β) (path : String) : Except FileCause (Spot × FileEntry β) := do
  let spot ← t.locate path
  match t.get? spot with
  | some e => .ok (spot, e)
  | none => .error .missing

/-! ## Operations on paths -/

/-- What a path leads to, looked up for an action. -/
def stat (t : FileTree β) (action path : String) : Except FileFault (Spot × FileEntry β) :=
  (t.find path).mapError (FileFault.mk action path)

/-- What the file at a path holds. -/
def read (t : FileTree β) (path : String) : Except FileFault (FileEntry β) := do
  let (_, e) ← t.stat "open" path
  if e.isDir then .error ⟨"read", path, .isDirectory⟩ else .ok e

/-- The place that a path leads to when its last name is made new: slashes at its end do not count. -/
def locateNew (t : FileTree β) (path : String) : Except FileCause Spot :=
  t.locate (String.ofList (path.toList.reverse.dropWhile (· == '/')).reverse)

/-- Writes a file in place of the one that may be there. Its directory has to be there, and a path
that ends in a slash is taken for that of a directory. -/
def write (t : FileTree β) (path : String) (e : FileEntry β) : Except FileFault (FileTree β) :=
  match t.locateNew path with
  | .error cause => .error ⟨"open", path, cause⟩
  | .ok spot =>
    match t.get? spot, t.get? spot.dropLast with
    | some .dir, _ => .error ⟨"open", path, .isDirectory⟩
    | _, some .dir =>
      if Path.endsWith path "/" then .error ⟨"open", path, .isDirectory⟩ else .ok (t.put spot e)
    | _, some _ => .error ⟨"open", path, .notDirectory⟩
    | _, none => .error ⟨"open", path, .missing⟩

/-- The path up to and with the slash before its last name. -/
def parentPath (path : String) : String :=
  let cs := path.toList.reverse.dropWhile (· == '/')
  String.ofList (cs.dropWhile (· != '/')).reverse

/-- Makes the directory at a path, where the one it is in is there. -/
def makeDir (t : FileTree β) (path : String) : Except FileFault (FileTree β) :=
  match t.locateNew path with
  | .error cause => .error ⟨"mkdir", path, cause⟩
  | .ok spot =>
    match t.get? spot with
    | some .dir => .ok t
    | some _ => .error ⟨"mkdir", path, .alreadyThere⟩
    | none => .ok (t.put spot .dir)

/-- Makes the directory at a path and those that it is in, with so many steps at most. -/
def makeDirsWithin (t : FileTree β) : (steps : Nat) → String → Except FileFault (FileTree β)
  | 0, path => t.makeDir path
  | steps + 1, path =>
    match t.find path with
    | .ok (_, .dir) => .ok t
    | .ok _ => .error ⟨"mkdir", path, .notDirectory⟩
    | .error _ =>
      let parent := parentPath path
      if parent = "" then t.makeDir path
      else do
        let t ← t.makeDirsWithin steps parent
        t.makeDir path

/-- Makes the directory at a path and those that it is in. Each of them has a shorter path. -/
def makeDirs (t : FileTree β) (path : String) : Except FileFault (FileTree β) :=
  t.makeDirsWithin path.length path

/-! ## Walking -/

/-- Whether a list of names comes before another one or is the same, name by name. -/
def spotLe : Spot → Spot → Bool
  | [], _ => true
  | _ :: _, [] => false
  | a :: as, b :: bs => a < b || (a = b && spotLe as bs)

/-- What is below a place, each with the names that lead there from the place, in order: what is in
a directory comes directly behind it. -/
def below (t : FileTree β) (spot : Spot) : List (Spot × FileEntry β) :=
  let inside := t.entries.filter fun e => spot.isPrefixOf e.1 && e.1.length != spot.length
  (inside.map fun e => (e.1.drop spot.length, e.2)).mergeSort fun a b => spotLe a.1 b.1

/-- The path of a place below a root that was named by a path. -/
def pathBelow (root : String) (names : Spot) : String := names.foldl Path.join root

/-- The files that hold texts, with their paths, in order. -/
def texts (t : FileTree β) : List (String × String) :=
  (t.below []).filterMap fun e =>
    match e.2 with
    | .text content => some ("/".intercalate e.1, content)
    | _ => none

/-- The tree of a list of paths with their texts. A path that ends in a slash is a directory, and
the directories on the way are made. -/
def ofTexts (files : List (String × String)) : FileTree β :=
  files.foldl (fun t file =>
    let names := (Path.pieces file.1).filter (· != "")
    let isDir := Path.endsWith file.1 "/"
    let count := if isDir then names.length else names.length - 1
    let dirs := (List.range count).map fun n => names.take (n + 1)
    let t := dirs.foldl (fun t d => if (t.get? d).isSome then t else t.put d .dir) t
    if isDir then t else t.put names (.text file.2)) {}

end FileTree

end PathTree
