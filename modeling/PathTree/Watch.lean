import PathTree.Engine.Basic
import PathTree.Engine.Paths

/-!
# Watching directories

A watcher follows directories and names the sources that are written in them. A directory keeps the
name under which it was added, also when it is moved; what is made later is not followed.
-/

namespace PathTree

/-- A change of files. -/
inductive Change where
  | write (path text : String)
  | makeDir (path : String)
  | remove (path : String)
  | rename (path goal : String)
  | chmod (path : String)

/-- The directories that are followed: where they are, and their names. -/
structure Watcher where
  watched : List (Spot × String) := []

namespace Watcher

variable {β : Type}

/-- Follows a directory under a name, once. -/
def follow (w : Watcher) (spot : Spot) (name : String) : Watcher :=
  if w.watched.any (·.1 == spot) then w else ⟨w.watched ++ [(spot, Path.clean name)]⟩

/-- Follows what a path names: a directory and all directories below it, or the directory that a
file is in. -/
def add (w : Watcher) (files : FileTree β) (root : String) : Except RunFault Watcher :=
  match files.stat "lstat" root with
  | .error fault => .error (.during "error adding directory to watcher" (.file fault))
  | .ok (spot, .dir) =>
    let dirs := (files.below spot).filter (·.2.isDir)
    .ok (dirs.foldl (fun w d => w.follow (spot ++ d.1) (FileTree.pathBelow root d.1))
      (w.follow spot root))
  | .ok (spot, _) => .ok (w.follow spot.dropLast (Path.dir root))

/-- The name of a place in a directory that is followed. -/
def nameOf? (w : Watcher) (spot : Spot) : Option String := do
  let base ← spot.getLast?
  let name ← w.watched.lookup spot.dropLast
  some (name ++ "/" ++ base)

/-- Whether a name is that of a source. -/
def isSource (name : String) : Bool := Path.endsWith name ".go" && !Path.endsWith name "_test.go"

/-- The source at a place, if it is to be named. -/
def notice (w : Watcher) (spot : Spot) : Option String := (w.nameOf? spot).filter isSource

/-- The watcher after a place was removed. -/
def forget (w : Watcher) (spot : Spot) : Watcher :=
  ⟨w.watched.filter fun d => !spot.isPrefixOf d.1⟩

/-- The watcher after a place was moved. -/
def relocate (w : Watcher) (spot goal : Spot) : Watcher :=
  ⟨w.watched.map fun d => if spot.isPrefixOf d.1 then (goal ++ d.1.drop spot.length, d.2) else d⟩

/-- Makes a change: the watcher and the files behind it, and the source that is named by it. A
change that fails changes nothing. -/
def change (w : Watcher) (files : FileTree β) : Change → Watcher × FileTree β × Option String
  | .write path text =>
    match files.write path (.text text), files.locateNew path with
    | .ok files, .ok spot => (w, files, w.notice spot)
    | _, _ => (w, files, none)
  | .makeDir path =>
    match files.find path, files.makeDir path, files.locateNew path with
    | .error _, .ok files, .ok spot => (w, files, w.notice spot)
    | _, _, _ => (w, files, none)
  | .remove path =>
    match files.locate path with
    | .ok spot => (w.forget spot, files.prune spot, none)
    | .error _ => (w, files, none)
  | .rename path goal =>
    match files.find path, files.locate goal with
    | .ok (spot, _), .ok spot' =>
      if (files.get? spot'.dropLast).any FileEntry.isDir then
        let w := (w.forget spot').relocate spot spot'
        (w, files.move spot spot', w.notice spot')
      else (w, files, none)
    | _, _ => (w, files, none)
  | .chmod _ => (w, files, none)

/-- Makes changes one after the other, and collects the sources that are named, each one once and in
order. -/
def changes (w : Watcher) (files : FileTree β) (cs : List Change) :
    Watcher × FileTree β × List String :=
  let (w, files, names) := cs.foldl (fun (w, files, names) c =>
    let (w, files, name) := w.change files c
    (w, files, names ++ name.toList)) (w, files, [])
  (w, files, names.eraseDups.mergeSort Table.nameLe)

end Watcher

end PathTree
