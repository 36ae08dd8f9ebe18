import PathTree.Digest
import PathTree.Files.Tree
import PathTree.Table

/-!
# Stored results

A store holds for each file the last value computed for it, under a key of the file's content and
all else that the value depends on. A value is given back for its key only, and not when it is too
old. A store is saved as a whole in a file of a directory.
-/

namespace PathTree

/-- A stored value: its key, and when it was put in. -/
structure Stored (ν : Type) where
  key : UInt64
  value : ν
  createdAt : Int

/-- The values of files. A maximal age of zero or less is none. -/
structure Store (ν : Type) where
  entries : Table (Stored ν) := []
  maxAge : Int := 0

namespace Store

variable {ν : Type}

/-- The key of a content and of what else a value depends on. -/
def keyOf (content salt : String) : UInt64 := Digest.ofText (content ++ "\x00" ++ salt)

/-- Whether a stored value is given back for a key. -/
def serves (s : Store ν) (now : Int) (key : UInt64) (e : Stored ν) : Bool :=
  e.key = key && !(0 < s.maxAge && s.maxAge < now - e.createdAt)

/-- The value of a file for a key. A value that is not given back is dropped. -/
def get? (s : Store ν) (now : Int) (file : String) (key : UInt64) : Option ν × Store ν :=
  match s.entries.get? file with
  | none => (none, s)
  | some e =>
    if s.serves now key e then (some e.value, s)
    else (none, { s with entries := s.entries.remove file })

/-- Puts in the value of a file. -/
def put (s : Store ν) (now : Int) (file : String) (key : UInt64) (value : ν) : Store ν :=
  { s with entries := s.entries.put file ⟨key, value, now⟩ }

/-- Drops all values. -/
def clear (s : Store ν) : Store ν := { s with entries := [] }

/-- The number of values. -/
def size (s : Store ν) : Nat := s.entries.length

end Store

/-! ## Files -/

/-- Why a store cannot be opened or saved. -/
inductive StoreFault where
  | noDirectory (fault : FileFault)
  | unopened (fault : FileFault)
  | undecodable
  | unsaved (fault : FileFault)
  deriving DecidableEq

/-- The wording of a fault. -/
def StoreFault.message : StoreFault → String
  | .noDirectory fault => "failed to create cache directory: " ++ fault.message
  | .unopened fault => "failed to load cache: failed to open cache file: " ++ fault.message
  | .undecodable => "failed to load cache: failed to decode cache file: unexpected EOF"
  | .unsaved fault => "failed to create cache file: " ++ fault.message

namespace Store

variable {ν : Type}

/-- What a saved store holds. -/
abbrev Records (ν : Type) := Table (Stored ν)

/-- The path of the file that a store is saved in. -/
def path (dir : String) : String := Path.join dir "tpath_cache.gob"

/-- Opens the store that is saved in a directory, an empty one if there is none. The directory is
made if it is missing. -/
def openAt (files : FileTree (Records ν)) (dir : String) :
    Except StoreFault (Store ν × FileTree (Records ν)) :=
  match files.makeDirs dir with
  | .error fault => .error (.noDirectory fault)
  | .ok files =>
    match files.stat "open" (path dir) with
    | .error fault => if fault.cause = .missing then .ok ({}, files) else .error (.unopened fault)
    | .ok (_, .saved records) => .ok ({ entries := records }, files)
    | .ok _ => .error .undecodable

/-- Saves a store in a directory, with every value in the form that `pack` gives it. -/
def saveAt (s : Store ν) (pack : ν → ν) (files : FileTree (Records ν)) (dir : String) :
    Except StoreFault (FileTree (Records ν)) :=
  let records := s.entries.map fun e => (e.1, { e.2 with value := pack e.2.value })
  (files.write (path dir) (.saved records)).mapError .unsaved

end Store

end PathTree
