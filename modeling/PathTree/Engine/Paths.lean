import PathTree.Engine.Basic

/-!
# Runs on paths

A path names a source file or a directory. Of a directory all sources below it are treated, except
tests and what is in hidden directories and in those for test data. How a single file is treated is
left open (`Treatment`). `Treatment.processAll` treats paths in turn up to the first one that fails,
`Engine.processAll` does so with an engine, and `FileOutcome.write` puts a new text into a file.
-/

namespace PathTree

/-- Whether a path is that of a source that is treated. -/
def isSourcePath (path : String) : Bool :=
  Path.ext path = ".go" && !Path.endsWith path "_test.go"

/-- Whether a directory below the one that was named is left out. -/
def isLeftOut (name : String) : Bool := name = "testdata" || name.toList.head? = some '.'

namespace FileTree

variable {β : Type}

/-- The paths of the sources below a directory, in order. -/
def sourcesBelow (t : FileTree β) (root : String) (spot : Spot) : List String :=
  (t.below spot).filterMap fun (names, entry) =>
    let path := pathBelow root names
    if entry.isDir || names.dropLast.any isLeftOut || !isSourcePath path then none else some path

end FileTree

/-- What was done with paths: the outcomes, and why it was ended early. -/
structure Batch where
  results : List FileOutcome := []
  fault : Option RunFault := none

/-- How the file at a path is treated. -/
abbrev Treatment (σ : Type) := String → Run σ FileOutcome

/-- A run as a step that does not fail. -/
def Run.attempt {σ α : Type} (steps : Run σ α) : StateM (Workspace σ) (Except RunFault α) :=
  steps.run

namespace Treatment

variable {σ : Type}

/-- Notes in the log that a file has no outcome. -/
def tellFault (path : String) (fault : RunFault) : StateM (Workspace σ) Unit := do
  let _ ← (Run.tell .error "Error processing file"
    [("file", path), ("error", fault.message)] : Run σ Unit).attempt

/-- Treats files one after the other, as long as the caller is willing to wait: the outcomes, and
why other files have none. -/
def processFiles (treat : Treatment σ) :
    List String → StateM (Workspace σ) (List FileOutcome × List RunFault)
  | [] => pure ([], [])
  | path :: rest => do
    match ← Run.askOn.attempt with
    | .error _ => pure ([], [])
    | .ok _ =>
      let result ← (treat path).attempt
      if let .error fault := result then
        tellFault path fault
      let (results, faults) ← processFiles treat rest
      match result with
      | .ok r => pure (r :: results, faults)
      | .error fault => pure (results, .during path fault :: faults)

/-- Whether an outcome's file comes before another's or is the same. -/
def outcomeLe (a b : FileOutcome) : Bool := Table.nameLe a.filename b.filename

/-- Sorts the outcomes of files, and tells why others have none or that the caller does not want to
wait. -/
def conclude (results : List FileOutcome) (faults : List RunFault) :
    StateM (Workspace σ) Batch := do
  let results := results.mergeSort outcomeLe
  match ← Run.askOn.attempt with
  | .error fault => pure { results, fault := some fault }
  | .ok _ => pure { results, fault := if faults.isEmpty then none else some (.several faults) }

/-- Treats a file, or the sources below a directory. -/
def processPath (treat : Treatment σ) (path : String) : StateM (Workspace σ) Batch := do
  match (← get).files.stat "stat" path with
  | .error fault => pure { fault := some (.during ("error accessing " ++ path) (.file fault)) }
  | .ok (spot, .dir) =>
    let (results, faults) ← processFiles treat ((← get).files.sourcesBelow path spot)
    conclude results faults
  | .ok _ =>
    if !isSourcePath path then pure {}
    else
      match ← (treat path).attempt with
      | .ok r => pure { results := [r] }
      | .error fault => pure { fault := some fault }

/-- Treats paths one after the other, up to the first one that fails. -/
def processAll (treat : Treatment σ) : List String → StateM (Workspace σ) Batch
  | [] => pure {}
  | path :: rest => do
    let batch ← processPath treat path
    match batch.fault with
    | some fault =>
      let _ ← (Run.tell .error "Error processing path"
        [("path", path), ("error", fault.message)] : Run σ Unit).attempt
      pure batch
    | none =>
      let more ← processAll treat rest
      pure { more with results := batch.results ++ more.results }

end Treatment

/-- Treats paths with an engine. -/
def Engine.processAll {σ : Type} (e : Engine σ) (paths : List String) :
    StateM (Workspace σ) Batch := Treatment.processAll e.run paths

/-- Writes the new text of a file: over the file, or into a directory under the file's last name.
Gives the path that was written. -/
def FileOutcome.write (r : FileOutcome) (dir : String) (files : Files) :
    Except RunFault String × Files :=
  if dir = "" then put r.filename files
  else
    match files.makeDirs dir with
    | .error fault => (.error (.during "error creating output directory" (.file fault)), files)
    | .ok files => put (Path.join dir (Path.base r.filename)) files
where
  /-- Writes the text at a path. -/
  put (path : String) (files : Files) : Except RunFault String × Files :=
    match files.write path (.text r.source) with
    | .ok files => (.ok path, files)
    | .error fault => (.error (.during ("error writing " ++ path) (.file fault)), files)

end PathTree
