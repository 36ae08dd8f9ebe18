import PathTree.CommandLine.Run

/-!
# The program

The command line in the working directory. The files of the directory are read, `CommandLine.run`
tells what to print and how the files are afterwards, and what is new is written back. Stored
outcomes last for one run.

While directories are watched, the files are read again and again. The run is a function of all that
was put in place since its start, so what it prints grows with every burst, and only what is new is
shown.
-/

namespace PathTree.CommandLine

/-! ## The working directory -/

/-- How deep directories are read. -/
def deepest : Nat := 64

/-- The files that an entry of a directory stands for, with their paths behind `front`. A directory
is a path that ends in a slash. Files that hold no text are left out, and so are stores. -/
def textsAt : (depth : Nat) → (front : String) → IO.FS.DirEntry → IO (List (String × String))
  | 0, _, _ => pure []
  | depth + 1, front, entry => do
    let path := front ++ entry.fileName
    if ← entry.path.isDir then
      let inside ← (← entry.path.readDir).toList.mapM (textsAt depth (path ++ "/"))
      pure ((path ++ "/", "") :: inside.flatten)
    else if Path.ext path = ".gob" then pure []
    else
      try pure [(path, ← IO.FS.readFile entry.path)] catch _ => pure []

/-- The files of the working directory. -/
def workingTexts : IO (List (String × String)) := do
  let entries ← (← IO.currentDir).readDir
  pure (← entries.toList.mapM (textsAt deepest "")).flatten

/-! ## What a run leaves behind -/

/-- A log entry on a line. -/
def logLine (e : LogEntry) : String :=
  let fields := ("level", e.level.name) :: ("msg", e.message) :: e.fields
  "\x7b" ++ ",".intercalate (fields.map fun (k, v) => Datum.quoted k ++ ":" ++ Datum.quoted v) ++
    "\x7d\n"

/-- What was added to the end of a text. -/
def added (before after : String) : String := String.ofList (after.toList.drop before.length)

/-- Prints what a run adds to what was printed before, and writes the files that it changed and that
are not in the working directory like this already. -/
def Ending.publish (e before : Ending) (texts : List (String × String)) : IO Unit := do
  IO.print (added before.out e.out)
  IO.eprint (added before.err e.err)
  for entry in e.log.drop before.log.length do
    IO.eprint (logLine entry)
  let old := before.files.texts
  for (path, text) in e.files.texts do
    if old.lookup path != some text && texts.lookup path != some text then
      IO.FS.createDirAll (Path.dir path)
      IO.FS.writeFile path text

/-- Goes on for as long as directories are watched. -/
partial def keepWatching (args : List String) (files : Files) (bursts : List Burst)
    (texts : List (String × String)) (before : Ending) : IO Unit := do
  IO.sleep 100
  let now ← workingTexts
  let new := now.filter fun file => texts.lookup file.1 != some file.2
  if new.isEmpty then keepWatching args files bursts now before
  else
    let bursts := bursts ++ [new.filter fun file => !Path.endsWith file.1 "/"]
    let ending := run args bursts files
    ending.publish before now
    keepWatching args files bursts now ending

end PathTree.CommandLine

open PathTree CommandLine in
/-- Runs the program on the files of the working directory. -/
def main (args : List String) : IO UInt32 := do
  let texts ← workingTexts
  let files : Files := .ofTexts texts
  let ending := CommandLine.run args [] files
  ending.publish { files := files } texts
  if ending.watching then keepWatching args files [] texts ending
  pure ending.exit.toUInt32
