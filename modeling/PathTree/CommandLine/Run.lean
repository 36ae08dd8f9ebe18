import PathTree.CommandLine.Command
import PathTree.Engine.Paths
import PathTree.Report.Json
import PathTree.Report.Text
import PathTree.Settings.Reader
import PathTree.Settings.Writer
import PathTree.Watch

/-!
# Running commands

What the program does with a command line, on a tree of files: what it prints, what it logs, how the
files are afterwards, and the number that it ends with. `CommandLine.run` is the whole. Nothing that
is printed here is styled, since it does not go to a terminal.
-/

namespace PathTree.CommandLine

/-- What a command leaves behind. -/
structure Ending where
  exit : Nat := 0
  out : String := ""
  err : String := ""
  log : List LogEntry := []
  /-- Whether the log is meant for developers. -/
  debug : Bool := false
  /-- Whether more files may be put in place. -/
  watching : Bool := false
  files : Files

/-- Files that are put in place while directories are watched, and handled together. -/
abbrev Burst := List (String × String)

/-- The state of the solver of an engine that is made from settings. -/
abbrev EngineState := Settings.SolverState

/-- A command at work: what it printed so far, and its workspace. -/
structure Desk where
  out : String := ""
  err : String := ""
  work : Workspace EngineState

/-- Adds an entry to the log. -/
def Desk.tell (d : Desk) (level : LogLevel) (message : String) (fields : List (String × String)) :
    Desk :=
  { d with work := { d.work with log := d.work.log.push ⟨level, message, fields⟩ } }

/-- The end of a command at work. -/
def Desk.finish (d : Desk) (exit : Nat) : Ending :=
  { exit, out := d.out, err := d.err, log := d.work.log.toList, files := d.work.files }

/-! ## Settings and engines -/

/-- Settings with what the flags say in place of what the file says. -/
def Options.override (o : Options) (s : Settings) : Settings :=
  { s with
    loopBound := o.bound.getD s.loopBound
    visitUnsatPaths := o.visitUnsat.getD s.visitUnsatPaths
    logFoundBranches := o.logBranches.getD s.logFoundBranches
    solver := o.solver.getD s.solver }

/-- The settings of a command line. Those of the file are checked before the flags count. -/
def Options.settings (o : Options) (files : Files) : Except SettingsFault Settings := do
  let s ← Settings.load files o.config
  let s := o.override s
  s.validate
  .ok s

/-- How long a run may take. What is over at once is over before the first question. -/
def Options.patience (o : Options) : Patience := if o.timeout ≤ 1000 then .expired else .unlimited

/-- An engine and a desk for it; without them, the end of the command. -/
def Options.prepare (o : Options) (files : Files) : Except Ending (Engine EngineState × Desk) :=
  let fatal (message text : String) : Ending :=
    { exit := 1, log := [⟨.fatal, message, [("error", text)]⟩], files := files }
  match o.settings files with
  | .error fault => .error (fatal "Failed to load configuration" fault.message)
  | .ok s =>
    let made : Except RunFault (Engine EngineState × Desk) := do
      let e ← Engine.create s s.newSolver o.funcs
      let w ← e.enter ((), {}) o.patience files
      .ok (e, { work := w })
    made.mapError fun fault => fatal "Failed to initialize rewrite engine" fault.message

/-! ## Laying out files -/

/-- Prints or writes the new text of a file; `true` if something failed. -/
def Desk.deliver (d : Desk) (o : Options) (r : FileOutcome) : Desk × Bool :=
  if !o.write && o.out = "" then ({ d with out := d.out ++ r.source }, r.failed)
  else if r.laidOut = 0 then (d, r.failed)
  else
    match r.write o.out d.work.files with
    | (.ok path, files) =>
      ({ d with err := d.err ++ "wrote " ++ path ++ "\n", work := { d.work with files } }, r.failed)
    | (.error fault, files) =>
      ({ d with work := { d.work with files } }.tell .error "Error writing rewritten file"
        [("file", r.filename), ("error", fault.message)], true)

/-- Delivers outcomes one after the other. -/
def Desk.deliverAll (d : Desk) (o : Options) : List FileOutcome → Desk × Bool
  | [] => (d, false)
  | r :: rest =>
    let (d, failed) := d.deliver o r
    let (d, more) := d.deliverAll o rest
    (d, failed || more)

/-- What is told about outcomes next to the new texts: what has no new body, and the totals. -/
def remarks (results : List FileOutcome) : String :=
  Report.render false (results.map FileOutcome.shortfall) ++ Report.summary false results ++ "\n"

/-- Delivers the outcomes of paths that were treated, with remarks: whether something failed, or why
nothing was done. -/
def Desk.deliverBatch (d : Desk) (o : Options) (batch : Batch) : Desk × Except RunFault Bool :=
  match batch.fault with
  | some fault => (d, .error fault)
  | none =>
    let (d, failed) := d.deliverAll o batch.results
    ({ d with err := d.err ++ remarks batch.results }, .ok failed)

/-- Lays out the sources at paths and delivers what becomes of them. -/
def Desk.layOut (d : Desk) (e : Engine EngineState) (o : Options) (paths : List String) :
    Desk × Except RunFault Bool :=
  let (batch, work) := (e.processAll paths).run d.work
  { d with work }.deliverBatch o batch

/-- The end of a command that treated paths. -/
def Desk.conclude : Desk × Except RunFault Bool → Ending
  | (d, .ok failed) => d.finish (if failed then 1 else 0)
  | (d, .error fault) => (d.tell .error "Error processing files" [("error", fault.message)]).finish 1

/-! ## Watching -/

/-- Follows paths, up to the first one that fails. -/
def followAll (files : Files) (w : Watcher) : List String → Except RunFault Watcher
  | [] => .ok w
  | path :: rest => do
    let w ← w.add files path
    followAll files w rest

/-- Treats a source that was written, unless it is one of the files that are written here. -/
def Desk.handle (d : Desk) (e : Engine EngineState) (o : Options) (name : String) : Desk :=
  if o.out != "" && Path.isWithin o.out name then d
  else
    let d := { d with work := { d.work with patience := o.patience } }
    match d.layOut e o [name] with
    | (d, .ok _) => d
    | (d, .error fault) =>
      d.tell .error "Error processing file" [("file", name), ("error", fault.message)]

/-- Makes the directory that a file goes into. -/
def makeRoom (files : Files) (file : String × String) : Files :=
  (files.makeDirs (Path.dir file.1)).toOption.getD files

/-- Puts a file in place, with its directory. -/
def place (files : Files) (file : String × String) : Files :=
  let files := makeRoom files file
  (files.write file.1 (.text file.2)).toOption.getD files

/-- Puts files in place and treats the sources among them that are followed. -/
def Desk.burst (e : Engine EngineState) (o : Options) (state : Desk × Watcher) (b : Burst) :
    Desk × Watcher :=
  let (d, w) := state
  let files := b.foldl makeRoom d.work.files
  let (w, files, names) := w.changes files (b.map fun file => .write file.1 file.2)
  (names.foldl (fun d name => d.handle e o name) { d with work := { d.work with files } }, w)

/-- Follows paths and treats what is written there, until the caller ends it. -/
def Desk.watch (d : Desk) (e : Engine EngineState) (o : Options) (paths : List String)
    (bursts : List Burst) : Ending :=
  match followAll d.work.files {} paths with
  | .error fault => (d.tell .error "Error watching files" [("error", fault.message)]).finish 0
  | .ok w =>
    let d := { d with err := d.err ++ "watching " ++ ", ".intercalate paths ++ "\n" }
    { (bursts.foldl (Desk.burst e o) (d, w)).1.finish 0 with watching := true }

/-! ## Commands -/

/-- What is said when there are no paths. -/
def noPaths (files : Files) : Ending :=
  { exit := 1, out := "error: Please provide file or directory paths\n", files := files }

/-- Lays out the sources at paths, once or whenever they are written. -/
def layOutCommand (o : Options) (paths : List String) (bursts : List Burst) (files : Files) : Ending :=
  if paths.isEmpty then noPaths files
  else if o.watch && o.write && o.out = "" then
    { exit := 1, out := "error: --watch cannot rewrite files in place, use --out\n", files := files }
  else
    match o.prepare files with
    | .error ending => ending
    | .ok (e, d) =>
      if o.watch then d.watch e o paths bursts else Desk.conclude (d.layOut e o paths)

/-- Prints the cases of outcomes, for a reader or as data. -/
def Desk.printCases (d : Desk) (o : Options) (results : List FileOutcome) :
    Desk × Except RunFault Bool :=
  let failed := results.any (·.failed)
  if !o.json then
    let text := Report.render false results ++ Report.summary false results ++ "\n"
    ({ d with out := d.out ++ text }, .ok failed)
  else if o.output = "" then ({ d with out := d.out ++ Report.json results }, .ok failed)
  else
    match d.work.files.write o.output (.text (Report.json results)) with
    | .ok files => ({ d with work := { d.work with files } }, .ok failed)
    | .error fault => (d, .error (.during "error creating JSON output file" (.file fault)))

/-- Prints the cases of the sources at paths. -/
def casesCommand (o : Options) (paths : List String) (files : Files) : Ending :=
  if paths.isEmpty then noPaths files
  else
    match o.prepare files with
    | .error ending => ending
    | .ok (e, d) =>
      let (batch, work) := (e.processAll paths).run d.work
      let d := { d with work := work }
      match batch.fault with
      | some fault => Desk.conclude (d, .error fault)
      | none => Desk.conclude (d.printCases o batch.results)

/-- Writes the default settings, not over a file unless that is asked for. -/
def initCommand (o : Options) (files : Files) : Ending :=
  let path := if o.config = "" then Settings.standardPath else o.config
  let refuse (text : String) : Ending :=
    { exit := 1, log := [⟨.error, "Error initializing config file", [("error", text)]⟩], files := files }
  let write : Ending :=
    match files.write path (.text (Settings.render {})) with
    | .ok files => { out := "Configuration file created: " ++ path ++ "\n", files := files }
    | .error fault => refuse fault.message
  if o.force then write
  else
    match files.stat "stat" path with
    | .ok _ => refuse (path ++ " already exists (use --force to overwrite)")
    | .error fault => if fault.cause = .missing then write else refuse fault.message

/-- Prints the help on a command. -/
def helpCommand (words : List String) (files : Files) : Ending :=
  match words with
  | [] => { out := Command.root.helpText, files := files }
  | word :: _ =>
    match Command.ofName? word with
    | some c => { out := c.helpText, files := files }
    | none =>
      let topics := " ".intercalate (words.map fun w => "\x60" ++ w ++ "\x60")
      { err := "Unknown help topic [" ++ topics ++ "]\n" ++ Command.root.usage, files := files }

/-- Does what a command line that was read says. -/
def Invocation.run (i : Invocation) (bursts : List Burst) (files : Files) : Ending :=
  if i.options.help then { out := i.command.helpText, files := files }
  else
    match i.command with
    | .help => helpCommand i.words files
    | .completion => { out := Command.completion.helpText, files := files }
    | .init => initCommand i.options files
    | .cases => casesCommand i.options i.words files
    | .layOut => layOutCommand i.options i.words bursts files
    | .root =>
      if i.words.isEmpty then { out := Command.root.helpText, files := files }
      else layOutCommand i.options i.words bursts files

/-! ## What is shown of a log -/

/-- How many entries with one message are shown before most of them are passed over, and how many of
those make one that is shown. -/
def logBudget : Nat := 100

/-- The entries of a log that are shown to users: none for developers, and of those with one level
and message the first hundred and then every hundredth. `seen` counts entries. -/
def shownToUsers (seen : List ((LogLevel × String) × Nat)) : List LogEntry → List LogEntry
  | [] => []
  | e :: rest =>
    let key := (e.level, e.message)
    let n := (seen.lookup key).getD 0 + 1
    let rest := shownToUsers ((key, n) :: seen.filter (·.1 != key)) rest
    if e.level = .debug ∨ (logBudget < n ∧ n % logBudget ≠ 0) then rest else e :: rest

/-- Runs a command line on files. While directories are watched, files are put in place in bursts.
Developers see all of the log. -/
def run (args : List String) (bursts : List Burst) (files : Files) : Ending :=
  match Invocation.ofArgs args with
  | .error ⟨fault, atRoot⟩ =>
    let more := if atRoot then "Run 'tpath --help' for usage.\n" else ""
    { exit := 1, err := "Error: " ++ fault.message ++ "\n" ++ more, files := files }
  | .ok i =>
    let ending := i.run bursts files
    let shown := if i.options.debug then ending.log else shownToUsers [] ending.log
    { ending with log := shown, debug := i.options.debug }

end PathTree.CommandLine
