import PathTree.Settings.Basic
import PathTree.Settings.Document
import PathTree.Settings.Scalar

/-!
# Reading settings

A settings document is a mapping from the names of settings to their values. What it does not name,
or names with no value, stays as it is by default; names that are no settings are ignored.
-/

namespace PathTree.Settings

/-! ## Values -/

/-- Reads a text. A scalar that stands for something else is taken as it is written. -/
def readText (old : String) : Node → Option String
  | .plain s => some (if Plain.ofText s = .null then old else s)
  | .quoted s => some s
  | _ => none

/-- The integer that a number is cut to, where one too low for 64 bits is the lowest. -/
def truncate? (q : Rat) : Option Int :=
  if ((0x8000000000000000 : Int) : Rat) < q then none
  else
    let n := q.num.tdiv q.den
    some (if Text.fitsWord n then n else -0x8000000000000000)

/-- Reads an integer of 64 bits. -/
def readWord (old : Int) : Node → Option Int
  | .plain s =>
    match Plain.ofText s with
    | .null => some old
    | .whole n => if Text.fitsWord n then some n else none
    | .decimal q => truncate? q
    | .infinite true => some (-0x8000000000000000)
    | _ => none
  | _ => none

/-- Reads a truth value. -/
def readTruth (old : Bool) : Node → Option Bool
  | .plain s =>
    match Plain.ofText s with
    | .null => some old
    | .truth b => some b
    | .text => Plain.looseTruthWords.lookup s
    | _ => none
  | .quoted s => Plain.looseTruthWords.lookup s
  | _ => none

/-! ## Mappings -/

/-- Whether a list has an element twice. -/
def hasRepeats : List String → Bool
  | [] => false
  | x :: xs => xs.contains x || hasRepeats xs

/-- Reads the entries of a mapping one after the other. No name may occur twice. -/
def readEntries {α : Type} (field : α → String → Node → Option α) (old : α)
    (entries : List (String × Node)) : Option α :=
  if hasRepeats (entries.map (·.1)) then none
  else entries.foldlM (fun a e => field a e.1 e.2) old

/-- Reads the limit of the bounded search that a name stands for. -/
def readLimit (b : Bounds) (name : String) (value : Node) : Option Bounds :=
  match name with
  | "radius" => (readWord b.radius value).map fun n => { b with radius := n }
  | "max_candidates" => (readWord b.maxCandidates value).map fun n => { b with maxCandidates := n }
  | _ => some b

/-- Reads the limits of the bounded search. -/
def readLimits (old : Bounds) : Node → Option Bounds
  | .mapping entries => readEntries readLimit old entries
  | .plain s => if Plain.ofText s = .null then some old else none
  | _ => none

/-- Reads the setting that a name stands for. -/
def readSetting (s : Settings) (name : String) (value : Node) : Option Settings :=
  match name with
  | "name" => (readText s.name value).map fun v => { s with name := v }
  | "loop_bound" => (readWord s.loopBound value).map fun v => { s with loopBound := v }
  | "visit_unsat_paths" =>
    (readTruth s.visitUnsatPaths value).map fun v => { s with visitUnsatPaths := v }
  | "log_found_branches" =>
    (readTruth s.logFoundBranches value).map fun v => { s with logFoundBranches := v }
  | "fold_constants" => (readTruth s.foldConstants value).map fun v => { s with foldConstants := v }
  | "solver" => (readText s.solver value).map fun v => { s with solver := v }
  | "max_complexity" => (readWord s.maxComplexity value).map fun v => { s with maxComplexity := v }
  | "bounded" => (readLimits s.bounded value).map fun v => { s with bounded := v }
  | "cache_dir" => (readText s.cacheDir value).map fun v => { s with cacheDir := v }
  | _ => some s

/-- Reads a document. -/
def ofNode : Node → Option Settings
  | .mapping entries => readEntries readSetting {} entries
  | .plain s => if Plain.ofText s = .null then some {} else none
  | _ => none

/-- Reads the settings in a text, without checking them. -/
def ofText? (text : String) : Option Settings :=
  match Node.read text with
  | none => none
  | some none => some {}
  | some (some node) => ofNode node

/-! ## Files -/

/-- The path of the settings when none is given. -/
def standardPath : String := ".tpath.yaml"

/-- Reads the settings at a path, by default if there is no file, and checks them. -/
def load {β : Type} (files : FileTree β) (path : String) : Except SettingsFault Settings :=
  let path := if path = "" then standardPath else path
  match files.stat "open" path with
  | .error fault => if fault.cause = .missing then .ok {} else .error (.unreadable fault)
  | .ok (_, .text content) =>
    match ofText? content with
    | none => .error (.malformed path)
    | some s => s.validate.map fun _ => s
  | .ok _ => .error (.malformed path)

end PathTree.Settings
