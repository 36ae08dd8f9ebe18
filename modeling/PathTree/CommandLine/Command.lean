import PathTree.CommandLine.Flags

/-!
# Commands

The commands of the program, and which one the words of a command line name. The flags of all
commands may stand before the name of a command or behind it; without a name, the words are paths.
-/

namespace PathTree.CommandLine

/-- The commands. -/
inductive Command where
  | root | layOut | cases | init | help | completion
  deriving DecidableEq, Repr

namespace Command

/-- The commands below the root, in the order of their names. -/
def below : List Command := [cases, completion, help, init, layOut]

/-- The name of a command. -/
def name : Command → String
  | root => "tpath"
  | layOut => "rewrite"
  | cases => "cases"
  | init => "init"
  | help => "help"
  | completion => "completion"

/-- What a command does. -/
def purpose : Command → String
  | root => "tpath - rewrite Go functions into their enumerated execution paths"
  | layOut => "Rewrite functions into their enumerated execution paths"
  | cases => "Print the inputs that reach every returning path"
  | init => "Initialize a new configuration file"
  | help => "Help about any command"
  | completion => "Generate the autocompletion script for the specified shell"

/-- The words that a command takes. -/
def words : Command → String
  | root | layOut | cases => " [paths...]"
  | help => " [command]"
  | _ => ""

/-- The command with a name. -/
def ofName? (word : String) : Option Command := below.find? (·.name = word)

/-- The flags of a command alone, without the one for help. -/
def ownFlags : Command → List Flag
  | layOut => engineFlags ++ layOutFlags
  | cases => engineFlags ++ casesFlags
  | init => initFlags
  | _ => []

/-- The flags that may stand behind a command. -/
def flags (c : Command) : List Flag := helpFlag c.name :: c.ownFlags ++ commonFlags

/-! ## Help -/

/-- The front of a flag's line of help. -/
def flagFront (f : Flag) : String :=
  let letter := match f.letter with
    | some c => "  -" ++ String.singleton c ++ ", --"
    | none => "      --"
  letter ++ f.name ++ (if f.kind = .truth then "" else " " ++ f.kind.word)

/-- Lines of help on flags, in the order of their names. -/
def flagHelp (fs : List Flag) : String :=
  let fs := fs.mergeSort fun a b => !(b.name < a.name)
  let width := (fs.map fun f => (flagFront f).length).foldl max 0
  String.join (fs.map fun f =>
    let front := flagFront f
    front ++ String.ofList (List.replicate (width + 3 - front.length) ' ') ++ f.usage ++ "\n")

/-- The path of a command: the names that lead to it. -/
def path (c : Command) : String := if c = root then c.name else root.name ++ " " ++ c.name

/-- How a command is used. -/
def usage (c : Command) : String :=
  let own := helpFlag c.name :: c.ownFlags
  let lines := below.map fun d =>
    "  " ++ d.name ++ String.ofList (List.replicate (11 - d.name.length) ' ') ++ " " ++ d.purpose ++ "\n"
  "Usage:\n  " ++ c.path ++ c.words ++ " [flags]\n" ++
    (if c = root then
      "  tpath [command]\n\nAvailable Commands:\n" ++ String.join lines ++
        "\nFlags:\n" ++ flagHelp (own ++ commonFlags) ++
        "\nUse \"tpath [command] --help\" for more information about a command.\n"
    else "\nFlags:\n" ++ flagHelp own ++ "\nGlobal Flags:\n" ++ flagHelp commonFlags)

/-- The help on a command. -/
def helpText (c : Command) : String := c.purpose ++ "\n\n" ++ c.usage

end Command

/-! ## Which command -/

/-- A command line that was read: the command, what its flags say, and its other words. -/
structure Invocation where
  command : Command
  options : Options
  words : List String

/-- Why a command line cannot be read; a fault before the name of a command is one of the root. -/
structure UsageFault where
  fault : FlagFault
  atRoot : Bool

/-- Whether a flag before the name of a command takes the next word as its value. -/
def takesNext (word : List Char) : Option Bool :=
  match word with
  | '-' :: '-' :: name =>
    if word.contains '=' then none
    else some (!commonFlags.any fun f => f.name = String.ofList name && f.kind = .truth)
  | ['-', c] => if c = '=' || 0x80 ≤ c.toNat then none else some true
  | _ => none

/-- Whether a word is written as a flag. -/
def isFlagWord : List Char → Bool
  | '-' :: '-' :: _ :: _ => true
  | '-' :: c :: _ => c != '-'
  | _ => false

/-- Looks for the name of a command: the words before it, the command, and the words behind it. The
flag says that the next word is a value. -/
def findCommand (isValue : Bool) (before : List String) :
    List String → Option (List String × Command × List String)
  | [] => none
  | word :: rest =>
    match takesNext word.toList with
    | some b => findCommand b (before ++ [word]) rest
    | none =>
      if isValue || isFlagWord word.toList then findCommand false (before ++ [word]) rest
      else (Command.ofName? word).map fun c => (before, c, rest)

/-- Reads a command line. -/
def Invocation.ofArgs (args : List String) : Except UsageFault Invocation :=
  let behind (c : Command) (o : Options) (words : List String) : Except UsageFault Invocation :=
    match readWords c.flags o none [] words with
    | .error fault => .error ⟨fault, false⟩
    | .ok (o, words) => .ok ⟨c, o, words⟩
  match findCommand false [] args with
  | none => behind .root {} args
  | some (before, c, rest) =>
    match readWords commonFlags {} none [] before with
    | .error fault => .error ⟨fault, true⟩
    | .ok (o, _) => behind c o rest

end PathTree.CommandLine
