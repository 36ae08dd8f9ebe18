import PathTree.CommandLine.Duration
import PathTree.Constant.Eval
import PathTree.Constant.Numeral

/-!
# Flags

The flags of the commands, what they set, and how they are read from the words of a command line.
A flag is written `--name value` or `--name=value`; one for a truth value needs no value. Flags with
a letter may be written `-l`, several in one word. Words that are no flags may stand between them,
and behind `--` no word is a flag.
-/

namespace PathTree.CommandLine

/-- What the flags of a command line say. Settings that no flag names have no value here. -/
structure Options where
  config : String := ""
  /-- The time for a run, in nanoseconds. -/
  timeout : Int := 300000000000
  debug : Bool := false
  noColor : Bool := false
  help : Bool := false
  bound : Option Int := none
  visitUnsat : Option Bool := none
  logBranches : Option Bool := none
  solver : Option String := none
  funcs : List String := []
  write : Bool := false
  out : String := ""
  watch : Bool := false
  json : Bool := false
  output : String := ""
  force : Bool := false

/-! ## Values -/

/-- Reads a truth value. -/
def readTruth (value : String) : Except String Bool :=
  match readTruth? value with
  | some b => .ok b
  | none => .error (Fault.notTruth value).message

/-- Reads an integer of 64 bits in one of four bases. -/
def readWord (value : String) : Except String Int :=
  let fault (why : String) := "strconv.ParseInt: parsing " ++ Text.quoteText value ++ ": " ++ why
  match Numeral.readInt? value.toList with
  | none => .error (fault "invalid syntax")
  | some n =>
    if -0x8000000000000000 ≤ n ∧ n < 0x8000000000000000 then .ok n
    else .error (fault "value out of range")

/-! ## Flags -/

/-- What a flag's value is. -/
inductive FlagKind where
  | truth | int | text | texts | duration
  deriving DecidableEq

/-- The word for the value of a flag. -/
def FlagKind.word : FlagKind → String
  | .truth => ""
  | .int => "int"
  | .text => "string"
  | .texts => "stringArray"
  | .duration => "duration"

/-- A flag: its name and letter, what its value is, what it is for, and what it sets. -/
structure Flag where
  name : String
  letter : Option Char := none
  kind : FlagKind
  usage : String
  set : Options → String → Except String Options

/-- A flag for a truth value. -/
def truthFlag (name : String) (letter : Option Char) (usage : String)
    (set : Options → Bool → Options) : Flag :=
  ⟨name, letter, .truth, usage, fun o v => (readTruth v).map (set o)⟩

/-- A flag for a text. -/
def textFlag (name : String) (letter : Option Char) (usage : String)
    (set : Options → String → Options) : Flag :=
  ⟨name, letter, .text, usage, fun o v => .ok (set o v)⟩

/-- The flag that asks for help on a command. -/
def helpFlag (command : String) : Flag :=
  truthFlag "help" (some 'h') ("help for " ++ command) fun o v => { o with help := v }

/-- The flags of all commands. -/
def commonFlags : List Flag :=
  [textFlag "config" none "Configuration file (default .tpath.yaml)" fun o v => { o with config := v },
    truthFlag "debug" none "Enable development logging" fun o v => { o with debug := v },
    truthFlag "no-color" none "Disable colored output" fun o v => { o with noColor := v },
    { name := "timeout", kind := .duration, usage := "Set a timeout for the rewrite (default 5m0s)",
      set := fun o v => (Duration.read v).map fun n => { o with timeout := n } }]

/-- The flags of the commands that explore paths. -/
def engineFlags : List Flag :=
  [{ name := "bound", kind := .int, usage := "Number of times every loop is unrolled",
     set := fun o v => (readWord v).map fun n => { o with bound := some n } },
    { name := "func", kind := .texts, usage := "Only rewrite the named function (repeatable)",
      set := fun o v => .ok { o with funcs := o.funcs ++ [v] } },
    truthFlag "log-branches" none "Log every discovered path"
      fun o v => { o with logBranches := some v },
    textFlag "solver" none "Solver backend (bounded or z3)" fun o v => { o with solver := some v },
    truthFlag "visit-unsat" none "Rewrite branches the solver found infeasible"
      fun o v => { o with visitUnsat := some v }]

/-- The flags of the command that lays out files. -/
def layOutFlags : List Flag :=
  [textFlag "out" none "Write the rewritten files into this directory" fun o v => { o with out := v },
    truthFlag "watch" none "Rewrite files again whenever they change" fun o v => { o with watch := v },
    truthFlag "write" (some 'w') "Write the rewritten files in place" fun o v => { o with write := v }]

/-- The flags of the command that prints cases. -/
def casesFlags : List Flag :=
  [truthFlag "json" none "Output cases in JSON format" fun o v => { o with json := v },
    textFlag "output" (some 'o') "Output path (when using JSON)" fun o v => { o with output := v }]

/-- The flags of the command that writes settings. -/
def initFlags : List Flag :=
  [truthFlag "force" none "Overwrite an existing configuration file" fun o v => { o with force := v }]

/-! ## Reading words -/

/-- Why the words of a command line cannot be read. -/
inductive FlagFault where
  | malformed (word : String)
  | unknown (name : String)
  | unknownLetter (letter : Char) (word : String)
  | noValue (word : String)
  | noLetterValue (letter : Char) (word : String)
  | badValue (value name why : String)

/-- The wording of a fault. -/
def FlagFault.message : FlagFault → String
  | .malformed word => "bad flag syntax: " ++ word
  | .unknown name => "unknown flag: --" ++ name
  | .unknownLetter letter word => "unknown shorthand flag: " ++ quotedLetter letter ++ " in -" ++ word
  | .noValue word => "flag needs an argument: " ++ word
  | .noLetterValue letter word => "flag needs an argument: " ++ quotedLetter letter ++ " in -" ++ word
  | .badValue value name why =>
    "invalid argument " ++ Text.quoteText value ++ " for " ++ Text.quoteText name ++ " flag: " ++ why
where
  /-- A letter in single quotes. Of a letter with several bytes, the first byte stands for it. -/
  quotedLetter (c : Char) : String :=
    let c := ((Text.bytesOf (String.singleton c)).head?.map fun b => Char.ofNat b.toNat).getD c
    let text := if c = '\x27' then ['\\', c] else if c = '\x22' then [c] else Text.escapeChar c
    "'" ++ String.ofList text ++ "'"

/-- The name of a flag in messages. -/
def Flag.shown (f : Flag) : String :=
  match f.letter with
  | some c => "-" ++ String.singleton c ++ ", --" ++ f.name
  | none => "--" ++ f.name

/-- Gives a flag a value. -/
def Flag.give (f : Flag) (o : Options) (value : String) : Except FlagFault Options :=
  (f.set o value).mapError fun why => .badValue value f.shown why

/-- A flag that waits for its value, and the fault if there is none. -/
structure Waiting where
  flag : Flag
  fault : FlagFault

/-- Reads a word behind `--`. -/
def readLong (flags : List Flag) (o : Options) (name : List Char) :
    Except FlagFault (Options × Option Waiting) :=
  let word := "--" ++ String.ofList name
  if name.head?.any fun c => c = '-' || c = '=' then .error (.malformed word)
  else
    let (key, value) := match Text.cutAt? '=' name with
      | some (key, value) => (String.ofList key, some (String.ofList value))
      | none => (String.ofList name, none)
    match flags.find? (·.name = key), value with
    | none, _ => .error (.unknown key)
    | some f, some v => (f.give o v).map (·, none)
    | some f, none =>
      if f.kind = .truth then (f.give o "true").map (·, none) else .ok (o, some ⟨f, .noValue word⟩)

/-- Reads a word of letters. -/
def readLetters (flags : List Flag) (o : Options) :
    List Char → Except FlagFault (Options × Option Waiting)
  | [] => .ok (o, none)
  | c :: rest =>
    match flags.find? (·.letter = some c) with
    | none => .error (.unknownLetter c (String.ofList (c :: rest)))
    | some f =>
      match rest with
      | '=' :: d :: more => (f.give o (String.ofList (d :: more))).map (·, none)
      | rest =>
        if f.kind = .truth then do
          let o ← f.give o "true"
          readLetters flags o rest
        else if rest.isEmpty then
          .ok (o, some ⟨f, .noLetterValue c (String.singleton c)⟩)
        else (f.give o (String.ofList rest)).map (·, none)

/-- Reads words: what the flags say, and the words that are no flags, of which `done` came before. -/
def readWords (flags : List Flag) (o : Options) (waiting : Option Waiting) (done : List String) :
    List String → Except FlagFault (Options × List String)
  | [] =>
    match waiting with
    | some w => .error w.fault
    | none => .ok (o, done)
  | word :: rest =>
    match waiting with
    | some w => do
      let o ← w.flag.give o word
      readWords flags o none done rest
    | none =>
      match word.toList with
      | ['-', '-'] => .ok (o, done ++ rest)
      | '-' :: '-' :: name => do
        let (o, waiting) ← readLong flags o name
        readWords flags o waiting done rest
      | '-' :: c :: letters => do
        let (o, waiting) ← readLetters flags o (c :: letters)
        readWords flags o waiting done rest
      | _ => readWords flags o none (done ++ [word]) rest

end PathTree.CommandLine
