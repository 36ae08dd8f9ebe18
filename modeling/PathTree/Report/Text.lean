import PathTree.Outcome

/-!
# Reports

Outcomes for a reader: a block for each function, in order, and a line that counts them. Pieces of
the text have a style, which is shown on a terminal only.
-/

namespace PathTree

/-- The styles of pieces of a report. -/
inductive Style where
  | red | brightYellow | yellow | cyan | brightBlue | green | white
  deriving DecidableEq, Repr

namespace Style

/-- The terminal codes of a style, and those that end it. All but white are bold. -/
def codes : Style → String × String
  | red => ("31;1", "0;22")
  | brightYellow => ("93;1", "0;22")
  | yellow => ("33;1", "0;22")
  | cyan => ("36;1", "0;22")
  | brightBlue => ("94;1", "0;22")
  | green => ("32;1", "0;22")
  | white => ("37", "0")

/-- A piece of text in a style, if styles are shown. -/
def paint (shown : Bool) (style : Style) (text : String) : String :=
  if shown then "\x1b[" ++ style.codes.1 ++ "m" ++ text ++ "\x1b[" ++ style.codes.2 ++ "m" else text

end Style

/-- The word for how a function fared. -/
def Status.word : Status → String
  | laidOut => "rewritten"
  | skipped => "skipped"
  | failed => "error"

/-- The style of the word. -/
def Status.style : Status → Style
  | laidOut => .green
  | skipped => .brightYellow
  | failed => .red

namespace Report

variable (shown : Bool)

/-- The edge of a block. -/
def edge (text : String) : String := Style.brightBlue.paint shown text

/-- The head of a function's block: how it fared, its name and where it is. -/
def head (filename : String) (f : FuncOutcome) : String :=
  f.status.style.paint shown (f.status.word ++ ": ") ++ Style.yellow.paint shown (f.name ++ "\n") ++
    edge shown " --> " ++ Style.cyan.paint shown (filename ++ ":" ++ toString f.line)

/-- A line that says why there are no cases. -/
def reason (status : Status) (text : String) : String :=
  let style := if status = .failed then Style.red else Style.white
  edge shown "  = " ++ style.paint shown text

/-- A text with blanks up to five characters. -/
def padded (text : String) : String :=
  text ++ String.ofList (List.replicate (5 - text.length) ' ')

/-- The two lines of a case. -/
def caseLines (c : CaseOutcome) : List String :=
  let style := if c.label = "FALSE" then Style.brightYellow else Style.green
  let inputs := (c.inputs.getD []).map fun i => i.name ++ "=" ++ i.value
  [edge shown "  = " ++ style.paint shown (padded c.label) ++ " " ++ c.path,
    edge shown "  |   " ++ "with " ++ if inputs.isEmpty then "no inputs" else ", ".intercalate inputs]

/-- The lines below the head of a function's block. -/
def detail (f : FuncOutcome) : List String :=
  match f.status with
  | .failed => [reason shown .failed f.error]
  | .skipped => [reason shown .skipped f.skipped]
  | .laidOut =>
    if f.cases.isEmpty then [reason shown .laidOut "no returning path found"]
    else edge shown "  |" :: f.cases.flatMap (caseLines shown)

/-- The block of a function. -/
def block (filename : String) (f : FuncOutcome) : String :=
  "\n".intercalate (head shown filename f :: detail shown f) ++ "\n\n"

/-- The report on files. -/
def render (results : List FileOutcome) : String :=
  String.join (results.flatMap fun r => r.functions.map (block shown r.filename))

/-- How many functions of files fared in one way. -/
def total (results : List FileOutcome) (s : Status) : Nat :=
  (results.map (·.count s)).foldl (· + ·) 0

/-- The number of cases of all functions that were laid out. -/
def caseTotal (results : List FileOutcome) : Nat :=
  let laid := (results.flatMap (·.functions)).filter (·.status = .laidOut)
  (laid.map (·.cases.length)).foldl (· + ·) 0

/-- The line that counts outcomes. -/
def summary (results : List FileOutcome) : String :=
  let files := toString results.length ++ (if results.length = 1 then " file" else " files")
  let failed := total results .failed
  let failedText := toString failed ++ " failed"
  files ++ ": " ++ toString (total results .laidOut) ++ " rewritten, " ++
    toString (total results .skipped) ++ " skipped, " ++
    (if failed = 0 then failedText else Style.red.paint shown failedText) ++ ", " ++
    toString (caseTotal results) ++ " cases"

end Report

end PathTree
