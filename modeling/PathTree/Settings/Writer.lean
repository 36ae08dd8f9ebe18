import PathTree.Settings.Basic
import PathTree.Settings.Document
import PathTree.Settings.Scalar
import PathTree.Text.Quoted

/-!
# Writing settings

The document of settings. A text is written plain where it would be read back as the same text; else
in single or double quotes, and over several lines as a literal block.
-/

namespace PathTree.Settings

/-! ## What a text consists of -/

/-- Whether a character may be written as it is. -/
def isPlainGlyph (c : Char) : Bool :=
  let n := c.toNat
  n = 0x0a || (0x20 ≤ n && n ≤ 0x7e) ||
    (0xa0 ≤ n && n < 0x10000 && n != 0xfeff && n != 0xfffe && n != 0xffff)

/-- Whether a character ends a line. -/
def isBreak (c : Char) : Bool :=
  let n := c.toNat
  n = 0x0a || n = 0x0d || n = 0x85 || n = 0x2028 || n = 0x2029

/-- Whether a text would be read as an indicator at its start. -/
def startsIndicator : List Char → Bool
  | [] => false
  | c :: cs =>
    indicators.contains c ||
      ((c = '?' || c = ':' || c = '-') && (cs.isEmpty || cs.head?.any fun d => d = ' ' || d = '\t'))

/-- Whether a key or a comment would be read inside a text, where `before` is the character before
the rest of it. -/
def hasIndicator (before : Char) : List Char → Bool
  | [] => false
  | c :: cs =>
    (c = ':' && (cs.isEmpty || cs.head?.any fun d => d = ' ' || d = '\t')) ||
      (c = '#' && (isBlank before || isBreak before)) || hasIndicator c cs

/-- Whether a text may be written plain in a line. -/
def plainAllowed (cs : List Char) : Bool :=
  match cs with
  | [] => true
  | c :: rest =>
    !(cs.head?.any fun d => d = ' ' || isBreak d) && !(cs.getLast?.any fun d => d = ' ' || isBreak d) &&
      !(cs.take 3 = ['-', '-', '-'] || cs.take 3 = ['.', '.', '.']) &&
      !startsIndicator cs && !hasIndicator c rest &&
      cs.all fun d => isPlainGlyph d && !isBreak d

/-- Whether a blank and a line break stand side by side, in the order that `blankFirst` says. -/
def hasBreakBeside (blankFirst : Bool) : List Char → Bool
  | a :: b :: cs =>
    (if blankFirst then a = ' ' && isBreak b else isBreak a && b = ' ') ||
      hasBreakBeside blankFirst (b :: cs)
  | _ => false

/-- Whether a text may be written in single quotes. -/
def singleAllowed (cs : List Char) : Bool :=
  cs.all isPlainGlyph && !hasBreakBeside true cs && !hasBreakBeside false cs

/-- Whether a text may be written as a literal block. -/
def blockAllowed (cs : List Char) : Bool :=
  cs.all (fun c => isPlainGlyph c || c = '\t') && !hasBreakBeside true cs && cs.getLast? != some ' '

/-- Whether a text is a number in base 60, such as `1:30`. -/
def isSexagesimal (s : String) : Bool :=
  let cs := match s.toList with
    | '-' :: cs | '+' :: cs => cs
    | cs => cs
  match Text.splitAt ':' cs with
  | first :: rest@(_ :: _) =>
    let last := rest.getLastD []
    let cut := Text.cutAt? '.' last
    let lastDigits := (cut.map (·.1)).getD last
    let isPart (p : List Char) :=
      match p with
      | [a] => a.isDigit
      | [a, b] => '0' ≤ a && a ≤ '5' && b.isDigit
      | _ => false
    first.head?.any Char.isDigit && first.all (fun c => c.isDigit || c = '_') &&
      rest.dropLast.all isPart && isPart lastDigits &&
      (cut.map (·.2)).all fun f => f.all fun c => c.isDigit || c = '_'
  | _ => false

/-- Whether a plain text would be read back as the text. -/
def readsAsText (s : String) : Bool :=
  Plain.ofText s = .text && !isSexagesimal s && (Plain.looseTruthWords.lookup s).isNone

/-! ## Forms -/

/-- The last digits of base 16 of a number, with letters in upper case. -/
def hexText (width n : Nat) : List Char := (Text.hexPadded width n).map Char.toUpper

/-- The letters that stand behind a backslash for single characters. -/
def escapeLetters : List (Nat × Char) :=
  [(0, '0'), (7, 'a'), (8, 'b'), (9, 't'), (10, 'n'), (11, 'v'), (12, 'f'), (13, 'r'), (27, 'e'),
    (34, '\x22'), (92, '\\'), (0x85, 'N'), (0xa0, '_'), (0x2028, 'L'), (0x2029, 'P')]

/-- A character within double quotes. -/
def doubleGlyph (c : Char) : List Char :=
  if isPlainGlyph c && !isBreak c && c != '\x22' && c != '\\' then [c]
  else
    let n := c.toNat
    '\\' :: match escapeLetters.lookup n with
      | some letter => [letter]
      | none =>
        if n ≤ 0xff then 'x' :: hexText 2 n
        else if n ≤ 0xffff then 'u' :: hexText 4 n
        else 'U' :: hexText 8 n

/-- A text in double quotes. -/
def doubleQuoted (cs : List Char) : List Char := '\x22' :: cs.flatMap doubleGlyph ++ ['\x22']

/-- A text in single quotes. -/
def singleQuoted (cs : List Char) : List Char :=
  '\x27' :: cs.flatMap (fun c => if c = '\x27' then ['\x27', '\x27'] else [c]) ++ ['\x27']

/-- A text as a literal block below a key at the margin. -/
def literal (cs : List Char) : List Char :=
  let depth := if cs.head?.any fun c => c = ' ' || isBreak c then ['4'] else []
  let chomp :=
    if !cs.getLast?.any isBreak then ['-']
    else if cs.dropLast.isEmpty || cs.dropLast.getLast?.any isBreak then ['+']
    else []
  let lines := Text.splitAt '\n' cs
  let lines := if lines.getLast? = some [] then lines.dropLast else lines
  let lines := lines.map fun l => if l.isEmpty then [] else ' ' :: ' ' :: ' ' :: ' ' :: l
  -- A first line without text is lost: its line break ends the head.
  let lines := if cs.head? = some '\n' then lines.drop 1 else lines
  '|' :: (depth ++ chomp) ++ List.flatten (lines.map ('\n' :: ·))

/-- A text as a value. -/
def textValue (s : String) : String :=
  let cs := s.toList
  String.ofList <|
    if cs.contains '\n' then if blockAllowed cs then literal cs else doubleQuoted cs
    else if !readsAsText s then doubleQuoted cs
    else if plainAllowed cs then cs
    else if singleAllowed cs then singleQuoted cs
    else doubleQuoted cs

/-- The document of settings. -/
def render (s : Settings) : String :=
  "name: " ++ textValue s.name ++ "\n" ++
  "loop_bound: " ++ toString s.loopBound ++ "\n" ++
  "visit_unsat_paths: " ++ truthText s.visitUnsatPaths ++ "\n" ++
  "log_found_branches: " ++ truthText s.logFoundBranches ++ "\n" ++
  "fold_constants: " ++ truthText s.foldConstants ++ "\n" ++
  "solver: " ++ textValue s.solver ++ "\n" ++
  "max_complexity: " ++ toString s.maxComplexity ++ "\n" ++
  "bounded:\n" ++
  "    radius: " ++ toString s.bounded.radius ++ "\n" ++
  "    max_candidates: " ++ toString s.bounded.maxCandidates ++ "\n" ++
  "cache_dir: " ++ textValue s.cacheDir ++ "\n"

end PathTree.Settings
