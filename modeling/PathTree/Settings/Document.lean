import PathTree.Text.Blank

/-!
# Settings documents

The tree of a settings text: mappings and sequences, by indentation or in brackets, and scalars that
are plain, quoted or literal blocks. Only the first document of a text counts. `Node.read` gives its
tree, `none` if it is empty.

A text without quotes is kept as it is written; what it stands for depends on what is asked for.
-/

namespace PathTree.Settings

/-- The tree of a document. -/
inductive Node where
  | plain (text : String)
  | quoted (text : String)
  | sequence (items : List Node)
  | mapping (entries : List (String × Node))

/-! ## Lines -/

/-- White space within a line. -/
def isBlank (c : Char) : Bool := c = ' ' || c = '\t' || c = '\r'

/-- Whether a text is at its end or at white space. -/
def atBlank : List Char → Bool
  | [] => true
  | c :: _ => isBlank c || c = '\n'

/-- What follows the next line break. -/
def nextLineOf (cs : List Char) : List Char := (cs.dropWhile (· != '\n')).drop 1

/-- What follows the line, if nothing but white space and a comment is left of it. -/
def lineEnd? (cs : List Char) : Option (List Char) :=
  match cs.dropWhile isBlank with
  | [] => some []
  | c :: rest => if c = '\n' then some rest else if c = '#' then some (nextLineOf rest) else none

/-- The next line that is not blank: its indentation and the text from its first character on.
The flag says that a comment is being read, and `col` is the number of blanks before. -/
def nextLine (comment : Bool) (col : Nat) : List Char → Option (Nat × List Char)
  | [] => none
  | c :: cs =>
    if c = '\n' then nextLine false 0 cs
    else if comment || c = '\r' then nextLine comment col cs
    else if c = ' ' then nextLine false (col + 1) cs
    else if c = '#' then nextLine true 0 cs
    else some (col, c :: cs)

/-- The number of line breaks before the next text that is no white space, the blanks directly
before it, and the text from there on. -/
def skipBreaks (breaks col : Nat) : List Char → Nat × Nat × List Char
  | [] => (breaks, col, [])
  | c :: cs =>
    if c = '\n' then skipBreaks (breaks + 1) 0 cs
    else if c = ' ' then skipBreaks breaks (col + 1) cs
    else if c = '\r' then skipBreaks breaks col cs
    else (breaks, col, c :: cs)

/-- What so many line breaks within a scalar stand for: one is a blank, and of more the first is
dropped. -/
def foldedBreaks : Nat → List Char
  | 0 => []
  | 1 => [' ']
  | n + 2 => List.replicate (n + 1) '\n'

/-- A text without the blanks at its end. -/
def trimEnd (cs : List Char) : List Char := (cs.reverse.dropWhile isBlank).reverse

/-! ## Quoted scalars -/

/-- A character of a quoted scalar; one that was written by an escape is kept as it is. -/
structure Glyph where
  char : Char
  escaped : Bool

/-- Whether a glyph is white space that may be dropped at a line break. -/
def Glyph.isBlank (g : Glyph) : Bool := !g.escaped && Settings.isBlank g.char

/-- Divides glyphs into lines. -/
def glyphLines : List Glyph → List (List Glyph)
  | [] => [[]]
  | g :: gs =>
    match glyphLines gs with
    | [] => [[g]]
    | line :: rest => if g.char = '\n' && !g.escaped then [] :: line :: rest else (g :: line) :: rest

/-- Puts the lines behind the first one of a quoted scalar together, after so many line breaks. -/
def foldLines (breaks : Nat) : List (List Glyph) → List Char
  | [] => []
  | line :: rest =>
    let start := line.dropWhile Glyph.isBlank
    if rest.isEmpty then foldedBreaks breaks ++ start.map (·.char)
    else
      let inner := (start.reverse.dropWhile Glyph.isBlank).reverse
      if inner.isEmpty then foldLines (breaks + 1) rest
      else foldedBreaks breaks ++ inner.map (·.char) ++ foldLines 1 rest

/-- The text of a quoted scalar. -/
def quotedText (gs : List Glyph) : String :=
  match glyphLines gs with
  | [] => ""
  | [line] => String.ofList (line.map (·.char))
  | first :: rest =>
    String.ofList (((first.reverse.dropWhile Glyph.isBlank).reverse.map (·.char)) ++ foldLines 1 rest)

/-- Reads a scalar in single quotes behind its first quote. A quote inside is written twice. -/
def readSingle (acc : List Glyph) : List Char → Option (List Glyph × List Char)
  | [] => none
  | '\x27' :: '\x27' :: cs => readSingle (⟨'\x27', true⟩ :: acc) cs
  | c :: cs => if c = '\x27' then some (acc.reverse, cs) else readSingle (⟨c, false⟩ :: acc) cs

/-- The characters that one letter behind a backslash stands for. -/
def letterEscapes : List (Char × Nat) :=
  [('0', 0), ('a', 7), ('b', 8), ('t', 9), ('\t', 9), ('n', 10), ('v', 11), ('f', 12), ('r', 13),
    ('e', 27), (' ', 32), ('\x22', 34), ('\x27', 39), ('/', 47), ('\\', 92), ('N', 0x85),
    ('_', 0xa0), ('L', 0x2028), ('P', 0x2029)]

/-- The number of digits behind the letters for code points. -/
def codeWidths : List (Char × Nat) := [('x', 2), ('u', 4), ('U', 8)]

/-- The value of a digit of base 16. -/
def hexDigit? (c : Char) : Option Nat :=
  if c.isDigit then some (c.toNat - 48)
  else if 'a' ≤ c ∧ c ≤ 'f' then some (c.toNat - 87)
  else if 'A' ≤ c ∧ c ≤ 'F' then some (c.toNat - 55)
  else none

/-- The character with a code point in base 16. -/
def codePoint? (digits : List Char) : Option Char := do
  let n ← digits.foldlM (fun n c => (hexDigit? c).map (n * 16 + ·)) 0
  if n < 0xd800 ∨ (0xe000 ≤ n ∧ n < 0x110000) then some (Char.ofNat n) else none

/-- Reads an escape behind its backslash: its glyphs, none for an escaped line break, and how many
characters it takes. -/
def readEscape : List Char → Option (List Glyph × Nat)
  | [] => none
  | '\n' :: cs => some ([], 1 + (cs.takeWhile isBlank).length)
  | c :: cs =>
    match letterEscapes.lookup c, codeWidths.lookup c with
    | some n, _ => some ([⟨Char.ofNat n, true⟩], 1)
    | none, some width =>
      if cs.length < width then none
      else (codePoint? (cs.take width)).map fun ch => ([⟨ch, true⟩], 1 + width)
    | none, none => none

/-- Reads a scalar in double quotes behind its first quote; `skip` characters belong to an escape
that was read already. -/
def readDouble (acc : List Glyph) (skip : Nat) : List Char → Option (List Glyph × List Char)
  | [] => none
  | c :: cs =>
    if 0 < skip then readDouble acc (skip - 1) cs
    else if c = '\x22' then some (acc.reverse, cs)
    else if c = '\\' then
      match readEscape cs with
      | none => none
      | some (gs, n) => readDouble (gs ++ acc) n cs
    else readDouble (⟨c, false⟩ :: acc) 0 cs

/-- Reads a quoted scalar, if the text starts with a quote. -/
def readQuoted? : List Char → Option (String × List Char)
  | c :: cs =>
    if c = '\x27' then (readSingle [] cs).map fun (gs, rest) => (quotedText gs, rest)
    else if c = '\x22' then (readDouble [] 0 cs).map fun (gs, rest) => (quotedText gs, rest)
    else none
  | [] => none

/-- Whether a text starts with a quote. -/
def startsQuoted : List Char → Bool
  | c :: _ => c = '\x27' || c = '\x22'
  | [] => false

/-! ## Plain scalars -/

/-- The brackets and commas that end a plain scalar within brackets. -/
def flowMarks : List Char := [',', '[', ']', '\x7b', '\x7d']

/-- The characters with which no plain scalar starts. -/
def indicators : List Char :=
  flowMarks ++ ['#', '&', '*', '!', '|', '>', '\x27', '\x22', '%', '@', '\x60']

/-- Whether a plain scalar starts here. -/
def startsPlain (flow : Bool) : List Char → Bool
  | [] => false
  | c :: cs =>
    if c = '-' then !atBlank cs
    else if c = '?' || c = ':' then !flow && !atBlank cs
    else !(isBlank c || c = '\n' || indicators.contains c)

/-- The rest of a plain scalar on a line, where `before` is the character before it. -/
def plainRun (flow : Bool) (before : Char) : List Char → List Char × List Char
  | [] => ([], [])
  | c :: cs =>
    if c = '\n' || (c = '#' && isBlank before) || (c = ':' && atBlank cs) ||
        (flow && flowMarks.contains c) then ([], c :: cs)
    else
      let (run, rest) := plainRun flow c cs
      (c :: run, rest)

/-- Reads a plain scalar that may go on over lines with a deeper indentation than `indent`. A mark
of a key in it is an error. -/
def blockPlain (indent : Int) (before : List Char) : (steps : Nat) → List Char →
    Option (List Char × List Char)
  | 0, _ => none
  | steps + 1, cs =>
    let (run, rest) := plainRun false '-' cs
    let text := before ++ trimEnd run
    match rest with
    | [] => some (text, [])
    | ':' :: _ => none
    | '#' :: more => some (text, nextLineOf more)
    | rest =>
      match skipBreaks 0 0 rest with
      | (_, _, []) => some (text, [])
      | (breaks, col, c :: more) =>
        if indent < col ∧ c ≠ '#' ∧ c ≠ '\t' then
          blockPlain indent (text ++ foldedBreaks breaks) steps (c :: more)
        else some (text, nextLineOf rest)

/-- Reads a plain scalar within brackets, where line breaks are blanks. -/
def flowPlain (before : List Char) : (steps : Nat) → List Char → List Char × List Char
  | 0, cs => (before, cs)
  | steps + 1, cs =>
    let (run, rest) := plainRun true '-' cs
    let text := before ++ trimEnd run
    match rest with
    | '\n' :: _ =>
      match skipBreaks 0 0 rest with
      | (breaks, _, c :: more) =>
        if c = '#' || c = ':' || flowMarks.contains c then (text, c :: more)
        else flowPlain (text ++ foldedBreaks breaks) steps (c :: more)
      | (_, _, []) => (text, [])
    | rest => (text, rest)

/-! ## Brackets -/

/-- Skips white space, line breaks and comments. -/
def skipFlow (comment : Bool) : List Char → List Char
  | [] => []
  | c :: cs =>
    if c = '\n' then skipFlow false cs
    else if comment || isBlank c then skipFlow comment cs
    else if c = '#' then skipFlow true cs
    else c :: cs

/-- Reads a scalar within brackets. -/
def flowScalar (cs : List Char) : Option (Node × List Char) :=
  if startsQuoted cs then (readQuoted? cs).map fun (s, rest) => (.quoted s, rest)
  else if startsPlain true cs then
    let (s, rest) := flowPlain [] cs.length cs
    some (.plain (String.ofList s), rest)
  else none

/-- The text of a scalar. -/
def Node.scalarText : Node → String
  | .plain s | .quoted s => s
  | _ => ""

mutual
/-- Reads a node within brackets, with so many steps at most. -/
def flowNode : (steps : Nat) → List Char → Option (Node × List Char)
  | 0, _ => none
  | steps + 1, cs =>
    match cs with
    | '\x7b' :: rest => flowEntries steps [] (skipFlow false rest)
    | '[' :: rest => flowItems steps [] (skipFlow false rest)
    | cs => flowScalar cs

/-- Reads the entries of a mapping in brackets. -/
def flowEntries : (steps : Nat) → List (String × Node) → List Char → Option (Node × List Char)
  | 0, _, _ => none
  | _ + 1, _, [] => none
  | _ + 1, done, '\x7d' :: rest => some (.mapping done.reverse, rest)
  | steps + 1, done, cs => do
    let (key, rest) ← flowScalar cs
    let (value, rest) ← match skipFlow false rest with
      | ':' :: rest =>
        match skipFlow false rest with
        | ',' :: more => some (.plain "", ',' :: more)
        | '\x7d' :: more => some (.plain "", '\x7d' :: more)
        | rest => flowNode steps rest
      | rest => some (.plain "", rest)
    let done := (key.scalarText, value) :: done
    match skipFlow false rest with
    | ',' :: rest => flowEntries steps done (skipFlow false rest)
    | '\x7d' :: rest => some (.mapping done.reverse, rest)
    | _ => none

/-- Reads the items of a sequence in brackets. -/
def flowItems : (steps : Nat) → List Node → List Char → Option (Node × List Char)
  | 0, _, _ => none
  | _ + 1, _, [] => none
  | _ + 1, done, ']' :: rest => some (.sequence done.reverse, rest)
  | steps + 1, done, cs => do
    let (item, rest) ← flowNode steps cs
    match skipFlow false rest with
    | ',' :: rest => flowItems steps (item :: done) (skipFlow false rest)
    | ']' :: rest => some (.sequence (item :: done).reverse, rest)
    | _ => none
end

/-! ## Literal blocks -/

/-- What happens to the line breaks at the end of a block: one is kept, none, or all. -/
inductive Chomp where
  | clip | strip | keep

/-- Reads the head of a literal block: a number of blanks that its lines have more than the key, and
what happens to the line breaks at its end. -/
def blockHead (depth : Option Nat) (chomp : Chomp) : List Char → Option Nat × Chomp × List Char
  | [] => (depth, chomp, [])
  | c :: cs =>
    if c = '-' then blockHead depth .strip cs
    else if c = '+' then blockHead depth .keep cs
    else if '1' ≤ c ∧ c ≤ '9' then blockHead (some (c.toNat - 48)) chomp cs
    else (depth, chomp, c :: cs)

/-- The number of blanks before a line. -/
def indentOf (line : List Char) : Nat := (line.takeWhile (· == ' ')).length

/-- Whether a line has only blanks. -/
def isEmptyLine (line : List Char) : Bool := line.all fun c => c = ' ' || c = '\r'

/-- Reads the lines of a literal block below a key, from the line behind its head on. -/
def literalBlock (indent : Nat) (depth : Option Nat) (chomp : Chomp) (cs : List Char) :
    String × List Char :=
  let lines := Text.splitAt '\n' cs
  let lines := if lines.getLast? = some [] then lines.dropLast else lines
  let depth := match depth with
    | some n => indent + n
    | none => max (indent + 1) (((lines.find? (!isEmptyLine ·)).map indentOf).getD 0)
  let block := lines.takeWhile fun l => isEmptyLine l || depth ≤ indentOf l
  let content := block.map (·.drop depth)
  let filled := (content.reverse.dropWhile List.isEmpty).reverse
  let body := List.flatten (filled.map (· ++ ['\n']))
  let text := match chomp with
    | .clip => body
    | .strip => body.dropLast
    | .keep => body ++ List.replicate (content.length - filled.length) '\n'
  (String.ofList text, List.flatten ((lines.drop block.length).map (· ++ ['\n'])))

/-! ## Indented nodes -/

/-- Reads a key and its colon. -/
def readKey? (cs : List Char) : Option (String × List Char) :=
  if startsQuoted cs then
    match readQuoted? cs with
    | some (key, rest) =>
      match rest.dropWhile isBlank with
      | ':' :: rest => if atBlank rest then some (key, rest) else none
      | _ => none
    | none => none
  else if startsPlain false cs then
    match plainRun false '-' cs with
    | (run, ':' :: rest) => some (String.ofList (trimEnd run), rest)
    | _ => none
  else none

/-- Whether a text starts with the dash of an item. -/
def startsItem : List Char → Bool
  | '-' :: cs => atBlank cs
  | _ => false

/-- Reads a node in brackets or a scalar that ends its line. -/
def blockScalar (parent : Int) (cs : List Char) : Option (Node × List Char) :=
  match cs with
  | [] => none
  | c :: _ =>
    if c = '\x7b' || c = '[' then do
      let (node, rest) ← flowNode (2 * cs.length + 1) cs
      some (node, ← lineEnd? rest)
    else if startsQuoted cs then do
      let (text, rest) ← readQuoted? cs
      some (.quoted text, ← lineEnd? rest)
    else if startsPlain false cs then do
      let (text, rest) ← blockPlain parent [] cs.length cs
      some (.plain (String.ofList text), rest)
    else none

mutual
/-- Reads the node whose first character is in column `col`, below a key in column `parent`. -/
def blockNode : (steps : Nat) → (parent : Int) → (col : Nat) → List Char → Option (Node × List Char)
  | 0, _, _, _ => none
  | steps + 1, parent, col, cs =>
    if startsItem cs then blockItems steps col [] cs
    else
      match readKey? cs with
      | some (key, rest) => do
        let (value, rest) ← blockValue steps col rest
        blockEntries steps col [(key, value)] rest
      | none => blockScalar parent cs

/-- Reads the value behind a key in column `col`. -/
def blockValue : (steps : Nat) → (col : Nat) → List Char → Option (Node × List Char)
  | 0, _, _ => none
  | steps + 1, col, cs =>
    let cs := cs.dropWhile isBlank
    match cs with
    | '|' :: rest =>
      let (depth, chomp, rest) := blockHead none .clip rest
      (lineEnd? rest).map fun rest =>
        let (text, rest) := literalBlock col depth chomp rest
        (.quoted text, rest)
    | cs =>
      match lineEnd? cs with
      | none => blockScalar col cs
      | some rest =>
        match nextLine false 0 rest with
        | none => some (.plain "", [])
        | some (next, body) =>
          if col < next then blockNode steps col next body
          else if col = next && startsItem body then blockItems steps col [] body
          else some (.plain "", rest)

/-- Reads the entries that follow in a mapping in column `col`. -/
def blockEntries : (steps : Nat) → (col : Nat) → List (String × Node) → List Char →
    Option (Node × List Char)
  | 0, _, _, _ => none
  | steps + 1, col, done, cs =>
    match nextLine false 0 cs with
    | none => some (.mapping done.reverse, [])
    | some (next, body) =>
      if next < col then some (.mapping done.reverse, cs)
      else if col < next then none
      else do
        let (key, rest) ← readKey? body
        let (value, rest) ← blockValue steps col rest
        blockEntries steps col ((key, value) :: done) rest

/-- Reads the items of a sequence in column `col` from a dash on. -/
def blockItems : (steps : Nat) → (col : Nat) → List Node → List Char → Option (Node × List Char)
  | 0, _, _, _ => none
  | steps + 1, col, done, cs => do
    let inner := (cs.drop 1).dropWhile isBlank
    let width := cs.length - inner.length
    let (item, rest) ← match lineEnd? inner with
      | some _ => blockValue steps col inner
      | none => blockNode steps col (col + width) inner
    match nextLine false 0 rest with
    | none => some (.sequence (item :: done).reverse, [])
    | some (next, body) =>
      if next = col && startsItem body then blockItems steps col (item :: done) body
      else if next ≤ col then some (.sequence (item :: done).reverse, rest)
      else none
end

/-! ## Documents -/

/-- Whether a line is a mark between documents. -/
def isMark (mark : List Char) (line : List Char) : Bool :=
  (Text.cutFront? mark line).any atBlank

/-- The lines of the first document. A mark before it leaves its line blank. -/
def firstDocument (lines : List (List Char)) : Option (List (List Char)) :=
  let isEnd (l : List Char) := isMark ['-', '-', '-'] l || isMark ['.', '.', '.'] l
  let isIdle (l : List Char) := isEmptyLine l || (l.dropWhile (· == ' ')).head? = some '#'
  match lines.dropWhile isIdle with
  | [] => some []
  | l :: rest =>
    if isMark ['-', '-', '-'] l then
      some ((' ' :: ' ' :: ' ' :: l.drop 3) :: rest.takeWhile (!isEnd ·))
    else if l.head? = some '%' then
      match rest.dropWhile (!isMark ['-', '-', '-'] ·) with
      | [] => none
      | l :: rest => some ((' ' :: ' ' :: ' ' :: l.drop 3) :: rest.takeWhile (!isEnd ·))
    else some ((l :: rest).takeWhile (!isEnd ·))

/-- Whether a character may stand in a document. -/
def mayOccur (c : Char) : Bool :=
  let n := c.toNat
  n = 9 || n = 10 || n = 13 || (32 ≤ n && n < 127) || n = 0x85 || (0xa0 ≤ n && n != 0xfffe && n != 0xffff)

/-- Reads the first document of a text: `none` if the text is malformed, `some none` if there is
nothing in it. What follows the document is not looked at. -/
def Node.read (text : String) : Option (Option Node) :=
  let cs := match text.toList with
    | c :: cs => if c.toNat = 0xfeff then cs else c :: cs
    | [] => []
  if !cs.all mayOccur then none
  else
    match firstDocument (Text.splitAt '\n' cs) with
    | none => none
    | some lines =>
      let body := List.flatten (lines.map (· ++ ['\n']))
      match nextLine false 0 body with
      | none => some none
      | some (col, rest) => (blockNode (3 * body.length + 3) (-1) col rest).map fun r => some r.1

end PathTree.Settings
