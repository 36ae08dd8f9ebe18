/-!
# Source tokens

The words of a source file. A token knows its place and the group of comments that documents it.
A statement ends at a semicolon or at the end of a line; the second kind of end is a token whose
text is a line feed.
-/

namespace PathTree.Source

/-- A place in a text: the number of characters before it, its line, and its column in bytes. Lines
and columns count from one. -/
structure Place where
  offset : Nat
  line : Nat
  column : Nat
  deriving DecidableEq, Repr, Inhabited

/-- The place of the first character. -/
def Place.start : Place := ⟨0, 1, 1⟩

/-- The place behind a character. -/
def Place.next (p : Place) (c : Char) : Place :=
  if c = '\n' then ⟨p.offset + 1, p.line + 1, 1⟩ else ⟨p.offset + 1, p.line, p.column + c.utf8Size⟩

/-- The place behind a text. -/
def Place.after (p : Place) (cs : List Char) : Place := cs.foldl Place.next p

/-- The forms of a literal. -/
inductive LiteralForm where
  | int | float | imaginary | char | string
  deriving DecidableEq, Repr

/-- The kinds of a token. A mark is a keyword, an operator or a delimiter. -/
inductive TokenKind where
  | name
  | literal (form : LiteralForm)
  | mark
  | illegal
  | finish
  deriving DecidableEq, Repr

/-- A token. `lead` is the number of the comment group that ends on the line before it. -/
structure Token where
  kind : TokenKind
  text : String
  place : Place
  lead : Option Nat
  deriving Repr

/-- A comment with its delimiters. -/
structure Comment where
  text : String
  place : Place
  deriving Repr

/-- The line on which a comment ends. -/
def Comment.lastLine (c : Comment) : Nat :=
  c.place.line + (c.text.toList.filter (· == '\n')).length

/-- Why a text is no source, and where. -/
structure SyntaxFault where
  place : Place
  message : String
  deriving Repr

/-- The wording of a list of faults: the first one with its place, and how many follow. -/
def SyntaxFault.summary (first : SyntaxFault) (others : List SyntaxFault) : String :=
  let head := toString first.place.line ++ ":" ++ toString first.place.column ++ ": " ++ first.message
  if others.isEmpty then head
  else head ++ " (and " ++ toString others.length ++ " more errors)"

/-! ## Marks -/

/-- The keywords. -/
def keywords : List String :=
  ["break", "case", "chan", "const", "continue", "default", "defer", "else", "fallthrough", "for",
    "func", "go", "goto", "if", "import", "interface", "map", "package", "range", "return", "select",
    "struct", "switch", "type", "var"]

/-- The operators and delimiters, longer ones first. -/
def symbols : List String :=
  ["<<=", ">>=", "&^=", "...",
    "&&", "||", "<-", "++", "--", "==", "!=", "<=", ">=", ":=", "+=", "-=", "*=", "/=", "%=", "&=",
    "|=", "^=", "<<", ">>", "&^",
    "+", "-", "*", "/", "%", "&", "|", "^", "<", ">", "=", "!", "~", "(", ")", "[", "]", "\x7b",
    "\x7d", ",", ";", ".", ":"]

/-- The marks behind which a line end ends the statement. -/
def closingMarks : List String :=
  ["break", "continue", "fallthrough", "return", "++", "--", ")", "]", "\x7d"]

/-- Whether a line end behind a token ends the statement. -/
def TokenKind.closes (kind : TokenKind) (text : String) : Bool :=
  match kind with
  | .name | .literal _ => true
  | .mark => closingMarks.contains text
  | .illegal | .finish => false

end PathTree.Source
