import PathTree.Source.Lexeme

/-!
# Source texts as tokens

`Lexed.ofText` splits a source text into tokens, comments and faults. Line ends that end a statement
become tokens, comments are collected into groups, and each token learns which group documents it.
-/

namespace PathTree.Source

/-- What is met on the way through a text. -/
inductive Item where
  | token (t : Token)
  | comment (c : Comment)
  | fault (f : SyntaxFault)

/-- The token for the end of a statement at the end of a line. -/
def lineEnd (place : Place) : Item := .token ⟨.mark, "\n", place, none⟩

/-- The text of a literal or comment: carriage returns are dropped from raw literals and from line
comments. -/
def Lexeme.text (l : Lexeme) : String :=
  match l.kind, l.chars with
  | .token (.literal .string), '\x60' :: _ => String.ofList (l.chars.filter (· != '\r'))
  | .comment, '/' :: '/' :: _ => String.ofList (l.chars.filter (· != '\r'))
  | _, chars => String.ofList chars

/-- The item of a lexeme. -/
def Lexeme.item (l : Lexeme) (place : Place) : Item :=
  match l.kind with
  | .token kind => .token ⟨kind, l.text, place, none⟩
  | .comment => .comment ⟨l.text, place⟩

/-- The faults of a lexeme. -/
def Lexeme.faults (l : Lexeme) (place : Place) : List Item :=
  l.fault.toList.map fun message => .fault ⟨place, message⟩

/-- Whether a line end behind the lexeme ends the statement, if one behind what stood before it
does or does not. Comments and characters that are no tokens change nothing. -/
def Lexeme.closes (l : Lexeme) (before : Bool) : Bool :=
  match l.kind with
  | .token .illegal | .comment => before
  | .token kind => kind.closes l.text

/-- The characters that separate lexemes and mean nothing. -/
def isBlank (c : Char) : Bool := c == ' ' || c == '\t' || c == '\r' || c == '\n'

/-- The items of a text, onto those met before in reverse order. `closes` tells whether a line end
here ends a statement; a comment that goes over a line end is such an end too. -/
def items (acc : List Item) (closes : Bool) (place : Place) : List Char → List Item
  | [] =>
    let acc := if closes then lineEnd place :: acc else acc
    (.token ⟨.finish, "", place, none⟩ :: acc).reverse
  | c :: cs =>
    if c = '\n' ∧ closes = true then items (lineEnd place :: acc) false (place.next c) cs
    else if isBlank c then items acc closes (place.next c) cs
    else
      let l := lexeme c cs
      let acc := l.item place :: (l.faults place ++ acc)
      let broken := l.chars.takeWhile (· != '\n')
      let breaks := closes && l.kind == .comment && decide (broken.length < l.chars.length)
      let acc := if breaks then lineEnd (place.after broken) :: acc else acc
      items acc (l.closes closes && !breaks) (place.after l.chars) (cs.drop (l.chars.length - 1))
termination_by cs => cs.length
decreasing_by
  all_goals simp only [List.length_cons, List.length_drop]; omega

/-! ## Comment groups -/

/-- Splits the comments between two tokens into groups. A group goes on as long as a comment starts
at most `gap` lines below the last line of the one before it; only the first group may have a gap
other than one. -/
def commentGroups (gap : Nat) : List Comment → List (List Comment)
  | [] => []
  | [c] => [[c]]
  | c :: d :: cs =>
    if d.place.line ≤ c.lastLine + gap then
      match commentGroups gap (d :: cs) with
      | g :: gs => (c :: g) :: gs
      | [] => [[c]]
    else [c] :: commentGroups 1 (d :: cs)

/-- A text as tokens: the last one is the end of the text. -/
structure Lexed where
  tokens : List Token
  groups : List (List Comment)
  faults : List SyntaxFault

/-- Collects items: `line` is the line of the last token, `pending` the comments since then in
reverse order, and `out` what was collected, in reverse order. -/
def collect (line : Nat) (pending : List Comment) (out : Lexed) : List Item → Lexed
  | [] => ⟨out.tokens.reverse, out.groups.reverse, out.faults.reverse⟩
  | .fault f :: rest => collect line pending { out with faults := f :: out.faults } rest
  | .comment c :: rest => collect line (c :: pending) out rest
  | .token t :: rest =>
    let comments := pending.reverse
    -- comments on the line of the token before them never document the next one
    let behind := comments.head?.any (·.place.line == line)
    let groups := commentGroups (if behind then 0 else 1) comments
    let leading := if behind then groups.drop 1 else groups
    let documents := leading.getLast?.any fun g => g.getLast?.any (·.lastLine + 1 == t.place.line)
    let all := groups.reverse ++ out.groups
    let t := if documents then { t with lead := some (all.length - 1) } else t
    collect t.place.line [] { out with tokens := t :: out.tokens, groups := all } rest

/-- Splits a text into tokens. A byte order mark may stand at its very beginning only, and the
character zero nowhere. -/
def Lexed.ofText (text : String) : Lexed :=
  let chars := text.toList
  let (place, chars) := match chars with
    | '\ufeff' :: rest => (({ Place.start with offset := 1, column := 4 } : Place), rest)
    | _ => (Place.start, chars)
  let lexed := collect 0 [] ⟨[], [], []⟩ (items [] false place chars)
  if chars.contains '\x00' then
    { lexed with faults := ⟨place, "illegal character NUL"⟩ :: lexed.faults }
  else if chars.contains '\ufeff' then
    { lexed with faults := ⟨place, "illegal byte order mark"⟩ :: lexed.faults }
  else lexed

end PathTree.Source
