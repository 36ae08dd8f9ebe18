import PathTree.Outcome
import PathTree.Text.Quoted

/-!
# Outcomes as data

Outcomes in JSON, over lines with an indentation of two blanks. Characters that mean something in a
web page are escaped.
-/

namespace PathTree

/-- A JSON value. -/
inductive Datum where
  | null
  | number (n : Int)
  | text (s : String)
  | list (items : List Datum)
  | object (fields : List (String × Datum))

namespace Datum

/-- The letters that stand behind a backslash for single characters. -/
def escapes : List (Char × Char) :=
  [('\x22', '\x22'), ('\\', '\\'), ('\x08', 'b'), ('\x0c', 'f'), ('\n', 'n'), ('\r', 'r'), ('\t', 't')]

/-- A character within quotes. -/
def glyph (c : Char) : List Char :=
  match escapes.lookup c with
  | some letter => ['\\', letter]
  | none =>
    let n := c.toNat
    if n < 0x20 ∨ c = '<' ∨ c = '>' ∨ c = '&' ∨ n = 0x2028 ∨ n = 0x2029 then
      '\\' :: 'u' :: Text.hexPadded 4 n
    else [c]

/-- A text in quotes. -/
def quoted (s : String) : String :=
  String.ofList ('\x22' :: s.toList.flatMap glyph ++ ['\x22'])

/-- The start of a line. -/
def margin (depth : Nat) : String := String.ofList (List.replicate (2 * depth) ' ')

/-- Lines in brackets. -/
def bracketed (before after : String) (depth : Nat) (lines : List String) : String :=
  if lines.isEmpty then before ++ after
  else
    before ++ "\n" ++ ",\n".intercalate (lines.map (margin (depth + 1) ++ ·)) ++ "\n" ++ margin depth
      ++ after

mutual
/-- The text of a value, where its first line starts at a depth. -/
def render (depth : Nat) : Datum → String
  | .null => "null"
  | .number n => toString n
  | .text s => quoted s
  | .list items => bracketed "[" "]" depth (renderItems (depth + 1) items)
  | .object fields => bracketed "\x7b" "\x7d" depth (renderFields (depth + 1) fields)

/-- The texts of items. -/
def renderItems (depth : Nat) : List Datum → List String
  | [] => []
  | item :: rest => item.render depth :: renderItems depth rest

/-- The texts of fields. -/
def renderFields (depth : Nat) : List (String × Datum) → List String
  | [] => []
  | (name, value) :: rest => (quoted name ++ ": " ++ value.render depth) :: renderFields depth rest
end

end Datum

/-- An optional value. -/
def optional {α : Type} (f : α → Datum) : Option α → Datum
  | none => .null
  | some a => f a

/-- A case as data. -/
def CaseOutcome.toJson (c : CaseOutcome) : Datum :=
  let input (i : Input) : Datum := .object [("name", .text i.name), ("value", .text i.value)]
  .object [("label", .text c.label), ("path", .text c.path),
    ("assignment", optional (fun is => .list (is.map input)) c.inputs)]

/-- A function's outcome as data. Fields without a value are left out. -/
def FuncOutcome.toJson (f : FuncOutcome) : Datum :=
  let text (name value : String) : List (String × Datum) :=
    if value = "" then [] else [(name, .text value)]
  let cases : List (String × Datum) :=
    if f.cases.isEmpty then [] else [("cases", .list (f.cases.map CaseOutcome.toJson))]
  .object ([("name", .text f.name), ("line", .number f.line)] ++ cases ++ text "skipped" f.skipped ++
    text "error" f.error)

/-- A file's outcome as data. -/
def FileOutcome.toJson (r : FileOutcome) : Datum :=
  .object [("file", .text r.filename),
    ("funcs", optional (fun fs => .list (fs.map FuncOutcome.toJson)) r.funcs)]

/-- Outcomes as a text in JSON. -/
def Report.json (results : List FileOutcome) : String :=
  (Datum.list (results.map FileOutcome.toJson)).render 0 ++ "\n"

end PathTree
