/-!
# Blanks and pieces of texts

The white space characters, cutting them off, and splitting a text at a character.
-/

namespace PathTree.Text

/-- The white space characters. -/
def isSpace (c : Char) : Bool :=
  let n := c.toNat
  (0x09 ≤ n && n ≤ 0x0d) || n == 0x20 || n == 0x85 || n == 0xa0 || n == 0x1680 ||
    (0x2000 ≤ n && n ≤ 0x200a) || n == 0x2028 || n == 0x2029 || n == 0x202f || n == 0x205f ||
    n == 0x3000

/-- A text without the white space at its ends. -/
def trim (cs : List Char) : List Char :=
  ((cs.dropWhile isSpace).reverse.dropWhile isSpace).reverse

/-- The pieces between the occurrences of a character. -/
def splitAt (c : Char) : List Char → List (List Char)
  | [] => [[]]
  | d :: ds =>
    match splitAt c ds with
    | [] => [[d]]
    | piece :: rest => if d = c then [] :: piece :: rest else (d :: piece) :: rest

/-- What stands before and behind the first occurrence of a character, if there is one. -/
def cutAt? (c : Char) (cs : List Char) : Option (List Char × List Char) :=
  let before := cs.takeWhile (· != c)
  if before.length < cs.length then some (before, cs.drop (before.length + 1)) else none

/-- What follows a text at the front of another one. -/
def cutFront? : (front cs : List Char) → Option (List Char)
  | [], cs => some cs
  | f :: fs, c :: cs => if f = c then cutFront? fs cs else none
  | _ :: _, [] => none

end PathTree.Text
