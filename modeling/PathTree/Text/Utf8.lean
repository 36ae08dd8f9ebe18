/-!
# Bytes as characters

A byte string is read as a list of pieces: a piece is a character, or a byte that starts none.
A group of bytes is a character exactly when it is that character's encoding, so overlong forms
and surrogates are read byte by byte, and the bytes of the pieces are the bytes that were read.
-/

namespace PathTree.Text

/-- Byte strings. -/
abbrev Bytes := List UInt8

/-- The bytes of a text. -/
def bytesOf (s : String) : Bytes := s.toUTF8.toList

/-- A piece of a byte string: a character, or a byte that is not part of one. -/
inductive Piece where
  | char (c : Char)
  | stray (b : UInt8)
  deriving DecidableEq, Repr

/-- The bytes of a piece. -/
def Piece.bytes : Piece → Bytes
  | .char c => String.utf8EncodeChar c
  | .stray b => [b]

/-- How many bytes the encoding of a character has that starts with `b`. -/
def groupLength (b : UInt8) : Nat :=
  if b < 0x80 then 1 else if b < 0xe0 then 2 else if b < 0xf0 then 3 else 4

/-- The number that a group of bytes spells: the low bits of the first byte, then six bits each. -/
def groupValue (b : UInt8) (more : Bytes) : Nat :=
  let high := match groupLength b with
    | 1 => b.toNat
    | 2 => b.toNat % 0x20
    | 3 => b.toNat % 0x10
    | _ => b.toNat % 0x08
  more.foldl (fun v m => v * 0x40 + m.toNat % 0x40) high

/-- The first piece of a byte string that starts with `b`, and what is left. -/
def nextPiece (b : UInt8) (rest : Bytes) : Piece × Bytes :=
  let more := rest.take (groupLength b - 1)
  let c := Char.ofNat (groupValue b more)
  if String.utf8EncodeChar c = b :: more then (.char c, rest.drop (groupLength b - 1))
  else (.stray b, rest)

/-- A piece takes its own bytes off the front, no more and no fewer. -/
theorem bytes_nextPiece (b : UInt8) (rest : Bytes) :
    (nextPiece b rest).1.bytes ++ (nextPiece b rest).2 = b :: rest := by
  unfold nextPiece
  dsimp only
  split
  · next h => simp [Piece.bytes, h]
  · simp [Piece.bytes]

/-- What is left behind a piece is no longer than what stood behind its first byte. -/
theorem length_nextPiece_le (b : UInt8) (rest : Bytes) :
    (nextPiece b rest).2.length ≤ rest.length := by
  unfold nextPiece
  dsimp only
  split <;> simp

/-- A byte string as its pieces. -/
def pieces : Bytes → List Piece
  | [] => []
  | b :: rest => (nextPiece b rest).1 :: pieces (nextPiece b rest).2
termination_by bs => bs.length
decreasing_by exact Nat.lt_succ_of_le (length_nextPiece_le b rest)

/-- The bytes of a list of pieces. -/
def joinPieces (ps : List Piece) : Bytes := ps.flatMap Piece.bytes

/-- Reading bytes as pieces loses nothing. -/
theorem joinPieces_pieces (bs : Bytes) : joinPieces (pieces bs) = bs := by
  fun_induction pieces bs with
  | case1 => rfl
  | case2 b rest ih =>
    have h := bytes_nextPiece b rest
    simpa [joinPieces, ← h] using ih

end PathTree.Text
