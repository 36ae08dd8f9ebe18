import PathTree.Text.Utf8

/-!
# A 64-bit digest

The XXH64 digest of a byte string, with seed 0: stripes of 32 bytes go through four lanes, what is
left goes in by eight, four and single bytes, and the bits are mixed at the end.
-/

namespace PathTree.Digest

open PathTree.Text (Bytes)

/-- The first constant of the digest. -/
def prime1 : UInt64 := 11400714785074694791

/-- The second constant of the digest. -/
def prime2 : UInt64 := 14029467366897019727

/-- The third constant of the digest. -/
def prime3 : UInt64 := 1609587929392839161

/-- The fourth constant of the digest. -/
def prime4 : UInt64 := 9650029242287828579

/-- The fifth constant of the digest. -/
def prime5 : UInt64 := 2870177450012600261

/-- Rotates a word to the left by `k` bits, where `0 < k < 64`. -/
def rotl (x k : UInt64) : UInt64 := (x <<< k) ||| (x >>> (64 - k))

/-- The word that bytes spell, lowest byte first. -/
def word (bs : Bytes) : UInt64 :=
  bs.foldr (fun b acc => (acc <<< 8) ||| b.toUInt64) 0

/-- Takes a word into a lane. -/
def round (acc input : UInt64) : UInt64 :=
  rotl (acc + input * prime2) 31 * prime1

/-- Merges a lane into the digest. -/
def mergeRound (acc lane : UInt64) : UInt64 :=
  (acc ^^^ round 0 lane) * prime1 + prime4

/-- The four lanes. -/
structure Lanes where
  a : UInt64
  b : UInt64
  c : UInt64
  d : UInt64

/-- The lanes before the first stripe. -/
def Lanes.start : Lanes := ⟨prime1 + prime2, prime2, 0, 0 - prime1⟩

/-- Takes a stripe of 32 bytes into the lanes. -/
def Lanes.take (l : Lanes) (bs : Bytes) : Lanes where
  a := round l.a (word (bs.take 8))
  b := round l.b (word ((bs.drop 8).take 8))
  c := round l.c (word ((bs.drop 16).take 8))
  d := round l.d (word ((bs.drop 24).take 8))

/-- The lanes as one word. -/
def Lanes.merge (l : Lanes) : UInt64 :=
  let h := rotl l.a 1 + rotl l.b 7 + rotl l.c 12 + rotl l.d 18
  mergeRound (mergeRound (mergeRound (mergeRound h l.a) l.b) l.c) l.d

/-- Takes all whole stripes into the lanes, and gives back what is left. -/
def stripes : (count : Nat) → Lanes → Bytes → Lanes × Bytes
  | 0, l, bs => (l, bs)
  | n + 1, l, bs => stripes n (l.take bs) (bs.drop 32)

/-- Takes in groups of eight bytes. -/
def eights : (count : Nat) → UInt64 → Bytes → UInt64 × Bytes
  | 0, h, bs => (h, bs)
  | n + 1, h, bs =>
    eights n (rotl (h ^^^ round 0 (word (bs.take 8))) 27 * prime1 + prime4) (bs.drop 8)

/-- Takes in groups of four bytes. -/
def fours : (count : Nat) → UInt64 → Bytes → UInt64 × Bytes
  | 0, h, bs => (h, bs)
  | n + 1, h, bs =>
    fours n (rotl (h ^^^ (word (bs.take 4) * prime1)) 23 * prime2 + prime3) (bs.drop 4)

/-- Takes in single bytes. -/
def ones (h : UInt64) (bs : Bytes) : UInt64 :=
  bs.foldl (fun h b => rotl (h ^^^ (b.toUInt64 * prime5)) 11 * prime1) h

/-- Mixes the bits at the end. -/
def avalanche (h : UInt64) : UInt64 :=
  let h := (h ^^^ (h >>> 33)) * prime2
  let h := (h ^^^ (h >>> 29)) * prime3
  h ^^^ (h >>> 32)

/-- The digest of a byte string. -/
def xxh64 (bs : Bytes) : UInt64 :=
  let n := bs.length
  let (h, rest) :=
    if n < 32 then (prime5, bs)
    else
      let (lanes, rest) := stripes (n / 32) Lanes.start bs
      (lanes.merge, rest)
  let h := h + n.toUInt64
  let (h, rest) := eights (rest.length / 8) h rest
  let (h, rest) := fours (rest.length / 4) h rest
  avalanche (ones h rest)

/-- The digest of a text. -/
def ofText (s : String) : UInt64 := xxh64 (Text.bytesOf s)

end PathTree.Digest
