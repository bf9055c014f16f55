import CodeEditor.Unicode.Ranges

/-!
# Ranges of encoded characters

In UTF-8 a character is a leading byte and up to three continuation bytes, each of which carries
six bits. `Ranges.byteSequences` splits ranges of characters into sequences of byte ranges, one
for each place: a sequence stands for the characters that have, at every place, a byte in the
range of that place.
-/

namespace CodeEditor.Unicode

/-- Bytes from the first to the last, both included. -/
structure ByteRange where
  first : Nat
  last : Nat
  deriving DecidableEq, Repr

namespace Ranges

/-- Splits the numbers from `low` to `high` by their digits to base 64, so many of which follow
the leading one: into the rest of the first block, the blocks in the middle and the beginning of
the last block. -/
def digitSequences : (following low high : Nat) → List (List ByteRange)
  | 0, low, high => [[⟨low, high⟩]]
  | following + 1, low, high =>
    let block := 64 ^ (following + 1)
    let (first, firstRest) := (low / block, low % block)
    let (last, lastRest) := (high / block, high % block)
    if first = last then
      (digitSequences following firstRest lastRest).map (⟨first, first⟩ :: ·)
    else
      let startsInside := firstRest != 0
      let stopsInside := lastRest != block - 1
      let middle := if startsInside then first + 1 else first
      let stop := if stopsInside then last else last + 1
      (if startsInside then
        (digitSequences following firstRest (block - 1)).map (⟨first, first⟩ :: ·) else []) ++
      (if middle < stop then
        (digitSequences following 0 (block - 1)).map (⟨middle, stop - 1⟩ :: ·) else []) ++
      (if stopsInside then
        (digitSequences following 0 lastRest).map (⟨last, last⟩ :: ·) else [])

/-- The bytes that carry the digits of characters with the given leading marker. -/
def markBytes (leading : Nat) : List ByteRange → List ByteRange
  | [] => []
  | digits :: rest =>
    ⟨leading + digits.first, leading + digits.last⟩ ::
      rest.map fun digits ↦ ⟨0x80 + digits.first, 0x80 + digits.last⟩

/-- The part of a range within bounds, both included. -/
def within (low high : Nat) (range : Nat × Nat) : Option (Nat × Nat) :=
  let (first, last) := (max low range.1, min high range.2)
  if first ≤ last then some (first, last) else none

/-- The blocks of characters that are encoded alike: their bounds, the number of continuation
bytes and the marker of the leading byte. -/
def encodings : List ((Nat × Nat) × Nat × Nat) :=
  [((0, 0x7f), 0, 0), ((0x80, 0x7ff), 1, 0xc0), ((0x800, firstSurrogate - 1), 2, 0xe0),
    ((lastSurrogate + 1, 0xffff), 2, 0xe0), ((0x10000, lastCharacter), 3, 0xf0)]

/-- The sequences of byte ranges for the characters of ranges, in ascending order. -/
def byteSequences (ranges : Ranges) : List (List ByteRange) :=
  ranges.flatMap fun range ↦
    encodings.flatMap fun ((low, high), following, leading) ↦
      match within low high range with
      | some (first, last) => (digitSequences following first last).map (markBytes leading)
      | none => []

end Ranges

end CodeEditor.Unicode
