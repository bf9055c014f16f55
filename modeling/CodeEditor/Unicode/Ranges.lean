/-!
# Sets of code points as lists of ranges

A list of ranges stands for the code points in any of them. `Ranges.merged` gives the one list of
ascending ranges that neither overlap nor touch, and `Ranges.complement` the characters outside
such a list. Surrogates are code points but not characters, so no range of a complement begins or
ends among them.
-/

namespace CodeEditor.Unicode

/-- Ranges of code points, both ends included. -/
abbrev Ranges := List (Nat × Nat)

namespace Ranges

def firstSurrogate : Nat := 0xd800

def lastSurrogate : Nat := 0xdfff

def lastCharacter : Nat := 0x10ffff

/-- Puts a range in front of merged ones, none of which starts before it. -/
def absorb (first last : Nat) : Ranges → Ranges
  | [] => [(first, last)]
  | (start, stop) :: rest =>
    if start ≤ last + 1 then absorb first (max last stop) rest
    else (first, last) :: (start, stop) :: rest

/-- Ascending ranges that neither overlap nor touch. -/
def merged (ranges : Ranges) : Ranges :=
  (ranges.mergeSort fun a b ↦ a.1 ≤ b.1).foldr (fun (first, last) rest ↦ absorb first last rest) []

/-- The characters from one code point up to but not including another, as at most one range. -/
def between (start stop : Nat) : Ranges :=
  let first := if firstSurrogate ≤ start && start ≤ lastSurrogate then lastSurrogate + 1 else start
  let stop := if firstSurrogate < stop && stop ≤ lastSurrogate + 1 then firstSurrogate else stop
  if first < stop then [(first, stop - 1)] else []

/-- The characters from a code point on that merged ranges leave out. -/
def complementFrom (start : Nat) : Ranges → Ranges
  | [] => between start (lastCharacter + 1)
  | (first, last) :: rest => between start first ++ complementFrom (last + 1) rest

/-- The characters that merged ranges leave out. -/
def complement (ranges : Ranges) : Ranges := complementFrom 0 ranges

end Ranges

end CodeEditor.Unicode
