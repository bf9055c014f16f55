/-!
# Faults of checked offset arithmetic

Offsets, counts and cell positions are natural numbers below `2 ^ 64`. A computation whose result
would leave that range stops with a fault, as does a request for a line that does not exist and a
layout whose line index belongs to another text. Every operation that can stop in this way
returns in `Except Fault`.
-/

namespace CodeEditor

/-- Why a computation on a document stopped. -/
inductive Fault where
  /-- Unsigned arithmetic left its range. -/
  | overflow
  /-- A line was asked for that lies past the last one. -/
  | lineOutOfBounds (line count : Nat)
  /-- The lines of a laid out text are not those of the index it was given. -/
  | rowsMismatch (rowStarts expected : Nat)
  deriving DecidableEq, Repr

/-- The wording of a fault. -/
def Fault.message : Fault → String
  | .overflow => "arithmetic overflow"
  | .lineOutOfBounds line count =>
    "line " ++ toString line ++ " out of bounds (line count " ++ toString count ++ ")"
  | .rowsMismatch rowStarts expected =>
    "assertion `left == right` failed\n  left: " ++ toString rowStarts ++
      "\n right: " ++ toString expected

namespace Offset

/-- Offsets lie below this bound. -/
def bound : Nat := UInt64.size

def add (a b : Nat) : Except Fault Nat :=
  if a + b < bound then .ok (a + b) else .error .overflow

def sub (a b : Nat) : Except Fault Nat :=
  if b ≤ a then .ok (a - b) else .error .overflow

theorem add_eq_ok {a b : Nat} (h : a + b < bound) : add a b = .ok (a + b) := if_pos h

theorem sub_eq_ok {a b : Nat} (h : b ≤ a) : sub a b = .ok (a - b) := if_pos h

end Offset

end CodeEditor
