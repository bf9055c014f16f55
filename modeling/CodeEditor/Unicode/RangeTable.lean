/-!
# Tables of character ranges

A Unicode property is stored as the ascending, disjoint ranges of code points that have it.
Membership is decided by halving the table.
-/

namespace CodeEditor.Unicode

/-- Ascending disjoint ranges of code points, both ends included. -/
abbrev RangeTable := Array (Nat × Nat)

namespace RangeTable

/-- Looks for the code point in the entries from `low` up to `high`. -/
def search (table : RangeTable) (code : Nat) : (fuel low high : Nat) → Bool
  | 0, _, _ => false
  | fuel + 1, low, high =>
    if low < high then
      let middle := (low + high) / 2
      match table[middle]? with
      | none => false
      | some (first, last) =>
        if code < first then search table code fuel low middle
        else if last < code then search table code fuel (middle + 1) high
        else true
    else false

/-- Each step halves the part of the table that is left, so its size is fuel enough. -/
def contains (table : RangeTable) (c : Char) : Bool :=
  search table c.toNat (table.size + 1) 0 table.size

end RangeTable

end CodeEditor.Unicode
