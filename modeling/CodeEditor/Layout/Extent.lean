/-!
# Extents

Heights and positions on the display are single precision numbers. A comparison with an undefined
number chooses the other operand.
-/

namespace CodeEditor

/-- A height or a position on the display. -/
abbrev Extent := Float32

namespace Extent

def max (a b : Extent) : Extent :=
  if a.isNaN then b else if b.isNaN then a else if a < b then b else a

def min (a b : Extent) : Extent :=
  if a.isNaN then b else if b.isNaN then a else if b < a then b else a

/-- An undefined number stays undefined. -/
def clamp (low high x : Extent) : Extent :=
  if x < low then low else if high < x then high else x

end Extent

end CodeEditor
