import CodeEditor.Fault

/-!
# Edits

An edit replaces one contiguous piece of a text. It is recovered from the texts before and after
by their longest common beginning and, of what is left, the longest common end. An edit carries
offsets of the text before to the text after.
-/

namespace CodeEditor

/-- The characters of a text from the start on that are deleted, and how many take their place. -/
structure Edit where
  start : Nat
  deleted : Nat
  inserted : Nat
  deriving DecidableEq, Repr

namespace Edit

/-- How many characters two texts have in common at their beginning. -/
def agreement (a b : List Char) : Nat :=
  ((a.zip b).takeWhile fun (x, y) ↦ x == y).length

/-- The edit that leads from one text to another, if they differ. -/
def between (old new : List Char) : Option Edit :=
  if old = new then none
  else
    let front := agreement old new
    let back := agreement (old.drop front).reverse (new.drop front).reverse
    some ⟨front, old.length - front - back, new.length - front - back⟩

def oldEnd (edit : Edit) : Except Fault Nat := Offset.add edit.start edit.deleted

def newEnd (edit : Edit) : Except Fault Nat := Offset.add edit.start edit.inserted

/-- Where an offset goes. Offsets inside the deleted piece go to the end of what replaces it. -/
def mapOffset (edit : Edit) (offset : Nat) : Except Fault Nat := do
  if offset ≤ edit.start then
    return offset
  else if (← edit.oldEnd) ≤ offset then
    Offset.add (← Offset.sub offset edit.deleted) edit.inserted
  else
    edit.newEnd

/-- Where the ends of a range go; the second never comes before the first. -/
def mapRange (edit : Edit) (start stop : Nat) : Except Fault (Nat × Nat) := do
  let newStart ← edit.mapOffset start
  let newStop ← edit.mapOffset stop
  return (newStart, max newStop newStart)

/-- The length of a text after the edit. -/
def mapLength (edit : Edit) (length : Nat) : Except Fault Nat := do
  Offset.add (← Offset.sub length edit.deleted) edit.inserted

end Edit

end CodeEditor
