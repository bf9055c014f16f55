import CodeEditor.Fault
import CodeEditor.Unicode.Width

/-!
# Cells and soft wrapping

A line is laid out in rows of cells. A tab advances to the next tab stop of its row, any other
character by its width, a control character by one cell. A character that would reach past the
width starts a new row, unless its row is still empty.
-/

namespace CodeEditor

/-- The cells that a character takes at a position of its row. -/
def cellWidth (c : Char) (position tabWidth : Nat) : Nat :=
  if c = '\t' then
    let tabWidth := max tabWidth 1
    tabWidth - position % tabWidth
  else
    (Unicode.width? c).getD 1

@[simp] theorem cellWidth_tab (position tabWidth : Nat) :
    cellWidth '\t' position tabWidth = max tabWidth 1 - position % max tabWidth 1 := rfl

/-- Only a tab looks at its position. -/
theorem cellWidth_of_ne_tab {c : Char} (h : c ≠ '\t') (position tabWidth : Nat) :
    cellWidth c position tabWidth = (Unicode.width? c).getD 1 := if_neg h

/-- The rows begun so far and the cells taken in the last of them. -/
structure Rows where
  count : Nat
  cells : Nat
  deriving DecidableEq, Repr

namespace Rows

def first : Rows := ⟨1, 0⟩

/-- Adds a character, on a new row if it does not fit. -/
def add (width tabWidth : Nat) (rows : Rows) (c : Char) : Except Fault Rows := do
  if c = '\r' then
    return rows
  else
    let reached ← Offset.add rows.cells (cellWidth c rows.cells tabWidth)
    if 0 < rows.cells && max width 1 < reached then
      return ⟨← Offset.add rows.count 1, cellWidth c 0 tabWidth⟩
    else
      return ⟨rows.count, reached⟩

end Rows

/-- The number of rows of a line that is wrapped at a width. -/
def wrappedRows (line : List Char) (width tabWidth : Nat) : Except Fault Nat :=
  Rows.count <$> line.foldlM (Rows.add width tabWidth) Rows.first

end CodeEditor
