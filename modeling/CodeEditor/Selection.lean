import CodeEditor.Text.Edit

/-!
# Selections

A selection is a range of characters, a caret an empty one. A set of selections is kept sorted
and without overlaps; selections that merely touch stay apart. One of them is the primary one.
-/

namespace CodeEditor

structure Selection where
  start : Nat
  stop : Nat
  deriving DecidableEq, Repr, Inhabited

namespace Selection

/-- The range between two offsets, given in any order. -/
def between (a b : Nat) : Selection := ⟨min a b, max a b⟩

theorem between_of_le {a b : Nat} (h : a ≤ b) : between a b = ⟨a, b⟩ := by
  simp only [between, Nat.min_eq_left h, Nat.max_eq_right h]

def caret (offset : Nat) : Selection := ⟨offset, offset⟩

def isEmpty (selection : Selection) : Bool := selection.start == selection.stop

def clamp (selection : Selection) (length : Nat) : Selection :=
  between (min selection.start length) (min selection.stop length)

def map (selection : Selection) (edit : Edit) : Except Fault Selection := do
  let (start, stop) ← edit.mapRange selection.start selection.stop
  return ⟨start, stop⟩

/-- By start, and by end where the starts are equal. -/
def precedes (a b : Selection) : Bool :=
  a.start < b.start || (a.start == b.start && a.stop ≤ b.stop)

def covers (outer inner : Selection) : Bool :=
  outer.start ≤ inner.start && inner.stop ≤ outer.stop

/-- Joins the sorted selections to the one before them as far as they overlap it or repeat it. -/
def merge (last : Selection) : List Selection → List Selection
  | [] => [last]
  | next :: rest =>
    if next = last then merge last rest
    else if next.start < last.stop then merge ⟨last.start, max last.stop next.stop⟩ rest
    else last :: merge next rest

/-- Sorts selections and joins those that overlap. -/
def normalize (selections : List Selection) : List Selection :=
  match selections.mergeSort precedes with
  | [] => []
  | first :: rest => merge first rest

end Selection

structure SelectionSet where
  all : List Selection
  primaryIndex : Nat
  deriving DecidableEq, Repr

namespace SelectionSet

def single (selection : Selection) : SelectionSet := ⟨[selection], 0⟩

/-- A caret at the beginning of the text. -/
def default : SelectionSet := single (.caret 0)

/-- The set of some selections, of which the one at the index is primary, or else the first. The
primary selection of the set is the one that covers it. -/
def ofList (selections : List Selection) (index : Nat) : SelectionSet :=
  match selections with
  | [] => default
  | first :: _ =>
    let wanted := selections.getD index first
    let merged := Selection.normalize selections
    ⟨merged, (merged.findIdx? (·.covers wanted)).getD (merged.length - 1)⟩

def primary (set : SelectionSet) : Selection := set.all.getD set.primaryIndex (.caret 0)

def clamp (set : SelectionSet) (length : Nat) : SelectionSet :=
  ofList (set.all.map (·.clamp length)) set.primaryIndex

def map (set : SelectionSet) (edit : Edit) : Except Fault SelectionSet := do
  return ofList (← set.all.mapM (·.map edit)) set.primaryIndex

end SelectionSet

end CodeEditor
