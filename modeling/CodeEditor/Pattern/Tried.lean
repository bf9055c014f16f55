import Std.Data.TreeSet

/-!
# Tried choices

A search notes which marked choices it has met, and where. `Tried` keeps a row of marks for each
place of the text from an origin on, and has rows only up to the last place where a choice was
met. `contains_insert` says what inserting a choice changes: at and behind the origin, exactly the
answer for this choice at this place.
-/

namespace CodeEditor

structure Tried where
  origin : Nat
  rows : Array (Std.TreeSet Nat) := #[]

namespace Tried

def contains (tried : Tried) (pos mark : Nat) : Bool :=
  tried.rows[pos - tried.origin]?.any (·.contains mark)

/-- Adds empty rows until there are so many. -/
def withRows (size : Nat) (rows : Array (Std.TreeSet Nat)) : Array (Std.TreeSet Nat) :=
  if size ≤ rows.size then rows else rows ++ Array.replicate (size - rows.size) {}

def insert (tried : Tried) (pos mark : Nat) : Tried :=
  let ⟨origin, rows⟩ := tried
  let index := pos - origin
  ⟨origin, (withRows (index + 1) rows).modify index (·.insert mark)⟩

theorem lt_size_withRows (index : Nat) (rows : Array (Std.TreeSet Nat)) :
    index < (withRows (index + 1) rows).size := by
  unfold withRows
  split
  · omega
  · rw [Array.size_append, Array.size_replicate]
    omega

theorem any_contains_withRows (size index mark : Nat) (rows : Array (Std.TreeSet Nat)) :
    (withRows size rows)[index]?.any (·.contains mark) =
      rows[index]?.any (·.contains mark) := by
  unfold withRows
  split
  · rfl
  · by_cases h : index < rows.size
    · rw [Array.getElem?_append_left h]
    · rw [Array.getElem?_append_right (by omega), Array.getElem?_replicate,
        Array.getElem?_eq_none (show rows.size ≤ index by omega)]
      split <;> simp

theorem contains_insert (tried : Tried) {pos pos' : Nat} (mark mark' : Nat)
    (h : tried.origin ≤ pos) (h' : tried.origin ≤ pos') :
    (tried.insert pos mark).contains pos' mark' =
      (decide (pos = pos' ∧ mark = mark') || tried.contains pos' mark') := by
  obtain ⟨origin, rows⟩ := tried
  simp only [insert, contains, Array.getElem?_modify] at h h' ⊢
  rw [← any_contains_withRows (pos - origin + 1) (pos' - origin)]
  by_cases hpos : pos = pos'
  · subst hpos
    rw [if_pos rfl, Array.getElem?_eq_getElem (lt_size_withRows _ _)]
    rw [Bool.eq_iff_iff]
    simp [Std.TreeSet.contains_insert]
  · rw [if_neg (by omega)]
    simp [hpos]

end Tried

end CodeEditor
