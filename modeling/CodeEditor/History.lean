import CodeEditor.Selection

/-!
# Undo and redo

The history keeps whole texts with their selections. What lies behind the present is bounded by
the limit and loses its oldest entry first; recording a change forgets what was undone.
-/

namespace CodeEditor

/-- A text and the selections in it. -/
structure Snapshot where
  text : String
  selections : SelectionSet
  deriving DecidableEq, Repr

/-- The snapshots before and after the present one, the nearest first. -/
structure History where
  limit : Nat
  past : List Snapshot
  future : List Snapshot
  deriving DecidableEq, Repr

namespace History

/-- A history keeps at least one snapshot. -/
def empty (limit : Nat) : History := ⟨max limit 1, [], []⟩

/-- Adds to the past, which gives up its oldest snapshot once it is full. -/
def remember (history : History) (snapshot : Snapshot) : History :=
  let past := if history.past.length = history.limit then history.past.dropLast else history.past
  { history with past := snapshot :: past }

def record (history : History) (before : Snapshot) : History :=
  { history.remember before with future := [] }

def undo (history : History) (current : Snapshot) : Option (Snapshot × History) :=
  match history.past with
  | [] => none
  | snapshot :: past =>
    some (snapshot, { history with past, future := current :: history.future })

def redo (history : History) (current : Snapshot) : Option (Snapshot × History) :=
  match history.future with
  | [] => none
  | snapshot :: future => some (snapshot, { history.remember current with future })

def canUndo (history : History) : Bool := !history.past.isEmpty

def canRedo (history : History) : Bool := !history.future.isEmpty

def depth (history : History) : Nat := history.past.length

def clear (history : History) : History := { history with past := [], future := [] }

end History

end CodeEditor
