import CodeEditor.Text.Edit

/-!
# Decorations

Decorations mark ranges of a text without changing its styling. They are kept in layers, each of
which is replaced as a whole; within a layer they are sorted, and a layer without decorations
does not exist.
-/

namespace CodeEditor

inductive LintSeverity where
  | warning
  | error
  deriving DecidableEq, Repr

inductive DecorationKind where
  | underline (severity : LintSeverity)
  | flash
  deriving DecidableEq, Repr

structure Decoration where
  start : Nat
  stop : Nat
  kind : DecorationKind
  tooltip : Option String := none
  deriving DecidableEq, Repr

namespace Decoration

def underline (start stop : Nat) (severity : LintSeverity) (tooltip : Option String) :
    Decoration :=
  ⟨start, stop, .underline severity, tooltip⟩

/-- A flash has no tooltip. -/
def flash (start stop : Nat) : Decoration := ⟨start, stop, .flash, none⟩

/-- By start, and by end where the starts are equal. -/
def precedes (a b : Decoration) : Bool :=
  a.start < b.start || (a.start == b.start && a.stop ≤ b.stop)

/-- A decoration that covers no character. -/
def isPoint (decoration : Decoration) : Bool := decoration.stop ≤ decoration.start

/-- The decoration carried across an edit. It disappears if it loses all its characters. -/
def map? (edit : Edit) (decoration : Decoration) : Except Fault (Option Decoration) := do
  let (start, stop) ← edit.mapRange decoration.start decoration.stop
  return if start < stop || decoration.isPoint then some { decoration with start, stop } else none

end Decoration

/-- The layers by ascending number. -/
structure Layers where
  entries : List (Nat × List Decoration)
  deriving DecidableEq, Repr

namespace Layers

def empty : Layers := ⟨[]⟩

/-- The layer of lint underlines. -/
def lint : Nat := 1

/-- The layer of the flash that shows where a jump went. -/
def flash : Nat := 2

def layer (layers : Layers) (id : Nat) : List Decoration := (layers.entries.lookup id).getD []

@[simp] theorem layer_empty (id : Nat) : empty.layer id = [] := rfl

def clear (layers : Layers) (id : Nat) : Layers := ⟨layers.entries.filter (·.1 != id)⟩

/-- Puts a layer in its place. -/
def insert (id : Nat) (decorations : List Decoration) :
    List (Nat × List Decoration) → List (Nat × List Decoration)
  | [] => [(id, decorations)]
  | (other, kept) :: rest =>
    if id < other then (id, decorations) :: (other, kept) :: rest
    else if id = other then (id, decorations) :: rest
    else (other, kept) :: insert id decorations rest

def replace (layers : Layers) (id : Nat) (decorations : List Decoration) : Layers :=
  if decorations.isEmpty then layers.clear id
  else ⟨insert id (decorations.mergeSort Decoration.precedes) layers.entries⟩

/-- All decorations, by layer. -/
def decorations (layers : Layers) : List Decoration := layers.entries.flatMap (·.2)

def size (layers : Layers) : Nat := layers.decorations.length

def isEmpty (layers : Layers) : Bool := layers.entries.isEmpty

def applyEdit (layers : Layers) (edit : Edit) : Except Fault Layers := do
  let entries ← layers.entries.mapM fun (layer, decorations) ↦ do
    return (layer, (← decorations.mapM (Decoration.map? edit)).filterMap id)
  return ⟨entries.filter (!·.2.isEmpty)⟩

end Layers

end CodeEditor
