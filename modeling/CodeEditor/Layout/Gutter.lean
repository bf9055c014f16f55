import CodeEditor.Decoration.Lint
import CodeEditor.Layout.Basic

/-!
# The gutter

The column of line numbers beside the text. Which line stands at a height is found by halving;
this needs the bottoms of the lines to grow with their numbers.
-/

namespace CodeEditor

/-- The part of the content that is on the display. -/
structure Viewport where
  scrollY : Extent := 0
  height : Extent := 0
  deriving DecidableEq

def Viewport.bottom (viewport : Viewport) : Extent := viewport.scrollY + viewport.height

/-- A line number on the display. -/
structure GutterLine where
  number : Nat
  y : Extent
  height : Extent
  lint : Option LintSeverity
  isCurrent : Bool
  deriving DecidableEq

structure GutterFrame where
  lines : List GutterLine
  digits : Nat
  deriving DecidableEq

namespace Gutter

/-- The gutter has room for at least so many digits. -/
def minDigits : Nat := 3

def digits (lines : Nat) : Nat := max (Nat.toDigits 10 (max lines 1)).length minDigits

/-- The width of the numbers with one digit of space on either side. -/
def width (lines : Nat) (digitWidth : Extent) : Extent :=
  (.ofNat (digits lines) + 2) * digitWidth

variable {α : Type} [TextLayout α]

/-- Whether a line lies above a height altogether. -/
def isAbove (layout : α) (y : Extent) (line : Nat) : Bool :=
  match TextLayout.rect? layout line with
  | some rect => rect.bottom ≤ y
  | none => false

/-- Halves the lines from `low` up to `high` until the first that is not above the height. -/
def search (layout : α) (y : Extent) : (fuel low high : Nat) → Nat
  | 0, low, _ => low
  | fuel + 1, low, high =>
    if low < high then
      let middle := (low + high) / 2
      if isAbove layout y middle then search layout y fuel (middle + 1) high
      else search layout y fuel low middle
    else low

/-- The first of so many lines that reaches below a height, or else the last. -/
def firstBelow (layout : α) (count : Nat) (y : Extent) : Nat :=
  min (search layout y count 0 count) (count - 1)

/-- The number of a line, as it stands on the display. -/
def gutterLine (viewport : Viewport) (messages : List LintMessage) (caretLine line : Nat)
    (rect : LineRect) : GutterLine where
  number := line + 1
  y := rect.y - viewport.scrollY
  height := rect.height
  lint := Lint.severityOn messages (line + 1)
  isCurrent := line == caretLine

/-- The line numbers from a line on, as far as the viewport reaches. -/
def linesFrom (layout : α) (viewport : Viewport) (messages : List LintMessage)
    (caretLine line : Nat) : (count : Nat) → List GutterLine
  | 0 => []
  | count + 1 =>
    match TextLayout.rect? layout line with
    | none => []
    | some rect =>
      if viewport.bottom ≤ rect.y then []
      else
        gutterLine viewport messages caretLine line rect ::
        linesFrom layout viewport messages caretLine (line + 1) count

def render (lines : LineIndex) (layout : α) (viewport : Viewport)
    (messages : List LintMessage) (caretLine : Nat) : GutterFrame :=
  let count := min lines.count (TextLayout.count layout)
  let first := firstBelow layout count viewport.scrollY
  ⟨linesFrom layout viewport messages caretLine first (count - first), digits lines.count⟩

/-- The number of the line that a click hits, counted from one. -/
def hitTest (lines : LineIndex) (layout : α) (viewport : Viewport) (clickY : Extent) : Nat :=
  let count := max (min lines.count (TextLayout.count layout)) 1
  firstBelow layout count (viewport.scrollY + Extent.max clickY 0) + 1

end Gutter

end CodeEditor
