import CodeEditor.Layout.Extent
import CodeEditor.Layout.Wrap
import CodeEditor.Text.LineIndex

/-!
# Layouts

A layout places the lines of a text below each other. The monospace layout gives every row the
same height and, if it wraps, gives a line as many rows as it needs; it keeps the number of rows
above each line. A layout with fixed heights ignores the text.
-/

namespace CodeEditor

/-- The vertical extent of a line. -/
structure LineRect where
  y : Extent
  height : Extent
  deriving DecidableEq

def LineRect.bottom (rect : LineRect) : Extent := rect.y + rect.height

/-- What a layout tells about the lines of a text. -/
class TextLayout (α : Type) where
  count : α → Nat
  rect? : α → Nat → Option LineRect

structure LayoutConfig where
  lineHeightFactor : Float32 := 1.25
  wrapWidth : Option Nat := none
  tabWidth : Nat := 4
  deriving DecidableEq

/-- The row at which each line starts, followed by the number of rows. -/
structure Monospace where
  config : LayoutConfig
  rowHeight : Extent
  rowStarts : Array Nat
  deriving DecidableEq

namespace Monospace

/-- A layout of no lines. -/
def ofConfig (config : LayoutConfig) : Monospace := ⟨config, 0, #[0]⟩

def lineRows (config : LayoutConfig) (line : List Char) : Except Fault Nat :=
  match config.wrapWidth with
  | some width => wrappedRows line width config.tabWidth
  | none => .ok 1

/-- Adds the rows of a line below those laid out so far. -/
def addLine (config : LayoutConfig) (laid : Array Nat × Nat) (line : List Char) :
    Except Fault (Array Nat × Nat) := do
  return (laid.1.push laid.2, ← Offset.add laid.2 (← lineRows config line))

/-- Lays out a text, whose line index has to be given. -/
def relayout (layout : Monospace) (text : List Char) (lines : LineIndex) (fontSize : Float32) :
    Except Fault Monospace := do
  let (starts, rows) ← (splitLines text).foldlM (addLine layout.config) (#[], 0)
  let rowStarts := starts.push rows
  if rowStarts.size ≠ lines.count + 1 then
    throw (.rowsMismatch rowStarts.size (lines.count + 1))
  return { layout with rowHeight := fontSize * layout.config.lineHeightFactor, rowStarts }

def count (layout : Monospace) : Nat := layout.rowStarts.size - 1

/-- The number of rows of a line; none for a line that does not exist. -/
def visualRows (layout : Monospace) (line : Nat) : Nat :=
  match layout.rowStarts[line]?, layout.rowStarts[line + 1]? with
  | some start, some stop => stop - start
  | _, _ => 0

def rect? (layout : Monospace) (line : Nat) : Option LineRect :=
  match layout.rowStarts[line]? with
  | some start =>
    if line < layout.count then
      some ⟨.ofNat start * layout.rowHeight, .ofNat (layout.visualRows line) * layout.rowHeight⟩
    else
      none
  | none => none

end Monospace

inductive Layout where
  | monospace (layout : Monospace)
  | fixed (heights : List Extent)
  deriving DecidableEq

namespace Layout

def count : Layout → Nat
  | monospace layout => layout.count
  | fixed heights => heights.length

def rect? : Layout → Nat → Option LineRect
  | monospace layout, line => layout.rect? line
  | fixed heights, line =>
    heights[line]?.map fun height ↦ ⟨(heights.take line).foldl (· + ·) 0, height⟩

instance : TextLayout Layout := ⟨count, rect?⟩

/-- The bottom of the last line. -/
def contentHeight (layout : Layout) : Extent :=
  if layout.count = 0 then 0
  else match layout.rect? (layout.count - 1) with
    | some rect => rect.bottom
    | none => 0

def relayout (layout : Layout) (text : List Char) (lines : LineIndex) (fontSize : Float32) :
    Except Fault Layout :=
  match layout with
  | monospace layout => monospace <$> layout.relayout text lines fontSize
  | fixed heights => .ok (fixed heights)

/-- The rectangle of a line that need not exist. A monospace layout looks at the line after it. -/
def rectAt (layout : Layout) (line : Nat) : Except Fault (Option LineRect) :=
  match layout with
  | monospace layout => (fun _ ↦ layout.rect? line) <$> Offset.add line 1
  | fixed _ => .ok (layout.rect? line)

end Layout

/-- The number of rows of a line that need not exist. -/
def Monospace.rowsAt (layout : Monospace) (line : Nat) : Except Fault Nat :=
  (fun _ ↦ layout.visualRows line) <$> Offset.add line 1

end CodeEditor
