import CodeEditor.Decoration.Render
import CodeEditor.Editor.Event
import CodeEditor.History
import CodeEditor.Layout.Flash
import CodeEditor.Layout.Gutter
import CodeEditor.Text.Document

/-!
# The state of an editor

An editor holds one document together with everything that is derived from it or lies on top of
it: the selections, the history, the styling and its schedule, the decorations, the layout and the
viewport. This module has the state, what can be read off it, and the steps that several
operations share.
-/

namespace CodeEditor

structure Editor where
  settings : Settings
  highlighter : Highlighter
  document : Document
  selections : SelectionSet
  history : History
  display : Display
  theme : Theme
  schedule : Schedule
  styled : StyledText
  decorations : Layers
  lintMessages : List LintMessage
  lintRevision : Option Nat
  layout : Layout
  viewport : Viewport
  flash : Flash

namespace Editor

/-! ## Readings -/

/-- The present as the history keeps it. -/
def snapshot (editor : Editor) : Snapshot := ⟨editor.document.text, editor.selections⟩

/-- What the highlighter would be asked now. -/
def request (editor : Editor) : HighlightRequest :=
  ⟨editor.document.text, editor.document.language, editor.display.themeId⟩

/-- When there will be something to do without any input. -/
def deadline? (editor : Editor) : Option Nat :=
  match editor.schedule.deadline?, editor.flash.deadline? with
  | some a, some b => some (min a b)
  | some a, none => some a
  | none, b => b

/-- The spans that are drawn. -/
def rendered (editor : Editor) : List Span :=
  Render.compose editor.styled editor.decorations editor.theme

def gutter (editor : Editor) : GutterFrame :=
  let lines := editor.document.lines
  Gutter.render lines editor.layout editor.viewport editor.lintMessages
    (lines.lineOf editor.selections.primary.stop)

def gutterWidth (editor : Editor) (digitWidth : Extent) : Extent :=
  Gutter.width editor.document.lines.count digitWidth

/-! ## Shared steps -/

/-- Lays the text out in the current font size. -/
def relayout (editor : Editor) : Except Fault Editor := do
  let document := editor.document
  let layout ← editor.layout.relayout document.text.toList document.lines editor.display.fontSize
  return { editor with layout }

/-- The event that asks for lint messages on the current text. -/
def lintRequest (editor : Editor) : Event :=
  .lintRequested editor.document.revision editor.document.text editor.document.language

/-- Underlines the lines that the lint messages name. -/
def applyLint (editor : Editor) : Editor :=
  let underlines := Lint.decorations editor.document.lines editor.lintMessages
  { editor with decorations := editor.decorations.replace Layers.lint underlines }

/-- Asks for highlighting once typing pauses. -/
def scheduleHighlight (editor : Editor) (now : Nat) : Editor :=
  { editor with schedule := (editor.schedule.schedule editor.request now).1 }

def scheduleHighlightNow (editor : Editor) (now : Nat) : Editor :=
  { editor with schedule := (editor.schedule.scheduleNow editor.request now).1 }

/-- Selects as far as the text reaches. -/
def setSelections (editor : Editor) (selections : SelectionSet) : Editor × List Event :=
  let selections := selections.clamp editor.document.length
  if selections = editor.selections then (editor, [])
  else ({ editor with selections }, [.selectionChanged])

/-- How far the content can be scrolled. -/
def maxScroll (editor : Editor) : Extent :=
  Extent.max (editor.layout.contentHeight - editor.viewport.height) 0

def setScrollY (editor : Editor) (scrollY : Extent) : Editor × List Event :=
  let scrollY := Extent.clamp 0 editor.maxScroll scrollY
  if scrollY == editor.viewport.scrollY then (editor, [])
  else
    ({ editor with viewport := { editor.viewport with scrollY } },
      [.scrollChanged scrollY, .gutterRepaint])

/-- An editor of an empty plain text. -/
def create (settings : Settings) (highlighter : Highlighter) : Except Fault Editor :=
  let settings := settings.normalized
  let theme := highlighter.themeOrDefault settings.display.themeId
  relayout {
    settings
    highlighter
    document := .ofText "" .plain
    selections := .default
    history := .empty settings.undoLimit
    display := settings.display
    theme
    schedule := { debounce := settings.debounceMs }
    styled := .uniform 0 theme.plain
    decorations := .empty
    lintMessages := []
    lintRevision := none
    layout := .monospace (.ofConfig settings.layout)
    viewport := {}
    flash := { duration := settings.flashMs } }

end Editor

end CodeEditor
