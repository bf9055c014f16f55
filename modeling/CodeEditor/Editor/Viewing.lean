import CodeEditor.Editor.Basic

/-!
# Display and navigation
-/

namespace CodeEditor.Editor

/-- Changes the font size, and tells whether it changed. -/
def adjustFont (editor : Editor) (delta : Float32) :
    Except Fault (Editor × List Event × Bool) := do
  match editor.display.adjustFontSize delta with
  | (_, false) => return (editor, [], false)
  | (display, true) =>
    let editor ← relayout { editor with display }
    let (editor, events) := editor.setScrollY editor.viewport.scrollY
    return (editor, events ++ [.displayChanged display, .gutterRepaint], true)

def setTheme (editor : Editor) (id : String) (now : Nat) : Editor × List Event :=
  if id = editor.display.themeId then (editor, [])
  else
    let display := { editor.display with themeId := id }
    let editor := { editor with theme := editor.highlighter.themeOrDefault id, display }
    (editor.scheduleHighlightNow now, [.displayChanged display])

def setLanguage (editor : Editor) (language : Language) (now : Nat) : Editor × List Event :=
  if language = editor.document.language then (editor, [])
  else
    let editor := { editor with document := editor.document.withLanguage language }
    (editor.scheduleHighlightNow now, [editor.lintRequest])

/-- Scrolls as little as brings the line into the viewport. -/
def scrollToLine (editor : Editor) (line : Nat) : Editor × List Event :=
  match editor.layout.rect? line with
  | none => (editor, [])
  | some rect =>
    if rect.y < editor.viewport.scrollY then editor.setScrollY rect.y
    else if editor.viewport.bottom < rect.bottom then
      editor.setScrollY (Extent.min (rect.bottom - editor.viewport.height) rect.y)
    else (editor, [])

/-- Goes to the line with the given number, or the nearest that exists, and lets it flash. -/
def jump (editor : Editor) (line now : Nat) : Except Fault (Editor × List Event × Nat) := do
  let lines := editor.document.lines
  let line := max 1 (min line lines.count)
  let (flash, range) ← editor.flash.start lines line now
  let (editor, events) := scrollToLine { editor with
    flash
    selections := .single (.between range.start range.stop)
    decorations := editor.decorations.replace Layers.flash [.flash range.start range.stop] }
    (line - 1)
  return (editor,
    events ++ [.selectionChanged, .decorationsChanged Layers.flash, .jumpStarted line], line)

/-- Goes to the line whose number was clicked. -/
def click (editor : Editor) (y : Extent) (now : Nat) : Except Fault (Editor × List Event × Nat) :=
  editor.jump (Gutter.hitTest editor.document.lines editor.layout editor.viewport y) now

def setViewportHeight (editor : Editor) (height : Extent) : Editor × List Event :=
  let editor := { editor with viewport := { editor.viewport with height := Extent.max height 0 } }
  let (editor, events) := editor.setScrollY editor.viewport.scrollY
  (editor, events ++ [.gutterRepaint])

def useLayout (editor : Editor) (layout : Layout) : Except Fault Editor :=
  relayout { editor with layout }

end CodeEditor.Editor
