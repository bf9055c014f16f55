import CodeEditor.Editor.Basic

/-!
# Changing the text

Loading a document starts everything anew; an edit carries styling, decorations and selections
along until highlighting and linting have caught up.
-/

namespace CodeEditor.Editor

/-- Replaces the document. -/
def setText (editor : Editor) (text : String) (language : Language) (now : Nat) :
    Except Fault (Editor × List Event) := do
  let (document, edit) := editor.document.replace text
  let editor := { editor with
    document := document.withLanguage language
    history := editor.history.clear
    lintMessages := []
    lintRevision := none
    decorations := editor.decorations.clear Layers.lint }
  let (editor, events) ←
    if edit.isSome then
      let editor ← relayout { editor with
        styled := Highlighter.plainText text editor.theme
        decorations := editor.decorations.clear Layers.flash
        selections := .default }
      pure (editor, [Event.selectionChanged])
    else
      pure (editor, [])
  let editor := { editor with schedule := editor.schedule.reset }.scheduleHighlightNow now
  return (editor,
    events ++ [editor.lintRequest, .decorationsChanged Layers.lint, .gutterRepaint])

/-- Brings everything in step with a document whose text was edited. The selections are given, or
else follow the edit. -/
def follow (editor : Editor) (edit : Edit) (selections : Option SelectionSet) (now : Nat) :
    Except Fault (Editor × List Event) := do
  let styled ← editor.styled.applyEdit edit editor.theme.plain
  let decorations ← editor.decorations.applyEdit edit
  let selections ←
    match selections with
    | some selections => pure selections
    | none => editor.selections.map edit
  let editor ← relayout { editor with
    styled
    decorations
    selections := selections.clamp editor.document.length }
  let editor := editor.scheduleHighlight now
  return (editor,
    [.textChanged editor.document.revision editor.document.text edit, editor.lintRequest,
      .selectionChanged, .gutterRepaint])

/-- Takes the text over, and tells whether it changed. If it did not, the selections given are
only selected. -/
def edit (editor : Editor) (text : String) (selections : Option SelectionSet) (now : Nat) :
    Except Fault (Editor × List Event × Bool) := do
  match editor.document.replace text with
  | (_, none) =>
    match selections with
    | some selections =>
      let (editor, events) := editor.setSelections selections
      return (editor, events, false)
    | none => return (editor, [], false)
  | (document, some edit) =>
    let history := editor.history.record editor.snapshot
    let (editor, events) ← follow { editor with document, history } edit selections now
    return (editor, events, true)

/-- Goes back to a snapshot. -/
def restore (editor : Editor) (snapshot : Snapshot) (now : Nat) :
    Except Fault (Editor × List Event) :=
  match editor.document.replace snapshot.text with
  | (document, some edit) => follow { editor with document } edit snapshot.selections now
  | (_, none) => .ok (editor.setSelections snapshot.selections)

def undo (editor : Editor) (now : Nat) : Except Fault (Editor × List Event × Bool) := do
  match editor.history.undo editor.snapshot with
  | some (snapshot, history) =>
    let (editor, events) ← restore { editor with history } snapshot now
    return (editor, events, true)
  | none => return (editor, [], false)

def redo (editor : Editor) (now : Nat) : Except Fault (Editor × List Event × Bool) := do
  match editor.history.redo editor.snapshot with
  | some (snapshot, history) =>
    let (editor, events) ← restore { editor with history } snapshot now
    return (editor, events, true)
  | none => return (editor, [], false)

end CodeEditor.Editor
