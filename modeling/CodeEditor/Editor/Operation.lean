import CodeEditor.Editor.Editing
import CodeEditor.Editor.Highlighting
import CodeEditor.Editor.Viewing

/-!
# Operations

Everything that can be done to an editor, as data. A run of an editor is a list of operations,
each of which gives the next state, what was told in order, and an answer to the caller.
-/

namespace CodeEditor

inductive Operation where
  | setText (text : String) (language : Language) (now : Nat)
  | edit (text : String) (now : Nat)
  | editSelecting (text : String) (selections : SelectionSet) (now : Nat)
  | undo (now : Nat)
  | redo (now : Nat)
  | poll (now : Nat)
  | complete (generation : Generation) (styled : StyledText)
  | tick (now : Nat)
  | lint (messages : List LintMessage)
  | lintFor (revision : Nat) (messages : List LintMessage)
  | increaseFont
  | decreaseFont
  | adjustFont (delta : Float32)
  | setTheme (id : String) (now : Nat)
  | setLanguage (language : Language) (now : Nat)
  | jump (line now : Nat)
  | click (y : Extent) (now : Nat)
  | select (selections : SelectionSet)
  | setViewportHeight (height : Extent)
  | scroll (y : Extent)
  | useLayout (layout : Layout)
  deriving DecidableEq

inductive Answer where
  | nothing
  | flag (value : Bool)
  | job (job : Option Job)
  | completion (completion : Schedule.Completion)
  | line (number : Nat)
  deriving DecidableEq

/-- The state after an operation, what was told, and the answer. -/
structure Reply where
  editor : Editor
  notices : List Notice
  answer : Answer := .nothing

namespace Reply

def ofEvents (result : Editor × List Event) : Reply := ⟨result.1, result.2.map .event, .nothing⟩

def ofAnswer (answer : α → Answer) (result : Editor × List Event × α) : Reply :=
  ⟨result.1, result.2.1.map .event, answer result.2.2⟩

end Reply

namespace Editor

def perform (editor : Editor) : Operation → Except Fault Reply
  | .setText text language now => Reply.ofEvents <$> editor.setText text language now
  | .edit text now => Reply.ofAnswer .flag <$> editor.edit text none now
  | .editSelecting text selections now =>
    Reply.ofAnswer .flag <$> editor.edit text (some selections) now
  | .undo now => Reply.ofAnswer .flag <$> editor.undo now
  | .redo now => Reply.ofAnswer .flag <$> editor.redo now
  | .poll now =>
    let (editor, job) := editor.poll now
    .ok ⟨editor, [], .job job⟩
  | .complete generation styled =>
    .ok (Reply.ofAnswer .completion (editor.complete generation styled))
  | .tick now =>
    let (editor, notices) := editor.tick now
    .ok ⟨editor, notices, .nothing⟩
  | .lint messages => .ok (Reply.ofEvents (editor.lint messages))
  | .lintFor revision messages => .ok (Reply.ofAnswer .flag (editor.lintFor revision messages))
  | .increaseFont => Reply.ofAnswer .flag <$> editor.adjustFont editor.settings.fontSizeStep
  | .decreaseFont => Reply.ofAnswer .flag <$> editor.adjustFont (-editor.settings.fontSizeStep)
  | .adjustFont delta => Reply.ofAnswer .flag <$> editor.adjustFont delta
  | .setTheme id now => .ok (Reply.ofEvents (editor.setTheme id now))
  | .setLanguage language now => .ok (Reply.ofEvents (editor.setLanguage language now))
  | .jump line now => Reply.ofAnswer .line <$> editor.jump line now
  | .click y now => Reply.ofAnswer .line <$> editor.click y now
  | .select selections => .ok (Reply.ofEvents (editor.setSelections selections))
  | .setViewportHeight height => .ok (Reply.ofEvents (editor.setViewportHeight height))
  | .scroll y => .ok (Reply.ofEvents (editor.setScrollY y))
  | .useLayout layout => (fun editor ↦ ⟨editor, [], .nothing⟩) <$> editor.useLayout layout

/-- Performs operations one after the other, and collects what was told and answered. -/
def run (editor : Editor) : List Operation → Except Fault (Editor × List (List Notice × Answer))
  | [] => .ok (editor, [])
  | operation :: rest => do
    let reply ← editor.perform operation
    let (editor, log) ← reply.editor.run rest
    return (editor, (reply.notices, reply.answer) :: log)

end Editor

end CodeEditor
