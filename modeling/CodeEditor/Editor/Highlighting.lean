import CodeEditor.Editor.Basic

/-!
# Highlighting, linting and the passing of time

Results of highlighting and linting come late. A styling counts only if it is that of the current
request; lint messages wait until no highlighting is under way.
-/

namespace CodeEditor.Editor

/-- The events that tell of new underlines. -/
def lintEvents : List Event := [.decorationsChanged Layers.lint, .gutterRepaint]

def poll (editor : Editor) (now : Nat) : Editor × Option Job :=
  let (schedule, job) := editor.schedule.poll now
  ({ editor with schedule }, job)

/-- Takes the result of a pass over, unless it is stale. -/
def complete (editor : Editor) (generation : Generation) (styled : StyledText) :
    Editor × List Event × Schedule.Completion :=
  let (schedule, completion) := editor.schedule.complete generation
  let editor := { editor with schedule }
  match completion with
  | .stale => (editor, [], .stale)
  | .current =>
    let length := editor.document.length
    let editor := applyLint { editor with
      styled := .normalized styled.spans length editor.theme.plain
      selections := editor.selections.clamp length }
    (editor, .highlightApplied generation :: lintEvents, .current)

/-- Ends a flash that is over. -/
def expireFlash (editor : Editor) (now : Nat) : Editor × List Event :=
  match editor.flash.expire now with
  | (flash, some line) =>
    ({ editor with flash, decorations := editor.decorations.clear Layers.flash },
      [.decorationsChanged Layers.flash, .jumpFinished line])
  | (_, none) => (editor, [])

/-- Runs the pass that is due, if there is one. -/
def runHighlight (editor : Editor) (now : Nat) : Editor × List Notice :=
  match editor.poll now with
  | (editor, some job) =>
    let styled := editor.highlighter.highlightOrPlain job.request
    let (editor, events, _) := editor.complete job.generation styled
    (editor, .highlighterAsked job.request :: events.map .event)
  | (editor, none) => (editor, [])

/-- Does what is due at a time. -/
def tick (editor : Editor) (now : Nat) : Editor × List Notice :=
  let (editor, events) := editor.expireFlash now
  let (editor, notices) := editor.runHighlight now
  (editor, events.map .event ++ notices)

/-- Takes lint messages over, which show at once if no highlighting is under way. -/
def lint (editor : Editor) (messages : List LintMessage) : Editor × List Event :=
  let editor := { editor with
    lintMessages := messages
    lintRevision := some editor.document.revision }
  if editor.schedule.isBusy then (editor, []) else (editor.applyLint, lintEvents)

/-- Takes lint messages over if they belong to the current revision. -/
def lintFor (editor : Editor) (revision : Nat) (messages : List LintMessage) :
    Editor × List Event × Bool :=
  if revision = editor.document.revision then
    let (editor, events) := editor.lint messages
    (editor, events, true)
  else
    (editor, [], false)

end CodeEditor.Editor
