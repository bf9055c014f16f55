import CodeEditor.Decoration.Layers
import CodeEditor.Text.LineIndex

/-!
# Lint messages

A lint message belongs to a line, counted from one. Each message whose line exists underlines the
content of that line; the order of the underlines does not depend on that of the messages.
-/

namespace CodeEditor

structure LintMessage where
  line : Nat
  text : String
  severity : LintSeverity := .error
  deriving DecidableEq, Repr

namespace DecorationKind

/-- Warnings come before errors, and underlines before flashes. -/
def rank : DecorationKind → Nat
  | underline .warning => 0
  | underline .error => 1
  | flash => 2

end DecorationKind

/-- Compares decorations by range, kind and tooltip. -/
def Decoration.order (a b : Decoration) : Ordering :=
  (compare a.start b.start).then <| (compare a.stop b.stop).then <|
    (compare a.kind.rank b.kind.rank).then <| compare a.tooltip b.tooltip

namespace Lint

/-- The underline of a message, if its line exists. -/
def underline? (lines : LineIndex) (message : LintMessage) : Option Decoration :=
  if message.line = 0 then none
  else (lines.range? (message.line - 1)).map fun range ↦
    .underline range.start range.stop message.severity (some message.text)

def decorations (lines : LineIndex) (messages : List LintMessage) : List Decoration :=
  (messages.filterMap (underline? lines)).mergeSort fun a b ↦ (a.order b).isLE

def messagesOn (messages : List LintMessage) (line : Nat) : List LintMessage :=
  messages.filter (·.line == line)

/-- The worst severity on a line, counted from one. -/
def severityOn (messages : List LintMessage) (line : Nat) : Option LintSeverity :=
  let severities := (messagesOn messages line).map (·.severity)
  if severities.contains .error then some .error
  else if severities.contains .warning then some .warning
  else none

end Lint

end CodeEditor
