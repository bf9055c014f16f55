import CodeEditor.Highlight.Schedule
import CodeEditor.Layout.Basic
import CodeEditor.Settings

/-!
# Events

What an editor tells its subscribers, and, in one order with it, when it asked its highlighter.
-/

namespace CodeEditor

inductive Event where
  | textChanged (revision : Nat) (text : String) (edit : Edit)
  | lintRequested (revision : Nat) (text : String) (language : Language)
  | highlightApplied (generation : Generation)
  | decorationsChanged (layer : Nat)
  | gutterRepaint
  | selectionChanged
  | scrollChanged (scrollY : Extent)
  | displayChanged (display : Display)
  | jumpStarted (line : Nat)
  | jumpFinished (line : Nat)
  deriving DecidableEq

inductive Notice where
  | event (event : Event)
  | highlighterAsked (request : HighlightRequest)
  deriving DecidableEq

end CodeEditor
