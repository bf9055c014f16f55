import CodeEditor.Language
import CodeEditor.Style.StyledText

/-!
# Highlighting requests

A highlighter styles a text for a language and a theme, or fails. Whatever it answers can be made
to fit the text: a result of another length is cut or filled, a failure leaves the text plain.
-/

namespace CodeEditor

structure HighlightRequest where
  text : String
  language : Language
  themeId : String
  deriving DecidableEq, Repr

inductive HighlightError where
  | unknownTheme (id : String)
  | failed (reason : String)
  deriving DecidableEq, Repr

def HighlightError.message : HighlightError → String
  | unknownTheme id => "unknown theme `" ++ id ++ "`"
  | failed reason => "highlighting failed: " ++ reason

structure Highlighter where
  highlight : HighlightRequest → Except HighlightError StyledText
  theme? : String → Option Theme := Theme.builtin?

namespace Highlighter

def themeOrDefault (highlighter : Highlighter) (id : String) : Theme :=
  (highlighter.theme? id).getD .light

/-- A text without highlighting. -/
def plainText (text : String) (theme : Theme) : StyledText :=
  .uniform text.toList.length theme.plain

/-- The result of the highlighter made to fit the text, or the plain text if it fails. -/
def highlightOrPlain (highlighter : Highlighter) (request : HighlightRequest) : StyledText :=
  let theme := highlighter.themeOrDefault request.themeId
  match highlighter.highlight request with
  | .ok styled => .normalized styled.spans request.text.toList.length theme.plain
  | .error _ => plainText request.text theme

/-- Styles every text like plain text. -/
def plain : Highlighter where
  highlight request :=
    match Theme.builtin? request.themeId with
    | some theme => .ok (plainText request.text theme)
    | none => .error (.unknownTheme request.themeId)

/-- Fails on every text. -/
def failing (reason : String) : Highlighter where
  highlight _ := .error (.failed reason)

/-- Gives every text the same styling. -/
def constant (styled : StyledText) : Highlighter where
  highlight _ := .ok styled

end Highlighter

end CodeEditor
