import CodeEditor.Decoration.Layers
import CodeEditor.Style.StyledText

/-!
# Rendering

The spans that are drawn: the styling of a text with the decorations painted over it, later
layers over earlier ones. Underlines and flashes leave the colour and weight of the text alone.
-/

namespace CodeEditor

def LintSeverity.color (severity : LintSeverity) (theme : Theme) : Color :=
  match severity with
  | .error => theme.lintError
  | .warning => theme.lintWarning

/-- Paints a decoration over a style. -/
def Style.overlay (theme : Theme) (style : Style) (kind : DecorationKind) : Style :=
  match kind with
  | .underline severity =>
    { style with underline := some .squiggle, underlineColor := some (severity.color theme) }
  | .flash => { style with background := some theme.flashBackground }

/-- Painting leaves the colour and weight of the text alone. -/
theorem Style.overlay_text (theme : Theme) (style : Style) (kind : DecorationKind) :
    (style.overlay theme kind).foreground = style.foreground ∧
      (style.overlay theme kind).bold = style.bold ∧
      (style.overlay theme kind).italic = style.italic := by
  cases kind <;> exact ⟨rfl, rfl, rfl⟩

namespace Render

/-- Every offset at which the drawing can change, in order. -/
def boundaries (styled : StyledText) (decorations : List Decoration) : List Nat :=
  let spanEnds := styled.spans.flatMap fun span ↦ [span.start, span.stop]
  let decorationEnds := decorations.flatMap fun decoration ↦ [decoration.start, decoration.stop]
  ((spanEnds ++ decorationEnds.filter (· ≤ styled.length)).mergeSort).eraseReps

/-- The drawing of the offsets between two neighbouring boundaries. -/
def piece? (styled : StyledText) (decorations : List Decoration) (theme : Theme)
    (start stop : Nat) : Option Span :=
  (styled.styleAt? start).map fun style ↦
    let covering := decorations.filter fun decoration ↦
      decoration.start ≤ start && stop ≤ decoration.stop
    ⟨start, stop, covering.foldl (fun style decoration ↦ style.overlay theme decoration.kind) style⟩

def compose (styled : StyledText) (layers : Layers) (theme : Theme) : List Span :=
  let decorations := layers.decorations.filter (!·.isPoint)
  if decorations.isEmpty then styled.spans
  else
    let offsets := boundaries styled decorations
    let pieces := (offsets.zip offsets.tail).filterMap fun (start, stop) ↦
      piece? styled decorations theme start stop
    pieces.foldr Span.join []

end Render

end CodeEditor
