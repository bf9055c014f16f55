import CodeEditor.Style.Theme
import CodeEditor.Text.Edit

/-!
# Styled texts

A styled text divides the offsets of a text into spans of one style each. Its spans leave no gap,
do not overlap, and neighbours differ in style. Any list of spans can be brought into this form:
where spans overlap, the one that starts earlier wins, and gaps take a filling style.
-/

namespace CodeEditor

/-- The offsets from the start up to the stop, in one style. -/
structure Span where
  start : Nat
  stop : Nat
  style : Style
  deriving DecidableEq, Repr

namespace Span

def contains (span : Span) (offset : Nat) : Bool := span.start ≤ offset && offset < span.stop

/-- By start, and by end where the starts are equal. -/
def precedes (a b : Span) : Bool :=
  a.start < b.start || (a.start == b.start && a.stop ≤ b.stop)

/-- Puts a span in front of others, and joins it with the first if they meet in one style. -/
def join (span : Span) : List Span → List Span
  | [] => [span]
  | next :: rest =>
    if span.stop = next.start ∧ span.style = next.style then
      { span with stop := next.stop } :: rest
    else
      span :: next :: rest

/-- Lays sorted spans down from an offset up to the length of the text, each on what is still
free, and fills what they leave. -/
def lay (length : Nat) (fill : Style) (cursor : Nat) : List Span → List Span
  | [] => if cursor < length then [⟨cursor, length, fill⟩] else []
  | span :: rest =>
    let start := max span.start cursor
    let stop := min span.stop length
    if stop ≤ start then
      lay length fill cursor rest
    else
      let laid := join ⟨start, stop, span.style⟩ (lay length fill stop rest)
      if cursor < start then join ⟨cursor, start, fill⟩ laid else laid

/-- What the edit leaves of a span. -/
def map? (edit : Edit) (span : Span) : Except Fault (Option Span) := do
  let (start, stop) ← edit.mapRange span.start span.stop
  return if start < stop then some ⟨start, stop, span.style⟩ else none

end Span

structure StyledText where
  spans : List Span
  length : Nat
  deriving DecidableEq, Repr

namespace StyledText

def empty : StyledText := ⟨[], 0⟩

def isEmpty (styled : StyledText) : Bool := styled.length == 0

def uniform (length : Nat) (style : Style) : StyledText :=
  ⟨if length = 0 then [] else [⟨0, length, style⟩], length⟩

/-- The styled text of a list of spans. Empty spans and those past the end do not count. -/
def normalized (spans : List Span) (length : Nat) (fill : Style) : StyledText :=
  let kept := spans.filter fun span ↦ span.start < span.stop && span.start < length
  ⟨Span.lay length fill 0 (kept.mergeSort Span.precedes), length⟩

/-- The style of the character at an offset. -/
def styleAt? (styled : StyledText) (offset : Nat) : Option Style :=
  (styled.spans.find? (·.contains offset)).map (·.style)

/-- The style that typing at an offset takes: that of the character before it. -/
def typingStyle (styled : StyledText) (offset : Nat) (fill : Style) : Style :=
  match styled.spans.find? fun span ↦ span.start < offset && offset ≤ span.stop with
  | some span => span.style
  | none => fill

/-- The styled text carried across an edit of its text. -/
def applyEdit (styled : StyledText) (edit : Edit) (fill : Style) : Except Fault StyledText := do
  let length ← edit.mapLength styled.length
  let kept ← styled.spans.mapM (Span.map? edit)
  let typed ←
    if 0 < edit.inserted then
      pure [⟨edit.start, ← edit.newEnd, styled.typingStyle edit.start fill⟩]
    else
      pure []
  return normalized (kept.filterMap id ++ typed) length fill

end StyledText

end CodeEditor
