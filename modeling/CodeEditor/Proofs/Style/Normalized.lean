import CodeEditor.Proofs.Style.Tiling

/-!
# The styles of spans brought into form

At each offset, spans that are sorted by their starts give the style of the first of them that
contains it once they are laid down, and the filling style where there is none.
-/

namespace CodeEditor

theorem Span.contains_iff {span : Span} {offset : Nat} :
    span.contains offset = true ↔ span.start ≤ offset ∧ offset < span.stop := by
  rw [Span.contains, Bool.and_eq_true, decide_eq_true_eq, decide_eq_true_eq]

namespace StyledText

/-- The style of the first span that contains an offset. -/
def firstStyle (spans : List Span) (fill : Style) (offset : Nat) : Style :=
  ((spans.find? (·.contains offset)).map (·.style)).getD fill

theorem firstStyle_cons (span : Span) (rest : List Span) (fill : Style) (offset : Nat) :
    firstStyle (span :: rest) fill offset =
      if span.contains offset then span.style else firstStyle rest fill offset := by
  unfold firstStyle
  rw [List.find?_cons]
  cases span.contains offset <;> rfl

theorem firstStyle_of_forall {spans : List Span} {offset : Nat}
    (h : ∀ span ∈ spans, span.contains offset = false) (fill : Style) :
    firstStyle spans fill offset = fill := by
  unfold firstStyle
  rw [List.find?_eq_none.mpr (by simpa using h)]
  rfl

/-- A span that finds room takes it, the offsets before it are filled, and the others are left. -/
theorem styleAt?_lay_cons {span : Span} {length cursor offset : Nat} (fill : Style)
    (rest : List Span) (hroom : max span.start cursor < min span.stop length)
    (hcursor : cursor ≤ offset) :
    styleAt? ⟨Span.lay length fill cursor (span :: rest), length⟩ offset =
      if offset < max span.start cursor then some fill
      else if offset < min span.stop length then some span.style
      else styleAt? ⟨Span.lay length fill (min span.stop length) rest, length⟩ offset := by
  let laid : Span := ⟨max span.start cursor, min span.stop length, span.style⟩
  let gap : Span := ⟨cursor, max span.start cursor, fill⟩
  have hrest := Span.lay_tiles length fill rest (Nat.min_le_right span.stop length)
  have hlaid : Tiles laid.start length
      (laid.join (Span.lay length fill (min span.stop length) rest)) := Tiles.join hroom hrest
  have hstyle := @styleAt?_join laid _ _ hroom hrest length offset
  rw [styleAt?_cons] at hstyle
  have hinside (h : ¬offset < max span.start cursor) :
      laid.contains offset = true ↔ offset < min span.stop length := by
    rw [Span.contains_iff]
    exact and_iff_right (Nat.not_lt.mp h)
  rw [Span.lay]
  dsimp only
  rw [if_neg (Nat.not_le.mpr hroom)]
  by_cases hbefore : offset < max span.start cursor
  · have hgap : gap.contains offset = true := Span.contains_iff.mpr ⟨hcursor, hbefore⟩
    rw [if_pos (by omega), @styleAt?_join gap _ _ (by dsimp only [gap]; omega) hlaid,
      styleAt?_cons, if_pos hgap, if_pos hbefore]
  · simp only [hinside hbefore, laid] at hstyle
    rw [if_neg hbefore]
    split
    · rename_i hgap
      have houtside : ¬gap.contains offset = true := fun hcontains ↦
        hbefore (Span.contains_iff.mp hcontains).2
      rw [@styleAt?_join gap _ _ hgap hlaid, styleAt?_cons, if_neg houtside]
      exact hstyle
    · exact hstyle

/-- Where sorted spans are laid down, the first that contains an offset gives its style. -/
theorem styleAt?_lay {spans : List Span} {length cursor offset : Nat} (fill : Style)
    (hsorted : spans.Pairwise fun a b ↦ a.start ≤ b.start) (hcursor : cursor ≤ offset)
    (hlength : offset < length) :
    styleAt? ⟨Span.lay length fill cursor spans, length⟩ offset =
      some (firstStyle spans fill offset) := by
  induction spans generalizing cursor with
  | nil =>
    unfold Span.lay
    rw [if_pos (by omega), styleAt?_cons, if_pos (Span.contains_iff.mpr ⟨hcursor, hlength⟩)]
    rfl
  | cons span rest ih =>
    obtain ⟨hfirst, hrest⟩ := List.pairwise_cons.mp hsorted
    rw [firstStyle_cons]
    by_cases hroom : max span.start cursor < min span.stop length
    · rw [styleAt?_lay_cons fill rest hroom hcursor]
      by_cases hbefore : offset < max span.start cursor
      · -- The spans behind begin no earlier, so none of them contains the offset either.
        have houtside : ∀ other ∈ rest, other.contains offset = false := by
          intro other hother
          have := hfirst other hother
          rw [← Bool.not_eq_true, Span.contains_iff]
          omega
        rw [if_pos hbefore, firstStyle_of_forall houtside,
          if_neg (by rw [Span.contains_iff]; omega)]
      · rw [if_neg hbefore]
        by_cases hinside : offset < min span.stop length
        · rw [if_pos hinside, if_pos (by rw [Span.contains_iff]; omega)]
        · rw [if_neg hinside, ih hrest (by omega), if_neg (by rw [Span.contains_iff]; omega)]
    · unfold Span.lay
      dsimp only
      rw [if_pos (Nat.not_lt.mp hroom), ih hrest hcursor,
        if_neg (by rw [Span.contains_iff]; omega)]

end StyledText

end CodeEditor
