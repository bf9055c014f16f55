import CodeEditor.Proofs.Layout.Wrap
import CodeEditor.Proofs.Text.Caching

/-!
# The rows of a laid out text

A layout splits the text into lines by itself, apart from the line index that it is given. Each
line that it adds starts at the row below the one before. So a text that is laid out with its own
line index has as many lines as the index, each line has the rows of the characters that the index
assigns to it, and the rows of all lines follow each other without a gap.
-/

namespace CodeEditor.Monospace

variable {config : LayoutConfig}

/-! ## Adding lines -/

theorem lineRows_cases (config : LayoutConfig) (line : List Char) :
    lineRows config line = .error .overflow ∨ ∃ count, lineRows config line = .ok count := by
  unfold lineRows
  split
  · exact wrappedRows_cases line _ _
  · exact Or.inr ⟨1, rfl⟩

theorem addLine_cases (config : LayoutConfig) (laid : Array Nat × Nat) (line : List Char) :
    addLine config laid line = .error .overflow ∨
      ∃ next, addLine config laid line = .ok next :=
  Fault.bind_cases (lineRows_cases config line) fun _ ↦
    Fault.bind_cases (Offset.add_cases _ _) fun _ ↦ Or.inr ⟨_, rfl⟩

/-- Every line has a row. -/
theorem one_le_lineRows {line : List Char} {count : Nat} (h : lineRows config line = .ok count) :
    1 ≤ count := by
  unfold lineRows at h
  split at h
  · obtain ⟨rows, hrows, rfl⟩ := exists_wrapping h
    exact List.length_pos_iff.mpr hrows.ne_nil
  · exact Nat.le_of_eq (Except.ok.inj h)

/-- The rows at which the lines start, and below them the first row that is free. -/
structure Stacked (config : LayoutConfig) (lines : List (List Char)) (starts : Array Nat) :
    Prop where
  size : starts.size = lines.length + 1
  first : starts[0]? = some 0
  next : ∀ place line, lines[place]? = some line → ∃ start count, starts[place]? = some start ∧
    lineRows config line = .ok count ∧ starts[place + 1]? = some (start + count)
  bounded : ∀ start ∈ starts, start < Offset.bound

theorem Stacked.addLine {lines : List (List Char)} {laid next : Array Nat × Nat}
    {line : List Char} (h : Stacked config lines (laid.1.push laid.2))
    (hnext : addLine config laid line = .ok next) :
    Stacked config (lines ++ [line]) (next.1.push next.2) := by
  obtain ⟨count, hcount, hnext⟩ := Fault.bind_eq_ok.mp hnext
  obtain ⟨below, hbelow, hnext⟩ := Fault.bind_eq_ok.mp hnext
  cases hnext
  have hkept : ∀ {place start : Nat}, (laid.1.push laid.2)[place]? = some start →
      ((laid.1.push laid.2).push below)[place]? = some start := by
    intro place start hstart
    obtain ⟨hplace, -⟩ := Array.getElem?_eq_some_iff.mp hstart
    rw [Array.getElem?_push, if_neg (Nat.ne_of_lt hplace), hstart]
  have hlength : lines.length = laid.1.size := by
    have hsize := h.size
    rw [Array.size_push] at hsize
    omega
  constructor
  · rw [Array.size_push, h.size, List.length_append, List.length_singleton]
  · exact hkept h.first
  · intro place content hcontent
    rcases Nat.lt_or_ge place lines.length with hbefore | hbehind
    · rw [List.getElem?_append_left hbefore] at hcontent
      obtain ⟨start, rows, hstart, hrows, hstop⟩ := h.next place content hcontent
      exact ⟨start, rows, hkept hstart, hrows, hkept hstop⟩
    · -- The line is the one that is added; it starts where the lines before it ended.
      rw [List.getElem?_append_right hbehind, List.getElem?_singleton] at hcontent
      split at hcontent
      · obtain rfl := Option.some.inj hcontent
        obtain rfl : place = laid.1.size := by omega
        refine ⟨laid.2, count, hkept Array.getElem?_push_size, hcount, ?_⟩
        rw [← Offset.eq_of_add_eq_ok hbelow, ← Array.size_push laid.2]
        exact Array.getElem?_push_size
      · nomatch hcontent
  · intro start hstart
    obtain hstart | rfl := Array.mem_push.mp hstart
    · exact h.bounded start hstart
    · exact Offset.lt_bound_of_add_eq_ok hbelow

theorem stacked_foldlM {lines : List (List Char)} {laid : Array Nat × Nat}
    (h : lines.foldlM (addLine config) (#[], 0) = .ok laid) :
    Stacked config lines (laid.1.push laid.2) := by
  induction lines using List.reverseRecOn generalizing laid with
  | nil =>
    obtain rfl := Except.ok.inj h
    exact ⟨rfl, rfl, nofun, by decide⟩
  | append_singleton lines line ih =>
    rw [List.foldlM_append] at h
    obtain ⟨before, hbefore, h⟩ := Fault.bind_eq_ok.mp h
    obtain ⟨next, hnext, h⟩ := Fault.bind_eq_ok.mp h
    obtain rfl := Except.ok.inj h
    exact (ih hbefore).addLine hnext

/-! ## The whole layout -/

namespace Stacked

variable {lines : List (List Char)} {laid : Monospace}

theorem count_eq (h : Stacked config lines laid.rowStarts) : laid.count = lines.length := by
  rw [count, h.size, Nat.add_sub_cancel]

/-- A line takes its own rows, up to where the next one starts. -/
theorem visualRows (h : Stacked config lines laid.rowStarts) {place : Nat} {line : List Char}
    (hline : lines[place]? = some line) :
    laid.rowStarts[place + 1]? = some (laid.rowStarts.getD place 0 + laid.visualRows place) ∧
      lineRows config line = .ok (laid.visualRows place) := by
  obtain ⟨start, rows, hstart, hrows, hstop⟩ := h.next place line hline
  have hvisual : laid.visualRows place = rows := by
    rw [Monospace.visualRows, hstart, hstop]
    exact Nat.add_sub_cancel_left _ _
  rw [hvisual, Array.getD_eq_getD_getElem?, hstart]
  exact ⟨hstop, hrows⟩

/-- The rows of some of the lines are all rows above the line that follows. -/
theorem flatMap_rows (h : Stacked config lines laid.rowStarts) {place : Nat}
    (hplace : place ≤ lines.length) :
    (List.range place).flatMap
        (fun line ↦ List.range' (laid.rowStarts.getD line 0) (laid.visualRows line)) =
      List.range (laid.rowStarts.getD place 0) := by
  induction place with
  | zero => simp [Array.getD_eq_getD_getElem?, h.first]
  | succ place ih =>
    obtain ⟨hstop, -⟩ := h.visualRows (List.getElem?_eq_getElem hplace)
    have hbelow : laid.rowStarts.getD (place + 1) 0 =
        laid.rowStarts.getD place 0 + laid.visualRows place := by
      rw [Array.getD_eq_getD_getElem?, hstop, Option.getD_some]
    rw [List.range_succ, List.flatMap_append, ih (Nat.le_of_succ_le hplace), List.flatMap_singleton,
      hbelow, List.range_add, List.range'_eq_map_range]

/-- Every line has a row, so there are no more lines than rows. -/
theorem le_start (h : Stacked config lines laid.rowStarts) {place : Nat}
    (hplace : place ≤ lines.length) : place ≤ laid.rowStarts.getD place 0 := by
  induction place with
  | zero => exact Nat.zero_le _
  | succ place ih =>
    obtain ⟨hstop, hrows⟩ := h.visualRows (List.getElem?_eq_getElem hplace)
    have hone := one_le_lineRows hrows
    have hbefore := ih (Nat.le_of_succ_le hplace)
    rw [Array.getD_eq_getD_getElem?, hstop, Option.getD_some]
    omega

/-- The places of lines are within the range of offsets. -/
theorem rowsAt (h : Stacked config lines laid.rowStarts) {place : Nat}
    (hplace : place < lines.length) : laid.rowsAt place = .ok (laid.visualRows place) := by
  have hsize : place + 1 < laid.rowStarts.size := by
    rw [h.size]
    omega
  have hbound := h.bounded _ (Array.getElem_mem hsize)
  have hle := h.le_start (show place + 1 ≤ lines.length from hplace)
  rw [Array.getD_eq_getD_getElem?, Array.getElem?_eq_getElem hsize, Option.getD_some] at hle
  rw [Monospace.rowsAt, Offset.add_eq_ok (Nat.lt_of_le_of_lt hle hbound)]
  rfl

end Stacked

/-- A layout has the lines of the index of a text. Each line starts where the rows of the one before
end, has at least one row, and has as many as its characters need if lines are wrapped and else one.
Together they take the rows from the first to the last. -/
structure AgreesWith (laid : Monospace) (config : LayoutConfig) (text : String) : Prop where
  count_eq : laid.count = (LineIndex.ofText text).count
  visualRows_eq : ∀ line < laid.count, 1 ≤ laid.visualRows line ∧
    laid.rowsAt line = .ok (laid.visualRows line) ∧
    ∃ range, (LineIndex.ofText text).range line = .ok range ∧
      match config.wrapWidth with
      | some width => wrappedRows (Document.slice text.toList range.start range.stop) width
          config.tabWidth = .ok (laid.visualRows line)
      | none => laid.visualRows line = 1
  consecutive : laid.rowStarts[0]? = some 0 ∧ ∀ line < laid.count, ∃ start,
    laid.rowStarts[line]? = some start ∧
      laid.rowStarts[line + 1]? = some (start + laid.visualRows line)
  tile : ∃ total, laid.rowStarts[laid.count]? = some total ∧
    (List.range laid.count).flatMap
      (fun line ↦ List.range' (laid.rowStarts.getD line 0) (laid.visualRows line)) =
        List.range total

theorem Stacked.agreesWith {text : String} {laid : Monospace}
    (h : Stacked config (splitLines text.toList) laid.rowStarts) : laid.AgreesWith config text := by
  have hcount := h.count_eq
  constructor
  · rw [hcount, LineIndex.length_splitLines_eq_count]
  · intro line hline
    rw [hcount] at hline
    obtain ⟨-, hrows⟩ := h.visualRows (List.getElem?_eq_getElem hline)
    have hcontent := slice_range? text.toList line
    rw [List.getElem?_eq_getElem hline] at hcontent
    obtain ⟨range, hrange, hcontent⟩ := Option.map_eq_some_iff.mp hcontent
    refine ⟨one_le_lineRows hrows, h.rowsAt hline, range, ?_, ?_⟩
    · rw [LineIndex.range, LineIndex.ofText, hrange]
    · rw [lineRows] at hrows
      rw [hcontent]
      cases hwrap : config.wrapWidth with
      | some width =>
        rw [hwrap] at hrows
        exact hrows
      | none =>
        rw [hwrap] at hrows
        exact (Except.ok.inj hrows).symm
  · refine ⟨h.first, fun line hline ↦ ?_⟩
    rw [hcount] at hline
    obtain ⟨start, rows, hstart, -, -⟩ := h.next line _ (List.getElem?_eq_getElem hline)
    obtain ⟨hstop, -⟩ := h.visualRows (List.getElem?_eq_getElem hline)
    rw [Array.getD_eq_getD_getElem?, hstart] at hstop
    exact ⟨start, hstart, hstop⟩
  · have hlast : (splitLines text.toList).length < laid.rowStarts.size := by
      rw [h.size]
      exact Nat.lt_succ_self _
    refine ⟨laid.rowStarts.getD laid.count 0, ?_, ?_⟩
    · rw [hcount, Array.getD_eq_getD_getElem?, Array.getElem?_eq_getElem hlast]
      rfl
    · rw [hcount]
      exact h.flatMap_rows (Nat.le_refl _)

/-- A text that is laid out with its own line index agrees with that index in every line, or its
rows leave the range of offsets; this does not happen if a row and one more character fit into that
range, and so does a text that is longer by one character. -/
theorem relayout_agreesWith (layout : Monospace) (text : String) (fontSize : Float32) :
    (layout.relayout text.toList (.ofText text) fontSize = .error .overflow ∨
      ∃ laid, layout.relayout text.toList (.ofText text) fontSize = .ok laid ∧
        laid.AgreesWith layout.config text) ∧
    (layout.config.Fits → text.toList.length + 1 < Offset.bound →
      ∃ laid, layout.relayout text.toList (.ofText text) fontSize = .ok laid) := by
  refine ⟨?_, fun hfits htext ↦ relayout_eq_ok hfits htext fontSize⟩
  obtain hstops | ⟨⟨starts, rows⟩, hlines⟩ :=
    Fault.foldlM_cases (addLine_cases layout.config) (splitLines text.toList) (#[], 0)
  · exact Or.inl (by rw [relayout, hstops]; rfl)
  · have hstacked := stacked_foldlM hlines
    have hsize : (starts.push rows).size = (LineIndex.ofText text).count + 1 := by
      rw [hstacked.size, LineIndex.length_splitLines_eq_count]
    exact Or.inr ⟨_, relayout_of_lines hlines hsize fontSize, Stacked.agreesWith hstacked⟩

/-- Six rows of two cells: three for a letter, a tab and a letter, one for an empty line, two for
three letters. -/
theorem relayout_agreesWith_wrapped_tab :
    let layout := ofConfig { wrapWidth := some 2 }
    let text := "a\tb\r\n\nccc"
    layout.config.Fits ∧ text.toList.length + 1 < Offset.bound ∧
      ∃ laid, layout.relayout text.toList (.ofText text) 14 = .ok laid ∧
        laid.AgreesWith layout.config text ∧ laid.rowStarts = #[0, 3, 4, 6] := by
  intro layout text
  have hfits : layout.config.Fits := by decide
  have htext : text.toList.length + 1 < Offset.bound := by decide
  have hresult : (layout.relayout text.toList (.ofText text) 14).toOption.map (·.rowStarts) =
      some #[0, 3, 4, 6] := by
    decide +kernel
  obtain ⟨hrows, hexists⟩ := relayout_agreesWith layout text 14
  obtain ⟨laid, hlaid⟩ := hexists hfits htext
  obtain hstops | ⟨other, hother, hagrees⟩ := hrows
  · rw [hstops] at hlaid
    nomatch hlaid
  · rw [hother] at hresult
    exact ⟨hfits, htext, other, hother, hagrees, Option.some.inj hresult⟩

end CodeEditor.Monospace
