import CodeEditor.Layout.Basic
import CodeEditor.Proofs.Fault
import CodeEditor.Proofs.Text.LineIndex

/-!
# Laying a text out anew

Of a layout only its configuration enters a new layout of a text, so a text that is laid out is
laid out the same way again. A text is laid out without leaving the range of rows and cells if a
row and one more character fit into that range; it has at most one row more than characters.
-/

namespace CodeEditor

/-! ## Repetition -/

namespace Monospace

theorem relayout_congr {layout other : Monospace} (h : layout.config = other.config)
    (text : List Char) (lines : LineIndex) (fontSize : Float32) :
    layout.relayout text lines fontSize = other.relayout text lines fontSize := by
  obtain ⟨config, rowHeight, rowStarts⟩ := layout
  obtain ⟨config', rowHeight', rowStarts'⟩ := other
  obtain rfl : config = config' := h
  rfl

theorem config_of_relayout {layout laid : Monospace} {text : List Char} {lines : LineIndex}
    {fontSize : Float32} (h : layout.relayout text lines fontSize = .ok laid) :
    laid.config = layout.config := by
  obtain ⟨rows, -, h⟩ := Fault.bind_eq_ok.mp h
  dsimp only at h
  split at h
  · nomatch h
  · rw [← Except.ok.inj h]

end Monospace

namespace Layout

/-- A layout that came from another lays every text out as that one does. -/
theorem relayout_of_relayout {layout laid : Layout} {text : List Char} {lines : LineIndex}
    {fontSize : Float32} (h : layout.relayout text lines fontSize = .ok laid)
    (text' : List Char) (lines' : LineIndex) (fontSize' : Float32) :
    laid.relayout text' lines' fontSize' = layout.relayout text' lines' fontSize' := by
  cases layout with
  | fixed heights =>
    rw [← Except.ok.inj h]
  | monospace layout =>
    obtain ⟨inner, hinner, rfl⟩ := Fault.map_eq_ok.mp h
    rw [relayout, Monospace.relayout_congr (Monospace.config_of_relayout hinner)]
    rfl

end Layout

/-! ## Range -/

/-- The cells of the longest row that a layout can need. -/
def LayoutConfig.rowCells (width tabWidth : Nat) : Nat := max width (max tabWidth 3)

/-- A row and one more character fit into the range of cells. -/
def LayoutConfig.Fits (config : LayoutConfig) : Prop :=
  ∀ width ∈ config.wrapWidth, rowCells width config.tabWidth + max config.tabWidth 3 < Offset.bound

instance (config : LayoutConfig) : Decidable config.Fits :=
  inferInstanceAs (Decidable (∀ width ∈ config.wrapWidth,
    LayoutConfig.rowCells width config.tabWidth + max config.tabWidth 3 < Offset.bound))

theorem Unicode.width_le (c : Char) : (width? c).getD 1 ≤ 3 := by
  unfold width?
  split
  · decide
  · split
    · decide
    · split
      · decide
      · split
        · decide
        · split <;> decide

theorem cellWidth_le (c : Char) (position tabWidth : Nat) :
    cellWidth c position tabWidth ≤ max tabWidth 3 := by
  by_cases h : c = '\t'
  · rw [h, cellWidth_tab]
    omega
  · rw [cellWidth_of_ne_tab h]
    exact Nat.le_trans (Unicode.width_le c) (Nat.le_max_right _ _)

/-- A character adds at most one row. It adds at most the cells of a tab or of a wide character,
and never more than a row can need. -/
theorem Rows.add_eq_ok {width tabWidth : Nat} {rows : Rows}
    (hcells : rows.cells + max tabWidth 3 < Offset.bound)
    (hcount : rows.count + 1 < Offset.bound) (c : Char) :
    ∃ next, Rows.add width tabWidth rows c = .ok next ∧ next.count ≤ rows.count + 1 ∧
      next.cells ≤ rows.cells + max tabWidth 3 ∧
      next.cells ≤ max rows.cells (LayoutConfig.rowCells width tabWidth) := by
  have hwidth := cellWidth_le c rows.cells tabWidth
  have hwidth' := cellWidth_le c 0 tabWidth
  unfold Rows.add
  split
  · exact ⟨rows, rfl, Nat.le_succ _, Nat.le_add_right _ _, Nat.le_max_left _ _⟩
  · have hcellsFit : rows.cells + cellWidth c rows.cells tabWidth < Offset.bound := by omega
    rw [Offset.add_eq_ok hcellsFit]
    change ∃ next, (if (decide (0 < rows.cells) && decide (max width 1 <
      rows.cells + cellWidth c rows.cells tabWidth)) = true then _ else _) = _ ∧ _
    unfold LayoutConfig.rowCells
    split
    · rw [Offset.add_eq_ok hcount]
      exact ⟨_, rfl, Nat.le_refl _, by dsimp only; omega, by dsimp only; omega⟩
    · rename_i hfree
      refine ⟨_, rfl, Nat.le_succ _, by dsimp only; omega, ?_⟩
      simp only [Bool.and_eq_true, decide_eq_true_eq, not_and, Nat.not_lt] at hfree
      dsimp only
      by_cases hempty : rows.cells = 0
      · rw [hempty] at hwidth ⊢
        omega
      · have := hfree (Nat.pos_of_ne_zero hempty)
        omega

/-- A line is laid out if one more character fits behind its longest row, or if all of it fits into
one row. -/
theorem foldlM_rows_eq_ok {width tabWidth : Nat} (line : List Char) {rows : Rows}
    (hcells : max rows.cells (LayoutConfig.rowCells width tabWidth) + max tabWidth 3 < Offset.bound ∨
      rows.cells + line.length * max tabWidth 3 < Offset.bound)
    (hcount : rows.count + line.length < Offset.bound) :
    ∃ laid, line.foldlM (Rows.add width tabWidth) rows = .ok laid ∧
      laid.count ≤ rows.count + line.length := by
  induction line generalizing rows with
  | nil => exact ⟨rows, rfl, Nat.le_refl _⟩
  | cons c rest ih =>
    rw [List.length_cons] at hcells hcount ⊢
    rw [Nat.succ_mul] at hcells
    obtain ⟨next, hnext, hnextCount, hnextCells, hnextRow⟩ :=
      @Rows.add_eq_ok width tabWidth rows (by omega) (by omega) c
    obtain ⟨laid, hlaid, hlaidCount⟩ := @ih next (by omega) (by omega)
    refine ⟨laid, ?_, by omega⟩
    rw [List.foldlM_cons, hnext]
    exact hlaid

/-- A line has at most one row more than characters. -/
theorem lineRows_eq_ok {config : LayoutConfig} (hfits : config.Fits) {line : List Char}
    (hline : line.length + 1 < Offset.bound) :
    ∃ rows, Monospace.lineRows config line = .ok rows ∧ rows ≤ line.length + 1 := by
  unfold Monospace.lineRows
  split
  · rename_i width hwidth
    have hfirst : Rows.first.count = 1 := rfl
    have hcells : max Rows.first.cells (LayoutConfig.rowCells width config.tabWidth) +
        max config.tabWidth 3 < Offset.bound := by
      rw [show Rows.first.cells = 0 from rfl, Nat.zero_max]
      exact hfits width hwidth
    obtain ⟨laid, hlaid, hcount⟩ := foldlM_rows_eq_ok line (Or.inl hcells) (by omega)
    exact ⟨laid.count, by rw [wrappedRows, hlaid]; rfl, by omega⟩
  · exact ⟨1, rfl, Nat.le_add_left _ _⟩

namespace Monospace

theorem addLine_eq_ok {config : LayoutConfig} {line : List Char} {count : Nat}
    (hcount : lineRows config line = .ok count) {starts : Array Nat} {rows : Nat}
    (hrows : rows + count < Offset.bound) :
    addLine config (starts, rows) line = .ok (starts.push rows, rows + count) := by
  unfold addLine
  rw [hcount]
  change (do return (starts.push rows, ← Offset.add rows count)) = _
  rw [Offset.add_eq_ok hrows]
  rfl

/-- Lines are laid out below so many rows if one row for each character and each line is left. -/
theorem foldlM_addLine_eq_ok {config : LayoutConfig} (hfits : config.Fits)
    (lines : List (List Char)) {starts : Array Nat} {rows : Nat}
    (h : rows + (lines.flatten.length + lines.length) < Offset.bound) :
    ∃ laid, lines.foldlM (addLine config) (starts, rows) = .ok laid ∧
      laid.1.size = starts.size + lines.length := by
  induction lines generalizing starts rows with
  | nil => exact ⟨(starts, rows), rfl, rfl⟩
  | cons line rest ih =>
    rw [List.flatten_cons, List.length_append, List.length_cons] at h
    obtain ⟨count, hcount, hle⟩ :=
      lineRows_eq_ok hfits (show line.length + 1 < Offset.bound by omega)
    obtain ⟨laid, hlaid, hsize⟩ := @ih (starts.push rows) (rows + count) (by omega)
    refine ⟨laid, ?_, ?_⟩
    · rw [List.foldlM_cons, addLine_eq_ok hcount (by omega)]
      exact hlaid
    · rw [hsize, Array.size_push, List.length_cons]
      omega

/-- The lines of a text make a layout of it if they are as many as the index has. -/
theorem relayout_of_lines {layout : Monospace} {text : List Char} {lines : LineIndex}
    {starts : Array Nat} {rows : Nat}
    (hlines : (splitLines text).foldlM (addLine layout.config) (#[], 0) = .ok (starts, rows))
    (hsize : (starts.push rows).size = lines.count + 1) (fontSize : Float32) :
    layout.relayout text lines fontSize = .ok { layout with
      rowHeight := fontSize * layout.config.lineHeightFactor, rowStarts := starts.push rows } := by
  unfold relayout
  rw [hlines]
  change (if (starts.push rows).size ≠ lines.count + 1 then _ else _) = _
  rw [if_neg (not_not_intro hsize)]
  rfl

/-- A text is laid out with its own line index if its rows fit. -/
theorem relayout_eq_ok {layout : Monospace} (hfits : layout.config.Fits) {text : String}
    (htext : text.toList.length + 1 < Offset.bound) (fontSize : Float32) :
    ∃ laid, layout.relayout text.toList (.ofText text) fontSize = .ok laid := by
  obtain ⟨⟨starts, rows⟩, hlines, hsize⟩ := @foldlM_addLine_eq_ok _ hfits
    (splitLines text.toList) #[] 0 (by rw [length_flatten_splitLines]; omega)
  have hcount : (starts.push rows).size = (LineIndex.ofText text).count + 1 := by
    rw [Array.size_push, ← LineIndex.length_splitLines_eq_count]
    exact congrArg (· + 1) (hsize.trans (Nat.zero_add _))
  exact ⟨_, relayout_of_lines hlines hcount fontSize⟩

end Monospace

namespace Layout

/-- A layout with fixed heights needs no rows. -/
def Fits : Layout → Prop
  | monospace layout => layout.config.Fits
  | fixed _ => True

instance : DecidablePred Fits
  | monospace layout => inferInstanceAs (Decidable layout.config.Fits)
  | fixed _ => isTrue trivial

theorem relayout_eq_ok {layout : Layout} (hfits : layout.Fits) {text : String}
    (htext : text.toList.length + 1 < Offset.bound) (fontSize : Float32) :
    ∃ laid, layout.relayout text.toList (.ofText text) fontSize = .ok laid ∧ laid.Fits := by
  cases layout with
  | fixed heights => exact ⟨fixed heights, rfl, hfits⟩
  | monospace layout =>
    obtain ⟨laid, hlaid⟩ := Monospace.relayout_eq_ok hfits htext fontSize
    refine ⟨monospace laid, by rw [relayout, hlaid]; rfl, ?_⟩
    change laid.config.Fits
    rw [Monospace.config_of_relayout hlaid]
    exact hfits

end Layout

end CodeEditor
