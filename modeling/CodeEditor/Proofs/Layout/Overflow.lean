import CodeEditor.Proofs.Layout.Rows
import CodeEditor.Settings

/-!
# Layouts that overflow

The width of a tab is bounded from below only, and a character is added to the cells of its row
before they are compared with the width. So there are configurations, and settings that load them,
with which some text cannot be laid out. A text is laid out unless a character of a wrapped line
ends outside the range of offsets, and that happens to some text if and only if a tab or a wide
character that follows the longest row ends there.
-/

namespace CodeEditor

variable {width tabWidth : Nat}

/-! ## Rows in unbounded numbers -/

namespace Rows

variable {rows : Rows} {c : Char}

/-- Adds a character, on a new row if it does not fit, however many cells that makes. -/
def next (width tabWidth : Nat) (rows : Rows) (c : Char) : Rows :=
  if c = '\r' then rows
  else
    let reached := rows.cells + cellWidth c rows.cells tabWidth
    if rows.cells = 0 ∨ reached ≤ max width 1 then ⟨rows.count, reached⟩
    else ⟨rows.count + 1, cellWidth c 0 tabWidth⟩

/-- The character would end outside the range of offsets. -/
def Overruns (tabWidth : Nat) (rows : Rows) (c : Char) : Prop :=
  c ≠ '\r' ∧ Offset.bound ≤ rows.cells + cellWidth c rows.cells tabWidth

instance (tabWidth : Nat) (rows : Rows) (c : Char) : Decidable (Overruns tabWidth rows c) :=
  inferInstanceAs (Decidable (_ ∧ _))

theorem count_next_le (width tabWidth : Nat) (rows : Rows) (c : Char) :
    (next width tabWidth rows c).count ≤ rows.count + 1 := by
  unfold next
  split
  · exact Nat.le_succ _
  · dsimp only
    split
    · exact Nat.le_succ _
    · exact Nat.le_refl _

theorem eq_next_of_add_eq_ok {added : Rows} (h : add width tabWidth rows c = .ok added) :
    added = next width tabWidth rows c := by
  unfold next
  split
  · rename_i hc
    rw [add, if_pos hc] at h
    exact (Except.ok.inj h).symm
  · rename_i hc
    obtain ⟨hfits, rfl⟩ | ⟨hpos, hfull, rfl⟩ := cases_of_add_eq_ok hc h
    · exact (if_pos hfits).symm
    · exact (if_neg (by omega)).symm

theorem add_of_overruns (h : Overruns tabWidth rows c) :
    add width tabWidth rows c = .error .overflow := by
  rw [add, if_neg h.1, Offset.add, if_neg (Nat.not_lt.mpr h.2)]
  rfl

/-- Nothing else stops a character, as long as rows can be counted. -/
theorem add_of_not_overruns (hcount : rows.count + 1 < Offset.bound)
    (h : ¬Overruns tabWidth rows c) :
    add width tabWidth rows c = .ok (next width tabWidth rows c) := by
  obtain hstops | ⟨added, hadded⟩ := add_cases width tabWidth rows c
  · exfalso
    unfold add at hstops
    split at hstops
    · nomatch hstops
    · rename_i hc
      rw [Offset.add_eq_ok (Nat.not_le.mp fun hle ↦ h ⟨hc, hle⟩)] at hstops
      change (if _ then _ else _) = _ at hstops
      split at hstops
      · rw [Offset.add_eq_ok hcount] at hstops
        nomatch hstops
      · nomatch hstops
  · rw [hadded, eq_next_of_add_eq_ok hadded]

/-- A line stops at its first character that ends outside the range. -/
theorem foldlM_add_eq_overflow_iff {line : List Char}
    (hcount : rows.count + line.length < Offset.bound) :
    line.foldlM (add width tabWidth) rows = .error .overflow ↔
      ∃ front c back, line = front ++ c :: back ∧
        Overruns tabWidth (front.foldl (next width tabWidth) rows) c := by
  induction line generalizing rows with
  | nil => exact ⟨fun h ↦ (nomatch h), fun ⟨front, c, back, h, _⟩ ↦ absurd h (by simp)⟩
  | cons first rest ih =>
    rw [List.length_cons] at hcount
    rw [List.foldlM_cons]
    by_cases hfirst : Overruns tabWidth rows first
    · rw [add_of_overruns hfirst]
      exact iff_of_true rfl ⟨[], first, rest, rfl, hfirst⟩
    · have hnext := count_next_le width tabWidth rows first
      rw [add_of_not_overruns (by omega) hfirst]
      refine (@ih (next width tabWidth rows first) (by omega)).trans ⟨?_, ?_⟩
      · rintro ⟨front, c, back, rfl, hc⟩
        exact ⟨first :: front, c, back, rfl, hc⟩
      · rintro ⟨front, c, back, hline, hc⟩
        cases front with
        | nil =>
          obtain ⟨rfl, rfl⟩ := List.cons.inj hline
          exact absurd hc hfirst
        | cons _ front =>
          obtain ⟨rfl, rfl⟩ := List.cons.inj hline
          exact ⟨front, c, back, rfl, hc⟩

end Rows

/-! ## Lines and texts -/

/-- Wrapped at the width, the line has a character that ends outside the range of offsets. -/
def Overruns (width tabWidth : Nat) (line : List Char) : Prop :=
  ∃ front c back, line = front ++ c :: back ∧
    Rows.Overruns tabWidth (front.foldl (Rows.next width tabWidth) Rows.first) c

theorem wrappedRows_eq_overflow_iff {line : List Char} (hline : line.length + 1 < Offset.bound) :
    wrappedRows line width tabWidth = .error .overflow ↔ Overruns width tabWidth line := by
  have hfirst : Rows.first.count = 1 := rfl
  rw [wrappedRows, Fault.map_eq_error, Rows.foldlM_add_eq_overflow_iff (by omega)]
  rfl

/-- A character begins at most one row. -/
theorem Rows.count_le_of_foldlM {line : List Char} {rows laid : Rows}
    (h : line.foldlM (Rows.add width tabWidth) rows = .ok laid) :
    laid.count ≤ rows.count + line.length := by
  induction line generalizing rows with
  | nil => exact Nat.le_of_eq (congrArg Rows.count (Except.ok.inj h).symm)
  | cons c rest ih =>
    obtain ⟨added, hadded, h⟩ := Fault.bind_eq_ok.mp h
    have hcount := count_next_le width tabWidth rows c
    have hlaid := ih h
    rw [eq_next_of_add_eq_ok hadded] at hlaid
    rw [List.length_cons]
    omega

namespace Monospace

variable {config : LayoutConfig}

theorem lineRows_le {line : List Char} {count : Nat} (h : lineRows config line = .ok count) :
    count ≤ line.length + 1 := by
  unfold lineRows at h
  split at h
  · obtain ⟨laid, hlaid, rfl⟩ := Fault.map_eq_ok.mp h
    have hcount := Rows.count_le_of_foldlM hlaid
    have hfirst : Rows.first.count = 1 := rfl
    omega
  · rw [← Except.ok.inj h]
    exact Nat.le_add_left _ _

theorem lineRows_eq_overflow_iff {line : List Char} (hline : line.length + 1 < Offset.bound) :
    lineRows config line = .error .overflow ↔
      ∃ width ∈ config.wrapWidth, Overruns width config.tabWidth line := by
  unfold lineRows
  cases hwrap : config.wrapWidth with
  | none => exact ⟨fun h ↦ (nomatch h), fun ⟨_, h, _⟩ ↦ (nomatch h)⟩
  | some width =>
    refine (wrappedRows_eq_overflow_iff hline).trans ⟨fun h ↦ ⟨width, rfl, h⟩, ?_⟩
    rintro ⟨other, hother, h⟩
    rwa [Option.some.inj hother]

/-- Lines are laid out until the first that overflows, as long as all of their rows can be
counted. -/
theorem foldlM_addLine_eq_overflow_iff {lines : List (List Char)} {starts : Array Nat} {rows : Nat}
    (h : rows + (lines.flatten.length + lines.length) < Offset.bound) :
    lines.foldlM (addLine config) (starts, rows) = .error .overflow ↔
      ∃ line ∈ lines, lineRows config line = .error .overflow := by
  induction lines generalizing starts rows with
  | nil => exact ⟨fun h ↦ (nomatch h), fun ⟨_, h, _⟩ ↦ (nomatch h)⟩
  | cons line rest ih =>
    rw [List.flatten_cons, List.length_append, List.length_cons] at h
    rw [List.foldlM_cons]
    obtain hstops | ⟨count, hcount⟩ := lineRows_cases config line
    · have hadd : addLine config (starts, rows) line = .error .overflow := by
        rw [addLine, hstops]
        rfl
      rw [hadd]
      exact iff_of_true rfl ⟨line, List.mem_cons_self, hstops⟩
    · have hle := lineRows_le hcount
      rw [addLine_eq_ok hcount (by omega)]
      refine (ih (by omega)).trans ⟨?_, ?_⟩
      · rintro ⟨other, hother, hstops⟩
        exact ⟨other, List.mem_cons_of_mem line hother, hstops⟩
      · rintro ⟨other, hother, hstops⟩
        rcases List.mem_cons.mp hother with rfl | hother
        · rw [hcount] at hstops
          nomatch hstops
        · exact ⟨other, hother, hstops⟩

/-- A text that is laid out with its own line index overflows, or it is laid out. -/
theorem relayout_cases (layout : Monospace) (text : String) (fontSize : Float32) :
    let lines := (splitLines text.toList).foldlM (addLine layout.config) (#[], 0)
    let result := layout.relayout text.toList (.ofText text) fontSize
    (lines = .error .overflow ∧ result = .error .overflow) ∨
      (∃ laid, lines = .ok laid) ∧ ∃ laid, result = .ok laid := by
  intro lines result
  obtain hstops | ⟨⟨starts, rows⟩, hlines⟩ :=
    Fault.foldlM_cases (addLine_cases layout.config) (splitLines text.toList) (#[], 0)
  · exact Or.inl ⟨hstops, by dsimp only [result]; rw [relayout, hstops]; rfl⟩
  · have hsize : (starts.push rows).size = (LineIndex.ofText text).count + 1 := by
      rw [(stacked_foldlM hlines).size, LineIndex.length_splitLines_eq_count]
    exact Or.inr ⟨⟨_, hlines⟩, _, relayout_of_lines hlines hsize fontSize⟩

theorem relayout_eq_overflow_iff {layout : Monospace} {text : String}
    (htext : text.toList.length + 1 < Offset.bound) (fontSize : Float32) :
    layout.relayout text.toList (.ofText text) fontSize = .error .overflow ↔
      ∃ width ∈ layout.config.wrapWidth, ∃ line ∈ splitLines text.toList,
        Overruns width layout.config.tabWidth line := by
  have hlength := length_flatten_splitLines text.toList
  have hline : ∀ line ∈ splitLines text.toList, line.length + 1 < Offset.bound := by
    intro line hline
    have hle := (List.sublist_flatten_of_mem hline).length_le
    have hpos := List.length_pos_of_mem hline
    omega
  have hlines : layout.relayout text.toList (.ofText text) fontSize = .error .overflow ↔
      (splitLines text.toList).foldlM (addLine layout.config) (#[], 0) = .error .overflow := by
    obtain ⟨hlines, hresult⟩ | ⟨⟨_, hlines⟩, _, hresult⟩ := relayout_cases layout text fontSize
    · exact iff_of_true hresult hlines
    · rw [hlines, hresult]
      exact iff_of_false (fun h ↦ nomatch h) (fun h ↦ nomatch h)
  rw [hlines, foldlM_addLine_eq_overflow_iff (by omega)]
  constructor
  · rintro ⟨line, hmem, hstops⟩
    obtain ⟨width, hwidth, hoverruns⟩ := (lineRows_eq_overflow_iff (hline line hmem)).mp hstops
    exact ⟨width, hwidth, line, hmem, hoverruns⟩
  · rintro ⟨width, hwidth, line, hmem, hoverruns⟩
    exact ⟨line, hmem, (lineRows_eq_overflow_iff (hline line hmem)).mpr ⟨width, hwidth, hoverruns⟩⟩

end Monospace

/-! ## Configurations -/

namespace LayoutConfig

/-- A tab and a wide character that follow the longest row end within the range of offsets. `Fits`
asks for more: that a tab of its full width does. -/
def Roomy (config : LayoutConfig) : Prop :=
  ∀ width ∈ config.wrapWidth,
    rowCells width config.tabWidth + 3 < Offset.bound ∧
      rowCells width config.tabWidth +
        cellWidth '\t' (rowCells width config.tabWidth) config.tabWidth < Offset.bound

instance (config : LayoutConfig) : Decidable config.Roomy :=
  inferInstanceAs (Decidable (∀ width ∈ config.wrapWidth, _ ∧ _))

end LayoutConfig

namespace Rows

variable {rows : Rows} {c : Char}

theorem cells_next_le (h : rows.cells ≤ LayoutConfig.rowCells width tabWidth) :
    (next width tabWidth rows c).cells ≤ LayoutConfig.rowCells width tabWidth := by
  have hstart := cellWidth_le c 0 tabWidth
  unfold LayoutConfig.rowCells at h ⊢
  unfold next
  split
  · exact h
  · dsimp only
    split
    · rename_i hfits
      dsimp only
      rcases hfits with hempty | hle
      · rw [hempty]
        omega
      · omega
    · dsimp only
      omega

theorem cells_foldl_next_le (line : List Char) :
    (line.foldl (next width tabWidth) first).cells ≤ LayoutConfig.rowCells width tabWidth := by
  induction line using List.reverseRecOn with
  | nil => exact Nat.zero_le _
  | append_singleton line c ih =>
    rw [List.foldl_append]
    exact cells_next_le ih

/-- A character that always takes as many cells is repeated in one row as long as it fits, and in
any case once. -/
theorem foldl_next_replicate {step : Nat} (hc : c ≠ '\r')
    (hstep : ∀ place, cellWidth c (place * step) tabWidth = step) {count : Nat}
    (hcount : count * step ≤ max width step) :
    (List.replicate count c).foldl (next width tabWidth) first = ⟨1, count * step⟩ := by
  induction count with
  | zero => rw [Nat.zero_mul]; rfl
  | succ count ih =>
    have hsucc : (count + 1) * step = count * step + step := Nat.succ_mul count step
    rw [hsucc] at hcount ⊢
    rw [List.replicate_succ', List.foldl_append, ih (by omega), List.foldl_cons, List.foldl_nil,
      next, if_neg hc]
    dsimp only
    rw [hstep, if_pos]
    cases count with
    | zero => exact Or.inl (Nat.zero_mul step)
    | succ count =>
      have hsucc : (count + 1) * step = count * step + step := Nat.succ_mul count step
      omega

end Rows

/-- What begins within the longest row ends within the range if a tab and a wide character behind
that row do. -/
theorem not_overruns (hwide : LayoutConfig.rowCells width tabWidth + 3 < Offset.bound)
    (htab : LayoutConfig.rowCells width tabWidth +
      cellWidth '\t' (LayoutConfig.rowCells width tabWidth) tabWidth < Offset.bound)
    (line : List Char) : ¬Overruns width tabWidth line := by
  rintro ⟨front, c, back, -, -, hbound⟩
  have hcells : (front.foldl (Rows.next width tabWidth) Rows.first).cells ≤
      LayoutConfig.rowCells width tabWidth := Rows.cells_foldl_next_le front
  have hmono := add_cellWidth_mono c tabWidth hcells
  by_cases hc : c = '\t'
  · rw [hc] at hmono hbound
    omega
  · rw [cellWidth_of_ne_tab hc] at hmono hbound
    have hwidth := Unicode.width_le c
    omega

/-- Letters up to the end of the range, and a character that takes three cells. -/
theorem overruns_letters {count : Nat} (hcount : count + 3 = Offset.bound)
    (hwidth : count ≤ width) :
    Overruns width tabWidth (List.replicate count 'a' ++ ['\u17d8']) := by
  refine ⟨List.replicate count 'a', '\u17d8', [], rfl, by decide, ?_⟩
  have hstep : ∀ place, cellWidth 'a' (place * 1) tabWidth = 1 := fun place ↦
    (cellWidth_of_ne_tab (by decide) _ _).trans (by decide)
  rw [Rows.foldl_next_replicate (by decide) hstep (by omega), cellWidth_of_ne_tab (by decide)]
  have hwide : (Unicode.width? '\u17d8').getD 1 = 3 := by decide
  rw [hwide]
  change Offset.bound ≤ count * 1 + 3
  omega

/-- Tabs as far as they fit into one row, and one more. -/
theorem overruns_tabs {count : Nat} (hcount : count * max tabWidth 1 ≤ max width (max tabWidth 1))
    (hbound : Offset.bound ≤ (count + 1) * max tabWidth 1) :
    Overruns width tabWidth (List.replicate (count + 1) '\t') := by
  refine ⟨List.replicate count '\t', '\t', [], List.replicate_succ', by decide, ?_⟩
  have hstep : ∀ place, cellWidth '\t' (place * max tabWidth 1) tabWidth = max tabWidth 1 := by
    intro place
    rw [cellWidth_tab, Nat.mul_mod_left, Nat.sub_zero]
  rw [Rows.foldl_next_replicate (by decide) hstep hcount, hstep]
  rwa [Nat.succ_mul] at hbound

/-- The tab that follows the longest row ends at a tab stop outside the range if a character of
three cells does, unless the width alone is too large for that character. -/
theorem bound_le_tabStop (hwidth : width + 3 < Offset.bound)
    (h : LayoutConfig.rowCells width tabWidth + 3 < Offset.bound →
      Offset.bound ≤ LayoutConfig.rowCells width tabWidth +
        cellWidth '\t' (LayoutConfig.rowCells width tabWidth) tabWidth) :
    Offset.bound ≤
      (max width (max tabWidth 1) / max tabWidth 1 + 1) * max tabWidth 1 := by
  have hrange : 6 < Offset.bound := by decide
  rw [add_cellWidth_tab] at h
  unfold LayoutConfig.rowCells at h
  have hsmall := Nat.div_mul_le_self 3 (max tabWidth 1)
  rcases Nat.lt_or_ge (max width tabWidth) 3 with hlt | hge
  · -- A row of three cells is far from the end of the range.
    have hcells : max width (max tabWidth 3) = 3 := by omega
    rw [hcells, Nat.succ_mul] at h
    omega
  · have hcells : max width (max tabWidth 3) = max width (max tabWidth 1) := by omega
    rw [hcells] at h
    rcases Nat.lt_or_ge width tabWidth with hnarrow | hbroad
    · have hcells : max width (max tabWidth 1) = max tabWidth 1 := by omega
      rw [hcells, Nat.div_self (by omega)] at h ⊢
      omega
    · exact h (by omega)

/-- If a tab or a wide character behind the longest row ends outside the range, some line has a
character that does. -/
theorem exists_overruns
    (h : LayoutConfig.rowCells width tabWidth + 3 < Offset.bound →
      Offset.bound ≤ LayoutConfig.rowCells width tabWidth +
        cellWidth '\t' (LayoutConfig.rowCells width tabWidth) tabWidth) :
    ∃ line, '\n' ∉ line ∧ line.length + 1 < Offset.bound ∧ Overruns width tabWidth line := by
  rcases Nat.lt_or_ge (width + 3) Offset.bound with hwidth | hwidth
  · have hcount := Nat.div_mul_le_self (max width (max tabWidth 1)) (max tabWidth 1)
    have hlength : max width (max tabWidth 1) / max tabWidth 1 ≤ width + 1 := by
      rw [Nat.div_le_iff_le_mul_add_pred (by omega)]
      have hle : width ≤ max tabWidth 1 * width := Nat.le_mul_of_pos_left width (by omega)
      rw [Nat.mul_succ]
      omega
    refine ⟨_, ?_, ?_, overruns_tabs hcount (bound_le_tabStop hwidth h)⟩
    · rw [List.mem_replicate]
      exact fun h ↦ absurd h.2 (by decide)
    · rw [List.length_replicate]
      omega
  · obtain ⟨count, hcount⟩ : ∃ count, count + 3 = Offset.bound :=
      ⟨Offset.bound - 3, Nat.sub_add_cancel (by decide)⟩
    refine ⟨_, ?_, ?_, overruns_letters hcount (by omega)⟩
    · rw [List.mem_append, List.mem_replicate, List.mem_singleton]
      rintro (⟨-, h⟩ | h)
      · exact absurd h (by decide)
      · exact absurd h (by decide)
    · rw [List.length_append, List.length_replicate, List.length_singleton]
      omega

namespace Monospace

/-- Laid out with its own line index, a text overflows if and only if a character of a wrapped line
ends outside the range of offsets, and is laid out otherwise. Whether there is a text that does
depends on the configuration: if lines are wrapped, a tab and a wide character that follow the
longest row have to end within the range. -/
theorem relayout_overflows_iff (layout : Monospace) (fontSize : Float32) :
    let result (text : String) := layout.relayout text.toList (.ofText text) fontSize
    (∀ text : String, text.toList.length + 1 < Offset.bound →
      (result text = .error .overflow ∨ ∃ laid, result text = .ok laid) ∧
      (result text = .error .overflow ↔
        ∃ width ∈ layout.config.wrapWidth, ∃ line ∈ splitLines text.toList,
          Overruns width layout.config.tabWidth line)) ∧
    ((∃ text : String, text.toList.length + 1 < Offset.bound ∧ result text = .error .overflow) ↔
      ¬layout.config.Roomy) := by
  intro result
  refine ⟨fun text htext ↦ ⟨?_, relayout_eq_overflow_iff htext fontSize⟩, ?_, ?_⟩
  · exact (relayout_cases layout text fontSize).imp And.right And.right
  · rintro ⟨text, htext, hresult⟩ hroomy
    obtain ⟨width, hwidth, line, -, hoverruns⟩ :=
      (relayout_eq_overflow_iff htext fontSize).mp hresult
    obtain ⟨hwide, htab⟩ := hroomy width hwidth
    exact not_overruns hwide htab line hoverruns
  · intro hcramped
    unfold LayoutConfig.Roomy at hcramped
    push Not at hcramped
    obtain ⟨width, hwidth, hcramped⟩ := hcramped
    obtain ⟨line, hline, hlength, hoverruns⟩ := exists_overruns hcramped
    have htext : (String.ofList line).toList.length + 1 < Offset.bound := by
      rwa [String.toList_ofList]
    refine ⟨String.ofList line, htext, (relayout_eq_overflow_iff htext fontSize).mpr ?_⟩
    refine ⟨width, hwidth, line, ?_, hoverruns⟩
    rw [String.toList_ofList, splitLines_of_not_mem hline]
    exact List.mem_singleton_self line

/-- Loaded settings with the widest tabs of which two fit. -/
theorem relayout_overflows_iff_wide_tabs :
    let json := "\x7b\"layout\": \x7b\"wrap_width\": 80, \"tab_width\": 9223372036854775807\x7d\x7d"
    ∃ settings, Settings.read? json = some settings ∧ settings.layout.Roomy ∧
      "\t\t".toList.length + 1 < Offset.bound ∧
      (∃ laid, (ofConfig settings.layout).relayout "\t\t".toList (.ofText "\t\t") 14 = .ok laid) ∧
      ¬∃ text : String, text.toList.length + 1 < Offset.bound ∧
        (ofConfig settings.layout).relayout text.toList (.ofText text) 14 = .error .overflow := by
  intro json
  have hread : (Settings.read? json).map (fun settings ↦ decide settings.layout.Roomy) =
      some true := by
    decide +kernel
  obtain ⟨settings, hsettings, hroomy⟩ := Option.map_eq_some_iff.mp hread
  have hroomy := of_decide_eq_true hroomy
  have htext : "\t\t".toList.length + 1 < Offset.bound := by decide
  obtain ⟨htexts, hoverflows⟩ := relayout_overflows_iff (ofConfig settings.layout) 14
  have hnone := mt hoverflows.mp (not_not.mpr hroomy)
  obtain hlaid | hlaid := (htexts "\t\t" htext).1
  · exact absurd ⟨"\t\t", htext, hlaid⟩ hnone
  · exact ⟨settings, hsettings, hroomy, htext, hlaid, hnone⟩

/-- With tabs of one more cell, loaded from settings too, two tabs end outside the range. -/
theorem overflow_of_loaded_settings :
    let json := "\x7b\"layout\": \x7b\"wrap_width\": 80, \"tab_width\": 9223372036854775808\x7d\x7d"
    ∃ settings, Settings.read? json = some settings ∧
      (ofConfig settings.layout).relayout "\t\t".toList (.ofText "\t\t") 14 = .error .overflow := by
  intro json
  have hread : (Settings.read? json).map (fun settings ↦ settings.layout) =
      some ⟨1.25, some 80, 9223372036854775808⟩ := by
    decide +kernel
  obtain ⟨settings, hsettings, hlayout⟩ := Option.map_eq_some_iff.mp hread
  refine ⟨settings, hsettings, ?_⟩
  rw [hlayout]
  decide +kernel

end Monospace

end CodeEditor
