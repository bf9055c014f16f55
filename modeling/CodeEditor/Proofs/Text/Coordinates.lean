import CodeEditor.Proofs.Fault
import CodeEditor.Proofs.Halving
import CodeEditor.Proofs.Text.LineIndex

/-!
# Coordinates of a text

The index of a text lays its lines end to end, with the offset of one newline between each two of
them. So every offset belongs to exactly one line: the line whose number is that of the newlines
before the offset, which is also the line that halving the starts finds. Going from a line and a
column to the offset and back, or from an offset to its line and column and back, changes nothing
but what does not exist in the text.
-/

namespace CodeEditor

theorem splitLines_eq_splitOn (chars : List Char) : splitLines chars = chars.splitOn '\n' := by
  induction chars with
  | nil => simp [splitLines]
  | cons c rest ih =>
    by_cases hc : c = '\n'
    · subst hc
      rw [splitLines_cons_newline, ih]
      simp [List.splitOn, List.splitOnP_cons_eq_if_modifyHead]
    · obtain ⟨line, more, hrest, hcons⟩ := splitLines_cons_of_ne hc rest
      have hsplit : rest.splitOn '\n' = line :: more := ih.symm.trans hrest
      rw [hcons]
      simp only [List.splitOn, List.splitOnP_cons_eq_if_modifyHead, beq_iff_eq, if_neg hc]
        at hsplit ⊢
      rw [hsplit, List.modifyHead_cons]

/-! ## Lines end to end -/

/-- The ranges of lines that begin at a start, with one offset between each two of them. -/
def lineRanges : (start : Nat) → List (List Char) → List LineRange
  | _, [] => []
  | start, line :: rest =>
    ⟨start, start + line.length⟩ :: lineRanges (start + line.length + 1) rest

/-- The ranges cover the text from a start up to its end, with one newline between each two. -/
def CoveredByLines (chars : List Char) : (start : Nat) → List LineRange → Prop
  | _, [] => False
  | start, [last] => last.start = start ∧ start ≤ last.stop ∧ last.stop = chars.length
  | start, range :: rest =>
    range.start = start ∧ start ≤ range.stop ∧ chars[range.stop]? = some '\n' ∧
      CoveredByLines chars (range.stop + 1) rest

theorem length_lineRanges (start : Nat) (lines : List (List Char)) :
    (lineRanges start lines).length = lines.length := by
  induction lines generalizing start with
  | nil => rfl
  | cons line rest ih => simp [lineRanges, ih]

/-- Each range is as long as its line. -/
theorem exists_line_of_lineRanges {start line : Nat} {lines : List (List Char)} {range : LineRange}
    (h : (lineRanges start lines)[line]? = some range) :
    ∃ content, lines[line]? = some content ∧ range.stop = range.start + content.length := by
  induction lines generalizing start line with
  | nil => simp [lineRanges] at h
  | cons first rest ih =>
    cases line with
    | zero =>
      simp only [lineRanges, List.getElem?_cons_zero, Option.some.injEq] at h
      subst h
      exact ⟨first, rfl, rfl⟩
    | succ line => exact ih (by simpa [lineRanges] using h)

theorem CoveredByLines.cons {chars : List Char} {start stop : Nat} {rest : List LineRange}
    (hle : start ≤ stop) (hnewline : chars[stop]? = some '\n')
    (hrest : CoveredByLines chars (stop + 1) rest) :
    CoveredByLines chars start (⟨start, stop⟩ :: rest) := by
  cases rest with
  | nil => exact hrest.elim
  | cons next more => exact ⟨rfl, hle, hnewline, hrest⟩

/-- The first range can begin earlier. -/
theorem CoveredByLines.extend {chars : List Char} {start stop : Nat} {rest : List LineRange}
    (h : CoveredByLines chars (start + 1) (⟨start + 1, stop⟩ :: rest)) :
    CoveredByLines chars start (⟨start, stop⟩ :: rest) := by
  cases rest with
  | nil =>
    obtain ⟨-, hle, hlength⟩ := h
    exact ⟨rfl, Nat.le_of_succ_le hle, hlength⟩
  | cons next more =>
    obtain ⟨-, hle, hnewline, hrest⟩ := h
    exact ⟨rfl, Nat.le_of_succ_le hle, hnewline, hrest⟩

/-- The lines of what is left of a text cover it from there on. -/
theorem coveredByLines_append (before chars : List Char) :
    CoveredByLines (before ++ chars) before.length
      (lineRanges before.length (splitLines chars)) := by
  induction chars generalizing before with
  | nil => simp [splitLines, lineRanges, CoveredByLines]
  | cons c rest ih =>
    have hnext := ih (before ++ [c])
    rw [List.append_assoc, List.singleton_append, List.length_append,
      List.length_singleton] at hnext
    by_cases hc : c = '\n'
    · subst hc
      rw [splitLines_cons_newline]
      have hnewline : (before ++ '\n' :: rest)[before.length]? = some '\n' := by simp
      exact CoveredByLines.cons (Nat.le_refl _) hnewline hnext
    · obtain ⟨line, more, hrest, hcons⟩ := splitLines_cons_of_ne hc rest
      rw [hrest, lineRanges] at hnext
      have hstop : before.length + (line.length + 1) = before.length + 1 + line.length := by omega
      rw [hcons, lineRanges, List.length_cons, hstop]
      exact hnext.extend

namespace CoveredByLines

variable {chars : List Char} {start offset : Nat} {ranges : List LineRange}

/-- Every offset of the text from the start on, its end included, belongs to one of the ranges. -/
theorem exists_contains (h : CoveredByLines chars start ranges) (hstart : start ≤ offset)
    (hoffset : offset ≤ chars.length) :
    ∃ (line : Nat) (range : LineRange), ranges[line]? = some range ∧
      range.start ≤ offset ∧ offset ≤ range.stop := by
  induction ranges generalizing start with
  | nil => exact h.elim
  | cons range rest ih =>
    cases rest with
    | nil =>
      obtain ⟨hrange, -, hlength⟩ := h
      exact ⟨0, range, rfl, by omega, by omega⟩
    | cons next more =>
      obtain ⟨hrange, -, -, hrest⟩ := h
      rcases Nat.lt_or_ge range.stop offset with hbehind | hinside
      · obtain ⟨line, found, hfound, hcontains⟩ := ih hrest hbehind
        exact ⟨line + 1, found, hfound, hcontains⟩
      · exact ⟨0, range, rfl, by omega, hinside⟩

theorem getLast?_stop (h : CoveredByLines chars start ranges) :
    ranges.getLast?.map (·.stop) = some chars.length := by
  induction ranges generalizing start with
  | nil => exact h.elim
  | cons range rest ih =>
    cases rest with
    | nil =>
      obtain ⟨-, -, hlength⟩ := h
      exact congrArg some hlength
    | cons next more =>
      obtain ⟨-, -, -, hrest⟩ := h
      rw [List.getLast?_cons_cons]
      exact ih hrest

end CoveredByLines

/-! ## The index lays the lines end to end -/

namespace LineIndex

/-- Of a longer text the index has the starts of the lines behind the first one in addition. -/
theorem starts_foldl_push (chars : List Char) (index : LineIndex) :
    (chars.foldl push index).starts.toList = index.starts.toList ++
      ((lineRanges index.length (splitLines chars)).tail.map (·.start)) := by
  induction chars generalizing index with
  | nil => simp [splitLines, lineRanges]
  | cons c rest ih =>
    rw [List.foldl_cons, ih, length_push]
    by_cases hc : c = '\n'
    · subst hc
      obtain ⟨line, more, hlines⟩ := List.exists_cons_of_ne_nil (splitLines_ne_nil rest)
      rw [splitLines_cons_newline, hlines]
      simp [push, lineRanges]
    · obtain ⟨line, more, hrest, hcons⟩ := splitLines_cons_of_ne hc rest
      have hstop : index.length + (line.length + 1) = index.length + 1 + line.length := by omega
      rw [hrest, hcons]
      simp [push, lineRanges, hc, hstop]

theorem starts_ofChars (chars : List Char) :
    (ofChars chars).starts.toList = (lineRanges 0 (splitLines chars)).map (·.start) := by
  obtain ⟨line, more, hlines⟩ := List.exists_cons_of_ne_nil (splitLines_ne_nil chars)
  calc
    (ofChars chars).starts.toList =
        [0] ++ (lineRanges 0 (splitLines chars)).tail.map (·.start) :=
      starts_foldl_push chars empty
    _ = (lineRanges 0 (splitLines chars)).map (·.start) := by
      rw [hlines]
      rfl

/-- What an index makes of a line, given its starts as a list. -/
theorem range?_eq (index : LineIndex) (line : Nat) :
    index.range? line = (index.starts.toList[line]?).map fun start ↦
      ⟨start, ((index.starts.toList[line + 1]?).map (· - 1)).getD index.length⟩ := by
  rw [range?, Array.getElem?_toList, Array.getElem?_toList]
  cases index.starts[line]? with
  | none => rfl
  | some start => cases index.starts[line + 1]? <;> rfl

theorem getElem?_lineRanges {start length : Nat} {lines : List (List Char)}
    (hlength : (lineRanges start lines).getLast?.map (·.stop) = some length) (line : Nat) :
    (lineRanges start lines)[line]? = (((lineRanges start lines).map (·.start))[line]?).map
      fun first ↦ ⟨first,
        (((lineRanges start lines).map (·.start))[line + 1]?.map (· - 1)).getD length⟩ := by
  induction lines generalizing start line with
  | nil => simp [lineRanges]
  | cons first rest ih =>
    cases rest with
    | nil =>
      simp [lineRanges] at hlength
      cases line <;> simp [lineRanges, hlength]
    | cons next more =>
      cases line with
      | zero => simp [lineRanges]
      | succ line =>
        simp only [lineRanges, List.getLast?_cons_cons] at hlength
        simpa [lineRanges] using ih hlength line

/-- The ranges of the index are those of the lines, one behind the other. -/
theorem range?_ofChars (chars : List Char) (line : Nat) :
    (ofChars chars).range? line = (lineRanges 0 (splitLines chars))[line]? := by
  have hcovered := coveredByLines_append [] chars
  rw [range?_eq, starts_ofChars, length_ofChars]
  exact (getElem?_lineRanges hcovered.getLast?_stop line).symm

/-- Every line is there, and their ranges cover the text. -/
theorem mapM_range (chars : List Char) :
    (List.range (ofChars chars).count).mapM (ofChars chars).range =
      .ok (lineRanges 0 (splitLines chars)) := by
  have hcount : (ofChars chars).count = (lineRanges 0 (splitLines chars)).length := by
    rw [length_lineRanges, length_splitLines, count_ofChars]
  have hrange : ∀ line ∈ List.range (ofChars chars).count, (ofChars chars).range line =
      .ok ((lineRanges 0 (splitLines chars))[line]?.getD ⟨0, 0⟩) := by
    intro line hline
    rw [hcount, List.mem_range] at hline
    rw [range, range?_ofChars, List.getElem?_eq_getElem hline, Option.getD_some]
  rw [Fault.mapM_eq_ok hrange, hcount]
  congr 1
  apply List.ext_getElem
  · rw [List.length_map, List.length_range]
  · intro line _ hline
    rw [List.getElem_map, List.getElem_range, List.getElem?_eq_getElem hline, Option.getD_some]

/-! ## The line of an offset -/

/-- As many lines start by an offset as there are newlines before it, and the first line. -/
theorem countP_starts (chars : List Char) (offset : Nat) :
    (ofChars chars).starts.toList.countP (· ≤ offset) = (chars.take offset).count '\n' + 1 := by
  induction chars using List.reverseRecOn with
  | nil => simp [empty]
  | append_singleton chars c ih =>
    rw [ofChars_append_singleton, push, length_ofChars]
    rcases Nat.lt_or_ge chars.length offset with hbehind | hbefore
    · rw [List.take_of_length_le (by omega)] at ih
      rw [List.take_of_length_le (by rw [List.length_append, List.length_singleton]; omega),
        List.count_append]
      by_cases hc : c = '\n'
      · have hstarts : chars.length + 1 ≤ offset := hbehind
        simp [hc, ih, hstarts]
      · simp [hc, ih]
    · rw [List.take_append_of_le_length hbefore]
      by_cases hc : c = '\n'
      · have hstarts : ¬chars.length + 1 ≤ offset := Nat.not_le.mpr (Nat.lt_succ_of_le hbefore)
        simp [hc, ih, hstarts]
      · simp [hc, ih]

theorem lineOf_eq_count (chars : List Char) (offset : Nat) :
    (ofChars chars).lineOf offset = (chars.take (min offset chars.length)).count '\n' := by
  rw [lineOf, length_ofChars, ← Array.countP_toList, countP_starts, Nat.add_sub_cancel]

theorem any_starts_iff {index : LineIndex} (h : index.Ordered) (offset line : Nat) :
    (index.starts[line]?).any (· ≤ offset) = true ↔
      line < index.starts.toList.countP (· ≤ offset) := by
  rw [← Array.getElem?_toList]
  apply any_getElem?_iff_lt_countP h.increasing
  intro a b hlt hb
  simp only [decide_eq_true_eq] at hb ⊢
  omega

theorem Ordered.lt_next {index : LineIndex} (h : index.Ordered) {line start next : Nat}
    (hline : index.starts[line]? = some start) (hnext : index.starts[line + 1]? = some next) :
    start < next := by
  obtain ⟨hsize, rfl⟩ := Array.getElem?_eq_some_iff.mp hline
  obtain ⟨hsize', rfl⟩ := Array.getElem?_eq_some_iff.mp hnext
  exact h.start_lt hsize hsize' (Nat.lt_succ_self line)

/-- As many lines start by an offset as there are up to the one that has it. -/
theorem Ordered.countP_eq {index : LineIndex} (h : index.Ordered) {line start offset : Nat}
    (hline : index.starts[line]? = some start) (hstart : start ≤ offset)
    (hnext : ∀ next, index.starts[line + 1]? = some next → offset < next) :
    index.starts.toList.countP (· ≤ offset) = line + 1 := by
  have hhere : line < index.starts.toList.countP (· ≤ offset) := by
    rw [← any_starts_iff h, hline]
    simpa using hstart
  have hbehind : ¬line + 1 < index.starts.toList.countP (· ≤ offset) := by
    rw [← any_starts_iff h]
    cases hfound : index.starts[line + 1]? with
    | none => simp
    | some next => simpa using hnext next hfound
  omega

/-- An offset belongs to no other line than the one in whose range it is. -/
theorem Ordered.lineOf_eq {index : LineIndex} (h : index.Ordered) {line offset : Nat}
    {range : LineRange} (hrange : index.range? line = some range) (hstart : range.start ≤ offset)
    (hstop : offset ≤ range.stop) : index.lineOf offset = line := by
  have hlength : min offset index.length = offset :=
    Nat.min_eq_left (Nat.le_trans hstop (h.range_le hrange).2)
  obtain ⟨start, hline, rfl⟩ := Option.map_eq_some_iff.mp hrange
  have hcount : index.starts.toList.countP (· ≤ offset) = line + 1 := by
    apply h.countP_eq hline hstart
    intro next hnext
    have hlt := h.lt_next hline hnext
    simp only [hnext] at hstop
    omega
  rw [lineOf, hlength, ← Array.countP_toList, hcount, Nat.add_sub_cancel]

/-- The line of an offset, found by halving the starts: the line that starts there, or else the one
before the first that starts behind it. -/
def lookupLine (index : LineIndex) (offset : Nat) : Nat :=
  let offset := min offset index.length
  let place := halve (fun line ↦ (index.starts[line]?).any (· < offset)) 0 index.count
  if index.starts[place]? = some offset then place else place - 1

theorem any_starts_lt_iff {index : LineIndex} (h : index.Ordered) (offset line : Nat) :
    (index.starts[line]?).any (· < offset) = true ↔
      line < index.starts.toList.countP (· < offset) := by
  rw [← Array.getElem?_toList]
  apply any_getElem?_iff_lt_countP h.increasing
  intro a b hlt hb
  simp only [decide_eq_true_eq] at hb ⊢
  omega

/-- The line that starts at an offset is the last one that starts by it. -/
theorem Ordered.countP_of_start {index : LineIndex} (h : index.Ordered) {line offset : Nat}
    (hfound : index.starts[line]? = some offset) :
    index.starts.toList.countP (· ≤ offset) = line + 1 :=
  h.countP_eq hfound (Nat.le_refl _) fun _ hnext ↦ h.lt_next hfound hnext

/-- A line that starts at an offset stands behind those that start before it. -/
theorem Ordered.start_of_mem {index : LineIndex} (h : index.Ordered) {offset : Nat}
    (hmem : offset ∈ index.starts.toList) :
    index.starts[index.starts.toList.countP (· < offset)]? = some offset := by
  obtain ⟨line, hline, hstart⟩ := List.getElem_of_mem hmem
  rw [Array.getElem_toList] at hstart
  have hnot : ¬line < index.starts.toList.countP (· < offset) := by
    rw [← any_starts_lt_iff h, Array.getElem?_eq_getElem hline, hstart]
    simp
  have hnone : ¬index.starts.toList.countP (· < offset) < line := by
    intro hlt
    have hpos := h.start_lt (Nat.lt_trans hlt hline) hline hlt
    have hbefore := mt (any_starts_lt_iff h offset _).mp (Nat.lt_irrefl _)
    rw [Array.getElem?_eq_getElem (Nat.lt_trans hlt hline)] at hbefore
    simp only [Option.any_some, decide_eq_true_eq] at hbefore
    omega
  have hsame : index.starts.toList.countP (· < offset) = line := by omega
  rw [hsame, Array.getElem?_eq_getElem hline, hstart]

theorem Ordered.lookupLine_eq {index : LineIndex} (h : index.Ordered) (offset : Nat) :
    index.lookupLine offset = index.lineOf offset := by
  rw [lookupLine, lineOf, ← Array.countP_toList]
  generalize min offset index.length = offset
  have hcount : index.starts.toList.countP (· < offset) ≤ index.count := List.countP_le_length
  rw [halve_eq (any_starts_lt_iff h offset) (Nat.zero_le _) hcount]
  split
  · rename_i hfound
    rw [h.countP_of_start hfound, Nat.add_sub_cancel]
  · rename_i hfound
    congr 1
    apply List.countP_congr
    intro start hstart
    have hne : start ≠ offset := by
      rintro rfl
      exact hfound (h.start_of_mem hstart)
    simp only [decide_eq_true_eq]
    omega

/-! ## Lines and columns -/

theorem Ordered.position_eq {index : LineIndex} (h : index.Ordered) {line offset : Nat}
    {range : LineRange} (hrange : index.range? line = some range) (hstart : range.start ≤ offset)
    (hstop : offset ≤ range.stop) : index.position offset = (line, offset - range.start) := by
  have hlength : min offset index.length = offset :=
    Nat.min_eq_left (Nat.le_trans hstop (h.range_le hrange).2)
  have hline := h.lineOf_eq hrange hstart hstop
  obtain ⟨start, hfound, rfl⟩ := Option.map_eq_some_iff.mp hrange
  rw [position, hlength]
  simp [hline, Array.getD_eq_getD_getElem?, hfound]

theorem offsetOf_eq {index : LineIndex} {line column : Nat} {range : LineRange}
    (hrange : index.range? (min line (index.count - 1)) = some range) :
    index.offsetOf line column = range.start + min column (range.stop - range.start) := by
  rw [offsetOf, hrange]

theorem lt_count_of_range? {index : LineIndex} {line : Nat} {range : LineRange}
    (h : index.range? line = some range) : line < index.count := by
  obtain ⟨start, hstart, -⟩ := Option.map_eq_some_iff.mp h
  exact (Array.getElem?_eq_some_iff.mp hstart).1

theorem count_pos (chars : List Char) : 0 < (ofChars chars).count := by
  rw [count_ofChars]
  exact Nat.succ_pos _

/-- Back from an offset come the line and the column that were given, as far as they exist. -/
theorem position_offsetOf (chars : List Char) (line column : Nat) :
    ∃ content, (splitLines chars)[min line ((ofChars chars).count - 1)]? = some content ∧
      (ofChars chars).position ((ofChars chars).offsetOf line column) =
        (min line ((ofChars chars).count - 1), min column content.length) := by
  have hcount := count_pos chars
  obtain ⟨range, hrange⟩ := range?_eq_some
    (show min line ((ofChars chars).count - 1) < (ofChars chars).count by omega)
  obtain ⟨content, hcontent, hstop⟩ :=
    exists_line_of_lineRanges ((range?_ofChars chars _).symm.trans hrange)
  refine ⟨content, hcontent, ?_⟩
  have hcolumn : range.stop - range.start = content.length := by omega
  rw [offsetOf_eq hrange, hcolumn]
  rw [(ordered_ofChars chars).position_eq hrange (Nat.le_add_right _ _) (by omega)]
  rw [Nat.add_sub_cancel_left]

/-- Back from a line and a column comes the offset that was given, as far as it exists. -/
theorem offsetOf_position (chars : List Char) (offset : Nat) :
    (ofChars chars).offsetOf ((ofChars chars).position offset).1
      ((ofChars chars).position offset).2 = min offset chars.length := by
  have hcovered := coveredByLines_append [] chars
  obtain ⟨line, range, hfound, hstart, hstop⟩ :=
    hcovered.exists_contains (Nat.zero_le _) (Nat.min_le_right offset chars.length)
  have hrange : (ofChars chars).range? line = some range :=
    (range?_ofChars chars line).trans hfound
  have hline := lt_count_of_range? hrange
  have hposition : (ofChars chars).position offset =
      (line, min offset chars.length - range.start) := by
    rw [← (ordered_ofChars chars).position_eq hrange hstart hstop]
    simp [position]
  have hsame : min line ((ofChars chars).count - 1) = line := by omega
  rw [hposition]
  rw [offsetOf_eq (by rw [hsame]; exact hrange)]
  omega

/-- The line of an offset is the number of newlines before it. A line and a column come back from
the offset they name, and an offset from its line and column, as far as these exist in the text. The
ranges of all lines, with one newline between each two of them, cover the text in order. -/
theorem coordinates_of_text (text : String) :
    let chars := text.toList
    let index := ofText text
    (∀ offset, index.lineOf offset = (chars.take (min offset chars.length)).count '\n' ∧
      index.lookupLine offset = index.lineOf offset) ∧
    (∀ line column, ∃ content, (splitLines chars)[min line (index.count - 1)]? = some content ∧
      index.position (index.offsetOf line column) =
        (min line (index.count - 1), min column content.length)) ∧
    (∀ offset, index.offsetOf (index.position offset).1 (index.position offset).2 =
      min offset chars.length) ∧
    ∃ ranges, (List.range index.count).mapM index.range = .ok ranges ∧
      CoveredByLines chars 0 ranges := by
  intro chars index
  have hordered : index.Ordered := ordered_ofChars chars
  refine ⟨?_, ?_, ?_, ?_⟩
  · intro offset
    exact ⟨lineOf_eq_count chars offset, hordered.lookupLine_eq offset⟩
  · exact position_offsetOf chars
  · exact offsetOf_position chars
  · exact ⟨_, mapM_range chars, coveredByLines_append [] chars⟩

example : (ofText "a\n\nb\n").position 9 = (3, 0) ∧ (ofText "a\n\nb\n").offsetOf 1 7 = 2 := by
  decide

end LineIndex

end CodeEditor
