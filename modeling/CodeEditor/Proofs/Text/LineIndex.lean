import CodeEditor.Text.LineIndex
import Mathlib.Data.List.Induction

/-!
# Lines of an indexed text

The line index of a text has one start for each line, in increasing order and inside the text, so
that the range of each line lies in the text. Splitting the text at its newlines gives as many
lines, which together with their newlines are as long as the text.
-/

namespace CodeEditor

theorem splitLines_cons_newline (chars : List Char) :
    splitLines ('\n' :: chars) = [] :: splitLines chars := rfl

theorem splitLines_ne_nil (chars : List Char) : splitLines chars ≠ [] := by
  cases chars with
  | nil => exact List.cons_ne_nil _ _
  | cons c rest =>
    unfold splitLines
    rw [List.foldr_cons]
    split
    · exact List.cons_ne_nil _ _
    · split <;> exact List.cons_ne_nil _ _

/-- A character other than a newline belongs to the first line. -/
theorem splitLines_cons_of_ne {c : Char} (hc : c ≠ '\n') (chars : List Char) :
    ∃ line rest, splitLines chars = line :: rest ∧
      splitLines (c :: chars) = (c :: line) :: rest := by
  obtain ⟨line, rest, hlines⟩ := List.exists_cons_of_ne_nil (splitLines_ne_nil chars)
  refine ⟨line, rest, hlines, ?_⟩
  unfold splitLines at hlines ⊢
  rw [List.foldr_cons, if_neg hc, hlines]

theorem splitLines_of_not_mem {chars : List Char} (h : '\n' ∉ chars) :
    splitLines chars = [chars] := by
  induction chars with
  | nil => rfl
  | cons c rest ih =>
    obtain ⟨hc, hrest⟩ := List.ne_and_not_mem_of_not_mem_cons h
    obtain ⟨line, more, hlines, hcons⟩ := splitLines_cons_of_ne hc.symm rest
    rw [ih hrest] at hlines
    obtain ⟨rfl, rfl⟩ := List.cons.inj hlines
    exact hcons

theorem length_splitLines (chars : List Char) :
    (splitLines chars).length = chars.count '\n' + 1 := by
  induction chars with
  | nil => rfl
  | cons c rest ih =>
    by_cases hc : c = '\n'
    · rw [hc, splitLines_cons_newline, List.length_cons, ih, List.count_cons_self]
    · obtain ⟨line, more, hrest, hcons⟩ := splitLines_cons_of_ne hc rest
      rw [hcons, List.count_cons_of_ne hc, ← ih, hrest, List.length_cons, List.length_cons]

/-- Each line counted with one character for its end, the text has one end too many. -/
theorem length_flatten_splitLines (chars : List Char) :
    (splitLines chars).flatten.length + (splitLines chars).length = chars.length + 1 := by
  induction chars with
  | nil => rfl
  | cons c rest ih =>
    by_cases hc : c = '\n'
    · rw [hc, splitLines_cons_newline, List.flatten_cons, List.nil_append, List.length_cons,
        List.length_cons]
      omega
    · obtain ⟨line, more, hrest, hcons⟩ := splitLines_cons_of_ne hc rest
      rw [hrest, List.flatten_cons, List.length_append, List.length_cons] at ih
      rw [hcons, List.flatten_cons, List.length_append, List.length_cons, List.length_cons,
        List.length_cons]
      omega

namespace LineIndex

theorem count_ofChars (chars : List Char) : (ofChars chars).count = chars.count '\n' + 1 := by
  induction chars using List.reverseRecOn with
  | nil => rfl
  | append_singleton chars c ih =>
    rw [ofChars_append_singleton, count_push, ih, List.count_append]
    by_cases hc : c = '\n' <;> simp [hc]

theorem length_splitLines_eq_count (text : String) :
    (splitLines text.toList).length = (ofText text).count :=
  (length_splitLines _).trans (count_ofChars _).symm

/-- The starts increase and lie in the text. -/
structure Ordered (index : LineIndex) : Prop where
  increasing : index.starts.toList.Pairwise (· < ·)
  start_le : ∀ start ∈ index.starts.toList, start ≤ index.length

theorem Ordered.push {index : LineIndex} (h : index.Ordered) (c : Char) :
    (index.push c).Ordered := by
  have hold : ∀ start ∈ index.starts.toList, start < index.length + 1 := fun start hstart ↦
    Nat.lt_succ_of_le (h.start_le start hstart)
  unfold LineIndex.push
  split
  · constructor
    · rw [Array.toList_push, List.pairwise_append]
      refine ⟨h.increasing, List.pairwise_singleton _ _, ?_⟩
      intro start hstart next hnext
      rw [List.mem_singleton.mp hnext]
      exact hold start hstart
    · intro start hstart
      rw [Array.toList_push, List.mem_append, List.mem_singleton] at hstart
      rcases hstart with hstart | rfl
      · exact Nat.le_of_lt (hold start hstart)
      · exact Nat.le_refl _
  · exact ⟨h.increasing, fun start hstart ↦ Nat.le_of_lt (hold start hstart)⟩

theorem ordered_ofChars (chars : List Char) : (ofChars chars).Ordered := by
  induction chars using List.reverseRecOn with
  | nil => exact ⟨List.pairwise_singleton _ _, by simp [ofChars, empty]⟩
  | append_singleton chars c ih =>
    rw [ofChars_append_singleton]
    exact ih.push c

theorem Ordered.start_lt {index : LineIndex} (h : index.Ordered) {line later : Nat}
    (hline : line < index.starts.size) (hlater : later < index.starts.size) (hlt : line < later) :
    index.starts[line] < index.starts[later] :=
  List.pairwise_iff_getElem.mp h.increasing line later hline hlater hlt

/-- The range of a line lies in the text. -/
theorem Ordered.range_le {index : LineIndex} (h : index.Ordered) {line : Nat} {range : LineRange}
    (hrange : index.range? line = some range) :
    range.start ≤ range.stop ∧ range.stop ≤ index.length := by
  obtain ⟨start, hstart, rfl⟩ := Option.map_eq_some_iff.mp hrange
  obtain ⟨hline, rfl⟩ := Array.getElem?_eq_some_iff.mp hstart
  dsimp only
  split
  · rename_i next hnext
    obtain ⟨hline', rfl⟩ := Array.getElem?_eq_some_iff.mp hnext
    have hlt := h.start_lt hline hline' (Nat.lt_succ_self line)
    have hle := h.start_le index.starts[line + 1] (Array.getElem_mem_toList hline')
    omega
  · exact ⟨h.start_le _ (Array.getElem_mem_toList hline), Nat.le_refl _⟩

/-- No line starts inside another one or right behind it. -/
theorem Ordered.start_cases {index : LineIndex} (h : index.Ordered) {line start : Nat}
    {range : LineRange} (hrange : index.range? line = some range)
    (hstart : start ∈ index.starts.toList) : start ≤ range.start ∨ range.stop < start := by
  obtain ⟨first, hfirst, rfl⟩ := Option.map_eq_some_iff.mp hrange
  obtain ⟨hline, rfl⟩ := Array.getElem?_eq_some_iff.mp hfirst
  obtain ⟨other, hother, rfl⟩ := List.getElem_of_mem hstart
  dsimp only
  rw [Array.getElem_toList]
  rcases Nat.lt_trichotomy other line with hbefore | rfl | hbehind
  · exact Or.inl (Nat.le_of_lt (h.start_lt hother hline hbefore))
  · exact Or.inl (Nat.le_refl _)
  · right
    have hnext : line + 1 < index.starts.size := Nat.lt_of_le_of_lt hbehind hother
    have hpos := h.start_lt hline hnext (Nat.lt_succ_self line)
    rw [Array.getElem?_eq_getElem hnext]
    dsimp only
    rcases Nat.lt_or_eq_of_le (show line + 1 ≤ other from hbehind) with hfar | rfl
    · have hlater := h.start_lt hnext hother hfar
      omega
    · omega

/-- An offset lies in the content of at most one line. -/
theorem Ordered.line_unique {index : LineIndex} (h : index.Ordered) {line other offset : Nat}
    {range otherRange : LineRange} (hrange : index.range? line = some range)
    (hother : index.range? other = some otherRange)
    (hoffset : range.start ≤ offset ∧ offset < range.stop)
    (hoffset' : otherRange.start ≤ offset ∧ offset < otherRange.stop) : line = other := by
  have hstart : ∀ {line : Nat} {range : LineRange}, index.range? line = some range →
      ∃ hline : line < index.starts.size, range.start = index.starts[line] := by
    intro line range hrange
    obtain ⟨start, hstart, rfl⟩ := Option.map_eq_some_iff.mp hrange
    obtain ⟨hline, rfl⟩ := Array.getElem?_eq_some_iff.mp hstart
    exact ⟨hline, rfl⟩
  obtain ⟨hline, hstarts⟩ := hstart hrange
  obtain ⟨hline', hstarts'⟩ := hstart hother
  have hcases := h.start_cases hrange (Array.getElem_mem_toList hline')
  have hcases' := h.start_cases hother (Array.getElem_mem_toList hline)
  rcases Nat.lt_trichotomy line other with hbefore | hsame | hbehind
  · have hlater := h.start_lt hline hline' hbefore
    omega
  · exact hsame
  · have hlater := h.start_lt hline' hline hbehind
    omega

/-- A line starts behind each newline. -/
theorem succ_mem_starts {chars : List Char} {offset : Nat} (h : chars[offset]? = some '\n') :
    offset + 1 ∈ (ofChars chars).starts.toList := by
  induction chars using List.reverseRecOn with
  | nil => nomatch h
  | append_singleton chars c ih =>
    rw [ofChars_append_singleton]
    unfold push
    dsimp only
    rcases Nat.lt_or_ge offset chars.length with hbefore | hlast
    · rw [List.getElem?_append_left hbefore] at h
      split
      · rw [Array.toList_push]
        exact List.mem_append_left _ (ih h)
      · exact ih h
    · rw [List.getElem?_append_right hlast, List.getElem?_singleton] at h
      split at h
      · rw [if_pos (Option.some.inj h), Array.toList_push, length_ofChars]
        have hoffset : offset = chars.length := by omega
        exact List.mem_append_right _ (List.mem_singleton.mpr (by rw [hoffset]))
      · nomatch h

/-- A newline belongs to the content of no line. -/
theorem not_content_of_newline {chars : List Char} {line offset : Nat} {range : LineRange}
    (h : chars[offset]? = some '\n') (hrange : (ofChars chars).range? line = some range) :
    ¬(range.start ≤ offset ∧ offset < range.stop) := by
  have hcases := (ordered_ofChars chars).start_cases hrange (succ_mem_starts h)
  omega

theorem range?_eq_some {index : LineIndex} {line : Nat} (h : line < index.count) :
    ∃ range, index.range? line = some range :=
  ⟨_, Option.map_eq_some_iff.mpr ⟨_, Array.getElem?_eq_getElem h, rfl⟩⟩

theorem range?_of_range_eq_ok {index : LineIndex} {line : Nat} {range : LineRange}
    (h : index.range line = .ok range) : index.range? line = some range := by
  unfold LineIndex.range at h
  split at h
  · rename_i found hfound
    rw [hfound, Except.ok.inj h]
  · nomatch h

end LineIndex

end CodeEditor
