import CodeEditor.Layout.Gutter
import CodeEditor.Proofs.Halving
import CodeEditor.Proofs.Layout.Extent
import Mathlib.Data.List.Basic

/-!
# The lines in the gutter

The gutter finds the first line on the display by halving and goes on from line to line until the
viewport ends. If the lines stand below each other, a test of every line selects the same ones,
apart from the last: halving ends there even if the line lies above the viewport, so that it is
drawn when the viewport is scrolled past the content.
-/

namespace CodeEditor

variable {α : Type} [TextLayout α] {layout : α}

namespace TextLayout

/-- The lines of a layout stand below each other. -/
structure Ascending (layout : α) : Prop where
  rect : ∀ line < count layout, ∃ rect, rect? layout line = some rect
  top : ∀ {line later rect below}, line ≤ later → later < count layout →
    rect? layout line = some rect → rect? layout later = some below → rect.y ≤ below.y
  bottom : ∀ {line later rect below}, line ≤ later → later < count layout →
    rect? layout line = some rect → rect? layout later = some below → rect.bottom ≤ below.bottom

/-- The top and the bottom of every line are defined. -/
theorem Ascending.defined (h : Ascending layout) {line : Nat} {rect : LineRect}
    (hline : line < count layout) (hrect : rect? layout line = some rect) :
    rect.y.isNaN = false ∧ rect.bottom.isNaN = false :=
  ⟨(Extent.defined_of_le (h.top (Nat.le_refl line) hline hrect hrect)).1,
    (Extent.defined_of_le (h.bottom (Nat.le_refl line) hline hrect hrect)).1⟩

theorem ascending_iff : Ascending layout ↔ ∀ later < count layout, ∀ line < later + 1,
    ∃ rect ∈ rect? layout line, ∃ below ∈ rect? layout later,
      rect.y ≤ below.y ∧ rect.bottom ≤ below.bottom := by
  constructor
  · intro h later hlater line hline
    have hle : line ≤ later := Nat.le_of_lt_succ hline
    obtain ⟨rect, hrect⟩ := h.rect line (Nat.lt_of_le_of_lt hle hlater)
    obtain ⟨below, hbelow⟩ := h.rect later hlater
    exact ⟨rect, hrect, below, hbelow, h.top hle hlater hrect hbelow,
      h.bottom hle hlater hrect hbelow⟩
  · intro h
    have hordered : ∀ {line later rect below}, line ≤ later → later < count layout →
        rect? layout line = some rect → rect? layout later = some below →
        rect.y ≤ below.y ∧ rect.bottom ≤ below.bottom := by
      intro line later rect below hle hlater hrect hbelow
      obtain ⟨_, hline, _, hother, hordered⟩ := h later hlater line (Nat.lt_succ_of_le hle)
      cases hline.symm.trans hrect
      cases hother.symm.trans hbelow
      exact hordered
    refine ⟨fun line hline ↦ ?_, fun hle hlater hrect hbelow ↦
      (hordered hle hlater hrect hbelow).1, fun hle hlater hrect hbelow ↦
      (hordered hle hlater hrect hbelow).2⟩
    obtain ⟨rect, hrect, -⟩ := h line hline line (Nat.lt_succ_self line)
    exact ⟨rect, hrect⟩

instance (layout : α) : Decidable (Ascending layout) := decidable_of_iff _ ascending_iff.symm

end TextLayout

open TextLayout

/-- The line ends below the begin of the viewport and begins above its end. -/
def Viewport.Shows (viewport : Viewport) (rect : LineRect) : Prop :=
  viewport.scrollY < rect.bottom ∧ rect.y < viewport.bottom

instance (viewport : Viewport) (rect : LineRect) : Decidable (viewport.Shows rect) :=
  inferInstanceAs (Decidable (_ ∧ _))

namespace Gutter

/-! ## The first line -/

theorem isAbove_iff {y : Extent} {line : Nat} {rect : LineRect}
    (hrect : rect? layout line = some rect) : isAbove layout y line = true ↔ rect.bottom ≤ y := by
  unfold isAbove
  rw [hrect]
  exact decide_eq_true_iff

/-- The lines in front of one that lies above a height do so as well. -/
theorem isAbove_of_le (h : Ascending layout) {y : Extent} {line later : Nat} (hle : line ≤ later)
    (hlater : later < count layout) (habove : isAbove layout y later = true) :
    isAbove layout y line = true := by
  obtain ⟨rect, hrect⟩ := h.rect line (Nat.lt_of_le_of_lt hle hlater)
  obtain ⟨below, hbelow⟩ := h.rect later hlater
  rw [isAbove_iff hbelow] at habove
  exact (isAbove_iff hrect).mpr (Extent.le_trans (h.bottom hle hlater hrect hbelow) habove)

theorem search_eq_halve (layout : α) (y : Extent) {fuel low high : Nat}
    (hfuel : high - low ≤ fuel) :
    search layout y fuel low high = halve (isAbove layout y) low high := by
  induction fuel generalizing low high with
  | zero =>
    rw [search, halve, if_neg (by omega)]
  | succ fuel ih =>
    rw [search, halve]
    by_cases hlt : low < high
    · rw [if_pos hlt, if_pos hlt]
      dsimp only
      rw [ih (by omega), ih (by omega)]
    · rw [if_neg hlt, if_neg hlt]

/-- The first line that is not above a height is found, but never one behind the last. -/
theorem firstBelow_eq {y : Extent} {count place : Nat} (hcount : place ≤ count)
    (hplace : ∀ line < count, isAbove layout y line = true ↔ line < place) :
    firstBelow layout count y = min place (count - 1) := by
  unfold firstBelow
  rw [search_eq_halve layout y (Nat.sub_le count 0), halve_eq_of_lt hplace (Nat.zero_le place) hcount]

theorem firstBelow_le (layout : α) (total : Nat) (y : Extent) :
    firstBelow layout total y ≤ total :=
  (Nat.min_le_right _ _).trans (Nat.sub_le total 1)

/-- The lines from the one that is found on are those that reach below the height, and the last. -/
theorem firstBelow_le_iff (h : Ascending layout) {y : Extent} {total line : Nat} {rect : LineRect}
    (htotal : total ≤ count layout) (hline : line < total) (hrect : rect? layout line = some rect) :
    firstBelow layout total y ≤ line ↔ ¬rect.bottom ≤ y ∨ line + 1 = total := by
  obtain ⟨place, hle, hplace⟩ :
      ∃ place ≤ total, ∀ line < total, isAbove layout y line = true ↔ line < place :=
    exists_place fun _ later hbefore hlater ↦
      isAbove_of_le h hbefore (Nat.lt_of_lt_of_le hlater htotal)
  rw [firstBelow_eq hle hplace, ← isAbove_iff hrect, hplace line hline]
  omega

/-! ## Going on from line to line -/

variable {viewport : Viewport} {messages : List LintMessage} {caretLine : Nat}

/-- The numbers of those lines that pass a test. -/
def selectedLines (layout : α) (viewport : Viewport) (messages : List LintMessage)
    (caretLine : Nat) (lines : List Nat) (passes : Nat → LineRect → Bool) : List GutterLine :=
  lines.filterMap fun line ↦
    ((rect? layout line).filter (passes line)).map (gutterLine viewport messages caretLine line)

theorem mem_selectedLines {lines : List Nat} {passes : Nat → LineRect → Bool}
    {drawn : GutterLine} :
    drawn ∈ selectedLines layout viewport messages caretLine lines passes ↔
      ∃ line ∈ lines, ∃ rect, rect? layout line = some rect ∧ passes line rect = true ∧
        gutterLine viewport messages caretLine line rect = drawn := by
  simp only [selectedLines, List.mem_filterMap, Option.map_eq_some_iff, Option.filter_eq_some_iff,
    and_assoc]

/-- Tests that agree on the rectangles of the lines select the same lines. -/
theorem selectedLines_congr {lines : List Nat} {passes passes' : Nat → LineRect → Bool}
    (h : ∀ line ∈ lines, ∀ rect, rect? layout line = some rect →
      passes line rect = passes' line rect) :
    selectedLines layout viewport messages caretLine lines passes =
      selectedLines layout viewport messages caretLine lines passes' := by
  apply List.filterMap_congr
  intro line hline
  cases hrect : rect? layout line with
  | none => rfl
  | some rect =>
    rw [Option.filter_some, Option.filter_some, h line hline rect hrect]

theorem selectedLines_append {lines lines' : List Nat} {passes : Nat → LineRect → Bool} :
    selectedLines layout viewport messages caretLine (lines ++ lines') passes =
      selectedLines layout viewport messages caretLine lines passes ++
        selectedLines layout viewport messages caretLine lines' passes :=
  List.filterMap_append

theorem selectedLines_eq_nil {lines : List Nat} {passes : Nat → LineRect → Bool}
    (h : ∀ line ∈ lines, ∀ rect, rect? layout line = some rect → passes line rect = false) :
    selectedLines layout viewport messages caretLine lines passes = [] := by
  rw [List.eq_nil_iff_forall_not_mem]
  intro drawn hdrawn
  obtain ⟨line, hline, rect, hrect, hpasses, -⟩ := mem_selectedLines.mp hdrawn
  rw [h line hline rect hrect] at hpasses
  nomatch hpasses

/-- The lines behind one that lies under the viewport do so as well, so that it does not matter that
they are not looked at. -/
theorem linesFrom_eq (h : Ascending layout) {line total : Nat}
    (htotal : line + total ≤ count layout) :
    linesFrom layout viewport messages caretLine line total =
      selectedLines layout viewport messages caretLine (List.range' line total)
        fun _ rect ↦ ¬viewport.bottom ≤ rect.y := by
  induction total generalizing line with
  | zero => rfl
  | succ total ih =>
    obtain ⟨rect, hrect⟩ := h.rect line (by omega)
    rw [linesFrom, hrect]
    dsimp only
    split
    · rename_i hunder
      refine (selectedLines_eq_nil fun later hlater below hbelow ↦ ?_).symm
      rw [List.mem_range'_1] at hlater
      have hlater : line ≤ later ∧ later < count layout := by omega
      have htop := h.top hlater.1 hlater.2 hrect hbelow
      exact decide_eq_false (not_not_intro (Extent.le_trans hunder htop))
    · rename_i hwithin
      have hhead : (rect? layout line).filter (fun rect ↦ decide (¬viewport.bottom ≤ rect.y)) =
          some rect := by
        rw [hrect, Option.filter_some, if_pos (decide_eq_true hwithin)]
      rw [List.range'_succ, selectedLines, List.filterMap_cons, hhead, Option.map_some,
        ih (by omega)]
      rfl

/-- The lines that are drawn are those of which a part lies within the viewport, and moreover the
last line if it does not lie under the viewport. -/
theorem render_eq_selectedLines (h : Ascending layout) (lines : LineIndex) :
    (render lines layout viewport messages caretLine).lines =
      selectedLines layout viewport messages caretLine
        (List.range (min lines.count (count layout))) fun line rect ↦
          ¬viewport.bottom ≤ rect.y ∧ (¬rect.bottom ≤ viewport.scrollY ∨
            line + 1 = min lines.count (count layout)) := by
  unfold render
  generalize hcount : min lines.count (count layout) = total
  have htotal : total ≤ count layout := hcount ▸ Nat.min_le_right _ _
  have hfirst := firstBelow_le layout total viewport.scrollY
  have hle : ∀ line < total, ∀ rect, rect? layout line = some rect →
      (firstBelow layout total viewport.scrollY ≤ line ↔
        ¬rect.bottom ≤ viewport.scrollY ∨ line + 1 = total) :=
    fun _ hline _ hrect ↦ firstBelow_le_iff h htotal hline hrect
  dsimp only
  generalize firstBelow layout total viewport.scrollY = first at hfirst hle
  have hrange : List.range first ++ List.range' first (total - first) = List.range total := by
    have happend := List.range'_append_1 (s := 0) (m := first) (n := total - first)
    rwa [Nat.zero_add, Nat.add_sub_cancel' hfirst, ← List.range_eq_range',
      ← List.range_eq_range'] at happend
  let selected := selectedLines layout viewport messages caretLine
  let drawn : Nat → LineRect → Bool := fun line rect ↦
    ¬viewport.bottom ≤ rect.y ∧ (¬rect.bottom ≤ viewport.scrollY ∨ line + 1 = total)
  have hbefore : selected (List.range first) drawn = [] := by
    apply selectedLines_eq_nil
    intro line hline rect hrect
    rw [List.mem_range] at hline
    have hhidden := (hle line (by omega) rect hrect).not.mp (Nat.not_le.mpr hline)
    exact decide_eq_false fun h ↦ hhidden h.2
  calc linesFrom layout viewport messages caretLine first (total - first)
    _ = selected (List.range' first (total - first)) fun _ rect ↦ ¬viewport.bottom ≤ rect.y :=
      linesFrom_eq h (by omega)
    _ = selected (List.range' first (total - first)) drawn := by
      apply selectedLines_congr
      intro line hline rect hrect
      rw [List.mem_range'_1] at hline
      have hshown := (hle line (by omega) rect hrect).mp hline.1
      rw [decide_eq_decide, and_iff_left hshown]
    _ = selected (List.range first) drawn ++
        selected (List.range' first (total - first)) drawn := by
      rw [hbefore, List.nil_append]
    _ = selected (List.range total) drawn := by
      rw [← hrange]
      exact selectedLines_append.symm

/-- The gutter draws, in ascending order, the lines that reach into the viewport and, unless it lies
under the viewport, the last line. So it draws exactly the lines that the viewport shows if and only
if the last line, where it does not lie under the viewport, reaches into it. -/
theorem render_lines (h : Ascending layout) (lines : LineIndex) (viewport : Viewport)
    (messages : List LintMessage) (caretLine : Nat) :
    let total := min lines.count (count layout)
    let drawn := (render lines layout viewport messages caretLine).lines
    let selected := selectedLines layout viewport messages caretLine (List.range total)
    drawn = selected (fun line rect ↦ ¬viewport.bottom ≤ rect.y ∧
      (¬rect.bottom ≤ viewport.scrollY ∨ line + 1 = total)) ∧
    (viewport.bottom.isNaN = false →
      (drawn = selected (fun _ rect ↦ viewport.Shows rect) ↔
        ∀ last rect, last + 1 = total → rect? layout last = some rect →
          rect.y < viewport.bottom → viewport.scrollY < rect.bottom)) := by
  intro total drawn selected
  have hdrawn : drawn = selected _ := render_eq_selectedLines h lines
  refine ⟨hdrawn, fun hviewport ↦ ?_⟩
  have hscroll : viewport.scrollY.isNaN = false := Extent.defined_of_add hviewport
  constructor
  · intro hsame last rect hlast hrect htop
    have hmem : gutterLine viewport messages caretLine last rect ∈ drawn := by
      rw [hdrawn]
      exact mem_selectedLines.mpr ⟨last, List.mem_range.mpr (by omega), rect, hrect,
        decide_eq_true ⟨Extent.not_le_of_lt htop, Or.inr hlast⟩, rfl⟩
    rw [hsame] at hmem
    obtain ⟨line, -, other, hother, hshown, hline⟩ := mem_selectedLines.mp hmem
    obtain rfl : line = last := Nat.succ.inj (congrArg GutterLine.number hline)
    obtain rfl := Option.some.inj (hother.symm.trans hrect)
    exact (of_decide_eq_true hshown).1
  · intro hlast
    rw [hdrawn]
    apply selectedLines_congr
    intro line hline rect hrect
    rw [List.mem_range] at hline
    obtain ⟨hy, hbottom⟩ := h.defined (Nat.lt_of_lt_of_le hline (Nat.min_le_right _ _)) hrect
    rw [decide_eq_decide]
    constructor
    · rintro ⟨htop, hreaches⟩
      have htop := Extent.lt_of_not_le hviewport hy htop
      refine ⟨?_, htop⟩
      rcases hreaches with hreaches | hend
      · exact Extent.lt_of_not_le hbottom hscroll hreaches
      · exact hlast line rect hend hrect htop
    · intro hshown
      obtain ⟨hreaches, htop⟩ : viewport.Shows rect := hshown
      exact ⟨Extent.not_le_of_lt htop, Or.inl (Extent.not_le_of_lt hreaches)⟩

/-- A line without height at the begin of the viewport is not shown. -/
theorem render_lines_flat_line :
    let layout := Layout.fixed [20, 0, 40]
    let viewport : Viewport := ⟨20, 10⟩
    Ascending layout ∧ viewport.bottom.isNaN = false ∧
      (render (.ofText "a\nb\nc") layout viewport [] 2).lines = [⟨3, 0, 40, none, true⟩] := by
  intro layout viewport
  have hascending : Ascending layout := by decide +kernel
  have hviewport : viewport.bottom.isNaN = false := by decide +kernel
  obtain ⟨-, hshown⟩ := render_lines hascending (.ofText "a\nb\nc") viewport [] 2
  have hreaches : viewport.scrollY < (⟨20, 40⟩ : LineRect).bottom := by decide +kernel
  have htotal : min (LineIndex.ofText "a\nb\nc").count (count layout) = 3 := by decide +kernel
  have hend : rect? layout 2 = some ⟨20, 40⟩ := by decide +kernel
  refine ⟨hascending, hviewport, ((hshown hviewport).mpr ?_).trans (by decide +kernel)⟩
  intro last rect hlast hrect _
  obtain rfl : last = 2 := Nat.succ.inj (hlast.trans htotal)
  cases hend.symm.trans hrect
  exact hreaches

/-- A viewport that is scrolled past the only line shows nothing, and yet the line is drawn. -/
theorem passed_line_drawn :
    let layout : Layout := .monospace ⟨{}, 20, #[0, 1]⟩
    let viewport : Viewport := ⟨50, 20⟩
    ((Layout.monospace (.ofConfig {})).relayout ['a'] (.ofText "a") 16).toOption = some layout ∧
      Ascending layout ∧ viewport.bottom.isNaN = false ∧
      (render (.ofText "a") layout viewport [] 0).lines = [⟨1, -50, 20, none, true⟩] ∧
      selectedLines layout viewport [] 0
        (List.range (min (LineIndex.ofText "a").count (count layout)))
        (fun _ rect ↦ viewport.Shows rect) = [] := by
  decide +kernel

end Gutter

end CodeEditor
