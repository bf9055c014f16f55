import CodeEditor.Proofs.Fault
import CodeEditor.Proofs.Layout.Gutter
import Mathlib.Order.Bounds.Basic

/-!
# Clicks on the gutter

A click is resolved by halving. If the lines that lie above the height of the click come first, this
finds the line that going from line to line finds, and the last line if there is none. The halving
needs no limit of rounds, and the sums of places that it forms stay within the range of offsets as
long as the lines can be counted twice in it.
-/

namespace CodeEditor

open TextLayout

/-! ## The loop -/

/-- Halving as a loop that adds places in checked arithmetic. -/
def halveChecked (before : Nat → Bool) (low high : Nat) : Except Fault Nat :=
  if low < high then
    match hsum : Offset.add low high with
    | .error fault => .error fault
    | .ok sum =>
      if before (sum / 2) then halveChecked before (sum / 2 + 1) high
      else halveChecked before low (sum / 2)
  else .ok low
termination_by high - low
decreasing_by all_goals
  have hsum := Offset.eq_of_add_eq_ok hsum
  omega

theorem halveChecked_of_lt {before : Nat → Bool} {low high : Nat} (hlt : low < high)
    (hrange : 2 * high ≤ Offset.bound) :
    halveChecked before low high =
      if before ((low + high) / 2) then halveChecked before ((low + high) / 2 + 1) high
      else halveChecked before low ((low + high) / 2) := by
  have hadd : Offset.add low high = .ok (low + high) := Offset.add_eq_ok (by omega)
  rw [halveChecked, if_pos hlt]
  split
  · rename_i fault hfault
    rw [hadd] at hfault
    nomatch hfault
  · rename_i sum hsum
    rw [Offset.eq_of_add_eq_ok hsum]

/-- The loop ends without a fault. -/
theorem halveChecked_eq_ok {before : Nat → Bool} {low high : Nat}
    (hrange : 2 * high ≤ Offset.bound) :
    halveChecked before low high = .ok (halve before low high) := by
  fun_induction halve before low high with
  | case1 low high hlt middle hbefore ih =>
    rw [halveChecked_of_lt hlt hrange, if_pos hbefore]
    exact ih hrange
  | case2 low high hlt middle hbehind ih =>
    have hmiddle : middle < high := by omega
    rw [halveChecked_of_lt hlt hrange, if_neg hbehind]
    exact ih (by omega)
  | case3 low high hle => rw [halveChecked, if_neg hle]

/-! ## Going from line to line -/

namespace TextLayout

variable {α : Type} [TextLayout α] {layout : α}

/-- The first lines of a layout, so many of them, have rectangles, and those that lie above a height
come before the others. -/
structure Searchable (layout : α) (total : Nat) (y : Extent) : Prop where
  rect : ∀ line < total, ∃ rect, rect? layout line = some rect
  above : ∀ {line later rect below}, line ≤ later → later < total →
    rect? layout line = some rect → rect? layout later = some below →
      below.bottom ≤ y → rect.bottom ≤ y

/-- Lines that stand below each other can be searched at every height. -/
theorem Ascending.searchable (h : Ascending layout) {total : Nat} (htotal : total ≤ count layout)
    (y : Extent) : Searchable layout total y where
  rect line hline := h.rect line (Nat.lt_of_lt_of_le hline htotal)
  above hle hlater hrect hbelow :=
    Extent.le_trans (h.bottom hle (Nat.lt_of_lt_of_le hlater htotal) hrect hbelow)

/-- The line does not lie above the height. -/
def Reaches (layout : α) (y : Extent) (line : Nat) : Prop :=
  ∃ rect ∈ rect? layout line, ¬rect.bottom ≤ y

instance (layout : α) (y : Extent) (line : Nat) : Decidable (Reaches layout y line) :=
  inferInstanceAs (Decidable (∃ rect ∈ rect? layout line, ¬rect.bottom ≤ y))

/-- Looks at one line after the other until the first that reaches below the height. -/
def scan? (layout : α) (total : Nat) (y : Extent) : Option Nat :=
  (List.range total).find? fun line ↦ Reaches layout y line

theorem scan?_eq_some_iff {total line : Nat} {y : Extent} :
    scan? layout total y = some line ↔
      IsLeast {line | line < total ∧ Reaches layout y line} line := by
  rw [scan?, List.find?_range_eq_some, List.mem_range, decide_eq_true_iff]
  constructor
  · rintro ⟨hreaches, hline, hbefore⟩
    refine ⟨⟨hline, hreaches⟩, fun other hother ↦ Nat.not_lt.mp fun hlt ↦ ?_⟩
    have hnot := hbefore other hlt
    rw [Bool.not_eq_true', decide_eq_false_iff_not] at hnot
    exact hnot hother.2
  · rintro ⟨⟨hline, hreaches⟩, hleast⟩
    refine ⟨hreaches, hline, fun other hother ↦ ?_⟩
    rw [Bool.not_eq_true', decide_eq_false_iff_not]
    exact fun h ↦ Nat.not_le.mpr hother (hleast ⟨hother.trans hline, h⟩)

theorem scan?_eq_none_iff {total : Nat} {y : Extent} :
    scan? layout total y = none ↔ ∀ line < total, ¬Reaches layout y line := by
  rw [scan?, List.find?_range_eq_none]
  refine forall₂_congr fun line _ ↦ ?_
  rw [Bool.not_eq_true', decide_eq_false_iff_not]

end TextLayout

namespace Gutter

variable {α : Type} [TextLayout α] {layout : α}

theorem reaches_iff_not_isAbove {total line : Nat} {y : Extent} (h : Searchable layout total y)
    (hline : line < total) : Reaches layout y line ↔ ¬isAbove layout y line = true := by
  obtain ⟨rect, hrect⟩ := h.rect line hline
  rw [isAbove_iff hrect]
  constructor
  · rintro ⟨other, hother, hreaches⟩
    rwa [Option.some.inj (hrect.symm.trans hother)]
  · exact fun hreaches ↦ ⟨rect, hrect, hreaches⟩

/-- Halving finds the line that is found by looking at all of them. -/
theorem firstBelow_eq_scan {total : Nat} {y : Extent} (h : Searchable layout total y) :
    firstBelow layout total y = (scan? layout total y).getD (total - 1) := by
  obtain ⟨place, hplace, habove⟩ :
      ∃ place ≤ total, ∀ line < total, isAbove layout y line = true ↔ line < place := by
    refine exists_place fun line later hle hlater ↦ ?_
    obtain ⟨rect, hrect⟩ := h.rect line (Nat.lt_of_le_of_lt hle hlater)
    obtain ⟨below, hbelow⟩ := h.rect later hlater
    rw [isAbove_iff hrect, isAbove_iff hbelow]
    exact h.above hle hlater hrect hbelow
  have hreaches : ∀ line < total, Reaches layout y line ↔ place ≤ line := fun line hline ↦ by
    rw [reaches_iff_not_isAbove h hline, habove line hline, Nat.not_lt]
  rw [firstBelow_eq hplace habove]
  rcases Nat.lt_or_ge place total with hlt | hge
  · have hscan : scan? layout total y = some place :=
      scan?_eq_some_iff.mpr ⟨⟨hlt, (hreaches place hlt).mpr (Nat.le_refl place)⟩,
        fun line hline ↦ (hreaches line hline.1).mp hline.2⟩
    rw [hscan, Option.getD_some]
    omega
  · have hscan : scan? layout total y = none :=
      scan?_eq_none_iff.mpr fun line hline h ↦
        Nat.not_le.mpr (hline.trans_le hge) ((hreaches line hline).mp h)
    rw [hscan, Option.getD_none]
    omega

theorem firstBelow_lt (layout : α) {total : Nat} (htotal : 0 < total) (y : Extent) :
    firstBelow layout total y < total := by
  have hle : firstBelow layout total y ≤ total - 1 := Nat.min_le_right _ _
  omega

/-- The search for a line is the loop that halves until nothing is left. It finds the first line that
does not lie above the height, or else the last line, if the lines that lie above the height come
first. So a click on the gutter hits the line that is found by going from line to line down to its
height. In any case the number that is hit is that of a line, or one if there is none. -/
theorem clicks_by_scan (layout : α) :
    (∀ total y,
      firstBelow layout total y = min (halve (isAbove layout y) 0 total) (total - 1) ∧
      (2 * total ≤ Offset.bound → halveChecked (isAbove layout y) 0 total =
        .ok (halve (isAbove layout y) 0 total)) ∧
      (Searchable layout total y →
        (∀ line, IsLeast {line | line < total ∧ Reaches layout y line} line →
          firstBelow layout total y = line) ∧
        ((∀ line < total, ¬Reaches layout y line) → firstBelow layout total y = total - 1))) ∧
    ∀ (lines : LineIndex) (viewport : Viewport) (clickY : Extent),
      let total := min lines.count (count layout)
      let y := viewport.scrollY + Extent.max clickY 0
      let hit := hitTest lines layout viewport clickY
      (1 ≤ hit ∧ hit ≤ max total 1) ∧
        (Searchable layout total y → hit = (scan? layout total y).getD (total - 1) + 1) := by
  refine ⟨fun total y ↦ ⟨?_, halveChecked_eq_ok, fun h ↦ ⟨?_, ?_⟩⟩, ?_⟩
  · rw [firstBelow, search_eq_halve layout y (Nat.sub_le total 0)]
  · intro line hline
    rw [firstBelow_eq_scan h, scan?_eq_some_iff.mpr hline, Option.getD_some]
  · intro hnone
    rw [firstBelow_eq_scan h, scan?_eq_none_iff.mpr hnone, Option.getD_none]
  · intro lines viewport clickY total y hit
    have hlt := firstBelow_lt layout (Nat.lt_of_lt_of_le Nat.one_pos (Nat.le_max_right total 1)) y
    have hhit : hit = firstBelow layout (max total 1) y + 1 := rfl
    refine ⟨by omega, fun h ↦ ?_⟩
    rcases Nat.eq_zero_or_pos total with hzero | hpos
    · -- Without lines one line is searched all the same, and stands for the first.
      rw [hzero] at hhit hlt ⊢
      have hscan : scan? layout 0 y = none :=
        scan?_eq_none_iff.mpr fun line hline ↦ absurd hline (Nat.not_lt_zero line)
      rw [hscan, hhit]
      change _ = 0 + 1
      omega
    · rw [hhit, Nat.max_eq_left hpos, firstBelow_eq_scan h]

/-- Two lines end at the height of a click, the second of them without height, and the third is
hit. -/
theorem clicks_by_scan_flat_line :
    let layout := Layout.fixed [20, 0, 40]
    let viewport : Viewport := ⟨15, 30⟩
    2 * 3 ≤ Offset.bound ∧ Searchable layout 3 20 ∧
      halveChecked (isAbove layout 20) 0 3 = .ok (halve (isAbove layout 20) 0 3) ∧
      firstBelow layout 3 20 = 2 ∧ hitTest (.ofText "a\nb\nc") layout viewport 5 = 3 := by
  intro layout viewport
  have hrange : 2 * 3 ≤ Offset.bound := by decide
  have hascending : Ascending layout := by decide +kernel
  have hsearchable : Searchable layout 3 20 := hascending.searchable (by decide) 20
  have hscan : scan? layout 3 20 = some 2 := by decide +kernel
  obtain ⟨hsearch, hclick⟩ := clicks_by_scan layout
  obtain ⟨-, hends, hfinds⟩ := hsearch 3 20
  have hfound : firstBelow layout 3 20 = 2 :=
    (hfinds hsearchable).1 2 (scan?_eq_some_iff.mp hscan)
  have hhit := (hclick (.ofText "a\nb\nc") viewport 5).2
  have htotal : min (LineIndex.ofText "a\nb\nc").count (count layout) = 3 := by decide +kernel
  have hy : viewport.scrollY + Extent.max 5 0 = 20 := by decide +kernel
  rw [htotal, hy, hscan] at hhit
  exact ⟨hrange, hsearchable, hends hrange, hfound, hhit hsearchable⟩

end Gutter

end CodeEditor
