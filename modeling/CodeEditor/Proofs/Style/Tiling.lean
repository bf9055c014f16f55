import CodeEditor.Proofs.Text.Edit
import CodeEditor.Style.StyledText
import Mathlib.Data.List.Chain

/-!
# Tilings and the canonical form of styled texts

Spans tile a range of offsets if each is not empty and begins where the one before it ends. A
styled text is canonical if its spans tile it and neighbours differ in style. Bringing any list
of spans into form gives a canonical styled text, and leaves a canonical one as it is; so does
carrying a styled text across an edit, whatever its spans were.
-/

namespace CodeEditor

/-- The spans cover the offsets from the start up to the stop, without gaps or overlaps. -/
def Tiles (start stop : Nat) : List Span → Prop
  | [] => start = stop
  | span :: rest => span.start = start ∧ start < span.stop ∧ Tiles span.stop stop rest

namespace Tiles

theorem le {start stop : Nat} {spans : List Span} (h : Tiles start stop spans) : start ≤ stop := by
  induction spans generalizing start with
  | nil => exact Nat.le_of_eq h
  | cons span rest ih =>
    obtain ⟨-, hlt, hrest⟩ := h
    exact Nat.le_trans (Nat.le_of_lt hlt) (ih hrest)

theorem bounds {start stop : Nat} {spans : List Span} (h : Tiles start stop spans) :
    ∀ span ∈ spans, start ≤ span.start ∧ span.start < span.stop ∧ span.stop ≤ stop := by
  induction spans generalizing start with
  | nil => intro span hspan; nomatch hspan
  | cons first rest ih =>
    obtain ⟨rfl, hlt, hrest⟩ := h
    intro span hspan
    rcases List.mem_cons.mp hspan with rfl | hspan
    · exact ⟨Nat.le_refl _, hlt, hrest.le⟩
    · obtain ⟨hstart, hspan⟩ := ih hrest span hspan
      exact ⟨by omega, hspan⟩

theorem precedes {start stop : Nat} {spans : List Span} (h : Tiles start stop spans) :
    spans.Pairwise fun a b ↦ a.precedes b := by
  induction spans generalizing start with
  | nil => exact List.Pairwise.nil
  | cons first rest ih =>
    obtain ⟨rfl, hlt, hrest⟩ := h
    refine List.Pairwise.cons (fun span hspan ↦ ?_) (ih hrest)
    have hbounds := hrest.bounds span hspan
    simp only [Span.precedes, Bool.or_eq_true, decide_eq_true_eq]
    exact Or.inl (by omega)

/-- Every offset of a tiled range lies in a span. -/
theorem find?_contains {start stop offset : Nat} {spans : List Span} (h : Tiles start stop spans)
    (hstart : start ≤ offset) (hstop : offset < stop) :
    ∃ span, spans.find? (·.contains offset) = some span := by
  induction spans generalizing start with
  | nil => exact absurd (show start = stop from h) (by omega)
  | cons first rest ih =>
    obtain ⟨rfl, hlt, hrest⟩ := h
    rw [List.find?_cons]
    by_cases hfirst : first.contains offset = true
    · exact ⟨first, by rw [hfirst]⟩
    · rw [Bool.not_eq_true] at hfirst
      have hbehind : first.stop ≤ offset := by
        simp only [Span.contains, Bool.and_eq_false_iff, decide_eq_false_iff_not] at hfirst
        omega
      rw [hfirst]
      exact ih hrest hbehind

/-- The span that contains an offset is the one that is found. -/
theorem find?_of_mem {start stop offset : Nat} {spans : List Span} (h : Tiles start stop spans)
    {span : Span} (hspan : span ∈ spans) (hoffset : span.contains offset = true) :
    spans.find? (·.contains offset) = some span := by
  induction spans generalizing start with
  | nil => nomatch hspan
  | cons first rest ih =>
    obtain ⟨rfl, hlt, hrest⟩ := h
    rcases List.mem_cons.mp hspan with rfl | hspan
    · exact List.find?_cons_of_pos hoffset
    · have hbounds := hrest.bounds span hspan
      have hbefore : first.contains offset = false := by
        simp only [Span.contains, Bool.and_eq_true, decide_eq_true_eq] at hoffset
        simp only [Span.contains, Bool.and_eq_false_iff, decide_eq_false_iff_not]
        omega
      rw [List.find?_cons, hbefore]
      exact ih hrest hspan

theorem join {span : Span} {stop : Nat} {spans : List Span} (hspan : span.start < span.stop)
    (h : Tiles span.stop stop spans) : Tiles span.start stop (span.join spans) := by
  cases spans with
  | nil => exact ⟨rfl, hspan, h⟩
  | cons next rest =>
    rw [Span.join]
    split
    · obtain ⟨-, hlt, hrest⟩ := h
      rename_i hmeet
      exact ⟨rfl, by dsimp only; omega, hrest⟩
    · exact ⟨rfl, hspan, h⟩

end Tiles

/-- Neighbouring spans differ in style. -/
abbrev Reduced (spans : List Span) : Prop := spans.IsChain fun a b ↦ a.style ≠ b.style

namespace Span

theorem join_reduced {span : Span} {stop : Nat} {spans : List Span}
    (htiles : Tiles span.stop stop spans) (h : Reduced spans) : Reduced (span.join spans) := by
  cases spans with
  | nil => exact List.IsChain.singleton _
  | cons next rest =>
    rw [join]
    split
    · rename_i hmeet
      cases rest with
      | nil => exact List.IsChain.singleton _
      | cons other more =>
        rw [Reduced, List.isChain_cons_cons] at h ⊢
        rw [hmeet.2]
        exact h
    · rename_i hmeet
      have hne : span.style ≠ next.style := fun hstyle ↦ hmeet ⟨htiles.1.symm, hstyle⟩
      exact List.isChain_cons_cons.mpr ⟨hne, h⟩

/-- A span that already leads reduced ones stays in front of them. -/
theorem join_eq_cons {span : Span} {spans : List Span} (h : Reduced (span :: spans)) :
    span.join spans = span :: spans := by
  cases spans with
  | nil => rfl
  | cons next rest =>
    have hne := (List.isChain_cons_cons.mp h).1
    exact if_neg fun hmeet ↦ hne hmeet.2

/-! ## Joining all neighbours of one style -/

theorem foldr_join_tiles {start stop : Nat} {spans : List Span} (h : Tiles start stop spans) :
    Tiles start stop (spans.foldr join []) := by
  induction spans generalizing start with
  | nil => exact h
  | cons span rest ih =>
    obtain ⟨rfl, hlt, hrest⟩ := h
    exact Tiles.join hlt (ih hrest)

theorem foldr_join_reduced {start stop : Nat} {spans : List Span} (h : Tiles start stop spans) :
    Reduced (spans.foldr join []) := by
  induction spans generalizing start with
  | nil => exact List.IsChain.nil
  | cons span rest ih =>
    obtain ⟨rfl, hlt, hrest⟩ := h
    exact join_reduced (foldr_join_tiles hrest) (ih hrest)

theorem lay_tiles (length : Nat) (fill : Style) {cursor : Nat} (spans : List Span)
    (h : cursor ≤ length) : Tiles cursor length (lay length fill cursor spans) := by
  induction spans generalizing cursor with
  | nil =>
    unfold lay
    split
    · rename_i hlt
      exact ⟨rfl, hlt, rfl⟩
    · exact Nat.le_antisymm h (by omega)
  | cons span rest ih =>
    unfold lay
    dsimp only
    split
    · exact ih h
    · rename_i hspan
      let laid : Span := ⟨max span.start cursor, min span.stop length, span.style⟩
      have hlaid : Tiles (max span.start cursor) length
          (laid.join (lay length fill (min span.stop length) rest)) :=
        @Tiles.join laid _ _ (Nat.not_le.mp hspan) (ih (Nat.min_le_right _ _))
      split
      · rename_i hgap
        let gap : Span := ⟨cursor, max span.start cursor, fill⟩
        exact @Tiles.join gap _ _ hgap hlaid
      · rename_i hgap
        rwa [show max span.start cursor = cursor by omega] at hlaid

theorem lay_reduced (length : Nat) (fill : Style) {cursor : Nat} (spans : List Span)
    (h : cursor ≤ length) : Reduced (lay length fill cursor spans) := by
  induction spans generalizing cursor with
  | nil =>
    unfold lay
    split
    · exact List.IsChain.singleton _
    · exact List.IsChain.nil
  | cons span rest ih =>
    unfold lay
    dsimp only
    split
    · exact ih h
    · rename_i hspan
      let laid : Span := ⟨max span.start cursor, min span.stop length, span.style⟩
      have htiles := lay_tiles length fill rest (Nat.min_le_right span.stop length)
      have hlaid := @join_reduced laid _ _ htiles (ih (Nat.min_le_right _ _))
      split
      · let gap : Span := ⟨cursor, max span.start cursor, fill⟩
        exact @join_reduced gap _ _
          (@Tiles.join laid _ _ (Nat.not_le.mp hspan) htiles) hlaid
      · exact hlaid

/-- Spans that tile what is free are laid down as they are. -/
theorem lay_eq_self {length cursor : Nat} {spans : List Span} (fill : Style)
    (htiles : Tiles cursor length spans) (h : Reduced spans) :
    lay length fill cursor spans = spans := by
  induction spans generalizing cursor with
  | nil => exact if_neg (Nat.not_lt.mpr (Nat.le_of_eq (Eq.symm htiles)))
  | cons span rest ih =>
    obtain ⟨rfl, hlt, hrest⟩ := htiles
    have hstop : min span.stop length = span.stop := Nat.min_eq_left hrest.le
    have hstart : max span.start span.start = span.start := Nat.max_self _
    unfold lay
    dsimp only
    rw [hstop, hstart, if_neg (Nat.not_le.mpr hlt), if_neg (Nat.lt_irrefl _),
      ih hrest h.tail]
    exact join_eq_cons h

end Span

namespace StyledText

/-- The spans tile the text, and neighbours differ in style. -/
structure Canonical (styled : StyledText) : Prop where
  tiles : Tiles 0 styled.length styled.spans
  reduced : Reduced styled.spans

theorem canonical_normalized (spans : List Span) (length : Nat) (fill : Style) :
    (normalized spans length fill).Canonical :=
  ⟨Span.lay_tiles _ _ _ (Nat.zero_le _), Span.lay_reduced _ _ _ (Nat.zero_le _)⟩

theorem canonical_uniform (length : Nat) (style : Style) : (uniform length style).Canonical := by
  unfold uniform
  by_cases h : length = 0
  · rw [if_pos h, h]
    exact ⟨rfl, List.IsChain.nil⟩
  · rw [if_neg h]
    exact ⟨⟨rfl, Nat.pos_of_ne_zero h, rfl⟩, List.IsChain.singleton _⟩

/-- Canonical styled texts are fixed points, whatever the filling style. -/
theorem normalized_eq_self {styled : StyledText} (h : styled.Canonical) (fill : Style) :
    normalized styled.spans styled.length fill = styled := by
  have hkept : styled.spans.filter (fun span ↦ span.start < span.stop && span.start < styled.length)
      = styled.spans := by
    rw [List.filter_eq_self]
    intro span hspan
    have hbounds := h.tiles.bounds span hspan
    simp only [Bool.and_eq_true, decide_eq_true_eq]
    omega
  unfold normalized
  dsimp only
  rw [hkept, List.mergeSort_of_pairwise h.tiles.precedes, Span.lay_eq_self fill h.tiles h.reduced]

/-- An offset of a canonical styled text has a style. -/
theorem Canonical.styleAt?_eq_some {styled : StyledText} (h : styled.Canonical) {offset : Nat}
    (hoffset : offset < styled.length) : ∃ style, styled.styleAt? offset = some style := by
  obtain ⟨span, hspan⟩ := h.tiles.find?_contains (Nat.zero_le offset) hoffset
  exact ⟨span.style, by rw [styleAt?, hspan]; rfl⟩

/-! ## Styles at offsets -/

theorem styleAt?_cons (span : Span) (rest : List Span) (length offset : Nat) :
    styleAt? ⟨span :: rest, length⟩ offset =
      if span.contains offset then some span.style else styleAt? ⟨rest, length⟩ offset := by
  unfold styleAt?
  rw [List.find?_cons]
  cases span.contains offset <;> rfl

/-- Joining a span with the next one keeps the style of every offset. -/
theorem styleAt?_join {span : Span} {stop : Nat} {spans : List Span}
    (hspan : span.start < span.stop) (h : Tiles span.stop stop spans) (length offset : Nat) :
    styleAt? ⟨span.join spans, length⟩ offset = styleAt? ⟨span :: spans, length⟩ offset := by
  cases spans with
  | nil => rfl
  | cons next rest =>
    rw [Span.join]
    split
    · rename_i hmeet
      obtain ⟨hstart, hlt, -⟩ := h
      simp only [styleAt?_cons, hmeet.2, Span.contains, Bool.and_eq_true, decide_eq_true_eq]
      by_cases hbefore : offset < span.stop
      · have hjoined : offset < next.stop := by omega
        have hnext : ¬next.start ≤ offset := by omega
        simp only [hbefore, hjoined, hnext, and_true, if_false]
      · have hbehind : span.start ≤ offset := by omega
        have hnext : next.start ≤ offset := by omega
        simp only [hbefore, hbehind, hnext, and_false, true_and, if_false]
    · rfl

theorem styleAt?_foldr_join {start stop : Nat} {spans : List Span} (h : Tiles start stop spans)
    (length offset : Nat) :
    styleAt? ⟨spans.foldr Span.join [], length⟩ offset = styleAt? ⟨spans, length⟩ offset := by
  induction spans generalizing start with
  | nil => rfl
  | cons span rest ih =>
    obtain ⟨rfl, hlt, hrest⟩ := h
    rw [List.foldr_cons, styleAt?_join hlt (Span.foldr_join_tiles hrest), styleAt?_cons,
      styleAt?_cons, ih hrest]

end StyledText

/-! ## Across an edit -/

/-- What the edit leaves of a span, without bounds on offsets. -/
def Span.carry? (edit : Edit) (span : Span) : Option Span :=
  let start := edit.carry span.start
  let stop := edit.carry span.stop
  if start < stop then some ⟨start, stop, span.style⟩ else none

theorem Span.map?_eq_carry {edit : Edit} {length : Nat} (hfits : edit.Fits length)
    (hlength : length < Offset.bound) (hnew : edit.carryLength length < Offset.bound) {span : Span}
    (hstart : span.start ≤ length) (hstop : span.stop ≤ length) :
    span.map? edit = .ok (span.carry? edit) := by
  unfold map? carry?
  rw [Edit.mapRange_eq_carry hfits hlength hnew hstart hstop]
  refine congrArg Except.ok ?_
  dsimp only
  by_cases h : edit.carry span.start < edit.carry span.stop
  · rw [Nat.max_eq_left (Nat.le_of_lt h), if_pos h]
  · rw [Nat.max_eq_right (Nat.not_lt.mp h), if_neg h, if_neg (Nat.lt_irrefl _)]

namespace StyledText

/-- The span of what the edit inserts. -/
def typedSpan (styled : StyledText) (edit : Edit) (fill : Style) : Span :=
  ⟨edit.start, edit.start + edit.inserted, styled.typingStyle edit.start fill⟩

/-- What the edit leaves of the spans, and behind it the span of what is inserted. -/
def carriedSpans (styled : StyledText) (edit : Edit) (fill : Style) : List Span :=
  styled.spans.filterMap (Span.carry? edit) ++
    if 0 < edit.inserted then [styled.typedSpan edit fill] else []

/-- The styled text carried across an edit, without bounds on offsets. -/
def carry (styled : StyledText) (edit : Edit) (fill : Style) : StyledText :=
  normalized (styled.carriedSpans edit fill) (edit.carryLength styled.length) fill

theorem applyEdit_canonical {styled edited : StyledText} {edit : Edit} {fill : Style}
    (h : styled.applyEdit edit fill = .ok edited) :
    edited.Canonical ∧ edited.length = edit.carryLength styled.length := by
  obtain ⟨length, hlength, h⟩ := Fault.bind_eq_ok.mp h
  obtain ⟨kept, -, h⟩ := Fault.bind_eq_ok.mp h
  have hedited : ∃ spans, normalized spans length fill = edited := by
    dsimp only at h
    split at h
    · obtain ⟨stop, -, h⟩ := Fault.bind_eq_ok.mp h
      exact ⟨_, Except.ok.inj h⟩
    · exact ⟨_, Except.ok.inj h⟩
  obtain ⟨spans, rfl⟩ := hedited
  exact ⟨canonical_normalized _ _ _, Edit.eq_of_mapLength hlength⟩

/-- The styled texts that there are: of one style, brought into form, or carried across an edit. -/
inductive Built : StyledText → Prop where
  | empty : Built .empty
  | uniform (length : Nat) (style : Style) : Built (.uniform length style)
  | normalized (spans : List Span) (length : Nat) (fill : Style) :
    Built (.normalized spans length fill)
  | applyEdit {styled edited : StyledText} {edit : Edit} {fill : Style} (h : Built styled)
    (hedited : styled.applyEdit edit fill = .ok edited) : Built edited

theorem Built.canonical {styled : StyledText} (h : styled.Built) : styled.Canonical := by
  cases h with
  | empty => exact ⟨rfl, List.IsChain.nil⟩
  | uniform length style => exact canonical_uniform length style
  | normalized spans length fill => exact canonical_normalized spans length fill
  | applyEdit h hedited => exact (applyEdit_canonical hedited).1

/-- A styled text whose spans tile it can be carried across every edit that fits it. -/
theorem applyEdit_eq_carry {styled : StyledText} {edit : Edit} (fill : Style)
    (htiles : Tiles 0 styled.length styled.spans) (hfits : edit.Fits styled.length)
    (hlength : styled.length < Offset.bound)
    (hnew : edit.carryLength styled.length < Offset.bound) :
    styled.applyEdit edit fill = .ok (styled.carry edit fill) := by
  have hkept : styled.spans.mapM (Span.map? edit) = .ok (styled.spans.map (Span.carry? edit)) := by
    refine Fault.mapM_eq_ok fun span hspan ↦ ?_
    have hbounds := htiles.bounds span hspan
    exact Span.map?_eq_carry hfits hlength hnew (by omega) hbounds.2.2
  have hend : edit.newEnd = .ok (edit.start + edit.inserted) :=
    Offset.add_eq_ok (Nat.lt_of_le_of_lt (Edit.newEnd_le hfits) hnew)
  have hleft : styled.spans.filterMap (Span.carry? edit) =
      (styled.spans.map (Span.carry? edit)).filterMap id := by
    rw [List.filterMap_map]
    rfl
  unfold applyEdit carry carriedSpans
  rw [Edit.mapLength_eq_carry hfits hnew, hkept, hend, hleft]
  split <;> rfl

theorem applyEdit_eq_ok {styled : StyledText} {edit : Edit} (fill : Style)
    (hstyled : styled.Canonical) (hfits : edit.Fits styled.length)
    (hlength : styled.length < Offset.bound)
    (hnew : edit.carryLength styled.length < Offset.bound) :
    ∃ edited, styled.applyEdit edit fill = .ok edited :=
  ⟨_, applyEdit_eq_carry fill hstyled.tiles hfits hlength hnew⟩

end StyledText

end CodeEditor
