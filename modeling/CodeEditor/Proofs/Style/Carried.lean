import CodeEditor.Proofs.Style.Canonical

/-!
# Styles carried across an edit

Every character that an edit leaves keeps its style. The inserted characters take the style of the
character in front of them, or the filling style at the start of the text, unless the edit replaces
the whole of a span: then they keep the style of that span.
-/

namespace CodeEditor

/-! ## What an edit leaves of a span -/

namespace Span

variable {edit : Edit} {span piece : Span} {offset : Nat}

theorem carry?_eq_some : span.carry? edit = some piece ↔
    edit.carry span.start < edit.carry span.stop ∧
      (⟨edit.carry span.start, edit.carry span.stop, span.style⟩ : Span) = piece := by
  unfold carry?
  dsimp only
  split
  · rename_i hlt
    rw [Option.some.injEq]
    exact (and_iff_right hlt).symm
  · rename_i hlt
    exact iff_of_false (by simp) fun h ↦ hlt h.1

/-- A span keeps the characters that survive. -/
theorem carried_contains_moved (h : span.carry? edit = some piece)
    (hsurvives : edit.Survives offset) :
    piece.contains (edit.moved offset) = true ↔ span.contains offset = true := by
  obtain ⟨-, rfl⟩ := carry?_eq_some.mp h
  rw [contains_iff, contains_iff, Edit.carry_le_moved_iff hsurvives, ← Nat.not_le,
    Edit.carry_le_moved_iff hsurvives, Nat.not_le]

/-- The spans that come to contain inserted characters are those around the start of the edit. -/
theorem carried_contains_inserted (h : span.carry? edit = some piece) (hstart : edit.start ≤ offset)
    (hstop : offset < edit.start + edit.inserted) :
    piece.contains offset = true ↔ span.contains edit.start = true := by
  obtain ⟨-, rfl⟩ := carry?_eq_some.mp h
  rw [contains_iff, contains_iff, Edit.carry_le_inserted_iff hstart hstop, ← Nat.not_le,
    Edit.carry_le_inserted_iff hstart hstop, Nat.not_le]

theorem exists_carried (hcontains : span.contains offset = true)
    (hsurvives : edit.Survives offset) :
    ∃ piece, span.carry? edit = some piece ∧ piece.contains (edit.moved offset) = true := by
  obtain ⟨hstart, hstop⟩ := contains_iff.mp hcontains
  have hleft := (Edit.carry_le_moved_iff hsurvives span.start).mpr hstart
  have hright := (Edit.carry_le_moved_iff hsurvives span.stop).not.mpr (Nat.not_le.mpr hstop)
  have hcarried : span.carry? edit =
      some ⟨edit.carry span.start, edit.carry span.stop, span.style⟩ :=
    carry?_eq_some.mpr ⟨by omega, rfl⟩
  exact ⟨_, hcarried, (carried_contains_moved hcarried hsurvives).mpr hcontains⟩

/-- A span that begins with the edit and ends in what is deleted comes to be as long as what is
inserted. -/
theorem carry?_of_replaced (hinserted : 0 < edit.inserted) (hbegins : span.start = edit.start)
    (hnonempty : span.start < span.stop) (hends : span.stop ≤ edit.start + edit.deleted) :
    span.carry? edit = some ⟨edit.start, edit.start + edit.inserted, span.style⟩ := by
  have hleft : edit.carry span.start = edit.start := by
    rw [Edit.carry, if_pos (by omega), hbegins]
  have hright : edit.carry span.stop = edit.start + edit.inserted := by
    rw [Edit.carry, if_neg (by omega)]
    split <;> omega
  exact carry?_eq_some.mpr ⟨by omega, by rw [hleft, hright]⟩

end Span

namespace StyledText

variable {styled : StyledText} {edit : Edit} {fill : Style} {span other piece : Span}
  {offset place : Nat}

/-! ## Single spans of a tiling -/

/-- Some span of a tiling contains an offset of the text. -/
theorem exists_contains (htiles : Tiles 0 styled.length styled.spans)
    (hoffset : offset < styled.length) : ∃ span ∈ styled.spans, span.contains offset = true := by
  obtain ⟨span, hfound⟩ := htiles.find?_contains (Nat.zero_le offset) hoffset
  have hcontains := List.find?_some hfound
  exact ⟨span, List.mem_of_find?_eq_some hfound, hcontains⟩

/-- Only one span of a tiling contains an offset. -/
theorem eq_of_contains (htiles : Tiles 0 styled.length styled.spans) (hspan : span ∈ styled.spans)
    (hother : other ∈ styled.spans) (hcontains : span.contains offset = true)
    (hotherContains : other.contains offset = true) : other = span := by
  have hfound := htiles.find?_of_mem hspan hcontains
  rw [htiles.find?_of_mem hother hotherContains] at hfound
  exact Option.some.inj hfound

theorem styleAt?_of_mem (htiles : Tiles 0 styled.length styled.spans) (hspan : span ∈ styled.spans)
    (hcontains : span.contains offset = true) : styled.styleAt? offset = some span.style := by
  rw [styleAt?, htiles.find?_of_mem hspan hcontains]
  rfl

/-- Typing takes the style of the character before, or the filling one at the start of the text. -/
theorem typingStyle_eq (htiles : Tiles 0 styled.length styled.spans) (fill : Style)
    (hoffset : offset ≤ styled.length) :
    some (styled.typingStyle offset fill) =
      if offset = 0 then some fill else styled.styleAt? (offset - 1) := by
  unfold typingStyle
  split_ifs with hzero
  · rw [List.find?_eq_none.mpr]
    intro span hspan
    simp [hzero]
  · have hbefore : (fun span : Span ↦ span.start < offset && offset ≤ span.stop) =
        fun span ↦ span.contains (offset - 1) := by
      funext span
      rw [Bool.eq_iff_iff, Span.contains_iff, Bool.and_eq_true, decide_eq_true_eq,
        decide_eq_true_eq]
      omega
    obtain ⟨span, hspan⟩ := htiles.find?_contains (Nat.zero_le (offset - 1)) (by omega)
    rw [hbefore, styleAt?, hspan]
    rfl

/-! ## Characters that survive -/

theorem mem_carriedSpans : piece ∈ styled.carriedSpans edit fill ↔
    (∃ span ∈ styled.spans, span.carry? edit = some piece) ∨
      0 < edit.inserted ∧ piece = styled.typedSpan edit fill := by
  unfold carriedSpans
  rw [List.mem_append, List.mem_filterMap]
  refine or_congr_right ?_
  split
  · rename_i h
    rw [List.mem_singleton]
    exact (and_iff_right h).symm
  · rename_i h
    exact iff_of_false List.not_mem_nil fun hinserted ↦ h hinserted.1

theorem styleAt?_moved (htiles : Tiles 0 styled.length styled.spans)
    (hfits : edit.Fits styled.length) (fill : Style) (hsurvives : edit.Survives offset)
    (hoffset : offset < styled.length) :
    (styled.carry edit fill).styleAt? (edit.moved offset) = styled.styleAt? offset := by
  obtain ⟨span, hspan, hcontains⟩ := exists_contains htiles hoffset
  obtain ⟨piece, hpiece, hpieceContains⟩ := Span.exists_carried hcontains hsurvives
  obtain ⟨place, first, hfirst⟩ :=
    Span.exists_leads (mem_carriedSpans.mpr (Or.inl ⟨span, hspan, hpiece⟩)) hpieceContains
  have hmoved := Edit.moved_lt hfits hsurvives hoffset
  rw [carry, styleAt?_of_leads hfirst fill hmoved, styleAt?_of_mem htiles hspan hcontains]
  rcases mem_carriedSpans.mp hfirst.mem with ⟨other, hother, hcarried⟩ | ⟨-, hinserted⟩
  · -- The span that comes first was carried from one that contains the character before the edit.
    have hotherContains :=
      (Span.carried_contains_moved hcarried hsurvives).mp hfirst.contains
    obtain rfl := eq_of_contains htiles hspan hother hcontains hotherContains
    obtain ⟨-, rfl⟩ := Span.carry?_eq_some.mp hcarried
    rfl
  · have hinside := Span.contains_iff.mp hfirst.contains
    rw [hinserted] at hinside
    unfold Edit.Survives at hsurvives
    unfold Edit.moved typedSpan at hinside
    split at hinside <;> dsimp only at hinside <;> omega

/-- No styled text is longer than offsets reach, so an edit that asks for one stops. -/
theorem applyEdit_eq_overflow (hfits : edit.Fits styled.length) (fill : Style)
    (hnew : Offset.bound ≤ edit.carryLength styled.length) :
    styled.applyEdit edit fill = .error .overflow := by
  have hdeleted : edit.deleted ≤ styled.length := by
    unfold Edit.Fits at hfits
    omega
  have hlength : edit.mapLength styled.length = .error .overflow := by
    unfold Edit.mapLength
    rw [Offset.sub_eq_ok hdeleted]
    exact if_neg (Nat.not_lt.mpr hnew)
  unfold applyEdit
  rw [hlength]
  rfl

/-- Carrying a styled text across an edit that fits it keeps the style of each character before and
behind what is deleted. It gives a text of the new length, unless offsets do not reach so far. -/
theorem applyEdit_keeps_styles (hstyled : styled.Built) (hlength : styled.length < Offset.bound)
    (hfits : edit.start + edit.deleted ≤ styled.length) (fill : Style) :
    (Offset.bound ≤ styled.length - edit.deleted + edit.inserted →
      styled.applyEdit edit fill = .error .overflow) ∧
    (styled.length - edit.deleted + edit.inserted < Offset.bound →
      ∃ edited, styled.applyEdit edit fill = .ok edited ∧
        edited.length = styled.length - edit.deleted + edit.inserted ∧
        Tiles 0 edited.length edited.spans ∧
        (∀ offset < edit.start, edited.styleAt? offset = styled.styleAt? offset) ∧
        ∀ offset, edit.start + edit.deleted ≤ offset → offset < styled.length →
          edited.styleAt? (offset - edit.deleted + edit.inserted) = styled.styleAt? offset) := by
  refine ⟨applyEdit_eq_overflow hfits fill, fun hnew ↦ ?_⟩
  have htiles := hstyled.canonical.tiles
  refine ⟨styled.carry edit fill, applyEdit_eq_carry fill htiles hfits hlength hnew, rfl,
    (canonical_normalized _ _ _).tiles, fun offset hoffset ↦ ?_, fun offset hbehind hoffset ↦ ?_⟩
  · have hmoved := styleAt?_moved htiles hfits fill (Or.inl hoffset) (by omega)
    rwa [Edit.moved, if_pos hoffset] at hmoved
  · have hmoved := styleAt?_moved htiles hfits fill (Or.inr hbehind) hoffset
    rwa [Edit.moved, if_neg (by omega)] at hmoved

/-- An italic character in front of bold ones is replaced by two. -/
theorem applyEdit_keeps_styles_replacement :
    let styled := normalized [⟨0, 1, { italic := true }⟩] 3 { bold := true }
    ∃ edited, styled.applyEdit ⟨1, 1, 2⟩ {} = .ok edited ∧ edited.length = 4 ∧
      edited.styleAt? 0 = some { italic := true } ∧ edited.styleAt? 3 = some { bold := true } := by
  intro styled
  obtain ⟨edited, hedited, hlength, -, hbefore, hbehind⟩ :=
    (@applyEdit_keeps_styles styled ⟨1, 1, 2⟩ (.normalized _ _ _) (by decide) (by decide) {}).2
      (by decide)
  refine ⟨edited, hedited, hlength, (hbefore 0 (by decide)).trans ?_,
    (hbehind 2 (by decide) (by decide)).trans ?_⟩
  · decide +kernel
  · decide +kernel

/-- An insertion as long as offsets reach fits every text, but a text of one character cannot be
carried across it. -/
theorem applyEdit_huge_insertion :
    (uniform 1 {}).Built ∧ (0 + 0 ≤ (uniform 1 {}).length) ∧
      ¬∃ edited, (uniform 1 {}).applyEdit ⟨0, 0, Offset.bound - 1⟩ {} = .ok edited := by
  have hfits : Edit.Fits ⟨0, 0, Offset.bound - 1⟩ (uniform 1 {}).length := Nat.zero_le 1
  refine ⟨.uniform 1 {}, hfits, fun ⟨edited, hedited⟩ ↦ ?_⟩
  rw [applyEdit_eq_overflow hfits {} (by decide)] at hedited
  nomatch hedited

/-! ## Inserted characters -/

/-- The first of the carried spans at an inserted character is the span of what is inserted, or
stands before it and was around the start of the edit. -/
theorem cases_of_leads_inserted (hinserted : 0 < edit.inserted) (hstart : edit.start ≤ offset)
    (hstop : offset < edit.start + edit.inserted)
    (hfirst : Span.Leads (styled.carriedSpans edit fill) offset place piece) :
    (styled.spans.filterMap (Span.carry? edit)).length ≤ place ∧
        piece = styled.typedSpan edit fill ∨
      place < (styled.spans.filterMap (Span.carry? edit)).length ∧
        ∃ span ∈ styled.spans, span.carry? edit = some piece ∧
          span.contains edit.start = true := by
  have hfound := hfirst.found
  unfold carriedSpans at hfound
  rw [if_pos hinserted, List.getElem?_append] at hfound
  split at hfound
  · rename_i hplace
    obtain ⟨span, hspan, hcarried⟩ := List.mem_filterMap.mp (List.mem_of_getElem? hfound)
    exact Or.inr ⟨hplace, span, hspan, hcarried,
      (Span.carried_contains_inserted hcarried hstart hstop).mp hfirst.contains⟩
  · rename_i hplace
    exact Or.inl ⟨Nat.not_lt.mp hplace, List.mem_singleton.mp (List.mem_of_getElem? hfound)⟩

theorem exists_leads_inserted (styled : StyledText) (fill : Style) (hinserted : 0 < edit.inserted)
    (hstart : edit.start ≤ offset) (hstop : offset < edit.start + edit.inserted) :
    ∃ place piece, Span.Leads (styled.carriedSpans edit fill) offset place piece :=
  Span.exists_leads (mem_carriedSpans.mpr (Or.inr ⟨hinserted, rfl⟩))
    (Span.contains_iff.mpr ⟨hstart, hstop⟩)

/-- Of a span that the edit replaces as a whole, what is left is as long as what is inserted and
stands before it. -/
theorem styleAt?_replaced (htiles : Tiles 0 styled.length styled.spans)
    (hfits : edit.Fits styled.length) (fill : Style) (hinserted : 0 < edit.inserted)
    (hstart : edit.start ≤ offset) (hstop : offset < edit.start + edit.inserted)
    (hspan : span ∈ styled.spans) (hbegins : span.start = edit.start)
    (hends : span.stop ≤ edit.start + edit.deleted) :
    (styled.carry edit fill).styleAt? offset = some span.style := by
  have hbounds := htiles.bounds span hspan
  have hnew := Edit.newEnd_le hfits
  obtain ⟨place, piece, hfirst⟩ := exists_leads_inserted styled fill hinserted hstart hstop
  rw [carry, styleAt?_of_leads hfirst fill (by omega)]
  rcases cases_of_leads_inserted hinserted hstart hstop hfirst with
    ⟨hplace, rfl⟩ | ⟨-, other, hother, hcarried, hcontains⟩
  · have hcarried := Span.carry?_of_replaced hinserted hbegins hbounds.2.1 hends
    obtain ⟨earlier, hearlier, hget⟩ :=
      List.mem_iff_getElem.mp (List.mem_filterMap.mpr ⟨span, hspan, hcarried⟩)
    have hfound : (styled.carriedSpans edit fill)[earlier]? =
        some ⟨edit.start, edit.start + edit.inserted, span.style⟩ := by
      rw [carriedSpans, List.getElem?_append_left hearlier, List.getElem?_eq_getElem hearlier, hget]
    have hlater := hfirst.first earlier _ hfound (Span.contains_iff.mpr ⟨hstart, hstop⟩)
    dsimp only [typedSpan] at hlater
    omega
  · have hinside : span.contains edit.start = true := Span.contains_iff.mpr (by omega)
    obtain rfl := eq_of_contains htiles hspan hother hinside hcontains
    obtain ⟨-, rfl⟩ := Span.carry?_eq_some.mp hcarried
    rfl

/-- If no span is replaced as a whole, what is inserted has the style that typing takes. -/
theorem styleAt?_typed (htiles : Tiles 0 styled.length styled.spans)
    (hfits : edit.Fits styled.length) (fill : Style) (hinserted : 0 < edit.inserted)
    (hstart : edit.start ≤ offset) (hstop : offset < edit.start + edit.inserted)
    (hreaches : ∀ span ∈ styled.spans, span.start = edit.start →
      edit.start + edit.deleted < span.stop) :
    (styled.carry edit fill).styleAt? offset = some (styled.typingStyle edit.start fill) := by
  have hnew := Edit.newEnd_le hfits
  obtain ⟨place, piece, hfirst⟩ := exists_leads_inserted styled fill hinserted hstart hstop
  rw [carry, styleAt?_of_leads hfirst fill (by omega)]
  rcases cases_of_leads_inserted hinserted hstart hstop hfirst with
    ⟨-, rfl⟩ | ⟨hplace, span, hspan, hcarried, hcontains⟩
  · rfl
  · obtain ⟨-, rfl⟩ := Span.carry?_eq_some.mp hcarried
    have hinside := Span.contains_iff.mp hcontains
    have hbounds := htiles.bounds span hspan
    by_cases hbegins : span.start = edit.start
    · -- The span reaches further than what is inserted, so it does not come first.
      have hlonger := hreaches span hspan hbegins
      have hright : edit.carry span.stop = span.stop - edit.deleted + edit.inserted := by
        rw [Edit.carry, if_neg (by omega), if_pos (by omega)]
      have hfound : (styled.carriedSpans edit fill)[
          (styled.spans.filterMap (Span.carry? edit)).length]? =
            some (styled.typedSpan edit fill) := by
        rw [carriedSpans, if_pos hinserted, List.getElem?_concat_length]
      have hfurther := hfirst.first _ _ hfound (Span.contains_iff.mpr ⟨hstart, hstop⟩)
      dsimp only [typedSpan] at hfurther
      rw [hright, Edit.carry, if_pos (by omega)] at hfurther
      omega
    · have htyping := typingStyle_eq htiles fill (show edit.start ≤ styled.length by omega)
      rw [if_neg (by omega), styleAt?_of_mem htiles hspan
        (Span.contains_iff.mpr (by omega))] at htyping
      exact htyping.symm

/-- Inserted characters have the style of the character before the edit, or the filling style at
the start of the text. But where a span begins with the edit and ends in what is deleted, they have
the style of that span. -/
theorem styleAt?_inserted (htiles : Tiles 0 styled.length styled.spans)
    (hlength : styled.length < Offset.bound) (hfits : edit.start + edit.deleted ≤ styled.length)
    (hinserted : 0 < edit.inserted)
    (hnew : styled.length - edit.deleted + edit.inserted < Offset.bound) (fill : Style) :
    ∃ edited, styled.applyEdit edit fill = .ok edited ∧
      ∀ offset, edit.start ≤ offset → offset < edit.start + edit.inserted →
        (∀ span ∈ styled.spans, span.start = edit.start →
          span.stop ≤ edit.start + edit.deleted → edited.styleAt? offset = some span.style) ∧
        ((∀ span ∈ styled.spans, span.start = edit.start →
            edit.start + edit.deleted < span.stop) →
          edited.styleAt? offset =
            if edit.start = 0 then some fill else styled.styleAt? (edit.start - 1)) := by
  refine ⟨styled.carry edit fill, applyEdit_eq_carry fill htiles hfits hlength hnew,
    fun offset hstart hstop ↦ ⟨fun span hspan hbegins hends ↦ ?_, fun hreaches ↦ ?_⟩⟩
  · exact styleAt?_replaced htiles hfits fill hinserted hstart hstop hspan hbegins hends
  · rw [styleAt?_typed htiles hfits fill hinserted hstart hstop hreaches,
      typingStyle_eq htiles fill (by omega)]

/-- Behind two bold characters, what replaces the first of two italic ones is bold, and what
replaces both is italic. -/
theorem styleAt?_inserted_in_place_of_span :
    let styled : StyledText :=
      ⟨[⟨0, 2, { bold := true }⟩, ⟨2, 4, { italic := true }⟩, ⟨4, 6, {}⟩], 6⟩
    (∃ edited, styled.applyEdit ⟨2, 1, 1⟩ {} = .ok edited ∧
      edited.styleAt? 2 = some { bold := true }) ∧
    ∃ edited, styled.applyEdit ⟨2, 2, 1⟩ {} = .ok edited ∧
      edited.styleAt? 2 = some { italic := true } := by
  intro styled
  have htiles : Tiles 0 styled.length styled.spans := by simp [styled, Tiles]
  obtain ⟨edited, hedited, hstyle⟩ := @styleAt?_inserted styled ⟨2, 1, 1⟩ htiles (by decide)
    (by decide) (by decide) (by decide) {}
  obtain ⟨replaced, hreplaced, hreplacedStyle⟩ := @styleAt?_inserted styled ⟨2, 2, 1⟩ htiles
    (by decide) (by decide) (by decide) (by decide) {}
  exact ⟨⟨edited, hedited, (hstyle 2 (by decide) (by decide)).2 (by decide)⟩,
    replaced, hreplaced, (hreplacedStyle 2 (by decide) (by decide)).1 ⟨2, 4, { italic := true }⟩
      (by decide) (by decide) (by decide)⟩

/-- There the character that replaces both does not take the style of the one before it. -/
theorem inserted_unlike_character_before :
    let styled : StyledText :=
      ⟨[⟨0, 2, { bold := true }⟩, ⟨2, 4, { italic := true }⟩, ⟨4, 6, {}⟩], 6⟩
    Tiles 0 styled.length styled.spans ∧
      ∃ edited, styled.applyEdit ⟨2, 2, 1⟩ {} = .ok edited ∧
        edited.styleAt? 2 ≠ styled.styleAt? 1 := by
  intro styled
  have htiles : Tiles 0 styled.length styled.spans := by simp [styled, Tiles]
  have hfits : Edit.Fits ⟨2, 2, 1⟩ styled.length := show 2 + 2 ≤ 6 by decide
  refine ⟨htiles, styled.carry ⟨2, 2, 1⟩ {},
    applyEdit_eq_carry {} htiles hfits (by decide) (by decide), ?_⟩
  have hspan : ⟨2, 4, { italic := true }⟩ ∈ styled.spans := by decide
  rw [styleAt?_replaced htiles hfits {} (by decide) (by decide) (by decide) hspan rfl (by decide)]
  decide

end StyledText

end CodeEditor
