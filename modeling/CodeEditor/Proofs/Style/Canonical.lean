import CodeEditor.Proofs.Halving
import CodeEditor.Proofs.Style.Normalized

/-!
# The canonical form of a list of spans

A list of spans gives each offset a style, however they overlap: that of the first span that
contains the offset, by starts, then by ends, then by places in the list. Bringing the list into
form keeps these styles. No other canonical styled text of the same length has them, and the style
at an offset is also the one that halving the spans finds.
-/

namespace CodeEditor

namespace Span

theorem precedes_iff {a b : Span} :
    a.precedes b = true ↔ a.start < b.start ∨ a.start = b.start ∧ a.stop ≤ b.stop := by
  simp only [precedes, Bool.or_eq_true, Bool.and_eq_true, decide_eq_true_eq, beq_iff_eq]

theorem precedes_trans (a b c : Span) (hab : a.precedes b = true) (hbc : b.precedes c = true) :
    a.precedes c = true := by
  rw [precedes_iff] at hab hbc ⊢
  omega

theorem precedes_total (a b : Span) : (a.precedes b || b.precedes a) = true := by
  rw [Bool.or_eq_true, precedes_iff, precedes_iff]
  omega

/-! ## The first span at an offset -/

/-- Of the spans that contain an offset, the one at this place of the list is the first: by its
start, then by its end, then by its place. -/
structure Leads (spans : List Span) (offset place : Nat) (span : Span) : Prop where
  found : spans[place]? = some span
  contains : span.contains offset = true
  first : ∀ otherPlace other, spans[otherPlace]? = some other → other.contains offset = true →
    span.start < other.start ∨ span.start = other.start ∧
      (span.stop < other.stop ∨ span.stop = other.stop ∧ place ≤ otherPlace)

theorem Leads.mem {spans : List Span} {offset place : Nat} {span : Span}
    (h : Leads spans offset place span) : span ∈ spans :=
  List.mem_of_getElem? h.found

theorem Leads.precedes {spans : List Span} {offset place : Nat} {span other : Span}
    (h : Leads spans offset place span) (hother : other ∈ spans)
    (hcontains : other.contains offset = true) : span.precedes other = true := by
  obtain ⟨otherPlace, hfound⟩ := List.mem_iff_getElem?.mp hother
  have := h.first otherPlace other hfound hcontains
  rw [precedes_iff]
  omega

section

variable {head span : Span} {rest : List Span} {offset place : Nat}

theorem leads_head (hcontains : head.contains offset = true)
    (hprecedes : ∀ other ∈ rest, other.contains offset = true → head.precedes other = true) :
    Leads (head :: rest) offset 0 head := by
  refine ⟨rfl, hcontains, fun otherPlace other hother hotherContains ↦ ?_⟩
  cases otherPlace with
  | zero => cases hother; omega
  | succ behind =>
    have := precedes_iff.mp (hprecedes other (List.mem_of_getElem? hother) hotherContains)
    omega

/-- The first span stays the first behind a span that it comes strictly before. -/
theorem Leads.cons (h : Leads rest offset place span)
    (hhead : head.contains offset = true → ¬head.precedes span = true) :
    Leads (head :: rest) offset (place + 1) span := by
  refine ⟨h.found, h.contains, fun otherPlace other hother hotherContains ↦ ?_⟩
  cases otherPlace with
  | zero =>
    cases hother
    have := hhead hotherContains
    rw [precedes_iff] at this
    omega
  | succ behind =>
    have := h.first behind other hother hotherContains
    omega

end

/-- If any span contains an offset, one of them is the first. -/
theorem exists_leads {spans : List Span} {offset : Nat} {span : Span} (hspan : span ∈ spans)
    (hcontains : span.contains offset = true) : ∃ place first, Leads spans offset place first := by
  induction spans generalizing span with
  | nil => nomatch hspan
  | cons head rest ih =>
    by_cases hrest : ∃ other ∈ rest, other.contains offset = true
    · obtain ⟨other, hother, hotherContains⟩ := hrest
      obtain ⟨place, first, hfirst⟩ := ih hother hotherContains
      by_cases hhead : head.contains offset = true ∧ head.precedes first = true
      · exact ⟨0, head, leads_head hhead.1 fun later hlater hlaterContains ↦
          precedes_trans _ _ _ hhead.2 (hfirst.precedes hlater hlaterContains)⟩
      · exact ⟨place + 1, first, hfirst.cons fun hheadContains hprecedes ↦
          hhead ⟨hheadContains, hprecedes⟩⟩
    · rcases List.mem_cons.mp hspan with rfl | hspan
      · exact ⟨0, span, leads_head hcontains fun other hother hotherContains ↦
          absurd ⟨other, hother, hotherContains⟩ hrest⟩
      · exact absurd ⟨span, hspan, hcontains⟩ hrest

/-- Sorting is stable, so the first span that contains an offset is found in the sorted list. -/
theorem find?_mergeSort {before behind : List Span} {span : Span} {offset : Nat}
    (hspan : span.contains offset = true)
    (hbefore : ∀ other ∈ before, other.contains offset = true → ¬other.precedes span = true)
    (hbehind : ∀ other ∈ behind, other.contains offset = true → span.precedes other = true) :
    ((before ++ span :: behind).mergeSort precedes).find? (·.contains offset) = some span := by
  induction before with
  | nil =>
    obtain ⟨smaller, larger, hsorted, hrest, hsmaller⟩ :=
      List.mergeSort_cons precedes_trans precedes_total span behind
    have hnone : smaller.find? (·.contains offset) = none := by
      refine List.find?_eq_none.mpr fun other hother hcontains ↦ ?_
      have hmem : other ∈ behind :=
        List.mem_mergeSort.mp (hrest ▸ List.mem_append_left larger hother)
      have hnot := hsmaller other hother
      rw [hbehind other hmem hcontains] at hnot
      nomatch hnot
    rw [List.nil_append, hsorted, List.find?_append, hnone, Option.none_or]
    exact List.find?_cons_of_pos hspan
  | cons head rest ih =>
    obtain ⟨smaller, larger, hsorted, hrest, hsmaller⟩ :=
      List.mergeSort_cons precedes_trans precedes_total head (rest ++ span :: behind)
    have hfound := ih fun other hother ↦ hbefore other (List.mem_cons_of_mem head hother)
    rw [hrest, List.find?_append] at hfound
    rw [List.cons_append, hsorted, List.find?_append]
    cases hfirst : smaller.find? (·.contains offset) with
    | some other =>
      rw [hfirst] at hfound
      exact hfound
    | none =>
      rw [hfirst, Option.none_or] at hfound
      rw [Option.none_or]
      -- The head precedes all that is larger, and among that the span, unless it lies elsewhere.
      have houtside : head.contains offset = false := by
        refine Bool.eq_false_iff.mpr fun hcontains ↦ ?_
        have hordered : (head :: larger).Pairwise fun a b ↦ a.precedes b = true :=
          (hsorted ▸ List.pairwise_mergeSort precedes_trans precedes_total _).sublist
            (List.sublist_append_right smaller _)
        exact hbefore head List.mem_cons_self hcontains
          ((List.pairwise_cons.mp hordered).1 span (List.mem_of_find?_eq_some hfound))
      rw [List.find?_cons, houtside]
      exact hfound

end Span

namespace StyledText

variable {spans : List Span} {length offset place : Nat} {span : Span}

/-- The spans that count are those of the list that begin in the text and are not empty. -/
theorem styleAt?_normalized (spans : List Span) (fill : Style) (hoffset : offset < length) :
    (normalized spans length fill).styleAt? offset = some (firstStyle
      ((spans.filter fun span ↦ span.start < span.stop && span.start < length).mergeSort
        Span.precedes) fill offset) := by
  have hsorted : ((spans.filter fun span ↦
      span.start < span.stop && span.start < length).mergeSort Span.precedes).Pairwise
        fun a b ↦ a.start ≤ b.start := by
    refine (List.pairwise_mergeSort Span.precedes_trans Span.precedes_total _).imp
      fun {a b} hprecedes ↦ ?_
    rw [Span.precedes_iff] at hprecedes
    omega
  exact styleAt?_lay fill hsorted (Nat.zero_le offset) hoffset

/-- The first span that contains an offset gives its style. -/
theorem styleAt?_of_leads (h : Span.Leads spans offset place span) (fill : Style)
    (hoffset : offset < length) :
    (normalized spans length fill).styleAt? offset = some span.style := by
  obtain ⟨hplace, hspan⟩ := List.getElem?_eq_some_iff.mp h.found
  have hcontains := Span.contains_iff.mp h.contains
  have hsplit : spans = spans.take place ++ span :: spans.drop (place + 1) := by
    rw [← hspan, ← List.drop_eq_getElem_cons hplace, List.take_append_drop]
  have hcounts : (span.start < span.stop && span.start < length) = true := by
    simp only [Bool.and_eq_true, decide_eq_true_eq]
    omega
  rw [styleAt?_normalized spans fill hoffset, firstStyle]
  conv_lhs => rw [hsplit, List.filter_append, List.filter_cons, if_pos hcounts]
  rw [Span.find?_mergeSort h.contains]
  · rfl
  · intro other hother hotherContains
    obtain ⟨otherPlace, hlt, hget⟩ := List.mem_take_iff_getElem.mp (List.mem_filter.mp hother).1
    have := h.first otherPlace other (List.getElem?_eq_some_iff.mpr ⟨by omega, hget⟩) hotherContains
    rw [Span.precedes_iff]
    omega
  · intro other hother hotherContains
    exact h.precedes (List.mem_of_mem_drop (List.mem_filter.mp hother).1) hotherContains

/-- Where no span is, the text has the filling style. -/
theorem styleAt?_of_outside (h : ∀ span ∈ spans, span.contains offset = false) (fill : Style)
    (hoffset : offset < length) :
    (normalized spans length fill).styleAt? offset = some fill := by
  rw [styleAt?_normalized spans fill hoffset, firstStyle_of_forall]
  intro span hspan
  exact h span (List.mem_filter.mp (List.mem_mergeSort.mp hspan)).1

/-! ## One canonical styled text for each choice of styles -/

theorem styleAt?_cons_of_inside {spans : List Span} (hstart : span.start ≤ offset)
    (hstop : offset < span.stop) (length : Nat) :
    styleAt? ⟨span :: spans, length⟩ offset = some span.style := by
  rw [styleAt?_cons, if_pos (Span.contains_iff.mpr ⟨hstart, hstop⟩)]

theorem styleAt?_cons_of_behind {spans : List Span} (hstop : span.stop ≤ offset) (length : Nat) :
    styleAt? ⟨span :: spans, length⟩ offset = styleAt? ⟨spans, length⟩ offset := by
  rw [styleAt?_cons, if_neg fun h ↦ Nat.not_lt.mpr hstop (Span.contains_iff.mp h).2]

section

variable {first other : Span} {rest more : List Span} {start stop : Nat}

/-- The style of a span ends with it, so no span of that style that is there too reaches further. -/
theorem stop_le_of_styles (hrest : Tiles first.stop stop rest) (hreduced : Reduced (first :: rest))
    (hmore : Tiles other.stop stop more) (hstart : other.start ≤ first.stop)
    (hstyle : first.style = other.style)
    (hsame : first.stop < stop → styleAt? ⟨first :: rest, stop⟩ first.stop =
      styleAt? ⟨other :: more, stop⟩ first.stop) :
    other.stop ≤ first.stop := by
  by_contra hlt
  have hstop : first.stop < stop := Nat.lt_of_lt_of_le (Nat.not_le.mp hlt) hmore.le
  cases rest with
  | nil => exact absurd (show first.stop = stop from hrest) (Nat.ne_of_lt hstop)
  | cons next behind =>
    obtain ⟨hnext, hbehind, -⟩ := hrest
    have hagree : some next.style = some other.style := by
      rw [← styleAt?_cons_of_inside hstart (Nat.not_le.mp hlt) stop, ← hsame hstop,
        styleAt?_cons_of_behind (Nat.le_refl _),
        styleAt?_cons_of_inside (Nat.le_of_eq hnext) hbehind]
    have hne : first.style ≠ next.style := (List.isChain_cons_cons.mp hreduced).1
    exact hne (hstyle.trans (Option.some.inj hagree).symm)

/-- Two tilings that agree in style begin with the same span. -/
theorem head_eq_of_styles (ha : Tiles start stop (first :: rest))
    (hb : Tiles start stop (other :: more)) (hreducedA : Reduced (first :: rest))
    (hreducedB : Reduced (other :: more))
    (hsame : ∀ offset, start ≤ offset → offset < stop →
      styleAt? ⟨first :: rest, stop⟩ offset = styleAt? ⟨other :: more, stop⟩ offset) :
    first = other := by
  obtain ⟨hfirst, hfirstStop, hrest⟩ := ha
  obtain ⟨hother, hotherStop, hmore⟩ := hb
  have hstyle : first.style = other.style := by
    have hagree := hsame start (Nat.le_refl start) (Nat.lt_of_lt_of_le hfirstStop hrest.le)
    rw [styleAt?_cons_of_inside (Nat.le_of_eq hfirst) hfirstStop,
      styleAt?_cons_of_inside (Nat.le_of_eq hother) hotherStop] at hagree
    exact Option.some.inj hagree
  have hstop : first.stop = other.stop := by
    apply Nat.le_antisymm
    · exact stop_le_of_styles hmore hreducedB hrest (by omega) hstyle.symm fun hlt ↦
        (hsame other.stop (by omega) hlt).symm
    · exact stop_le_of_styles hrest hreducedA hmore (by omega) hstyle fun hlt ↦
        hsame first.stop (by omega) hlt
  calc
    first = ⟨first.start, first.stop, first.style⟩ := rfl
    _ = ⟨other.start, other.stop, other.style⟩ := by rw [hfirst, hother, hstop, hstyle]

theorem spans_eq_of_styles {a b : List Span} (ha : Tiles start stop a) (hb : Tiles start stop b)
    (hreducedA : Reduced a) (hreducedB : Reduced b)
    (hsame : ∀ offset, start ≤ offset → offset < stop →
      styleAt? ⟨a, stop⟩ offset = styleAt? ⟨b, stop⟩ offset) : a = b := by
  induction a generalizing b start with
  | nil =>
    cases b with
    | nil => rfl
    | cons other more =>
      exact absurd (show start = stop from ha)
        (Nat.ne_of_lt (Nat.lt_of_lt_of_le hb.2.1 hb.2.2.le))
  | cons first rest ih =>
    cases b with
    | nil =>
      exact absurd (show start = stop from hb)
        (Nat.ne_of_lt (Nat.lt_of_lt_of_le ha.2.1 ha.2.2.le))
    | cons other more =>
      obtain rfl := head_eq_of_styles ha hb hreducedA hreducedB hsame
      refine congrArg (first :: ·) (ih ha.2.2 hb.2.2 hreducedA.tail hreducedB.tail
        fun offset hstart hstop ↦ ?_)
      have hagree := hsame offset (Nat.le_trans (Nat.le_of_lt ha.2.1) hstart) hstop
      rwa [styleAt?_cons_of_behind hstart, styleAt?_cons_of_behind hstart] at hagree

end

/-- Canonical styled texts of one length are equal if they agree at every offset. -/
theorem Canonical.eq_of_styles {a b : StyledText} (ha : a.Canonical) (hb : b.Canonical)
    (hlength : a.length = b.length)
    (hsame : ∀ offset < b.length, a.styleAt? offset = b.styleAt? offset) : a = b := by
  obtain ⟨spansA, lengthA⟩ := a
  obtain ⟨spansB, lengthB⟩ := b
  obtain rfl : lengthA = lengthB := hlength
  exact congrArg (StyledText.mk · lengthA) (spans_eq_of_styles ha.tiles hb.tiles ha.reduced
    hb.reduced fun offset _ hoffset ↦ hsame offset hoffset)

end StyledText

/-! ## Looking a style up by halving -/

/-- The spans of a tiling that end by an offset stand in front of the one that contains it. -/
theorem Tiles.exists_place {start stop offset : Nat} {spans : List Span}
    (h : Tiles start stop spans) (hstart : start ≤ offset) :
    ∃ place ≤ spans.length, (∀ i, (spans[i]?).any (·.stop ≤ offset) = true ↔ i < place) ∧
      (spans[place]?).filter (·.contains offset) = spans.find? (·.contains offset) := by
  induction spans generalizing start with
  | nil => exact ⟨0, Nat.le_refl 0, fun i ↦ by simp, rfl⟩
  | cons first rest ih =>
    obtain ⟨rfl, hlt, hrest⟩ := h
    by_cases hends : first.stop ≤ offset
    · obtain ⟨place, hplace, hbefore, hfound⟩ := ih hrest hends
      have houtside : first.contains offset = false := by
        rw [← Bool.not_eq_true, Span.contains_iff]
        omega
      refine ⟨place + 1, Nat.succ_le_succ hplace, fun i ↦ ?_, ?_⟩
      · cases i with
        | zero => simpa using hends
        | succ i => simpa using hbefore i
      · rw [List.find?_cons, houtside]
        exact hfound
    · have hinside : first.contains offset = true := Span.contains_iff.mpr ⟨hstart, by omega⟩
      refine ⟨0, Nat.zero_le _, fun i ↦ iff_of_false ?_ (Nat.not_lt_zero i), ?_⟩
      · cases i with
        | zero => simpa using hends
        | succ i =>
          cases hspan : rest[i]? with
          | none => simp [hspan]
          | some span =>
            have := hrest.bounds span (List.mem_of_getElem? hspan)
            simp only [List.getElem?_cons_succ, hspan, Option.any_some, decide_eq_true_eq]
            omega
      · rw [List.find?_cons, hinside]
        exact if_pos hinside

namespace StyledText

/-- The style of the character at an offset, from the span that halving finds. -/
def lookup? (styled : StyledText) (offset : Nat) : Option Style :=
  let place := halve (fun place ↦ (styled.spans[place]?).any (·.stop ≤ offset)) 0
    styled.spans.length
  ((styled.spans[place]?).filter (·.contains offset)).map (·.style)

theorem Canonical.lookup?_eq {styled : StyledText} (h : styled.Canonical) (offset : Nat) :
    styled.lookup? offset = styled.styleAt? offset := by
  obtain ⟨place, hplace, hbefore, hfound⟩ := h.tiles.exists_place (Nat.zero_le offset)
  unfold lookup? styleAt?
  dsimp only
  rw [halve_eq hbefore (Nat.zero_le place) hplace, hfound]

theorem Canonical.styleAt?_eq_none {styled : StyledText} (h : styled.Canonical) {offset : Nat}
    (hoffset : styled.length ≤ offset) : styled.styleAt? offset = none := by
  unfold styleAt?
  rw [List.find?_eq_none.mpr, Option.map_none]
  intro span hspan
  have := h.tiles.bounds span hspan
  rw [Span.contains_iff]
  omega

/-- Bringing spans into form gives spans that are not empty, tile the text and differ in style from
their neighbours. At each offset they have the style of the first span of the list that contains it,
or the filling style where there is none. Styled texts are in this form already, halving them finds
their styles, and with their styles and length they are the only ones. -/
theorem normalized_canonical_form (spans : List Span) (length : Nat) (fill : Style) :
    let styled := normalized spans length fill
    (∀ span ∈ styled.spans, span.start < span.stop) ∧ Tiles 0 length styled.spans ∧
    Reduced styled.spans ∧
    (∀ offset < length,
      (∃ place span, Span.Leads spans offset place span ∧
        styled.lookup? offset = some span.style) ∨
      (∀ span ∈ spans, span.contains offset = false) ∧ styled.lookup? offset = some fill) ∧
    (∀ offset, length ≤ offset → styled.lookup? offset = none) ∧
    ∀ text : StyledText, text.Built →
      (∀ offset, text.lookup? offset = text.styleAt? offset) ∧
      (∀ filling, normalized text.spans text.length filling = text) ∧
      ∀ other : StyledText, other.Built → other.length = text.length →
        (∀ offset < text.length, other.lookup? offset = text.lookup? offset) → other = text := by
  intro styled
  have hcanonical : styled.Canonical := canonical_normalized spans length fill
  refine ⟨fun span hspan ↦ (hcanonical.tiles.bounds span hspan).2.1, hcanonical.tiles,
    hcanonical.reduced, fun offset hoffset ↦ ?_, fun offset hoffset ↦ ?_, fun text htext ↦ ?_⟩
  · rw [hcanonical.lookup?_eq]
    by_cases h : ∃ span ∈ spans, span.contains offset = true
    · obtain ⟨span, hspan, hcontains⟩ := h
      obtain ⟨place, first, hfirst⟩ := Span.exists_leads hspan hcontains
      exact Or.inl ⟨place, first, hfirst, styleAt?_of_leads hfirst fill hoffset⟩
    · have houtside : ∀ span ∈ spans, span.contains offset = false := fun span hspan ↦
        Bool.eq_false_iff.mpr fun hcontains ↦ h ⟨span, hspan, hcontains⟩
      exact Or.inr ⟨houtside, styleAt?_of_outside houtside fill hoffset⟩
  · rw [hcanonical.lookup?_eq]
    exact hcanonical.styleAt?_eq_none hoffset
  · refine ⟨htext.canonical.lookup?_eq, normalized_eq_self htext.canonical,
      fun other hother hlength hsame ↦ ?_⟩
    refine hother.canonical.eq_of_styles htext.canonical hlength fun offset hoffset ↦ ?_
    rw [← hother.canonical.lookup?_eq, ← htext.canonical.lookup?_eq, hsame offset hoffset]

/-- Of two spans over the same offsets, the one that stands first in the list gives the style,
although one that is inverted and one that starts later stand before it. -/
theorem normalized_canonical_form_tie :
    (normalized [⟨5, 1, {}⟩, ⟨3, 9, {}⟩, ⟨2, 6, { italic := true }⟩, ⟨2, 6, { bold := true }⟩] 4
      {}).lookup? 3 = some { italic := true } := by
  obtain ⟨-, -, -, hstyles, -⟩ := normalized_canonical_form
    [⟨5, 1, {}⟩, ⟨3, 9, {}⟩, ⟨2, 6, { italic := true }⟩, ⟨2, 6, { bold := true }⟩] 4 {}
  rcases hstyles 3 (by decide) with ⟨place, span, hfirst, hstyle⟩ | ⟨houtside, -⟩
  · have hle := hfirst.first 2 ⟨2, 6, { italic := true }⟩ rfl (by decide)
    rw [hstyle]
    have hfound := hfirst.found
    rcases place with _ | _ | _ | _ | place
    · cases hfound; exact absurd hfirst.contains (by decide)
    · cases hfound; exact absurd hle (by decide)
    · cases hfound; rfl
    · cases hfound; exact absurd hle (by decide)
    · nomatch hfound
  · exact absurd (houtside ⟨3, 9, {}⟩ (by simp)) (by decide)

end StyledText

end CodeEditor
