import CodeEditor.Proofs.Decoration.Carried
import CodeEditor.Proofs.Decoration.Underline

/-!
# The order of decorations across edits

Decorations sorted by start and end that are carried across edits keep the order of their starts.
Where two starts come together, the ends need not be in order: if an edit deletes the beginning of a
decoration up to the start of one inside of it, the two begin at one place from then on, and the
outer one still stands first although it ends later. In no other way do decorations get out of
order, and underlines of lint messages, which do not lie inside one another, never do.
-/

namespace CodeEditor

namespace Edit

variable {edit : Edit} {edits : List Edit} {a b : Nat}

/-- The edit deletes all that is between two offsets, and what it inserts does not come to stand
there. -/
def Joins (edit : Edit) (a b : Nat) : Prop :=
  edit.start ≤ a ∧ b ≤ edit.start + edit.deleted ∧ (a = edit.start → edit.inserted = 0)

theorem carry_eq_carry_iff (h : a < b) : edit.carry a = edit.carry b ↔ edit.Joins a b := by
  unfold carry Joins
  split
  · split
    · omega
    · split <;> omega
  · rw [if_neg (show ¬b ≤ edit.start by omega)]
    split <;> split <;> omega

theorem carry_lt_carry_iff (h : a < b) : edit.carry a < edit.carry b ↔ ¬edit.Joins a b := by
  rw [← carry_eq_carry_iff h]
  exact (edit.carry_mono (Nat.le_of_lt h)).lt_iff_ne

/-- Where an offset goes across edits that follow one another, without bounds on offsets. -/
def carryAll (edits : List Edit) (offset : Nat) : Nat :=
  edits.foldl (fun offset edit ↦ edit.carry offset) offset

theorem carryAll_mono (edits : List Edit) (h : a ≤ b) : carryAll edits a ≤ carryAll edits b := by
  induction edits generalizing a b with
  | nil => exact h
  | cons edit rest ih => exact ih (edit.carry_mono h)

end Edit

namespace Decoration

variable {edit : Edit} {edits : List Edit} {decoration outer inner : Decoration}

/-! ## Sorting -/

/-- The order of ranges: by start, and by end where the starts are equal. -/
def InOrder (a b : Decoration) : Prop :=
  a.start < b.start ∨ a.start = b.start ∧ a.stop ≤ b.stop
  deriving Decidable

def Sorted (decorations : List Decoration) : Prop := decorations.Pairwise InOrder
  deriving Decidable

theorem InOrder.start_le {a b : Decoration} (h : a.InOrder b) : a.start ≤ b.start :=
  h.elim Nat.le_of_lt fun h ↦ Nat.le_of_eq h.1

theorem precedes_iff {a b : Decoration} : a.precedes b = true ↔ a.InOrder b := by
  unfold InOrder
  simp only [precedes, Bool.or_eq_true, Bool.and_eq_true, decide_eq_true_eq, beq_iff_eq]

theorem precedes_trans (a b c : Decoration) (hab : a.precedes b = true)
    (hbc : b.precedes c = true) : a.precedes c = true := by
  rw [precedes_iff, InOrder] at hab hbc ⊢
  omega

theorem precedes_total (a b : Decoration) : (a.precedes b || b.precedes a) = true := by
  rw [Bool.or_eq_true, precedes_iff, precedes_iff, InOrder, InOrder]
  omega

theorem sorted_mergeSort (decorations : List Decoration) :
    Sorted (decorations.mergeSort precedes) :=
  (List.pairwise_mergeSort precedes_trans precedes_total decorations).imp precedes_iff.mp

theorem Sorted.mergeSort_eq {decorations : List Decoration} (h : Sorted decorations) :
    decorations.mergeSort precedes = decorations :=
  List.mergeSort_of_pairwise (h.imp precedes_iff.mpr)

/-- What holds of sorted decorations from left to right holds of those whose starts are in order,
wherever they stand. -/
theorem Sorted.rel_of_lt {decorations : List Decoration} {R : Decoration → Decoration → Prop}
    (h : Sorted decorations) (hR : decorations.Pairwise R) (houter : outer ∈ decorations)
    (hinner : inner ∈ decorations) (hlt : outer.start < inner.start) : R outer inner := by
  obtain ⟨i, hi, rfl⟩ := List.getElem_of_mem houter
  obtain ⟨j, hj, rfl⟩ := List.getElem_of_mem hinner
  obtain hbefore | rfl | hbehind := Nat.lt_trichotomy i j
  · exact List.pairwise_iff_getElem.mp hR i j hi hj hbefore
  · exact absurd hlt (Nat.lt_irrefl _)
  · have hinOrder := List.pairwise_iff_getElem.mp h j i hj hi hbehind
    exact absurd hlt (Nat.not_lt.mpr hinOrder.start_le)

/-! ## Across several edits -/

/-- The decoration carried across edits that follow one another. -/
def carryAll? (edits : List Edit) (decoration : Decoration) : Option Decoration :=
  edits.foldlM (fun decoration edit ↦ decoration.carry? edit) decoration

theorem carryAll?_singleton (edit : Edit) : carryAll? [edit] = carry? edit :=
  funext fun decoration ↦ bind_pure (decoration.carry? edit)

theorem carryAll?_concat (edits : List Edit) (edit : Edit) (decoration : Decoration) :
    decoration.carryAll? (edits ++ [edit]) = (decoration.carryAll? edits).bind (carry? edit) := by
  unfold carryAll?
  rw [List.foldlM_append]
  simp only [List.foldlM_cons, List.foldlM_nil, bind_pure]
  rfl

/-- Behind the edits the decoration still covers something, unless it never did. -/
def Lasts (edits : List Edit) (decoration : Decoration) : Prop :=
  decoration.stop ≤ decoration.start ∨
    Edit.carryAll edits decoration.start < Edit.carryAll edits decoration.stop
  deriving Decidable

/-- The decoration with its ends where the edits take them. -/
def carried (edits : List Edit) (decoration : Decoration) : Decoration :=
  { decoration with
    start := Edit.carryAll edits decoration.start, stop := Edit.carryAll edits decoration.stop }

/-- A decoration is carried by its ends, as long as they stay apart. -/
theorem carryAll?_eq (hproper : decoration.start ≤ decoration.stop) :
    decoration.carryAll? edits =
      if decoration.Lasts edits then some (decoration.carried edits) else none := by
  induction edits generalizing decoration with
  | nil => exact (if_pos (Nat.lt_or_ge _ _).symm).symm
  | cons edit rest ih =>
    change (decoration.carry? edit).bind (carryAll? rest) = _
    obtain hpoint | hlt := Nat.eq_or_lt_of_le hproper
    · have hle : decoration.stop ≤ decoration.start := Nat.le_of_eq hpoint.symm
      have hlasts : decoration.Lasts (edit :: rest) := Or.inl hle
      have hpointLasts : Lasts rest { decoration with
          start := edit.carry decoration.start, stop := edit.carry decoration.start } :=
        Or.inl (Nat.le_refl _)
      rw [carry?_of_le hle, Option.bind_some, ih (Nat.le_refl _), if_pos hpointLasts,
        if_pos hlasts]
      unfold carried
      rw [← hpoint]
      rfl
    · have hlasts : decoration.Lasts (edit :: rest) ↔
          Edit.carryAll rest (edit.carry decoration.start) <
            Edit.carryAll rest (edit.carry decoration.stop) := or_iff_right (Nat.not_le.mpr hlt)
      rw [carry?_of_lt hlt]
      split
      · rename_i hapart
        rw [Option.bind_some, ih (Nat.le_of_lt hapart)]
        exact if_congr ((or_iff_right (Nat.not_le.mpr hapart)).trans hlasts.symm) rfl rfl
      · rename_i htogether
        -- Ends that have come together never come apart.
        have hgone := Edit.carryAll_mono rest (Nat.not_lt.mp htogether)
        rw [Option.bind_none, if_neg (hlasts.not.mpr (Nat.not_lt.mpr hgone))]

theorem carryAll?_eq_some_iff {left : Decoration} (hproper : decoration.start ≤ decoration.stop) :
    decoration.carryAll? edits = some left ↔
      decoration.Lasts edits ∧ decoration.carried edits = left := by
  rw [carryAll?_eq hproper, Option.ite_none_right_eq_some, Option.some.injEq]

/-! ## Which decorations get out of order -/

/-- The first decoration begins before the second one and ends behind it. -/
def Encloses (outer inner : Decoration) : Prop :=
  outer.start < inner.start ∧ inner.stop < outer.stop
  deriving Decidable

/-- The edits bring the beginnings of a decoration and of one inside of it together, and leave the
inner one there, with an end before that of the outer one. -/
def Inverts (edits : List Edit) (outer inner : Decoration) : Prop :=
  outer.Encloses inner ∧ Edit.carryAll edits outer.start = Edit.carryAll edits inner.start ∧
    Edit.carryAll edits inner.stop < Edit.carryAll edits outer.stop ∧ inner.Lasts edits
  deriving Decidable

/-- A single edit inverts two decorations if it deletes the beginning of the outer one up to the
start of the inner one, and of neither more than a beginning. -/
theorem inverts_edit_iff (hinner : inner.start ≤ inner.stop) : Inverts [edit] outer inner ↔
    outer.Encloses inner ∧ edit.Joins outer.start inner.start ∧
      edit.start + edit.deleted < outer.stop ∧
      (inner.stop ≤ inner.start ∨ edit.start + edit.deleted < inner.stop) := by
  unfold Inverts Lasts
  refine and_congr_right fun hencloses ↦ ?_
  change edit.carry outer.start = edit.carry inner.start ∧
    edit.carry inner.stop < edit.carry outer.stop ∧
    (inner.stop ≤ inner.start ∨ edit.carry inner.start < edit.carry inner.stop) ↔ _
  rw [Edit.carry_eq_carry_iff hencloses.1, Edit.carry_lt_carry_iff hencloses.2]
  have hstart := hencloses.1
  obtain hpoint | hlt := Nat.eq_or_lt_of_le hinner
  · unfold Edit.Joins
    omega
  · rw [Edit.carry_lt_carry_iff hlt]
    unfold Edit.Joins
    omega

/-- Two decorations in order are in order behind the edits, if they are still there, unless the
edits invert them. -/
theorem inOrder_carried_iff (houter : outer.start ≤ outer.stop) (hinner : inner.start ≤ inner.stop)
    (h : outer.InOrder inner) :
    (∀ a, outer.carryAll? edits = some a → ∀ b, inner.carryAll? edits = some b → a.InOrder b) ↔
      ¬Inverts edits outer inner := by
  simp only [carryAll?_eq_some_iff houter, carryAll?_eq_some_iff hinner]
  constructor
  · rintro hcarried ⟨-, hstarts, hstops, hlasts⟩
    have hmono := Edit.carryAll_mono edits hinner
    have houterLasts : outer.Lasts edits := Or.inr (by omega)
    have hinOrder := hcarried _ ⟨houterLasts, rfl⟩ _ ⟨hlasts, rfl⟩
    dsimp only [InOrder, carried] at hinOrder
    omega
  · rintro hnot _ ⟨-, rfl⟩ _ ⟨hlasts, rfl⟩
    by_contra hinverted
    dsimp only [InOrder, carried] at hinverted
    obtain hstart | ⟨hstart, hstop⟩ := h
    · have hstarts := Edit.carryAll_mono edits (Nat.le_of_lt hstart)
      have hstops : inner.stop < outer.stop := by
        by_contra hle
        have hends := Edit.carryAll_mono edits (Nat.not_lt.mp hle)
        omega
      exact hnot ⟨⟨hstart, hstops⟩, by omega, by omega, hlasts⟩
    · have hstops := Edit.carryAll_mono edits hstop
      rw [hstart] at hinverted
      omega

/-- Sorted decorations are sorted behind the edits exactly if the edits invert none of them. -/
theorem Sorted.carryAll_iff {decorations : List Decoration} (h : Sorted decorations)
    (hproper : ∀ decoration ∈ decorations, decoration.start ≤ decoration.stop) :
    Sorted (decorations.filterMap (carryAll? edits)) ↔
      ∀ outer ∈ decorations, ∀ inner ∈ decorations, ¬Inverts edits outer inner := by
  unfold Sorted
  rw [List.pairwise_filterMap]
  constructor
  · intro hcarried outer houter inner hinner hinverts
    have hstart : outer.start < inner.start := hinverts.1.1
    have hkept := h.rel_of_lt hcarried houter hinner hstart
    exact (inOrder_carried_iff (hproper outer houter) (hproper inner hinner) (Or.inl hstart)).mp
      hkept hinverts
  · intro hnone
    refine h.imp_of_mem fun {outer inner} houter hinner hinOrder ↦ ?_
    exact (inOrder_carried_iff (hproper outer houter) (hproper inner hinner) hinOrder).mpr
      (hnone outer houter inner hinner)

/-- The starts of sorted decorations stay in order. -/
theorem Sorted.starts_carryAll {decorations : List Decoration} (h : Sorted decorations)
    (hproper : ∀ decoration ∈ decorations, decoration.start ≤ decoration.stop) :
    (decorations.filterMap (carryAll? edits)).Pairwise fun a b ↦ a.start ≤ b.start := by
  rw [List.pairwise_filterMap]
  refine h.imp_of_mem fun {a b} ha hb hinOrder ↦ ?_
  simp only [carryAll?_eq_some_iff (hproper a ha), carryAll?_eq_some_iff (hproper b hb)]
  rintro _ ⟨-, rfl⟩ _ ⟨-, rfl⟩
  exact Edit.carryAll_mono edits hinOrder.start_le

end Decoration

/-! ## Underlines of lint messages -/

namespace Lint

variable {lines : LineIndex} {outer inner : Decoration}

/-- No line lies inside another one. -/
theorem not_encloses (h : lines.Ordered) {messages : List LintMessage}
    (houter : outer ∈ decorations lines messages) (hinner : inner ∈ decorations lines messages) :
    ¬outer.Encloses inner := by
  rintro ⟨hstart, hstop⟩
  obtain ⟨_, -, line, range, -, hrange, rfl⟩ := mem_decorations.mp houter
  obtain ⟨_, -, other, otherRange, -, hother, rfl⟩ := mem_decorations.mp hinner
  have hle := (h.range_le hother).1
  obtain ⟨start, hmem, rfl⟩ := Option.map_eq_some_iff.mp hother
  have hcases := h.start_cases hrange (Array.mem_toList_iff.mpr (Array.mem_of_getElem? hmem))
  dsimp only [Decoration.underline] at hstart hstop hle
  omega

end Lint

end CodeEditor
