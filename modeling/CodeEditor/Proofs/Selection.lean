import CodeEditor.Proofs.Text.Edit
import CodeEditor.Selection

/-!
# Settled sets of selections

A set of selections is settled in a text if its selections lie in the text, come one after the
other, and no earlier one covers the primary one. Clamping settles every set and leaves a settled
one as it is, so the selections that an editor has put away come back unchanged.
-/

namespace CodeEditor

namespace Selection

/-- One selection ends before the next starts, or there, and does not repeat it. -/
def Before (a b : Selection) : Prop := a.stop ≤ b.start ∧ a ≠ b

/-- Selections with their ends in order, each of which is before those that follow. -/
structure Separate (selections : List Selection) : Prop where
  start_le_stop : ∀ selection ∈ selections, selection.start ≤ selection.stop
  before : selections.Pairwise Before

/-- Selections with their ends in order, sorted by their starts. -/
structure Sorted (selections : List Selection) : Prop where
  start_le_stop : ∀ selection ∈ selections, selection.start ≤ selection.stop
  starts : selections.Pairwise fun a b ↦ a.start ≤ b.start

theorem covers_iff {outer inner : Selection} :
    outer.covers inner = true ↔ outer.start ≤ inner.start ∧ inner.stop ≤ outer.stop := by
  simp only [covers, Bool.and_eq_true, decide_eq_true_eq]

theorem covers_self (selection : Selection) : selection.covers selection = true :=
  covers_iff.mpr ⟨Nat.le_refl _, Nat.le_refl _⟩

theorem covers_trans {a b c : Selection} (hab : a.covers b = true) (hbc : b.covers c = true) :
    a.covers c = true := by
  rw [covers_iff] at hab hbc ⊢
  omega

theorem precedes_iff {a b : Selection} :
    a.precedes b = true ↔ a.start < b.start ∨ a.start = b.start ∧ a.stop ≤ b.stop := by
  simp only [precedes, Bool.or_eq_true, Bool.and_eq_true, decide_eq_true_eq, beq_iff_eq]

/-! ## Merging -/

section Merge

variable {last next : Selection} {rest : List Selection}

theorem Sorted.tail (h : Sorted (last :: rest)) : Sorted rest :=
  ⟨fun s hs ↦ h.start_le_stop s (List.mem_cons_of_mem _ hs), h.starts.of_cons⟩

theorem Sorted.start_le (h : Sorted (last :: rest)) : ∀ s ∈ rest, last.start ≤ s.start :=
  (List.pairwise_cons.mp h.starts).1

theorem Sorted.skip (h : Sorted (last :: next :: rest)) : Sorted (last :: rest) := by
  constructor
  · have hlast := h.start_le_stop last List.mem_cons_self
    exact List.forall_mem_cons.mpr ⟨hlast, h.tail.tail.start_le_stop⟩
  · exact List.pairwise_cons.mpr
      ⟨fun s hs ↦ h.start_le s (List.mem_cons_of_mem _ hs), h.tail.tail.starts⟩

/-- The first of sorted selections may grow at its end. -/
theorem Sorted.grow (h : Sorted (last :: rest)) (stop : Nat) :
    Sorted (⟨last.start, max last.stop stop⟩ :: rest) := by
  constructor
  · have hlast := h.start_le_stop last List.mem_cons_self
    exact List.forall_mem_cons.mpr ⟨by dsimp only; omega, h.tail.start_le_stop⟩
  · exact List.pairwise_cons.mpr ⟨h.start_le, h.tail.starts⟩

/-- What is merged starts and ends no earlier than the first selection. -/
theorem merge_lower (h : Sorted (last :: rest)) :
    ∀ s ∈ merge last rest, last.start ≤ s.start ∧ last.stop ≤ s.stop := by
  induction rest generalizing last with
  | nil =>
    intro s hs
    obtain rfl := List.mem_singleton.mp hs
    exact ⟨Nat.le_refl _, Nat.le_refl _⟩
  | cons next rest ih =>
    rw [merge]
    split
    · exact ih h.skip
    · split
      · intro s hs
        have hgrown := ih (h.skip.grow next.stop) s hs
        dsimp only at hgrown
        omega
      · intro s hs
        rcases List.mem_cons.mp hs with rfl | hs
        · exact ⟨Nat.le_refl _, Nat.le_refl _⟩
        · have hstart := h.start_le next List.mem_cons_self
          have hproper := h.start_le_stop next (List.mem_cons_of_mem _ List.mem_cons_self)
          have hmerged := ih h.tail s hs
          omega

theorem merge_separate (h : Sorted (last :: rest)) : Separate (merge last rest) := by
  induction rest generalizing last with
  | nil => exact ⟨h.start_le_stop, List.pairwise_singleton _ _⟩
  | cons next rest ih =>
    rw [merge]
    split
    · exact ih h.skip
    · rename_i hne
      split
      · exact ih (h.skip.grow next.stop)
      · rename_i hbehind
        have hlast := h.start_le_stop last List.mem_cons_self
        have hproper := h.start_le_stop next (List.mem_cons_of_mem _ List.mem_cons_self)
        obtain ⟨hmerged, hbefore⟩ := ih h.tail
        refine ⟨List.forall_mem_cons.mpr ⟨hlast, hmerged⟩, List.pairwise_cons.mpr ⟨?_, hbefore⟩⟩
        intro s hs
        have hlower := merge_lower h.tail s hs
        refine ⟨by omega, ?_⟩
        -- A repetition would be a caret at which the next selection is a caret, too.
        rintro rfl
        apply hne
        cases next
        cases last
        simp only [mk.injEq] at *
        omega

/-- No selection is lost in merging. -/
theorem merge_covers (h : Sorted (last :: rest)) :
    ∀ s ∈ last :: rest, ∃ merged ∈ merge last rest, merged.covers s = true := by
  induction rest generalizing last with
  | nil =>
    intro s hs
    obtain rfl := List.mem_singleton.mp hs
    exact ⟨s, List.mem_singleton_self s, covers_self s⟩
  | cons next rest ih =>
    rw [merge]
    split
    · rename_i hsame
      intro s hs
      rcases List.mem_cons.mp hs with rfl | hs
      · exact ih h.skip s List.mem_cons_self
      · exact ih h.skip s (hsame ▸ hs)
    · split
      · have hstart := h.start_le next List.mem_cons_self
        obtain ⟨merged, hmerged, hgrown⟩ := ih (h.skip.grow next.stop) _ List.mem_cons_self
        intro s hs
        rcases List.mem_cons.mp hs with rfl | hs
        · exact ⟨merged, hmerged, covers_trans hgrown
            (covers_iff.mpr ⟨Nat.le_refl _, Nat.le_max_left _ _⟩)⟩
        · rcases List.mem_cons.mp hs with rfl | hs
          · exact ⟨merged, hmerged, covers_trans hgrown
              (covers_iff.mpr ⟨hstart, Nat.le_max_right _ _⟩)⟩
          · exact ih (h.skip.grow next.stop) s (List.mem_cons_of_mem _ hs)
      · intro s hs
        rcases List.mem_cons.mp hs with rfl | hs
        · exact ⟨s, List.mem_cons_self, covers_self s⟩
        · obtain ⟨merged, hmerged, hs⟩ := ih h.tail s hs
          exact ⟨merged, List.mem_cons_of_mem _ hmerged, hs⟩

/-- Merging makes up no ends: what holds of all starts and of all stops still does. -/
theorem forall_mem_merge {p q : Nat → Prop} (h : ∀ s ∈ last :: rest, p s.start ∧ q s.stop) :
    ∀ s ∈ merge last rest, p s.start ∧ q s.stop := by
  induction rest generalizing last with
  | nil => exact h
  | cons next rest ih =>
    obtain ⟨hlast, hnext⟩ := List.forall_mem_cons.mp h
    obtain ⟨hstop, hrest⟩ := List.forall_mem_cons.mp hnext
    rw [merge]
    split
    · exact ih (List.forall_mem_cons.mpr ⟨hlast, hrest⟩)
    · split
      · have hmax : q (max last.stop next.stop) := by
          rcases Nat.le_total last.stop next.stop with hle | hle
          · rw [Nat.max_eq_right hle]
            exact hstop.2
          · rw [Nat.max_eq_left hle]
            exact hlast.2
        exact ih (List.forall_mem_cons.mpr ⟨⟨hlast.1, hmax⟩, hrest⟩)
      · exact List.forall_mem_cons.mpr ⟨hlast, ih hnext⟩

/-- Merging does not touch selections that are separate already. -/
theorem merge_eq_self (h : Separate (last :: rest)) : merge last rest = last :: rest := by
  induction rest generalizing last with
  | nil => rfl
  | cons next rest ih =>
    obtain ⟨hlast, hnext⟩ := List.pairwise_cons.mp h.before
    obtain ⟨hstop, hne⟩ := hlast next List.mem_cons_self
    rw [merge, if_neg hne.symm, if_neg (Nat.not_lt.mpr hstop),
      ih ⟨fun s hs ↦ h.start_le_stop s (List.mem_cons_of_mem _ hs), hnext⟩]

end Merge

/-! ## Normal forms -/

theorem precedes_mergeSort (selections : List Selection) :
    (selections.mergeSort precedes).Pairwise fun a b ↦ a.precedes b = true := by
  refine List.pairwise_mergeSort ?_ ?_ selections
  · intro a b c hab hbc
    rw [precedes_iff] at hab hbc ⊢
    omega
  · intro a b
    rw [Bool.or_eq_true, precedes_iff, precedes_iff]
    omega

theorem sorted_mergeSort {selections : List Selection}
    (h : ∀ s ∈ selections, s.start ≤ s.stop) : Sorted (selections.mergeSort precedes) := by
  refine ⟨fun s hs ↦ h s (List.mem_mergeSort.mp hs), (precedes_mergeSort selections).imp ?_⟩
  intro a b hab
  rw [precedes_iff] at hab
  omega

theorem normalize_separate {selections : List Selection}
    (h : ∀ s ∈ selections, s.start ≤ s.stop) : Separate (normalize selections) := by
  have hsorted := sorted_mergeSort h
  unfold normalize
  split
  · exact ⟨nofun, List.Pairwise.nil⟩
  · rename_i first rest hcons
    rw [hcons] at hsorted
    exact merge_separate hsorted

/-- Each selection lies in one of those that it was normalized to. -/
theorem normalize_covers {selections : List Selection} (h : ∀ s ∈ selections, s.start ≤ s.stop) :
    ∀ s ∈ selections, ∃ merged ∈ normalize selections, merged.covers s = true := by
  intro s hs
  have hsorted := sorted_mergeSort h
  have hmem : s ∈ selections.mergeSort precedes := List.mem_mergeSort.mpr hs
  unfold normalize
  split
  · rename_i hnil
    rw [hnil] at hmem
    nomatch hmem
  · rename_i first rest hcons
    rw [hcons] at hsorted hmem
    exact merge_covers hsorted s hmem

theorem forall_mem_normalize {selections : List Selection} {p q : Nat → Prop}
    (h : ∀ s ∈ selections, p s.start ∧ q s.stop) :
    ∀ s ∈ normalize selections, p s.start ∧ q s.stop := by
  have hmem : ∀ s ∈ selections.mergeSort precedes, p s.start ∧ q s.stop :=
    fun s hs ↦ h s (List.mem_mergeSort.mp hs)
  unfold normalize
  split
  · nofun
  · rename_i first rest hcons
    rw [hcons] at hmem
    exact forall_mem_merge hmem

theorem Separate.precedes {selections : List Selection} (h : Separate selections) :
    selections.Pairwise fun a b ↦ a.precedes b := by
  refine List.Pairwise.imp_of_mem ?_ h.before
  intro a b ha hb hab
  have hproper := h.start_le_stop a ha
  have hproper' := h.start_le_stop b hb
  have hstop := hab.1
  rw [precedes_iff]
  omega

theorem normalize_eq_self {selections : List Selection} (h : Separate selections) :
    normalize selections = selections := by
  rw [normalize, List.mergeSort_of_pairwise h.precedes]
  cases selections with
  | nil => rfl
  | cons first rest => exact merge_eq_self h

theorem eq_of_map_eq_ok {selection mapped : Selection} {edit : Edit}
    (h : selection.map edit = .ok mapped) :
    mapped = ⟨edit.carry selection.start,
      max (edit.carry selection.stop) (edit.carry selection.start)⟩ := by
  obtain ⟨range, hrange, h⟩ := Fault.bind_eq_ok.mp h
  rw [← Except.ok.inj h, Edit.eq_of_mapRange hrange]

end Selection

namespace SelectionSet

/-- The set is the normal form of its own selections, all of which lie in a text of this length. -/
structure Settled (set : SelectionSet) (length : Nat) : Prop where
  separate : Selection.Separate set.all
  stop_le : ∀ selection ∈ set.all, selection.stop ≤ length
  primary_first : set.all.findIdx? (·.covers set.primary) = some set.primaryIndex

theorem primary_eq_getElem {set : SelectionSet} (h : set.primaryIndex < set.all.length) :
    set.primary = set.all[set.primaryIndex] :=
  (List.getElem_eq_getD _).symm

theorem settled_single {selection : Selection} {length : Nat}
    (hproper : selection.start ≤ selection.stop) (h : selection.stop ≤ length) :
    (single selection).Settled length := by
  refine ⟨⟨?_, List.pairwise_singleton _ _⟩, ?_, ?_⟩
  · intro s hs
    rwa [List.mem_singleton.mp hs]
  · intro s hs
    rwa [List.mem_singleton.mp hs]
  · exact List.findIdx?_cons.trans (if_pos (Selection.covers_self selection))

theorem settled_default (length : Nat) : default.Settled length :=
  settled_single (Nat.le_refl _) (Nat.zero_le _)

/-- The primary selection is the first one of the set that covers the selection which was given as
primary, and there is one. -/
theorem primaryIndex_ofList {first : Selection} {rest : List Selection} (index : Nat)
    (h : ∀ s ∈ first :: rest, s.start ≤ s.stop) :
    (ofList (first :: rest) index).all.findIdx? (·.covers ((first :: rest).getD index first)) =
      some (ofList (first :: rest) index).primaryIndex := by
  let given := (first :: rest).getD index first
  have hgiven : given ∈ first :: rest := by
    rcases Nat.lt_or_ge index (first :: rest).length with hlt | hge
    · rw [show given = (first :: rest)[index] from (List.getElem_eq_getD _).symm]
      exact List.getElem_mem hlt
    · rw [show given = first by
        simp only [given, List.getD_eq_getElem?_getD, List.getElem?_eq_none hge, Option.getD_none]]
      exact List.mem_cons_self
  obtain ⟨cover, hcover, hcovers⟩ := Selection.normalize_covers h given hgiven
  have hfound := List.findIdx?_eq_some_of_exists
    (p := (·.covers given)) ⟨cover, hcover, hcovers⟩
  change (Selection.normalize (first :: rest)).findIdx? (·.covers given) =
    some (((Selection.normalize (first :: rest)).findIdx? (·.covers given)).getD _)
  rw [hfound, Option.getD_some]

/-- Proper selections settle in each text they lie in. -/
theorem settled_ofList {selections : List Selection} {length : Nat} (index : Nat)
    (hproper : ∀ s ∈ selections, s.start ≤ s.stop) (hstop : ∀ s ∈ selections, s.stop ≤ length) :
    (ofList selections index).Settled length := by
  cases selections with
  | nil => exact settled_default length
  | cons first rest =>
    have hfirst := primaryIndex_ofList index hproper
    have hwithin := Selection.forall_mem_normalize (p := fun _ ↦ True) (q := (· ≤ length))
      fun s hs ↦ ⟨trivial, hstop s hs⟩
    refine ⟨Selection.normalize_separate hproper, fun s hs ↦ (hwithin s hs).2, ?_⟩
    -- Whatever covers the primary selection covers what it was merged from.
    rw [List.findIdx?_eq_some_iff_getElem] at hfirst ⊢
    obtain ⟨hlt, hcovered, hearlier⟩ := hfirst
    rw [primary_eq_getElem hlt]
    refine ⟨hlt, Selection.covers_self _, fun j hj hcover ↦ ?_⟩
    exact hearlier j hj (Selection.covers_trans hcover hcovered)

/-- A set that is normal already is the normal form of its selections. -/
theorem ofList_eq_self {set : SelectionSet} {length : Nat} (h : set.Settled length) :
    ofList set.all set.primaryIndex = set := by
  obtain ⟨all, index⟩ := set
  obtain ⟨hseparate, -, hprimary⟩ := h
  dsimp only at hseparate hprimary ⊢
  have hlt := (List.findIdx?_eq_some_iff_getElem.mp hprimary).1
  cases all with
  | nil => nomatch hlt
  | cons first rest =>
    have hwanted : (first :: rest).getD index first = primary ⟨first :: rest, index⟩ :=
      (List.getElem_eq_getD first).symm.trans (List.getElem_eq_getD (h := hlt) _)
    rw [ofList, hwanted, Selection.normalize_eq_self hseparate, hprimary, Option.getD_some]

theorem settled_clamp (set : SelectionSet) (length : Nat) : (set.clamp length).Settled length := by
  apply settled_ofList
  · intro s hs
    obtain ⟨selection, -, rfl⟩ := List.mem_map.mp hs
    simp only [Selection.clamp, Selection.between]
    omega
  · intro s hs
    obtain ⟨selection, -, rfl⟩ := List.mem_map.mp hs
    simp only [Selection.clamp, Selection.between]
    omega

theorem clamp_eq_self {set : SelectionSet} {length : Nat} (h : set.Settled length) :
    set.clamp length = set := by
  have hmap : set.all.map (·.clamp length) = set.all := by
    rw [List.map_congr_left, List.map_id]
    intro s hs
    have hproper := h.separate.start_le_stop s hs
    have hstop := h.stop_le s hs
    simp only [Selection.clamp, Nat.min_eq_left hstop, Nat.min_eq_left (Nat.le_trans hproper hstop),
      Selection.between_of_le hproper, id]
  rw [clamp, hmap, ofList_eq_self h]

/-! ## Across an edit -/

/-- The set carried across an edit, without bounds on offsets. -/
def carry (edit : Edit) (set : SelectionSet) : SelectionSet :=
  ofList (set.all.map fun selection ↦
    ⟨edit.carry selection.start, max (edit.carry selection.stop) (edit.carry selection.start)⟩)
    set.primaryIndex

theorem eq_carry_of_map {set mapped : SelectionSet} {edit : Edit} (h : set.map edit = .ok mapped) :
    mapped = set.carry edit := by
  obtain ⟨selections, hselections, h⟩ := Fault.bind_eq_ok.mp h
  rw [← Except.ok.inj h, carry, Fault.eq_map_of_mapM_eq_ok _ hselections]
  exact fun selection s ↦ Selection.eq_of_map_eq_ok

theorem map_eq_carry {set : SelectionSet} {edit : Edit} {length : Nat} (hset : set.Settled length)
    (hfits : edit.Fits length) (hlength : length < Offset.bound)
    (hnew : edit.carryLength length < Offset.bound) : set.map edit = .ok (set.carry edit) := by
  unfold map carry
  rw [Fault.mapM_eq_ok]
  · rfl
  · intro selection hselection
    have hproper := hset.separate.start_le_stop selection hselection
    have hstop := hset.stop_le selection hselection
    unfold Selection.map
    rw [Edit.mapRange_eq_carry hfits hlength hnew (Nat.le_trans hproper hstop) hstop]
    rfl

end SelectionSet

end CodeEditor
