import CodeEditor.Proofs.Selection

/-!
# Normal sets of selections

However a set of selections is built, its selections are in strict order, each ends before the next
one starts or there, and building it again from its own selections gives it back. A set built from a
list selects the same characters as the list, has a place for each of its selections, and takes its
offsets from them.
-/

namespace CodeEditor

namespace Selection

/-- The character lies in one of the selections. A caret selects no character. -/
def Selects (selections : List Selection) (offset : Nat) : Prop :=
  ∃ selection ∈ selections, selection.start ≤ offset ∧ offset < selection.stop

theorem Selects.mono {small large : List Selection} {offset : Nat} (hsubset : small ⊆ large)
    (h : Selects small offset) : Selects large offset := by
  obtain ⟨s, hs, hoffset⟩ := h
  exact ⟨s, hsubset hs, hoffset⟩

/-- What covers a selection selects its characters. -/
theorem Selects.of_covers {selections others : List Selection} {offset : Nat}
    (hcovers : ∀ s ∈ selections, ∃ other ∈ others, other.covers s = true)
    (h : Selects selections offset) : Selects others offset := by
  obtain ⟨s, hs, hstart, hstop⟩ := h
  obtain ⟨other, hother, hcover⟩ := hcovers s hs
  obtain ⟨hle, hle'⟩ := covers_iff.mp hcover
  exact ⟨other, hother, Nat.le_trans hle hstart, Nat.lt_of_lt_of_le hstop hle'⟩

section Merge

variable {last : Selection} {rest : List Selection} {offset : Nat}

/-- Merging selects no character that was not selected before. -/
theorem selects_of_merge (h : Sorted (last :: rest)) (hselects : Selects (merge last rest) offset) :
    Selects (last :: rest) offset := by
  induction rest generalizing last with
  | nil => exact hselects
  | cons next rest ih =>
    rw [merge] at hselects
    split at hselects
    · exact (ih h.skip hselects).mono (List.cons_subset_cons _ (List.subset_cons_self _ _))
    · split at hselects
      · rename_i hoverlap
        obtain ⟨s, hs, hstart, hstop⟩ := ih (h.skip.grow next.stop) hselects
        obtain rfl | hs := List.mem_cons.mp hs
        · -- The grown selection has no gap between the two that it joins.
          dsimp only at hstart hstop
          rcases Nat.lt_or_ge offset last.stop with hlast | hlast
          · exact ⟨last, List.mem_cons_self, hstart, hlast⟩
          · refine ⟨next, List.mem_cons_of_mem _ List.mem_cons_self, ?_, ?_⟩
            · omega
            · omega
        · exact ⟨s, List.mem_cons_of_mem _ (List.mem_cons_of_mem _ hs), hstart, hstop⟩
      · obtain ⟨s, hs, hoffset⟩ := hselects
        obtain rfl | hs := List.mem_cons.mp hs
        · exact ⟨s, List.mem_cons_self, hoffset⟩
        · exact (ih h.tail ⟨s, hs, hoffset⟩).mono (List.subset_cons_self _ _)

end Merge

variable {selections : List Selection}

/-- The normal form selects the same characters. -/
theorem selects_normalize_iff (h : ∀ s ∈ selections, s.start ≤ s.stop) (offset : Nat) :
    Selects (normalize selections) offset ↔ Selects selections offset := by
  constructor
  · intro hselects
    have hsorted := sorted_mergeSort h
    unfold normalize at hselects
    split at hselects
    · obtain ⟨s, hs, -⟩ := hselects
      nomatch hs
    · rename_i first rest hcons
      rw [hcons] at hsorted
      have hsubset : first :: rest ⊆ selections := by
        rw [← hcons]
        exact fun s hs ↦ List.mem_mergeSort.mp hs
      exact (selects_of_merge hsorted hselects).mono hsubset
  · exact Selects.of_covers (normalize_covers h)

/-- Where the selections stand in the list does not matter. -/
theorem normalize_of_perm {first : Selection} {rest : List Selection}
    (hperm : (first :: rest).Perm selections)
    (hsorted : (first :: rest).Pairwise fun a b ↦ a.precedes b) :
    normalize selections = merge first rest := by
  have hsort : selections.mergeSort precedes = first :: rest := by
    refine ((List.mergeSort_perm selections precedes).trans hperm.symm).eq_of_pairwise ?_
      (precedes_mergeSort selections) hsorted
    intro a b _ _ hab hba
    rw [precedes_iff] at hab hba
    have hstart : a.start = b.start := by omega
    have hstop : a.stop = b.stop := by omega
    exact congr (congrArg mk hstart) hstop
  rw [normalize, hsort]

theorem exists_bound (selections : List Selection) :
    ∃ length, ∀ s ∈ selections, s.stop ≤ length := by
  induction selections with
  | nil => exact ⟨0, nofun⟩
  | cons first rest ih =>
    obtain ⟨length, hrest⟩ := ih
    refine ⟨max first.stop length, List.forall_mem_cons.mpr ⟨Nat.le_max_left _ _, fun s hs ↦ ?_⟩⟩
    exact Nat.le_trans (hrest s hs) (Nat.le_max_right _ _)

end Selection

namespace SelectionSet

open Selection (Selects)

/-! ## Sets that can be built -/

/-- Sets of selections with their ends in order, and what clamping and edits make of them. -/
inductive Built : SelectionSet → Prop
  | single {selection : Selection} (h : selection.start ≤ selection.stop) :
    Built (single selection)
  | ofList {selections : List Selection} (index : Nat) (h : ∀ s ∈ selections, s.start ≤ s.stop) :
    Built (ofList selections index)
  | clamp {set : SelectionSet} (length : Nat) (h : Built set) : Built (set.clamp length)
  | map {set mapped : SelectionSet} {edit : Edit} (h : Built set) (hmap : set.map edit = .ok mapped) :
    Built mapped

/-- Selections in strict order, each of which ends where the next one starts or before that, and one
of which is the primary one. -/
structure Ordered (set : SelectionSet) : Prop where
  ne_nil : set.all ≠ []
  start_le_stop : ∀ s ∈ set.all, s.start ≤ s.stop
  strict : set.all.Pairwise fun a b ↦ a.start < b.start ∨ a.start = b.start ∧ a.stop < b.stop
  apart : set.all.Pairwise fun a b ↦ a.stop ≤ b.start
  primaryIndex_lt : set.primaryIndex < set.all.length

/-- The set selects the characters of a list of selections, has a place for each of them, and starts
and ends its own where they start and end. -/
structure Represents (set : SelectionSet) (selections : List Selection) : Prop where
  selects_iff : ∀ offset, Selects set.all offset ↔ Selects selections offset
  covers : ∀ s ∈ selections, ∃ entry ∈ set.all, entry.covers s = true
  ends : selections ≠ [] → ∀ entry ∈ set.all,
    (∃ s ∈ selections, entry.start = s.start) ∧ ∃ s ∈ selections, entry.stop = s.stop

theorem Settled.ordered {set : SelectionSet} {length : Nat} (h : set.Settled length) :
    set.Ordered := by
  have hlt := (List.findIdx?_eq_some_iff_getElem.mp h.primary_first).1
  refine ⟨List.ne_nil_of_length_pos (Nat.zero_lt_of_lt hlt), h.separate.start_le_stop, ?_,
    h.separate.before.imp And.left, hlt⟩
  refine List.Pairwise.imp_of_mem ?_ h.separate.before
  intro a b ha hb ⟨hstop, hne⟩
  have hproper := h.separate.start_le_stop a ha
  have hproper' := h.separate.start_le_stop b hb
  -- If both start at one offset, the first is a caret there, and the second is not.
  cases a
  cases b
  simp only [ne_eq, Selection.mk.injEq] at *
  omega

theorem Settled.of_stop_le {set : SelectionSet} {length other : Nat} (h : set.Settled length)
    (hstop : ∀ s ∈ set.all, s.stop ≤ other) : set.Settled other :=
  ⟨h.separate, hstop, h.primary_first⟩

theorem exists_settled_ofList {selections : List Selection} (index : Nat)
    (h : ∀ s ∈ selections, s.start ≤ s.stop) :
    ∃ length, (ofList selections index).Settled length := by
  obtain ⟨length, hstop⟩ := Selection.exists_bound selections
  exact ⟨length, settled_ofList index h hstop⟩

theorem Built.settled {set : SelectionSet} (h : set.Built) : ∃ length, set.Settled length := by
  cases h with
  | single h => exact ⟨_, settled_single h (Nat.le_refl _)⟩
  | ofList index h => exact exists_settled_ofList index h
  | clamp length h => exact ⟨length, settled_clamp _ length⟩
  | map h hmap =>
    rw [eq_carry_of_map hmap]
    refine exists_settled_ofList _ fun s hs ↦ ?_
    obtain ⟨selection, -, rfl⟩ := List.mem_map.mp hs
    exact Nat.le_max_right _ _

theorem represents_ofList {selections : List Selection} (index : Nat)
    (h : ∀ s ∈ selections, s.start ≤ s.stop) : (ofList selections index).Represents selections := by
  cases selections with
  | nil =>
    refine ⟨fun offset ↦ ?_, nofun, fun hne ↦ (hne rfl).elim⟩
    constructor
    · rintro ⟨s, hs, hstart, hstop⟩
      obtain rfl := List.mem_singleton.mp hs
      nomatch hstop
    · rintro ⟨s, hs, -⟩
      nomatch hs
  | cons first rest =>
    refine ⟨Selection.selects_normalize_iff h, Selection.normalize_covers h, fun _ ↦ ?_⟩
    exact Selection.forall_mem_normalize (p := fun start ↦ ∃ s ∈ first :: rest, start = s.start)
      (q := fun stop ↦ ∃ s ∈ first :: rest, stop = s.stop) fun s hs ↦ ⟨⟨s, hs, rfl⟩, s, hs, rfl⟩

/-- Mapping a set only stops where mapping one of its selections does. -/
theorem exists_map_eq_ok {set : SelectionSet} {edit : Edit}
    (h : ∀ s ∈ set.all, ∃ range, edit.mapRange s.start s.stop = .ok range) :
    ∃ mapped, set.map edit = .ok mapped := by
  refine ⟨set.carry edit, ?_⟩
  unfold map carry
  rw [Fault.mapM_eq_ok]
  · rfl
  · intro s hs
    obtain ⟨range, hrange⟩ := h s hs
    unfold Selection.map
    rw [hrange, Edit.eq_of_mapRange hrange]
    rfl

/-- A set built from a list is ordered and stands for the selections of the list. Every set that can
be built is ordered, is the normal form of its own selections, and stays ordered when it is clamped
or carried across an edit. Clamping puts it into the text, and changes nothing if it is there. -/
theorem ofList_normalizes :
    (∀ selections index, (∀ s ∈ selections, s.start ≤ s.stop) →
      (ofList selections index).Ordered ∧ (ofList selections index).Represents selections) ∧
    ∀ set, Built set → set.Ordered ∧ ofList set.all set.primaryIndex = set ∧
      (∀ length, (set.clamp length).Ordered ∧ (∀ s ∈ (set.clamp length).all, s.stop ≤ length) ∧
        ((∀ s ∈ set.all, s.stop ≤ length) → set.clamp length = set)) ∧
      ∀ edit, (∀ s ∈ set.all, ∃ range, edit.mapRange s.start s.stop = .ok range) →
        ∃ mapped, set.map edit = .ok mapped ∧ mapped.Ordered := by
  have hordered : ∀ {set}, Built set → set.Ordered := by
    intro set hset
    obtain ⟨length, hsettled⟩ := hset.settled
    exact hsettled.ordered
  refine ⟨fun selections index h ↦ ⟨hordered (.ofList index h), represents_ofList index h⟩,
    fun set hset ↦ ?_⟩
  obtain ⟨bound, hsettled⟩ := hset.settled
  refine ⟨hsettled.ordered, ofList_eq_self hsettled, fun length ↦ ⟨?_, ?_, ?_⟩, fun edit h ↦ ?_⟩
  · exact hordered (hset.clamp length)
  · exact (settled_clamp set length).stop_le
  · exact fun hstop ↦ clamp_eq_self (hsettled.of_stop_le hstop)
  · obtain ⟨mapped, hmapped⟩ := exists_map_eq_ok h
    exact ⟨mapped, hmapped, hordered (hset.map hmapped)⟩

/-- Of four selections, two overlap and one only touches what they are joined to. After an edit that
deletes the end of the first range and the second one, that is a caret at the end of the first. -/
theorem ofList_normalizes_touching :
    let selections : List Selection := [⟨10, 12⟩, ⟨0, 4⟩, ⟨3, 6⟩, ⟨6, 7⟩]
    let set := ofList selections 0
    set.all = [⟨0, 6⟩, ⟨6, 7⟩, ⟨10, 12⟩] ∧ set.Ordered ∧ set.Represents selections ∧
      ofList set.all set.primaryIndex = set ∧ (set.clamp 6).Ordered ∧ set.clamp 12 = set ∧
      ∃ mapped, set.map ⟨4, 4, 0⟩ = .ok mapped ∧ mapped.Ordered ∧
        mapped.all = [⟨0, 4⟩, ⟨4, 4⟩, ⟨6, 8⟩] := by
  intro selections set
  have hproper : ∀ s ∈ selections, s.start ≤ s.stop := by decide
  have hset : set.Built := .ofList 0 hproper
  have hall : set.all = [⟨0, 6⟩, ⟨6, 7⟩, ⟨10, 12⟩] :=
    @Selection.normalize_of_perm selections ⟨0, 4⟩ [⟨3, 6⟩, ⟨6, 7⟩, ⟨10, 12⟩] (by decide) (by decide)
  have hstop : ∀ s ∈ set.all, s.stop ≤ 12 := by rw [hall]; decide
  have hrange : ∀ s ∈ set.all, ∃ range, Edit.mapRange ⟨4, 4, 0⟩ s.start s.stop = .ok range := by
    simp only [hall, List.forall_mem_cons]
    exact ⟨⟨_, rfl⟩, ⟨_, rfl⟩, ⟨_, rfl⟩, List.forall_mem_nil _⟩
  obtain ⟨hlists, hsets⟩ := ofList_normalizes
  obtain ⟨hordered, hrepresents⟩ := hlists selections 0 hproper
  obtain ⟨-, hself, hclamp, hmap⟩ := hsets set hset
  obtain ⟨mapped, hmapped, hmappedOrdered⟩ := hmap ⟨4, 4, 0⟩ hrange
  refine ⟨hall, hordered, hrepresents, hself, (hclamp 6).1, (hclamp 12).2.2 hstop, mapped, hmapped,
    hmappedOrdered, ?_⟩
  rw [eq_carry_of_map hmapped, carry, hall]
  exact @Selection.normalize_of_perm _ ⟨0, 4⟩ [⟨4, 4⟩, ⟨6, 8⟩] (by decide) (by decide)

end SelectionSet

end CodeEditor
