import CodeEditor.Proofs.Selection.Normal

/-!
# The primary selection

The primary selection of a set is the first one that covers the selection which was given as
primary. Where that one was merged into another, there is only one that covers it. Where it is still
there, it is the primary one, except for a caret at the end of a range: there the range comes first
and is taken for it.
-/

namespace CodeEditor

namespace Selection

variable {selections : List Selection}

/-- Of two carets and ranges that start together, the carets come first. -/
def CaretsFirst (selections : List Selection) : Prop :=
  selections.Pairwise fun a b ↦ b.start = b.stop → a.start = b.start → a.stop = b.stop

theorem caretsFirst_mergeSort (h : ∀ s ∈ selections, s.start ≤ s.stop) :
    CaretsFirst (selections.mergeSort precedes) := by
  have hprecedes := precedes_mergeSort selections
  refine List.Pairwise.imp_of_mem (fun {a b} ha hb hab hcaret hstart ↦ ?_) hprecedes
  have hproper := h a (List.mem_mergeSort.mp ha)
  rw [precedes_iff] at hab
  omega

/-- The caret is one of the selections or lies strictly inside one of them. -/
def Holds (selections : List Selection) (caret : Selection) : Prop :=
  caret ∈ selections ∨ ∃ s ∈ selections, s.start < caret.start ∧ caret.stop < s.stop

theorem Holds.cons {caret : Selection} (h : Holds selections caret) (first : Selection) :
    Holds (first :: selections) caret := by
  obtain h | ⟨s, hs, hinside⟩ := h
  · exact Or.inl (List.mem_cons_of_mem _ h)
  · exact Or.inr ⟨s, List.mem_cons_of_mem _ hs, hinside⟩

/-- A caret stays a selection of its own, unless it lies strictly inside what it is merged into. -/
theorem merge_holds {last : Selection} {rest : List Selection} (h : Sorted (last :: rest))
    (hcarets : CaretsFirst (last :: rest)) :
    ∀ caret ∈ last :: rest, caret.start = caret.stop → Holds (merge last rest) caret := by
  induction rest generalizing last with
  | nil => exact fun caret hmem _ ↦ Or.inl hmem
  | cons next rest ih =>
    obtain ⟨hlast, hnext⟩ := List.pairwise_cons.mp hcarets
    obtain ⟨-, hrest⟩ := List.pairwise_cons.mp hnext
    rw [merge]
    split
    · rename_i hsame
      intro caret hmem
      rw [hsame, List.mem_cons, List.mem_cons, or_self_left, ← List.mem_cons] at hmem
      exact ih h.skip (List.pairwise_cons.mpr ⟨(List.forall_mem_cons.mp hlast).2, hrest⟩) caret hmem
    · split
      · rename_i hoverlap
        have hstart := h.start_le next List.mem_cons_self
        have hgrown : CaretsFirst (⟨last.start, max last.stop next.stop⟩ :: rest) := by
          refine List.pairwise_cons.mpr ⟨fun s hs hcaret hsame ↦ ?_, hrest⟩
          -- A caret at the start of the first selection would make that one a caret, too.
          have := hlast s (List.mem_cons_of_mem _ hs) hcaret hsame
          dsimp only at hsame ⊢
          omega
        intro caret hmem hcaret
        obtain rfl | hmem := List.mem_cons.mp hmem
        · omega
        · obtain rfl | hmem := List.mem_cons.mp hmem
          · have := hlast caret List.mem_cons_self hcaret
            obtain ⟨m, hm, hcover⟩ :=
              merge_covers (h.skip.grow caret.stop) _ List.mem_cons_self
            rw [covers_iff] at hcover
            refine Or.inr ⟨m, hm, ?_⟩
            dsimp only at hcover
            omega
          · exact ih (h.skip.grow next.stop) hgrown caret (List.mem_cons_of_mem _ hmem) hcaret
      · intro caret hmem hcaret
        obtain rfl | hmem := List.mem_cons.mp hmem
        · exact Or.inl List.mem_cons_self
        · exact (ih h.tail hnext caret hmem hcaret).cons last

theorem normalize_holds (h : ∀ s ∈ selections, s.start ≤ s.stop) {caret : Selection}
    (hmem : caret ∈ selections) (hcaret : caret.start = caret.stop) :
    Holds (normalize selections) caret := by
  have hsorted := sorted_mergeSort h
  have hcarets := caretsFirst_mergeSort h
  have hmem : caret ∈ selections.mergeSort precedes := List.mem_mergeSort.mpr hmem
  unfold normalize
  split
  · rename_i hnil
    rw [hnil] at hmem
    nomatch hmem
  · rename_i first rest hcons
    rw [hcons] at hsorted hcarets hmem
    exact merge_holds hsorted hcarets caret hmem hcaret

/-- Of two separate selections, one is before the other. -/
theorem Separate.before_or {a b : Selection} (h : Separate selections) (ha : a ∈ selections)
    (hb : b ∈ selections) : a = b ∨ a.Before b ∨ b.Before a := by
  obtain ⟨i, hi, rfl⟩ := List.getElem_of_mem ha
  obtain ⟨j, hj, rfl⟩ := List.getElem_of_mem hb
  have hbefore := List.pairwise_iff_getElem.mp h.before
  rcases Nat.lt_trichotomy i j with hij | rfl | hij
  · exact Or.inr (Or.inl (hbefore i j hi hj hij))
  · exact Or.inl rfl
  · exact Or.inr (Or.inr (hbefore j i hj hi hij))

end Selection

namespace SelectionSet

/-- The selection that is given as the primary one of a set is not swapped for another one. It is the
primary one if it is still in the set; if it was merged, the only selection that covers it is. -/
structure KeepsPrimary (set : SelectionSet) (given : Selection) : Prop where
  kept : given ∈ set.all → set.primary = given
  merged : given ∉ set.all → set.primary ∈ set.all ∧ set.primary.covers given = true ∧
    ∀ entry ∈ set.all, entry.covers given = true → entry = set.primary

/-- How the primary selection of a set comes from the given one. The given one is not swapped for
another one just if no range ends at it while it is still in the set; otherwise that range is the
primary selection. -/
structure PrimaryFrom (set : SelectionSet) (given : Selection) : Prop where
  keeps_iff : set.KeepsPrimary given ↔
    (given ∈ set.all → ∀ entry ∈ set.all, entry.start < given.start → entry.stop ≠ given.stop)
  displaced : given ∈ set.all →
    ∀ entry ∈ set.all, entry.start < given.start → entry.stop = given.stop → set.primary = entry

/-- The first selection of a separate set that covers a given one is before all others that do. -/
theorem primary_before {set : SelectionSet} {given : Selection} (h : Selection.Separate set.all)
    (hfirst : set.all.findIdx? (·.covers given) = some set.primaryIndex) :
    (set.primary ∈ set.all ∧ set.primary.covers given = true) ∧
      ∀ entry ∈ set.all, entry.covers given = true →
        set.primary = entry ∨ set.primary.Before entry := by
  obtain ⟨hlt, hcovers, hearlier⟩ := List.findIdx?_eq_some_iff_getElem.mp hfirst
  rw [primary_eq_getElem hlt]
  refine ⟨⟨List.getElem_mem hlt, hcovers⟩, fun entry hentry hcover ↦ ?_⟩
  obtain ⟨i, hi, rfl⟩ := List.getElem_of_mem hentry
  rcases Nat.lt_trichotomy i set.primaryIndex with hless | rfl | hgreater
  · exact (hearlier i hless hcover).elim
  · exact Or.inl rfl
  · exact Or.inr (List.pairwise_iff_getElem.mp h.before _ i hlt hi hgreater)

section First

variable {set : SelectionSet} {given : Selection}

/-- Only a caret between two selections lies in both, and after a merge there is none. -/
theorem merged_of_first (h : Selection.Separate set.all) (hproper : given.start ≤ given.stop)
    (hholds : given.start = given.stop → Selection.Holds set.all given)
    (hfirst : set.all.findIdx? (·.covers given) = some set.primaryIndex)
    (hmerged : given ∉ set.all) :
    set.primary ∈ set.all ∧ set.primary.covers given = true ∧
      ∀ entry ∈ set.all, entry.covers given = true → entry = set.primary := by
  obtain ⟨⟨hmem, hcovers⟩, hbefore⟩ := primary_before h hfirst
  have hends := Selection.covers_iff.mp hcovers
  refine ⟨hmem, hcovers, fun entry hentry hcover ↦ ?_⟩
  obtain heq | ⟨hstop, -⟩ := hbefore entry hentry hcover
  · exact heq.symm
  · have hcaret := Selection.covers_iff.mp hcover
    obtain hholds | ⟨s, hs, hinside⟩ := hholds (by omega)
    · exact (hmerged hholds).elim
    · -- The caret would be strictly inside a third selection.
      obtain rfl | ⟨hstop', -⟩ | ⟨hstop', -⟩ := h.before_or hs hmem <;> omega

/-- A range that ends at the given selection covers it, and nothing before the range does. -/
theorem displaced_of_first (h : Selection.Separate set.all) (hproper : given.start ≤ given.stop)
    (hfirst : set.all.findIdx? (·.covers given) = some set.primaryIndex) {entry : Selection}
    (hentry : entry ∈ set.all) (hstart : entry.start < given.start)
    (hstop : entry.stop = given.stop) : set.primary = entry := by
  obtain ⟨⟨-, hcovers⟩, hbefore⟩ := primary_before h hfirst
  have hends := Selection.covers_iff.mp hcovers
  have hcover : entry.covers given = true := Selection.covers_iff.mpr (by omega)
  obtain heq | ⟨hbehind, -⟩ := hbefore entry hentry hcover
  · exact heq
  · omega

/-- A given selection that is still there is the primary one, unless a range ends at it. -/
theorem kept_of_first (h : Selection.Separate set.all)
    (hfirst : set.all.findIdx? (·.covers given) = some set.primaryIndex) (hgiven : given ∈ set.all)
    (hapart : ∀ entry ∈ set.all, entry.start < given.start → entry.stop ≠ given.stop) :
    set.primary = given := by
  obtain ⟨⟨hmem, hcovers⟩, hbefore⟩ := primary_before h hfirst
  have hends := Selection.covers_iff.mp hcovers
  obtain heq | ⟨hstop, hne⟩ := hbefore given hgiven (Selection.covers_self given)
  · exact heq
  · have hproper := h.start_le_stop given hgiven
    rcases Nat.lt_or_ge set.primary.start given.start with hlt | hge
    · exact (hapart _ hmem hlt (by omega)).elim
    · refine (hne ?_).elim
      rw [Selection.mk.injEq]
      omega

theorem primaryFrom_of_first (h : Selection.Separate set.all) (hproper : given.start ≤ given.stop)
    (hholds : given.start = given.stop → Selection.Holds set.all given)
    (hfirst : set.all.findIdx? (·.covers given) = some set.primaryIndex) :
    set.PrimaryFrom given := by
  refine ⟨⟨fun hkeeps hgiven entry hentry hstart hstop ↦ ?_, fun hapart ↦ ⟨fun hgiven ↦ ?_, ?_⟩⟩,
    fun _ entry ↦ displaced_of_first h hproper hfirst⟩
  · have hentry := displaced_of_first h hproper hfirst hentry hstart hstop
    rw [← hentry, hkeeps.kept hgiven] at hstart
    exact Nat.lt_irrefl _ hstart
  · exact kept_of_first h hfirst hgiven (hapart hgiven)
  · exact merged_of_first h hproper hholds hfirst

end First

theorem primaryFrom_ofList {selections : List Selection} {index : Nat}
    (h : ∀ s ∈ selections, s.start ≤ s.stop) (hindex : index < selections.length) :
    (ofList selections index).PrimaryFrom selections[index] := by
  have hmem := List.getElem_mem hindex
  cases selections with
  | nil => nomatch hindex
  | cons first rest =>
    have hfirst := primaryIndex_ofList index h
    rw [← List.getElem_eq_getD (h := hindex)] at hfirst
    exact primaryFrom_of_first (Selection.normalize_separate h) (h _ hmem)
      (Selection.normalize_holds h hmem) hfirst

/-- What a set is built from may change its selections one by one. -/
theorem primaryFrom_ofList_map {set : SelectionSet} {f : Selection → Selection}
    (h : ∀ s, (f s).start ≤ (f s).stop) (hindex : set.primaryIndex < set.all.length) :
    (ofList (set.all.map f) set.primaryIndex).PrimaryFrom (f set.primary) := by
  have hproper : ∀ s ∈ set.all.map f, s.start ≤ s.stop := by
    intro s hs
    obtain ⟨selection, -, rfl⟩ := List.mem_map.mp hs
    exact h selection
  have hprimary := primaryFrom_ofList hproper (by rwa [List.length_map])
  rwa [List.getElem_map, ← primary_eq_getElem hindex] at hprimary

theorem primaryFrom_clamp {set : SelectionSet} (hindex : set.primaryIndex < set.all.length)
    (length : Nat) : (set.clamp length).PrimaryFrom (set.primary.clamp length) := by
  refine primaryFrom_ofList_map (fun s ↦ ?_) hindex
  simp only [Selection.clamp, Selection.between]
  omega

theorem exists_primaryFrom_map {set mapped : SelectionSet} {edit : Edit}
    (hindex : set.primaryIndex < set.all.length) (hmapped : set.map edit = .ok mapped) :
    ∃ given, set.primary.map edit = .ok given ∧ mapped.PrimaryFrom given := by
  obtain ⟨selections, hselections, -⟩ := Fault.bind_eq_ok.mp hmapped
  have hmem : set.primary ∈ set.all := primary_eq_getElem hindex ▸ List.getElem_mem hindex
  obtain ⟨given, hgiven⟩ := Fault.exists_of_mapM_eq_ok hselections set.primary hmem
  refine ⟨given, hgiven, ?_⟩
  rw [eq_carry_of_map hmapped, Selection.eq_of_map_eq_ok hgiven]
  exact primaryFrom_ofList_map (fun s ↦ Nat.le_max_right _ _) hindex

/-- The selection that is given as the primary one of a set is swapped for another one only if it is
a caret at the end of a range of the set. That range takes its place. The same goes for the primary
selection of the set when the set is clamped or carried across an edit. -/
theorem primary_displaced_by_range {selections : List Selection} {index : Nat}
    (h : ∀ s ∈ selections, s.start ≤ s.stop) (hindex : index < selections.length) :
    let set := ofList selections index
    set.PrimaryFrom selections[index] ∧
      (∀ length, (set.clamp length).PrimaryFrom (set.primary.clamp length)) ∧
      ∀ edit mapped, set.map edit = .ok mapped →
        ∃ given, set.primary.map edit = .ok given ∧ mapped.PrimaryFrom given := by
  intro set
  obtain ⟨length, hsettled⟩ := exists_settled_ofList index h
  have hlt := hsettled.ordered.primaryIndex_lt
  exact ⟨primaryFrom_ofList h hindex, primaryFrom_clamp hlt,
    fun edit mapped ↦ exists_primaryFrom_map hlt⟩

/-- A caret behind a range is the primary selection until an edit deletes what stands between them.
Then both are still there, and the range is the primary one. A selection that is joined to another
one hands over to what they become. -/
theorem primary_displaced_by_range_after_edit :
    let set := ofList [⟨5, 5⟩, ⟨0, 3⟩] 0
    set.primary = ⟨5, 5⟩ ∧
      (∃ mapped, set.map ⟨3, 2, 0⟩ = .ok mapped ∧ mapped.all = [⟨0, 3⟩, ⟨3, 3⟩] ∧
        mapped.primary = ⟨0, 3⟩) ∧
      (ofList [⟨0, 4⟩, ⟨7, 7⟩, ⟨3, 6⟩] 2).primary = ⟨0, 6⟩ := by
  intro set
  obtain ⟨hapart, -, hedit⟩ :=
    @primary_displaced_by_range [⟨5, 5⟩, ⟨0, 3⟩] 0 (by decide) (by decide)
  obtain ⟨hjoined, -⟩ :=
    @primary_displaced_by_range [⟨0, 4⟩, ⟨7, 7⟩, ⟨3, 6⟩] 2 (by decide) (by decide)
  have hall : set.all = [⟨0, 3⟩, ⟨5, 5⟩] :=
    @Selection.normalize_of_perm _ ⟨0, 3⟩ [⟨5, 5⟩] (by decide) (by decide)
  have hjoinedAll : (ofList [⟨0, 4⟩, ⟨7, 7⟩, ⟨3, 6⟩] 2).all = [⟨0, 6⟩, ⟨7, 7⟩] :=
    @Selection.normalize_of_perm _ ⟨0, 4⟩ [⟨3, 6⟩, ⟨7, 7⟩] (by decide) (by decide)
  have hmapped : set.map ⟨3, 2, 0⟩ = .ok (set.carry ⟨3, 2, 0⟩) := by
    rw [map, carry, hall]
    rfl
  have hmappedAll : (set.carry ⟨3, 2, 0⟩).all = [⟨0, 3⟩, ⟨3, 3⟩] := by
    rw [carry, hall]
    exact @Selection.normalize_of_perm _ ⟨0, 3⟩ [⟨3, 3⟩] (by decide) (by decide)
  have hprimary : set.primary = ⟨5, 5⟩ := by
    change set.PrimaryFrom ⟨5, 5⟩ at hapart
    refine (hapart.keeps_iff.mpr fun _ ↦ ?_).kept ?_
    · rw [hall]
      decide
    · rw [hall]
      decide
  obtain ⟨given, hgiven, hfrom⟩ := hedit _ _ hmapped
  obtain rfl : given = ⟨3, 3⟩ := by
    change set.primary.map _ = _ at hgiven
    rw [hprimary] at hgiven
    exact (Except.ok.inj hgiven).symm
  refine ⟨hprimary, ⟨_, hmapped, hmappedAll, ?_⟩, ?_⟩
  · refine hfrom.displaced ?_ ⟨0, 3⟩ ?_ (by decide) (by decide)
    · rw [hmappedAll]
      decide
    · rw [hmappedAll]
      decide
  · have hgone : (⟨3, 6⟩ : Selection) ∉ (ofList [⟨0, 4⟩, ⟨7, 7⟩, ⟨3, 6⟩] 2).all := by
      rw [hjoinedAll]
      decide
    have hmerged := (hjoined.keeps_iff.mpr fun hgiven ↦ (hgone hgiven).elim).merged hgone
    refine (hmerged.2.2 ⟨0, 6⟩ ?_ (by decide)).symm
    rw [hjoinedAll]
    decide

/-- A caret that is given as the primary selection is in the set, but the range before it is the
primary one. -/
theorem caret_at_range_not_primary :
    let set := ofList [⟨0, 3⟩, ⟨3, 3⟩] 1
    set.all = [⟨0, 3⟩, ⟨3, 3⟩] ∧ set.primary = ⟨0, 3⟩ ∧ set.primary ≠ ⟨3, 3⟩ := by
  have hnormal : Selection.normalize [⟨0, 3⟩, ⟨3, 3⟩] = [⟨0, 3⟩, ⟨3, 3⟩] :=
    @Selection.normalize_of_perm _ ⟨0, 3⟩ [⟨3, 3⟩] (by decide) (by decide)
  have hset : ofList [⟨0, 3⟩, ⟨3, 3⟩] 1 = ⟨[⟨0, 3⟩, ⟨3, 3⟩], 0⟩ := by
    simp only [ofList, hnormal]
    rfl
  rw [hset]
  decide

end SelectionSet

end CodeEditor
