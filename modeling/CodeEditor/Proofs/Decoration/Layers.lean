import CodeEditor.Decoration.Lint
import CodeEditor.Proofs.Text.Edit
import CodeEditor.Proofs.Text.LineIndex

/-!
# Decorations inside the text

Decorations lie in a text if each has its ends in order and ends inside. The layers fit a text if
their decorations lie in it and there are no others than those of lint messages and of jumps.
Clearing and replacing layers keeps this, carrying them across an edit takes them into the text
after the edit, and without these two layers there is nothing left that could lie outside. Clearing
or replacing one layer leaves the other layers as they are.
-/

namespace CodeEditor

/-- The ends of the decoration are in order and lie in a text of this length. -/
def Decoration.Within (length : Nat) (decoration : Decoration) : Prop :=
  decoration.start ≤ decoration.stop ∧ decoration.stop ≤ length

namespace Layers

/-- The layers that an editor uses. -/
def Known (id : Nat) : Prop := id = lint ∨ id = flash

structure Fits (layers : Layers) (length : Nat) : Prop where
  known : ∀ entry ∈ layers.entries, Known entry.1
  within : ∀ entry ∈ layers.entries, ∀ decoration ∈ entry.2, decoration.Within length

theorem fits_empty (length : Nat) : empty.Fits length :=
  ⟨fun _ h ↦ (nomatch h), fun _ h ↦ (nomatch h)⟩

theorem Fits.decorations_within {layers : Layers} {length : Nat} (h : layers.Fits length) :
    ∀ decoration ∈ layers.decorations, decoration.Within length := by
  intro decoration hdecoration
  obtain ⟨entry, hentry, hmem⟩ := List.mem_flatMap.mp hdecoration
  exact h.within entry hentry decoration hmem

theorem Fits.clear {layers : Layers} {length : Nat} (h : layers.Fits length) (id : Nat) :
    (layers.clear id).Fits length where
  known entry hentry := h.known entry (List.mem_filter.mp hentry).1
  within entry hentry := h.within entry (List.mem_filter.mp hentry).1

/-- Cleared of lint messages and jumps, the layers fit every text. -/
theorem Fits.clear_all {layers : Layers} {length : Nat} (h : layers.Fits length)
    (other : Nat) : ((layers.clear lint).clear flash).Fits other := by
  have hnone : ∀ entry, entry ∉ ((layers.clear lint).clear flash).entries := by
    intro entry hentry
    have hnotFlash := (List.mem_filter.mp hentry).2
    obtain ⟨hmem, hnotLint⟩ := List.mem_filter.mp (List.mem_filter.mp hentry).1
    rw [bne_iff_ne] at hnotFlash hnotLint
    rcases h.known entry hmem with hlint | hflash
    · exact hnotLint hlint
    · exact hnotFlash hflash
  exact ⟨fun entry h ↦ absurd h (hnone entry), fun entry h ↦ absurd h (hnone entry)⟩

theorem mem_insert {id : Nat} {decorations : List Decoration}
    {entries : List (Nat × List Decoration)} {entry : Nat × List Decoration}
    (h : entry ∈ insert id decorations entries) : entry = (id, decorations) ∨ entry ∈ entries := by
  induction entries with
  | nil => exact Or.inl (List.mem_singleton.mp h)
  | cons first rest ih =>
    unfold insert at h
    split at h
    · exact List.mem_cons.mp h
    · split at h
      · exact (List.mem_cons.mp h).imp_right (List.mem_cons_of_mem _)
      · rcases List.mem_cons.mp h with rfl | h
        · exact Or.inr List.mem_cons_self
        · exact (ih h).imp_right (List.mem_cons_of_mem _)

theorem Fits.replace {layers : Layers} {length id : Nat} (h : layers.Fits length)
    (hid : Known id) {decorations : List Decoration}
    (hnew : ∀ decoration ∈ decorations, decoration.Within length) :
    (layers.replace id decorations).Fits length := by
  unfold Layers.replace
  split
  · exact h.clear id
  · constructor
    · intro entry hentry
      rcases mem_insert hentry with rfl | hentry
      · exact hid
      · exact h.known entry hentry
    · intro entry hentry decoration hdecoration
      rcases mem_insert hentry with rfl | hentry
      · exact hnew decoration (List.mem_mergeSort.mp hdecoration)
      · exact h.within entry hentry decoration hdecoration

/-! ## Single layers -/

theorem lookup_cons_eq (entry : Nat × List Decoration) (rest : List (Nat × List Decoration))
    (id : Nat) :
    (entry :: rest).lookup id = if id = entry.1 then some entry.2 else rest.lookup id := by
  rw [List.lookup_cons]
  by_cases h : id = entry.1
  · simp [h]
  · rw [beq_eq_false_iff_ne.mpr h, if_neg h]

theorem layer_cons_of_ne {entry : Nat × List Decoration} {rest : List (Nat × List Decoration)}
    {id : Nat} (h : id ≠ entry.1) : layer ⟨entry :: rest⟩ id = layer ⟨rest⟩ id := by
  unfold layer
  dsimp only
  rw [lookup_cons_eq, if_neg h]

theorem layer_cons_self (entry : Nat × List Decoration) (rest : List (Nat × List Decoration)) :
    layer ⟨entry :: rest⟩ entry.1 = entry.2 := by
  unfold layer
  dsimp only
  rw [lookup_cons_eq, if_pos rfl]
  rfl

theorem layer_eq_nil_or_mem (layers : Layers) (id : Nat) :
    layers.layer id = [] ∨ (id, layers.layer id) ∈ layers.entries := by
  unfold layer
  cases hlookup : layers.entries.lookup id with
  | none => exact Or.inl rfl
  | some decorations =>
    obtain ⟨before, after, hentries, -⟩ := List.lookup_eq_some_iff.mp hlookup
    right
    rw [hentries]
    exact List.mem_append_right before List.mem_cons_self

theorem lookup_insert (id other : Nat) (decorations : List Decoration)
    (entries : List (Nat × List Decoration)) :
    (insert id decorations entries).lookup other =
      if other = id then some decorations else entries.lookup other := by
  induction entries with
  | nil => exact lookup_cons_eq _ _ _
  | cons first rest ih =>
    unfold insert
    split
    · exact lookup_cons_eq _ _ _
    · split
      · rename_i hsame
        rw [lookup_cons_eq, lookup_cons_eq, ← hsame]
        split <;> rfl
      · rename_i hne
        rw [lookup_cons_eq, lookup_cons_eq, ih]
        by_cases hother : other = id
        · rw [hother, if_neg hne, if_pos rfl, if_pos rfl]
        · rw [if_neg hother, if_neg hother]

theorem layer_clear (layers : Layers) (id other : Nat) :
    (layers.clear id).layer other = if other = id then [] else layers.layer other := by
  obtain ⟨entries⟩ := layers
  unfold clear layer
  induction entries with
  | nil => split <;> rfl
  | cons first rest ih =>
    dsimp only at ih ⊢
    by_cases hfirst : first.1 = id
    · rw [List.filter_cons_of_neg (by simpa using hfirst), ih, lookup_cons_eq, hfirst]
      split <;> rfl
    · rw [List.filter_cons_of_pos (by simpa using hfirst), lookup_cons_eq, lookup_cons_eq]
      by_cases hother : other = first.1
      · rw [if_pos hother, if_pos hother, if_neg (hother ▸ hfirst)]
      · rw [if_neg hother, if_neg hother, ih]

/-- A layer that was replaced holds the new decorations in order; the others stay. -/
theorem layer_replace (layers : Layers) (id other : Nat) (decorations : List Decoration) :
    (layers.replace id decorations).layer other =
      if other = id then decorations.mergeSort Decoration.precedes else layers.layer other := by
  unfold replace
  split
  · rename_i hempty
    rw [List.isEmpty_iff.mp hempty, layer_clear, List.mergeSort_nil]
  · unfold layer
    rw [lookup_insert]
    split <;> rfl

end Layers

/-! ## Across an edit -/

/-- The decoration carried across an edit, without bounds on offsets. -/
def Decoration.carry? (edit : Edit) (decoration : Decoration) : Option Decoration :=
  let start := edit.carry decoration.start
  let stop := max (edit.carry decoration.stop) start
  if start < stop || decoration.isPoint then some { decoration with start, stop } else none

theorem Decoration.eq_carry_of_map? {edit : Edit} {decoration : Decoration}
    {mapped : Option Decoration} (h : decoration.map? edit = .ok mapped) :
    mapped = decoration.carry? edit := by
  obtain ⟨range, hrange, h⟩ := Fault.bind_eq_ok.mp h
  rw [← Except.ok.inj h, Edit.eq_of_mapRange hrange]
  rfl

/-- Only the ends of a decoration change. -/
theorem Decoration.same_of_carry? {edit : Edit} {decoration kept : Decoration}
    (h : decoration.carry? edit = some kept) :
    kept.kind = decoration.kind ∧ kept.tooltip = decoration.tooltip := by
  unfold carry? at h
  dsimp only at h
  split at h
  · rw [← Option.some.inj h]
    exact ⟨rfl, rfl⟩
  · nomatch h

theorem Decoration.Within.carry {edit : Edit} {decoration carried : Decoration} {length : Nat}
    (hfits : edit.Fits length) (h : decoration.Within length)
    (hcarried : decoration.carry? edit = some carried) :
    carried.Within (edit.carryLength length) := by
  unfold Decoration.carry? at hcarried
  dsimp only at hcarried
  split at hcarried
  · rw [← Option.some.inj hcarried]
    have hstop := Edit.carry_le hfits h.2
    have hstart := Edit.carry_le hfits (Nat.le_trans h.1 h.2)
    exact ⟨Nat.le_max_right _ _, Nat.max_le.mpr ⟨hstop, hstart⟩⟩
  · nomatch hcarried

namespace Layers

/-- The layers carried across an edit, without bounds on offsets. -/
def carry (edit : Edit) (layers : Layers) : Layers :=
  ⟨(layers.entries.map fun entry ↦ (entry.1, entry.2.filterMap (Decoration.carry? edit))).filter
    (!·.2.isEmpty)⟩

theorem eq_carry_of_applyEdit {layers edited : Layers} {edit : Edit}
    (h : layers.applyEdit edit = .ok edited) : edited = layers.carry edit := by
  obtain ⟨entries, hentries, h⟩ := Fault.bind_eq_ok.mp h
  rw [← Except.ok.inj h, carry, Fault.eq_map_of_mapM_eq_ok _ hentries]
  intro entry mapped hmapped
  obtain ⟨kept, hkept, hmapped⟩ := Fault.bind_eq_ok.mp hmapped
  rw [← Except.ok.inj hmapped, Fault.eq_map_of_mapM_eq_ok
    (fun decoration _ ↦ Decoration.eq_carry_of_map?) hkept, List.filterMap_map]
  rfl

/-- If every decoration can be carried, so can the layers. -/
theorem applyEdit_of_map? {layers : Layers} {edit : Edit}
    (h : ∀ decoration ∈ layers.decorations,
      decoration.map? edit = .ok (decoration.carry? edit)) :
    layers.applyEdit edit = .ok (layers.carry edit) := by
  unfold applyEdit
  rw [Fault.mapM_eq_ok (g := fun entry ↦ (entry.1, entry.2.filterMap (Decoration.carry? edit)))]
  · rfl
  · intro entry hentry
    dsimp only
    rw [Fault.mapM_eq_ok (g := Decoration.carry? edit)]
    · change Except.ok _ = _
      rw [List.filterMap_map]
      rfl
    · intro decoration hdecoration
      exact h decoration (List.mem_flatMap.mpr ⟨entry, hentry, hdecoration⟩)

theorem applyEdit_eq_carry {layers : Layers} {edit : Edit} {length : Nat}
    (h : layers.Fits length) (hfits : edit.Fits length) (hlength : length < Offset.bound)
    (hnew : edit.carryLength length < Offset.bound) :
    layers.applyEdit edit = .ok (layers.carry edit) := by
  refine applyEdit_of_map? fun decoration hdecoration ↦ ?_
  have hwithin := h.decorations_within decoration hdecoration
  unfold Decoration.map?
  rw [Edit.mapRange_eq_carry hfits hlength hnew (Nat.le_trans hwithin.1 hwithin.2) hwithin.2]
  rfl

theorem Fits.carry {layers : Layers} {edit : Edit} {length : Nat} (h : layers.Fits length)
    (hfits : edit.Fits length) : (layers.carry edit).Fits (edit.carryLength length) := by
  constructor
  · intro entry hentry
    obtain ⟨old, hold, rfl⟩ := List.mem_map.mp (List.mem_filter.mp hentry).1
    exact h.known old hold
  · intro entry hentry decoration hdecoration
    obtain ⟨old, hold, rfl⟩ := List.mem_map.mp (List.mem_filter.mp hentry).1
    obtain ⟨before, hbefore, hcarried⟩ := List.mem_filterMap.mp hdecoration
    exact (h.within old hold before hbefore).carry hfits hcarried

end Layers

/-! ## The order of the layers -/

namespace Layers

/-- The layers that there are: every way of changing layers begins with none. -/
inductive Built : Layers → Prop where
  | empty : Built .empty
  | replace {layers : Layers} (h : Built layers) (id : Nat) (decorations : List Decoration) :
    Built (layers.replace id decorations)
  | clear {layers : Layers} (h : Built layers) (id : Nat) : Built (layers.clear id)
  | applyEdit {layers edited : Layers} {edit : Edit} (h : Built layers)
    (hedited : layers.applyEdit edit = .ok edited) : Built edited

/-- The numbers of the layers that hold decorations. -/
def ids (layers : Layers) : List Nat := layers.entries.map (·.1)

/-- The layers are in ascending order. -/
def Ascending (layers : Layers) : Prop := layers.ids.Pairwise (· < ·)

theorem pairwise_insert {id : Nat} {decorations : List Decoration}
    {entries : List (Nat × List Decoration)} (h : (entries.map (·.1)).Pairwise (· < ·)) :
    ((insert id decorations entries).map (·.1)).Pairwise (· < ·) := by
  induction entries with
  | nil => exact List.pairwise_singleton _ _
  | cons first rest ih =>
    obtain ⟨hfirst, hrest⟩ := List.pairwise_cons.mp h
    unfold insert
    split
    · rename_i hbefore
      refine List.pairwise_cons.mpr ⟨fun other hother ↦ ?_, h⟩
      rcases List.mem_cons.mp hother with rfl | hother
      · exact hbefore
      · exact Nat.lt_trans hbefore (hfirst other hother)
    · split
      · rename_i hsame
        exact List.pairwise_cons.mpr ⟨hsame ▸ hfirst, hrest⟩
      · refine List.pairwise_cons.mpr ⟨fun other hother ↦ ?_, ih hrest⟩
        obtain ⟨entry, hentry, rfl⟩ := List.mem_map.mp hother
        rcases mem_insert hentry with rfl | hentry
        · dsimp only
          omega
        · exact hfirst entry.1 (List.mem_map_of_mem hentry)

theorem Built.ascending {layers : Layers} (h : layers.Built) : layers.Ascending := by
  induction h with
  | empty => exact List.Pairwise.nil
  | replace h id decorations ih =>
    unfold Layers.replace
    split
    · exact List.Pairwise.sublist (List.filter_sublist.map _) ih
    · exact pairwise_insert ih
  | clear h id ih => exact List.Pairwise.sublist (List.filter_sublist.map _) ih
  | applyEdit h hedited ih =>
    rw [eq_carry_of_applyEdit hedited]
    refine List.Pairwise.sublist ((List.filter_sublist.map Prod.fst).trans ?_) ih
    rw [List.map_map]
    exact List.Sublist.refl _

theorem mem_ids_of_layer_ne_nil {layers : Layers} {id : Nat} (h : layers.layer id ≠ []) :
    id ∈ layers.ids :=
  List.mem_map_of_mem ((layer_eq_nil_or_mem layers id).resolve_left h)

/-- The decorations of layers in order are those of one layer after the other. -/
theorem Ascending.decorations_eq {layers : Layers} (h : layers.Ascending) :
    layers.decorations = layers.ids.flatMap layers.layer := by
  obtain ⟨entries⟩ := layers
  induction entries with
  | nil => rfl
  | cons first rest ih =>
    obtain ⟨hfirst, hrest⟩ := List.pairwise_cons.mp h
    have hothers : ∀ id ∈ ids ⟨rest⟩, layer ⟨first :: rest⟩ id = layer ⟨rest⟩ id :=
      fun id hid ↦ layer_cons_of_ne (Nat.ne_of_gt (hfirst id hid))
    change first.2 ++ decorations ⟨rest⟩ = _
    rw [ih hrest]
    change _ = layer _ first.1 ++ (ids ⟨rest⟩).flatMap _
    rw [layer_cons_self, List.flatMap_def, List.flatMap_def, List.map_congr_left hothers]

/-- Without other layers, the decorations are those of the one layer. -/
theorem Ascending.decorations_of_only {layers : Layers} (h : layers.Ascending) {id : Nat}
    (honly : ∀ other, other ≠ id → layers.layer other = []) :
    layers.decorations = layers.layer id := by
  have hflat : ∀ ids : List Nat, ids.Pairwise (· < ·) →
      ids.flatMap layers.layer = if id ∈ ids then layers.layer id else [] := by
    intro ids hids
    induction ids with
    | nil => rfl
    | cons first rest ih =>
      obtain ⟨hfirst, hrest⟩ := List.pairwise_cons.mp hids
      rw [List.flatMap_cons, ih hrest]
      by_cases hsame : first = id
      · have hnot : id ∉ rest := fun hmem ↦ Nat.lt_irrefl _ (hsame ▸ hfirst id hmem)
        rw [hsame, if_neg hnot, if_pos List.mem_cons_self, List.append_nil]
      · rw [honly first hsame, List.nil_append]
        simp only [List.mem_cons, Ne.symm hsame, false_or]
  rw [h.decorations_eq, hflat layers.ids h]
  split
  · rfl
  · rename_i hmem
    by_contra hne
    exact hmem (mem_ids_of_layer_ne_nil (Ne.symm hne))

end Layers

/-! ## Lint underlines -/

theorem Lint.decorations_within {lines : LineIndex} (h : lines.Ordered)
    (messages : List LintMessage) :
    ∀ decoration ∈ decorations lines messages, decoration.Within lines.length := by
  intro decoration hdecoration
  obtain ⟨message, -, hunderline⟩ := List.mem_filterMap.mp (List.mem_mergeSort.mp hdecoration)
  unfold underline? at hunderline
  split at hunderline
  · nomatch hunderline
  · obtain ⟨range, hrange, rfl⟩ := Option.map_eq_some_iff.mp hunderline
    exact h.range_le hrange

end CodeEditor
