import CodeEditor.Proofs.Decoration.Painting
import CodeEditor.Proofs.Text.Offsets

/-!
# Decorations carried across an edit

A decoration follows its text: after an edit it covers those of its characters that are left, and no
other characters of the text before. It is kept if there is one left, or if it never had any. Of the
decorations whose characters are all deleted, only those are kept that begin with the edit and have
something inserted in their place. Carrying stops only at an offset that no edit of 64 bits can map.
-/

namespace CodeEditor

namespace Edit

/-- The edit takes the offset to one below the bound, without leaving the range on its way. -/
def Maps (edit : Edit) (offset : Nat) : Prop :=
  offset ≤ edit.start ∨
    edit.start + edit.deleted < Offset.bound ∧ edit.carry offset < Offset.bound
  deriving Decidable

theorem mapOffset_of_maps {edit : Edit} {offset : Nat} (h : edit.Maps offset) :
    edit.mapOffset offset = .ok (edit.carry offset) :=
  (edit.mapOffset_eq offset).trans (if_pos h)

theorem mapOffset_of_not_maps {edit : Edit} {offset : Nat} (h : ¬edit.Maps offset) :
    edit.mapOffset offset = .error .overflow :=
  (edit.mapOffset_eq offset).trans (if_neg h)

end Edit

namespace Decoration

variable {edit : Edit} {decoration : Decoration} {length offset : Nat}

/-- Both ends of the decoration can be mapped. -/
def Maps (edit : Edit) (decoration : Decoration) : Prop :=
  edit.Maps decoration.start ∧ edit.Maps decoration.stop
  deriving Decidable

theorem map?_of_maps (h : decoration.Maps edit) :
    decoration.map? edit = .ok (decoration.carry? edit) := by
  unfold map? Edit.mapRange
  rw [Edit.mapOffset_of_maps h.1, Edit.mapOffset_of_maps h.2]
  rfl

theorem map?_of_not_maps (h : ¬decoration.Maps edit) :
    decoration.map? edit = .error .overflow := by
  unfold map? Edit.mapRange
  by_cases hstart : edit.Maps decoration.start
  · have hstop : ¬edit.Maps decoration.stop := fun hstop ↦ h ⟨hstart, hstop⟩
    rw [Edit.mapOffset_of_maps hstart, Edit.mapOffset_of_not_maps hstop]
    rfl
  · rw [Edit.mapOffset_of_not_maps hstart]
    rfl

/-! ## What is kept -/

/-- A point stays a point. -/
theorem carry?_of_le (h : decoration.stop ≤ decoration.start) : decoration.carry? edit =
    some { decoration with
      start := edit.carry decoration.start, stop := edit.carry decoration.start } := by
  unfold carry? isPoint
  dsimp only
  rw [Nat.max_eq_right (edit.carry_mono h), if_pos (by simp [h])]

theorem carry?_of_lt (h : decoration.start < decoration.stop) : decoration.carry? edit =
    if edit.carry decoration.start < edit.carry decoration.stop then
      some { decoration with
        start := edit.carry decoration.start, stop := edit.carry decoration.stop }
    else none := by
  unfold carry? isPoint
  dsimp only
  rw [Nat.max_eq_left (edit.carry_mono (Nat.le_of_lt h)), decide_eq_false (Nat.not_le.mpr h),
    Bool.or_false]
  simp only [decide_eq_true_eq]

/-- What is left of the decoration behind the edit, in a text that had this length before: nothing
but its ends changes; a point is kept; and if some character that it covers survives, it covers of
the characters that survive exactly those that it covered before. -/
structure Follows (edit : Edit) (length : Nat) (decoration : Decoration)
    (left : Option Decoration) : Prop where
  same : ∀ kept ∈ left, kept.kind = decoration.kind ∧ kept.tooltip = decoration.tooltip
  point : decoration.stop ≤ decoration.start → left ≠ none
  survivor : decoration.start < decoration.stop → decoration.stop ≤ length →
    ∀ offset, decoration.covers offset → edit.Survives offset →
      ∃ kept, left = some kept ∧ kept.start < kept.stop ∧
        kept.stop ≤ length - edit.deleted + edit.inserted ∧
        ∀ other, edit.Survives other → (kept.covers (edit.moved other) ↔ decoration.covers other)

theorem carry?_of_survives (hcovers : decoration.covers offset) (h : edit.Survives offset) :
    edit.carry decoration.start < edit.carry decoration.stop ∧
      decoration.carry? edit = some { decoration with
        start := edit.carry decoration.start, stop := edit.carry decoration.stop } := by
  obtain ⟨hstart, hstop⟩ := covers_iff.mp hcovers
  have hlt : edit.carry decoration.start < edit.carry decoration.stop := calc
    _ ≤ edit.moved offset := (Edit.carry_le_moved_iff h _).mpr hstart
    _ < edit.carry decoration.stop :=
      Nat.lt_of_not_le ((Edit.carry_le_moved_iff h _).not.mpr (Nat.not_le.mpr hstop))
  rw [carry?_of_lt (Nat.lt_of_le_of_lt hstart hstop), if_pos hlt]
  exact ⟨hlt, rfl⟩

theorem follows_carry? (hfits : edit.Fits length) (decoration : Decoration) :
    decoration.Follows edit length (decoration.carry? edit) where
  same _ hkept := same_of_carry? hkept
  point h := by
    rw [carry?_of_le h]
    exact Option.some_ne_none _
  survivor _ hlength offset hcovers hsurvives := by
    obtain ⟨hlt, hcarried⟩ := carry?_of_survives hcovers hsurvives
    refine ⟨_, hcarried, hlt, Edit.carry_le hfits hlength, fun other hother ↦ ?_⟩
    rw [covers_iff, covers_iff, Edit.carry_le_moved_iff hother, ← Nat.not_le,
      Edit.carry_le_moved_iff hother, Nat.not_le]

/-- A decoration whose characters are all deleted is kept only if it begins with the edit, and then
it covers what is inserted. -/
theorem carry?_of_deleted (hnonempty : decoration.start < decoration.stop)
    (hstart : edit.start ≤ decoration.start)
    (hstop : decoration.stop ≤ edit.start + edit.deleted) : decoration.carry? edit =
      if decoration.start = edit.start ∧ 0 < edit.inserted then
        some { decoration with stop := edit.start + edit.inserted }
      else none := by
  have hright : edit.carry decoration.stop = edit.start + edit.inserted := by
    unfold Edit.carry
    rw [if_neg (by omega)]
    split <;> omega
  rw [carry?_of_lt hnonempty, hright]
  by_cases hbegins : decoration.start = edit.start
  · have hleft : edit.carry decoration.start = decoration.start := if_pos (by omega)
    rw [hleft]
    simp only [hbegins, true_and, Nat.lt_add_right_iff_pos]
  · have hleft : edit.carry decoration.start = edit.start + edit.inserted := by
      unfold Edit.carry
      rw [if_neg (by omega), if_neg (by omega)]
    rw [hleft, if_neg (Nat.lt_irrefl _), if_neg (fun h ↦ hbegins h.1)]

end Decoration

namespace Layers

variable {layers : Layers} {edit : Edit} {length id : Nat}

/-! ## Which edits can be applied -/

/-- Every decoration can be carried. -/
def Maps (edit : Edit) (layers : Layers) : Prop :=
  ∀ decoration ∈ layers.decorations, decoration.Maps edit
  deriving Decidable

theorem applyEdit_of_maps (h : layers.Maps edit) :
    layers.applyEdit edit = .ok (layers.carry edit) :=
  applyEdit_of_map? fun decoration hdecoration ↦ Decoration.map?_of_maps (h decoration hdecoration)

theorem applyEdit_cases (layers : Layers) (edit : Edit) :
    layers.applyEdit edit = .error .overflow ∨ ∃ edited, layers.applyEdit edit = .ok edited := by
  have hdecoration (decoration : Decoration) : decoration.map? edit = .error .overflow ∨
      ∃ mapped, decoration.map? edit = .ok mapped := by
    by_cases h : decoration.Maps edit
    · exact Or.inr ⟨_, Decoration.map?_of_maps h⟩
    · exact Or.inl (Decoration.map?_of_not_maps h)
  have hentry (entry : Nat × List Decoration) :=
    Fault.bind_cases (Fault.mapM_cases hdecoration entry.2)
      (f := fun kept ↦ .ok (entry.1, kept.filterMap id)) fun _ ↦ Or.inr ⟨_, rfl⟩
  exact Fault.bind_cases (Fault.mapM_cases hentry layers.entries) fun _ ↦ Or.inr ⟨_, rfl⟩

/-- A single end that cannot be mapped stops the edit. -/
theorem applyEdit_of_not_maps (h : ¬layers.Maps edit) :
    layers.applyEdit edit = .error .overflow := by
  refine (applyEdit_cases layers edit).resolve_right fun ⟨edited, hedited⟩ ↦ h ?_
  obtain ⟨entries, hentries, -⟩ := Fault.bind_eq_ok.mp hedited
  intro decoration hdecoration
  obtain ⟨entry, hentry, hdecoration⟩ := List.mem_flatMap.mp hdecoration
  obtain ⟨mapped, hmapped⟩ := Fault.exists_of_mapM_eq_ok hentries entry hentry
  obtain ⟨kept, hkept, -⟩ := Fault.bind_eq_ok.mp hmapped
  obtain ⟨left, hleft⟩ := Fault.exists_of_mapM_eq_ok hkept decoration hdecoration
  by_contra hmaps
  rw [Decoration.map?_of_not_maps hmaps] at hleft
  nomatch hleft

/-! ## Layer by layer -/

theorem carry_cons (edit : Edit) (first : Nat × List Decoration)
    (rest : List (Nat × List Decoration)) : carry edit ⟨first :: rest⟩ =
      if (first.2.filterMap (Decoration.carry? edit)).isEmpty then carry edit ⟨rest⟩
      else ⟨(first.1, first.2.filterMap (Decoration.carry? edit)) ::
        (carry edit ⟨rest⟩).entries⟩ := by
  unfold carry
  rw [List.map_cons, List.filter_cons]
  cases (first.2.filterMap (Decoration.carry? edit)).isEmpty <;> rfl

/-- Each layer holds what is kept of it, in the same order. -/
theorem layer_carry (h : layers.Ascending) (edit : Edit) (id : Nat) :
    (layers.carry edit).layer id = (layers.layer id).filterMap (Decoration.carry? edit) := by
  obtain ⟨entries⟩ := layers
  induction entries with
  | nil => rfl
  | cons first rest ih =>
    obtain ⟨hfirst, hrest⟩ := List.pairwise_cons.mp h
    rw [carry_cons]
    by_cases hid : id = first.1
    · subst hid
      rw [layer_cons_self]
      split
      · rename_i hempty
        -- The layers are in order, so no later one has the same number.
        have hnone : layer ⟨rest⟩ first.1 = [] := by
          by_contra hne
          exact Nat.lt_irrefl _ (hfirst _ (mem_ids_of_layer_ne_nil hne))
        rw [ih hrest, hnone, List.filterMap_nil, List.isEmpty_iff.mp hempty]
      · exact layer_cons_self _ _
    · rw [layer_cons_of_ne hid, ← ih hrest]
      split
      · rfl
      · exact layer_cons_of_ne hid

/-- If no layer is empty, the layers that there are are those with decorations. -/
theorem layer_ne_nil_of_mem_ids (h : ∀ entry ∈ layers.entries, entry.2 ≠ [])
    (hid : id ∈ layers.ids) : layers.layer id ≠ [] := by
  obtain ⟨entries⟩ := layers
  induction entries with
  | nil => nomatch hid
  | cons first rest ih =>
    by_cases hfirst : id = first.1
    · rw [hfirst, layer_cons_self]
      exact h first List.mem_cons_self
    · rw [layer_cons_of_ne hfirst]
      exact ih (fun entry hentry ↦ h entry (List.mem_cons_of_mem _ hentry))
        ((List.mem_cons.mp hid).resolve_left hfirst)

/-- No layer is left without decorations. -/
theorem ne_nil_of_mem_carry (layers : Layers) (edit : Edit) :
    ∀ entry ∈ (layers.carry edit).entries, entry.2 ≠ [] := by
  intro entry hentry hempty
  have hkept := (List.mem_filter.mp hentry).2
  rw [hempty] at hkept
  nomatch hkept

/-- A layer is there as long as something of it is kept. -/
theorem mem_ids_carry (h : layers.Ascending) (edit : Edit) (id : Nat) :
    id ∈ (layers.carry edit).ids ↔
      ∃ decoration ∈ layers.layer id, decoration.carry? edit ≠ none := by
  calc
    id ∈ (layers.carry edit).ids ↔ (layers.carry edit).layer id ≠ [] :=
      ⟨layer_ne_nil_of_mem_ids (layers.ne_nil_of_mem_carry edit), mem_ids_of_layer_ne_nil⟩
    _ ↔ ∃ decoration ∈ layers.layer id, decoration.carry? edit ≠ none := by
      rw [layer_carry h, ne_eq, List.filterMap_eq_nil_iff]
      push Not
      rfl

/-! ## Decorations follow their text -/

theorem replace_empty_eq (id : Nat) (decoration : Decoration) :
    empty.replace id [decoration] = ⟨[(id, [decoration])]⟩ :=
  congrArg (fun sorted ↦ Layers.mk [(id, sorted)]) (List.mergeSort_singleton decoration)

/-- Carrying decorations across an edit of their text gives a result unless an end of one of them
cannot be mapped. Then each layer holds what is left of its decorations in the same order, is there
as long as something is left, and every decoration follows its text. -/
theorem decorations_follow (hlayers : layers.Built)
    (hfits : edit.start + edit.deleted ≤ length) :
    (¬layers.Maps edit → layers.applyEdit edit = .error .overflow) ∧
    (layers.Maps edit → ∃ edited, layers.applyEdit edit = .ok edited ∧
      (∀ id, edited.layer id = (layers.layer id).filterMap (Decoration.carry? edit)) ∧
      (∀ id, id ∈ edited.ids ↔ ∃ decoration ∈ layers.layer id, decoration.carry? edit ≠ none) ∧
      ∀ decoration : Decoration, decoration.Follows edit length (decoration.carry? edit)) :=
  ⟨applyEdit_of_not_maps, fun hmaps ↦ ⟨layers.carry edit, applyEdit_of_maps hmaps,
    layer_carry hlayers.ascending edit, mem_ids_carry hlayers.ascending edit,
    Decoration.follows_carry? hfits⟩⟩

/-- The underline of "bcd" in "abcdef", of which "cde" is replaced by one character, comes to mark
"b" and that character. -/
theorem decorations_follow_replacement :
    let underline := Decoration.underline 1 4 .error (some "misspelt")
    ∃ edited, (empty.replace lint [underline]).applyEdit ⟨2, 3, 1⟩ = .ok edited ∧
      edited.layer lint = [.underline 1 3 .error (some "misspelt")] ∧
      lint ∈ edited.ids ∧ flash ∉ edited.ids := by
  intro underline
  have hlayers : (empty.replace lint [underline]).Built := Built.empty.replace lint [underline]
  obtain ⟨-, hedited⟩ := @decorations_follow _ ⟨2, 3, 1⟩ 6 hlayers (by decide)
  rw [replace_empty_eq] at hedited ⊢
  obtain ⟨edited, hedited, hlayer, hids, -⟩ := hedited (by decide)
  refine ⟨edited, hedited, hlayer lint, (hids lint).mpr ⟨underline, by decide, by decide⟩, ?_⟩
  rw [hids]
  decide

/-- An insertion as long as offsets reach deletes nothing, but a decoration behind it cannot be
carried. -/
theorem decorations_huge_insertion :
    let underline := Decoration.underline 0 1 .error none
    let edit : Edit := ⟨0, 0, Offset.bound - 1⟩
    (empty.replace lint [underline]).Built ∧ edit.start + edit.deleted ≤ 1 ∧
      (underline.covers 0 ∧ edit.Survives 0) ∧
      ¬∃ edited, (empty.replace lint [underline]).applyEdit edit = .ok edited := by
  intro underline edit
  refine ⟨Built.empty.replace lint [underline], by decide, ⟨by decide, Or.inr (by decide)⟩, ?_⟩
  rw [replace_empty_eq, applyEdit_of_not_maps (by decide)]
  rintro ⟨edited, hedited⟩
  nomatch hedited

/-! ## Decorations of deleted text -/

/-- Of the decorations whose characters are all deleted, those are dropped that do not begin with
the edit. One that does is dropped if nothing is inserted; otherwise it comes to cover exactly what
is inserted. -/
theorem decorations_deleted (hlayers : layers.Built) (edit : Edit) :
    (¬layers.Maps edit → layers.applyEdit edit = .error .overflow) ∧
    (layers.Maps edit → ∃ edited, layers.applyEdit edit = .ok edited ∧
      (∀ id, edited.layer id = (layers.layer id).filterMap (Decoration.carry? edit)) ∧
      ∀ decoration : Decoration, decoration.start < decoration.stop →
        edit.start ≤ decoration.start → decoration.stop ≤ edit.start + edit.deleted →
        decoration.carry? edit =
          if decoration.start = edit.start ∧ 0 < edit.inserted then
            some { decoration with stop := edit.start + edit.inserted }
          else none) :=
  ⟨applyEdit_of_not_maps, fun hmaps ↦ ⟨layers.carry edit, applyEdit_of_maps hmaps,
    layer_carry hlayers.ascending edit, fun _ ↦ Decoration.carry?_of_deleted⟩⟩

/-- Deleting "ab" drops its underline. If three characters replace it, they are underlined. -/
theorem decorations_deleted_replaced :
    let underline := Decoration.underline 0 2 .error none
    (∃ edited, (empty.replace lint [underline]).applyEdit ⟨0, 2, 0⟩ = .ok edited ∧
      edited.layer lint = []) ∧
    ∃ edited, (empty.replace lint [underline]).applyEdit ⟨0, 2, 3⟩ = .ok edited ∧
      edited.layer lint = [.underline 0 3 .error none] := by
  intro underline
  have hlayers : (empty.replace lint [underline]).Built := Built.empty.replace lint [underline]
  obtain ⟨-, hdeleted⟩ := decorations_deleted hlayers ⟨0, 2, 0⟩
  obtain ⟨-, hreplaced⟩ := decorations_deleted hlayers ⟨0, 2, 3⟩
  rw [replace_empty_eq] at hdeleted hreplaced ⊢
  have hlint : layer ⟨[(lint, [underline])]⟩ lint = [underline] := rfl
  constructor
  · obtain ⟨edited, hedited, hlayer, hleft⟩ := hdeleted (by decide)
    refine ⟨edited, hedited, ?_⟩
    rw [hlayer, hlint, List.filterMap_cons, hleft underline (by decide) (by decide) (by decide)]
    rfl
  · obtain ⟨edited, hedited, hlayer, hleft⟩ := hreplaced (by decide)
    refine ⟨edited, hedited, ?_⟩
    rw [hlayer, hlint, List.filterMap_cons, hleft underline (by decide) (by decide) (by decide)]
    rfl

/-- So a decoration can outlive all of its characters. -/
theorem decoration_outlives_replaced_text :
    let underline := Decoration.underline 0 2 .error none
    let edit : Edit := ⟨0, 2, 1⟩
    (∀ offset, underline.covers offset → ¬edit.Survives offset) ∧
      ∃ edited, (empty.replace lint [underline]).applyEdit edit = .ok edited ∧
        edited.layer lint = [.underline 0 1 .error none] := by
  intro underline edit
  refine ⟨fun offset hcovers hsurvives ↦ ?_, ?_⟩
  · obtain ⟨-, hstop⟩ := Decoration.covers_iff.mp hcovers
    have hleft : offset < 0 ∨ 0 + 2 ≤ offset := hsurvives
    have hright : offset < 2 := hstop
    omega
  · rw [replace_empty_eq, applyEdit_of_maps (by decide)]
    exact ⟨_, rfl, by decide⟩

end Layers

end CodeEditor
