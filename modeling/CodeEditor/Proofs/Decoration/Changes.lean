import CodeEditor.Proofs.Decoration.Order

/-!
# Layers under changes

Layers come about by replacing and clearing single layers and by carrying all of them across edits.
However they do, no layer is stored without decorations, and each holds what is left of the
decorations last put in it, which were sorted then and have been carried since. So its starts are in
order, and its decorations are sorted exactly if the edits since have inverted none of them.
-/

namespace CodeEditor

namespace Layers

variable {layers edited changed : Layers} {edit : Edit}

/-! ## Stored layers -/

theorem Built.ne_nil_of_mem (h : layers.Built) : ∀ entry ∈ layers.entries, entry.2 ≠ [] := by
  induction h with
  | empty => nofun
  | replace h id decorations ih =>
    unfold Layers.replace
    split
    · exact fun entry hentry ↦ ih entry (List.mem_filter.mp hentry).1
    · rename_i hnonempty
      intro entry hentry
      obtain rfl | hold := mem_insert hentry
      · intro hsorted
        have hperm := List.mergeSort_perm decorations Decoration.precedes
        rw [show decorations.mergeSort Decoration.precedes = [] from hsorted] at hperm
        exact hnonempty (List.isEmpty_iff.mpr (List.nil_perm.mp hperm))
      · exact ih entry hold
  | clear h id ih => exact fun entry hentry ↦ ih entry (List.mem_filter.mp hentry).1
  | applyEdit h hedited ih =>
    rw [eq_carry_of_applyEdit hedited]
    exact ne_nil_of_mem_carry _ _

theorem Ascending.layer_of_mem {entry : Nat × List Decoration} (h : layers.Ascending)
    (hentry : entry ∈ layers.entries) : layers.layer entry.1 = entry.2 := by
  obtain ⟨before, after, hsplit⟩ := List.append_of_mem hentry
  unfold Ascending ids at h
  rw [hsplit, List.map_append, List.pairwise_append] at h
  have hbefore : ∀ other ∈ before, (entry.1 != other.1) = true := by
    intro other hother
    have hlt := h.2.2 other.1 (List.mem_map_of_mem hother) entry.1 List.mem_cons_self
    exact bne_iff_ne.mpr (Nat.ne_of_gt hlt)
  unfold layer
  rw [List.lookup_eq_some_iff.mpr ⟨before, after, hsplit, hbefore⟩]
  rfl

/-- What holds of no decorations holds of all layers behind an edit exactly if it holds of what is
kept of each. -/
theorem forall_mem_carry {P : List Decoration → Prop} (hnil : P []) :
    (∀ entry ∈ (layers.carry edit).entries, P entry.2) ↔
      ∀ entry ∈ layers.entries, P (entry.2.filterMap (Decoration.carry? edit)) := by
  constructor
  · intro h entry hentry
    by_cases hempty : entry.2.filterMap (Decoration.carry? edit) = []
    · rwa [hempty]
    · exact h (entry.1, _) (List.mem_filter.mpr ⟨List.mem_map_of_mem hentry, by simpa using hempty⟩)
  · intro h entry hentry
    obtain ⟨old, hold, rfl⟩ := List.mem_map.mp (List.mem_filter.mp hentry).1
    exact h old hold

/-- An edit of sorted layers leaves all of them sorted unless it deletes, of two decorations one
inside the other, just the beginnings. -/
theorem applyEdit_sorted_iff (hsorted : ∀ entry ∈ layers.entries, Decoration.Sorted entry.2)
    (hproper : ∀ entry ∈ layers.entries, ∀ decoration ∈ entry.2,
      decoration.start ≤ decoration.stop)
    (hedited : layers.applyEdit edit = .ok edited) :
    (∀ entry ∈ edited.entries, Decoration.Sorted entry.2) ↔
      ∀ entry ∈ layers.entries, ∀ outer ∈ entry.2, ∀ inner ∈ entry.2, outer.Encloses inner →
        ¬(edit.Joins outer.start inner.start ∧ edit.start + edit.deleted < outer.stop ∧
          (inner.stop ≤ inner.start ∨ edit.start + edit.deleted < inner.stop)) := by
  obtain rfl := eq_carry_of_applyEdit hedited
  rw [forall_mem_carry (P := Decoration.Sorted) List.Pairwise.nil, ← Decoration.carryAll?_singleton]
  refine forall₂_congr fun entry hentry ↦ ?_
  rw [(hsorted entry hentry).carryAll_iff (hproper entry hentry)]
  refine forall₂_congr fun outer houter ↦ forall₂_congr fun inner hinner ↦ ?_
  rw [Decoration.inverts_edit_iff (hproper entry hentry inner hinner), not_and]

/-! ## Changes -/

inductive Change where
  | replace (id : Nat) (decorations : List Decoration)
  | clear (id : Nat)
  | applyEdit (edit : Edit)
  deriving DecidableEq, Repr

/-- The decorations that are put in a layer have their ends in order. -/
def Change.Proper : Change → Prop
  | replace _ decorations => ∀ decoration ∈ decorations, decoration.start ≤ decoration.stop
  | _ => True

instance : DecidablePred Change.Proper
  | .replace _ decorations =>
    inferInstanceAs (Decidable (∀ decoration ∈ decorations, decoration.start ≤ decoration.stop))
  | .clear _ => .isTrue trivial
  | .applyEdit _ => .isTrue trivial

/-- Of the decorations that are put in a layer, none lies inside another one. -/
def Change.Flat : Change → Prop
  | replace _ decorations =>
    ∀ outer ∈ decorations, ∀ inner ∈ decorations, ¬outer.Encloses inner
  | _ => True

def perform (layers : Layers) : Change → Except Fault Layers
  | .replace id decorations => .ok (layers.replace id decorations)
  | .clear id => .ok (layers.clear id)
  | .applyEdit edit => layers.applyEdit edit

/-- Makes changes in order, at first without any layers. -/
def run (changes : List Change) : Except Fault Layers := changes.foldlM perform empty

/-- The changes lead to an edit that cannot be applied. -/
def Stops (changes : List Change) : Prop :=
  ∃ before edit after layers, changes = before ++ .applyEdit edit :: after ∧
    run before = .ok layers ∧ ¬layers.Maps edit

variable {changes : List Change} {change : Change}

theorem run_concat (changes : List Change) (change : Change) :
    run (changes ++ [change]) = run changes >>= (perform · change) := by
  unfold run
  rw [List.foldlM_append]
  simp only [List.foldlM_cons, List.foldlM_nil, bind_pure]

/-- Decorations that are in order already are put in their layer as they are. -/
theorem run_replace_of_sorted (id : Nat) {decorations : List Decoration}
    (hsorted : Decoration.Sorted decorations) (hnonempty : decorations ≠ [])
    (rest : List Change) :
    run (.replace id decorations :: rest) = rest.foldlM perform ⟨[(id, decorations)]⟩ := by
  have hput : empty.replace id decorations = ⟨[(id, decorations)]⟩ := by
    unfold replace
    rw [if_neg (List.isEmpty_iff.not.mpr hnonempty), hsorted.mergeSort_eq]
    rfl
  rw [← hput]
  rfl

theorem run_of_stops (h : Stops changes) : run changes = .error .overflow := by
  obtain ⟨before, edit, after, layers, rfl, hrun, hmaps⟩ := h
  unfold run at hrun ⊢
  rw [List.foldlM_append, hrun]
  change layers.applyEdit edit >>= after.foldlM perform = _
  rw [applyEdit_of_not_maps hmaps]
  rfl

theorem not_stops_of_run (h : run changes = .ok layers) : ¬Stops changes := by
  intro hstops
  rw [run_of_stops hstops] at h
  nomatch h

theorem exists_run (h : ¬Stops changes) : ∃ layers, run changes = .ok layers := by
  induction changes using List.reverseRecOn with
  | nil => exact ⟨empty, rfl⟩
  | append_singleton before change ih =>
    have hbefore : ¬Stops before := by
      rintro ⟨first, edit, after, layers, rfl, hstop⟩
      exact h ⟨first, edit, after ++ [change], layers, by simp, hstop⟩
    obtain ⟨layers, hlayers⟩ := ih hbefore
    rw [run_concat, hlayers]
    cases change with
    | replace id decorations => exact ⟨_, rfl⟩
    | clear id => exact ⟨_, rfl⟩
    | applyEdit edit =>
      have hmaps : layers.Maps edit := by
        by_contra hnot
        exact h ⟨before, edit, [], layers, rfl, hlayers, hnot⟩
      exact ⟨_, applyEdit_of_maps hmaps⟩

/-! ## What a layer comes from -/

/-- What was last put in a layer, and the edits since. -/
structure Source where
  decorations : List Decoration
  edits : List Edit

namespace Source

def next (id : Nat) (source : Source) : Change → Source
  | .replace other decorations => if id = other then ⟨decorations, []⟩ else source
  | .clear other => if id = other then ⟨[], []⟩ else source
  | .applyEdit edit => ⟨source.decorations, source.edits ++ [edit]⟩

/-- What a layer holds of its source: it is sorted once and then carried. -/
def left (source : Source) : List Decoration :=
  (source.decorations.mergeSort Decoration.precedes).filterMap (Decoration.carryAll? source.edits)

theorem left_put (decorations : List Decoration) :
    left ⟨decorations, []⟩ = decorations.mergeSort Decoration.precedes := List.filterMap_some

theorem left_nothing : left ⟨[], []⟩ = [] := (left_put []).trans List.mergeSort_nil

theorem left_edit (source : Source) (edit : Edit) :
    left ⟨source.decorations, source.edits ++ [edit]⟩ =
      source.left.filterMap (Decoration.carry? edit) := by
  have hconcat : Decoration.carryAll? (source.edits ++ [edit]) = fun decoration ↦
      (decoration.carryAll? source.edits).bind (Decoration.carry? edit) := by
    funext decoration
    exact Decoration.carryAll?_concat source.edits edit decoration
  calc
    _ = (source.decorations.mergeSort Decoration.precedes).filterMap fun decoration ↦
        (decoration.carryAll? source.edits).bind (Decoration.carry? edit) := by
      rw [← hconcat]
      rfl
    _ = source.left.filterMap (Decoration.carry? edit) := List.filterMap_filterMap.symm

variable {source : Source}

theorem starts_left
    (h : ∀ decoration ∈ source.decorations, decoration.start ≤ decoration.stop) :
    source.left.Pairwise fun a b ↦ a.start ≤ b.start :=
  (Decoration.sorted_mergeSort _).starts_carryAll fun decoration hdecoration ↦
    h decoration (List.mem_mergeSort.mp hdecoration)

theorem sorted_left_iff
    (h : ∀ decoration ∈ source.decorations, decoration.start ≤ decoration.stop) :
    Decoration.Sorted source.left ↔ ∀ outer ∈ source.decorations, ∀ inner ∈ source.decorations,
      ¬Decoration.Inverts source.edits outer inner := by
  unfold left
  rw [(Decoration.sorted_mergeSort _).carryAll_iff fun decoration hdecoration ↦
    h decoration (List.mem_mergeSort.mp hdecoration)]
  simp only [List.mem_mergeSort]

end Source

/-- The source of a layer behind the changes. -/
def source (id : Nat) (changes : List Change) : Source :=
  changes.foldl (Source.next id) ⟨[], []⟩

theorem source_concat (id : Nat) (changes : List Change) (change : Change) :
    source id (changes ++ [change]) = (source id changes).next id change :=
  List.foldl_concat _ _ _ _

/-- What a layer comes from was put there by one of the changes, if it is anything. -/
theorem decorations_source (id : Nat) (changes : List Change) :
    (source id changes).decorations = [] ∨
      .replace id (source id changes).decorations ∈ changes := by
  induction changes using List.reverseRecOn with
  | nil => exact Or.inl rfl
  | append_singleton before change ih =>
    have hbefore := ih.imp_right (List.mem_append_left [change])
    rw [source_concat]
    cases change with
    | replace other decorations =>
      unfold Source.next
      dsimp only
      split
      · rename_i hid
        exact Or.inr (List.mem_append_right before (hid ▸ List.mem_cons_self))
      · exact hbefore
    | clear other =>
      unfold Source.next
      dsimp only
      split
      · exact Or.inl rfl
      · exact hbefore
    | applyEdit edit => exact hbefore

theorem proper_source (h : ∀ change ∈ changes, change.Proper) (id : Nat) :
    ∀ decoration ∈ (source id changes).decorations, decoration.start ≤ decoration.stop := by
  obtain hnothing | hput := decorations_source id changes
  · rw [hnothing]
    nofun
  · exact h _ hput

/-- What the changes leave behind: each layer holds what is left of its source. -/
structure Holds (layers : Layers) (changes : List Change) : Prop where
  built : layers.Built
  layer_eq : ∀ id, layers.layer id = (source id changes).left

theorem holds_empty : empty.Holds [] where
  built := .empty
  layer_eq _ := Source.left_nothing.symm

theorem Holds.perform (h : layers.Holds changes) (hchanged : layers.perform change = .ok changed) :
    changed.Holds (changes ++ [change]) := by
  cases change with
  | replace id decorations =>
    obtain rfl := Except.ok.inj hchanged
    refine ⟨h.built.replace id decorations, fun other ↦ ?_⟩
    rw [layer_replace, source_concat, h.layer_eq]
    unfold Source.next
    dsimp only
    split
    · exact (Source.left_put decorations).symm
    · rfl
  | clear id =>
    obtain rfl := Except.ok.inj hchanged
    refine ⟨h.built.clear id, fun other ↦ ?_⟩
    rw [layer_clear, source_concat, h.layer_eq]
    unfold Source.next
    dsimp only
    split
    · exact Source.left_nothing.symm
    · rfl
  | applyEdit edit =>
    refine ⟨h.built.applyEdit hchanged, fun other ↦ ?_⟩
    obtain rfl := eq_carry_of_applyEdit hchanged
    rw [layer_carry h.built.ascending, h.layer_eq, source_concat]
    exact (Source.left_edit _ edit).symm

theorem holds_run (h : run changes = .ok layers) : layers.Holds changes := by
  induction changes using List.reverseRecOn generalizing layers with
  | nil =>
    obtain rfl := Except.ok.inj h
    exact holds_empty
  | append_singleton before change ih =>
    rw [run_concat] at h
    obtain ⟨middle, hmiddle, hlast⟩ := Fault.bind_eq_ok.mp h
    exact (ih hmiddle).perform hlast

theorem Holds.entry_eq {entry : Nat × List Decoration} (h : layers.Holds changes)
    (hentry : entry ∈ layers.entries) : entry.2 = (source entry.1 changes).left :=
  (h.built.ascending.layer_of_mem hentry).symm.trans (h.layer_eq entry.1)

/-! ## The order of stored layers -/

/-- Changes give layers unless they lead to an edit that cannot be applied. Each layer holds what is
left of the decorations last put in it, none is stored without any, and their starts are in order.
They are sorted exactly if the edits since have not brought the beginning of one together with that
of another one inside of it that is left and still ends before it. -/
theorem run_sorted_iff (hproper : ∀ change ∈ changes, change.Proper) :
    (Stops changes → run changes = .error .overflow) ∧
    (¬Stops changes → ∃ layers, run changes = .ok layers ∧
      (∀ id, layers.layer id = (source id changes).left) ∧
      ∀ entry ∈ layers.entries,
        entry.2 ≠ [] ∧ (entry.2.Pairwise fun a b ↦ a.start ≤ b.start) ∧
        (Decoration.Sorted entry.2 ↔
          ∀ outer ∈ (source entry.1 changes).decorations,
          ∀ inner ∈ (source entry.1 changes).decorations,
            ¬Decoration.Inverts (source entry.1 changes).edits outer inner)) := by
  refine ⟨run_of_stops, fun hgoesOn ↦ ?_⟩
  obtain ⟨layers, hrun⟩ := exists_run hgoesOn
  have hholds := holds_run hrun
  refine ⟨layers, hrun, hholds.layer_eq, fun entry hentry ↦ ?_⟩
  have hsource := proper_source hproper entry.1
  refine ⟨hholds.built.ne_nil_of_mem entry hentry, ?_⟩
  rw [hholds.entry_eq hentry]
  exact ⟨Source.starts_left hsource, Source.sorted_left_iff hsource⟩

/-- Of "abcdef", "bcdef" and in it "cde" are underlined. Without "abc" both underlines begin at the
start, the longer one first. Without "ef", too, they cover the same and are in order again. -/
theorem run_sorted_iff_nested_underlines :
    let underlines : List Decoration := [.underline 1 6 .warning none, .underline 2 5 .error none]
    (∃ layers, run [.replace lint underlines, .applyEdit ⟨0, 3, 0⟩] = .ok layers ∧
      ∃ entry ∈ layers.entries, ¬Decoration.Sorted entry.2) ∧
    ∃ layers, run [.replace lint underlines, .applyEdit ⟨0, 3, 0⟩, .applyEdit ⟨1, 2, 0⟩] =
      .ok layers ∧ layers.ids = [lint] ∧ ∀ entry ∈ layers.entries, Decoration.Sorted entry.2 := by
  intro underlines
  have hrun : ∀ rest, run (.replace lint underlines :: rest) =
      rest.foldlM perform ⟨[(lint, underlines)]⟩ :=
    run_replace_of_sorted lint (by decide) (by decide)
  constructor
  · obtain ⟨-, hgoesOn⟩ :=
      @run_sorted_iff [.replace lint underlines, .applyEdit ⟨0, 3, 0⟩] (by decide)
    obtain ⟨layers, hlayers, -, hentries⟩ := hgoesOn (not_stops_of_run (hrun _))
    obtain rfl := Except.ok.inj ((hrun _).symm.trans hlayers)
    obtain ⟨-, -, hsorted⟩ := hentries _ (List.mem_singleton_self _)
    exact ⟨_, hlayers, _, List.mem_singleton_self _, hsorted.not.mpr (by decide)⟩
  · obtain ⟨-, hgoesOn⟩ := @run_sorted_iff [.replace lint underlines, .applyEdit ⟨0, 3, 0⟩,
      .applyEdit ⟨1, 2, 0⟩] (by decide)
    obtain ⟨layers, hlayers, -, hentries⟩ := hgoesOn (not_stops_of_run (hrun _))
    obtain rfl := Except.ok.inj ((hrun _).symm.trans hlayers)
    refine ⟨_, hlayers, rfl, fun entry hentry ↦ ?_⟩
    obtain rfl := List.mem_singleton.mp hentry
    obtain ⟨-, -, hsorted⟩ := hentries _ hentry
    exact hsorted.mpr (by decide)

/-- The longer of two underlines comes to stand in front of the shorter one that begins with it. -/
theorem nested_underlines_out_of_order :
    let changes : List Change := [.replace lint
      [.underline 1 6 .warning none, .underline 2 4 .error none], .applyEdit ⟨0, 3, 0⟩]
    (∀ change ∈ changes, change.Proper) ∧ ∃ layers, run changes = .ok layers ∧
      layers.entries = [(lint, [.underline 0 3 .warning none, .underline 0 1 .error none])] ∧
      ¬∀ entry ∈ layers.entries, entry.2 ≠ [] ∧ Decoration.Sorted entry.2 := by
  intro changes
  refine ⟨by decide, _, run_replace_of_sorted lint (by decide) (by decide) _, rfl, fun hall ↦ ?_⟩
  exact absurd (hall _ (List.mem_singleton_self _)).2 (by decide)

/-! ## Layers that stay sorted -/

/-- As long as no decoration is put in a layer together with one inside of it, all layers are
sorted, whatever the edits. -/
theorem run_sorted_of_flat (hproper : ∀ change ∈ changes, change.Proper)
    (hflat : ∀ change ∈ changes, change.Flat) (hrun : run changes = .ok layers) :
    ∀ entry ∈ layers.entries, Decoration.Sorted entry.2 := by
  intro entry hentry
  rw [(holds_run hrun).entry_eq hentry, Source.sorted_left_iff (proper_source hproper entry.1)]
  rintro outer houter inner hinner ⟨hencloses, -⟩
  obtain hnothing | hput := decorations_source entry.1 changes
  · rw [hnothing] at houter
    nomatch houter
  · exact hflat _ hput outer houter inner hinner hencloses

/-- So underlines of lint messages stay sorted, and so do layers of a single decoration. -/
theorem run_sorted_of_lint_or_single
    (h : ∀ id decorations, .replace id decorations ∈ changes →
      (∃ lines messages, lines.Ordered ∧ decorations = Lint.decorations lines messages) ∨
        ∃ decoration : Decoration, decoration.start ≤ decoration.stop ∧ decorations = [decoration])
    (hrun : run changes = .ok layers) :
    ∀ entry ∈ layers.entries, Decoration.Sorted entry.2 := by
  refine run_sorted_of_flat (fun change hchange ↦ ?_) (fun change hchange ↦ ?_) hrun
  · cases change with
    | replace id decorations =>
      obtain ⟨lines, messages, hlines, rfl⟩ | ⟨decoration, hproper, rfl⟩ := h id _ hchange
      · exact fun underline hunderline ↦
          (Lint.decorations_within hlines messages underline hunderline).1
      · exact List.forall_mem_singleton.mpr hproper
    | clear id => trivial
    | applyEdit edit => trivial
  · cases change with
    | replace id decorations =>
      obtain ⟨lines, messages, hlines, rfl⟩ | ⟨decoration, -, rfl⟩ := h id _ hchange
      · exact fun _ houter _ hinner ↦ Lint.not_encloses hlines houter hinner
      · exact List.forall_mem_singleton.mpr (List.forall_mem_singleton.mpr
          fun hencloses ↦ Nat.lt_irrefl _ hencloses.1)
    | clear id => trivial
    | applyEdit edit => trivial

end Layers

end CodeEditor
