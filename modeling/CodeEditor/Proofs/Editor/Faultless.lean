import CodeEditor.Proofs.Editor.Timeline

/-!
# Runs without faults

Offsets and rows are bounded, so an operation on a text that is too long, or with a layout whose
rows are too wide, stops with a fault. Nothing else does: as long as the texts that come in are
short enough, every operation gives a result, and so does every run.
-/

namespace CodeEditor

/-- The offsets of the text, and one row for each character and one more, are within bounds. -/
def TextFits (text : String) : Prop := text.toList.length + 1 < Offset.bound

instance (text : String) : Decidable (TextFits text) :=
  inferInstanceAs (Decidable (text.toList.length + 1 < Offset.bound))

/-- The text that an operation brings in. -/
def Operation.text? : Operation → Option String
  | setText text _ _ => some text
  | edit text _ => some text
  | editSelecting text _ _ => some text
  | _ => none

/-- What the operation brings in is within bounds. -/
structure Operation.Fits (operation : Operation) : Prop where
  text : ∀ text ∈ operation.text?, TextFits text
  layout : ∀ layout ∈ operation.layout?, layout.Fits

theorem Operation.text?_move (operation : Operation) (answer : Answer) :
    (operation.move answer).text? = operation.text? := by
  cases operation with
  | click y now => cases answer <;> rfl
  | _ => rfl

instance (operation : Operation) : Decidable operation.Fits :=
  decidable_of_iff
    ((∀ text ∈ operation.text?, TextFits text) ∧ ∀ layout ∈ operation.layout?, layout.Fits)
    ⟨fun h ↦ ⟨h.1, h.2⟩, fun h ↦ ⟨h.text, h.layout⟩⟩

namespace Editor

/-- All texts that can come back, and the layout, are within bounds. -/
structure Bounded (base : Layout) (editor : Editor) : Prop where
  layout : base.Fits
  texts : ∀ snapshot ∈ editor.timeline.present :: editor.timeline.others, TextFits snapshot.text

variable {base : Layout} {editor next : Editor} {now : Nat}

theorem Bounded.text (h : Bounded base editor) : TextFits editor.document.text :=
  h.texts editor.snapshot List.mem_cons_self

/-- A coherent editor can lay out every document that is short enough. -/
theorem exists_layout (h : Coherent base editor) (hbase : base.Fits) {document : Document}
    (hdocument : document.Coherent) (htext : TextFits document.text) (fontSize : Float32) :
    ∃ layout, editor.layout.relayout document.text.toList document.lines fontSize = .ok layout := by
  obtain ⟨layout, hlayout, -⟩ := Layout.relayout_eq_ok hbase htext fontSize
  rw [h.relayout_eq, hdocument.lines_eq]
  exact ⟨layout, hlayout⟩

/-! ## Display and navigation -/

theorem exists_adjustFont (h : Coherent base editor) (hbounded : Bounded base editor)
    (delta : Float32) : ∃ result, editor.adjustFont delta = .ok result := by
  unfold Editor.adjustFont
  split
  · exact ⟨_, rfl⟩
  · rename_i display hdisplay
    obtain ⟨layout, hlayout⟩ :=
      exists_layout h hbounded.layout h.document hbounded.text display.fontSize
    apply Fault.exists_bind_eq_ok (relayout_eq_ok.mpr ⟨layout, hlayout, rfl⟩)
    exact ⟨_, rfl⟩

/-- There always is a line to go to. -/
theorem exists_jump (h : Coherent base editor) (line now : Nat) :
    ∃ result, editor.jump line now = .ok result := by
  have hcount : 1 ≤ editor.document.lines.count := by
    rw [h.document.lines_eq]
    exact (LineIndex.count_ofChars _).symm ▸ Nat.le_add_left _ _
  obtain ⟨range, hrange⟩ : ∃ range, editor.document.lines.range?
      (max 1 (min (max 1 (min line editor.document.lines.count)) editor.document.lines.count) - 1) =
        some range :=
    LineIndex.range?_eq_some (by omega)
  have hstart : ∃ started, editor.flash.start editor.document.lines
      (max 1 (min line editor.document.lines.count)) now = .ok started := by
    unfold Flash.start LineIndex.range
    dsimp only
    rw [hrange]
    exact ⟨_, rfl⟩
  obtain ⟨started, hstarted⟩ := hstart
  unfold Editor.jump
  exact Fault.exists_bind_eq_ok hstarted ⟨_, rfl⟩

/-! ## Changing the text -/

theorem exists_follow (h : Coherent base editor) (hbounded : Bounded base editor) {text : String}
    (htext : TextFits text) {document : Document} {edit : Edit}
    (hreplace : editor.document.replace text = (document, some edit)) (history : History)
    (selections : Option SelectionSet) (now : Nat) :
    ∃ result, follow { editor with document, history } edit selections now = .ok result := by
  have hreplaced := Document.replace_eq_some h.document hreplace
  obtain rfl := hreplaced.text_eq
  have hbefore : editor.document.length < Offset.bound := by
    rw [h.document.length_eq]
    exact Nat.lt_of_succ_lt hbounded.text
  have hafter : edit.carryLength editor.document.length < Offset.bound := by
    rw [hreplaced.carryLength_eq, hreplaced.coherent.length_eq]
    exact Nat.lt_of_succ_lt htext
  have hstyled : ∃ styled, editor.styled.applyEdit edit editor.theme.plain = .ok styled := by
    apply StyledText.applyEdit_eq_ok
    · exact h.canonical
    · rw [h.styled_length]
      exact hreplaced.fits
    · rwa [h.styled_length]
    · rwa [h.styled_length]
  obtain ⟨styled, hstyled⟩ := hstyled
  have hdecorations := Layers.applyEdit_eq_carry h.decorations hreplaced.fits hbefore hafter
  have hselections := SelectionSet.map_eq_carry h.selections hreplaced.fits hbefore hafter
  obtain ⟨layout, hlayout⟩ :=
    exists_layout h hbounded.layout hreplaced.coherent htext editor.display.fontSize
  unfold Editor.follow
  apply Fault.exists_bind_eq_ok hstyled
  apply Fault.exists_bind_eq_ok hdecorations
  cases selections with
  | some selections =>
    apply Fault.exists_bind_eq_ok (relayout_eq_ok.mpr ⟨layout, hlayout, rfl⟩)
    exact ⟨_, rfl⟩
  | none =>
    apply Fault.exists_bind_eq_ok hselections
    apply Fault.exists_bind_eq_ok (relayout_eq_ok.mpr ⟨layout, hlayout, rfl⟩)
    exact ⟨_, rfl⟩

theorem exists_setText (h : Coherent base editor) (hbounded : Bounded base editor) {text : String}
    (htext : TextFits text) (language : Language) (now : Nat) :
    ∃ result, editor.setText text language now = .ok result := by
  unfold Editor.setText
  cases hreplace : editor.document.replace text with
  | mk document edit? =>
    cases edit? with
    | none => exact ⟨_, rfl⟩
    | some edit =>
      have hreplaced := Document.replace_eq_some h.document hreplace
      obtain rfl := hreplaced.text_eq
      obtain ⟨layout, hlayout⟩ :=
        exists_layout h hbounded.layout hreplaced.coherent htext editor.display.fontSize
      apply Fault.exists_bind_eq_ok (relayout_eq_ok.mpr ⟨layout, hlayout, rfl⟩)
      exact ⟨_, rfl⟩

theorem exists_edit (h : Coherent base editor) (hbounded : Bounded base editor) {text : String}
    (htext : TextFits text) (selections : Option SelectionSet) (now : Nat) :
    ∃ result, editor.edit text selections now = .ok result := by
  unfold Editor.edit
  split
  · cases selections <;> exact ⟨_, rfl⟩
  · rename_i document edit hreplace
    obtain ⟨result, hresult⟩ := exists_follow h hbounded htext hreplace _ selections now
    apply Fault.exists_bind_eq_ok hresult
    exact ⟨_, rfl⟩

theorem exists_restore (h : Coherent base editor) (hbounded : Bounded base editor)
    {snapshot : Snapshot} (hsnapshot : snapshot ∈ editor.timeline.others) (history : History)
    (now : Nat) : ∃ result, restore { editor with history } snapshot now = .ok result := by
  have htext := hbounded.texts snapshot (List.mem_cons_of_mem _ hsnapshot)
  unfold Editor.restore
  split
  · rename_i document edit hreplace
    exact exists_follow h hbounded htext hreplace history _ now
  · exact ⟨_, rfl⟩

theorem exists_undo (h : Coherent base editor) (hbounded : Bounded base editor) (now : Nat) :
    ∃ result, editor.undo now = .ok result := by
  unfold Editor.undo
  split
  · rename_i snapshot history hundo
    have hmem : snapshot ∈ editor.timeline.others := by
      have hpast := (History.undo_eq_some hundo).1
      simp [Timeline.others, timeline, hpast]
    obtain ⟨result, hresult⟩ := exists_restore h hbounded hmem history now
    apply Fault.exists_bind_eq_ok hresult
    exact ⟨_, rfl⟩
  · exact ⟨_, rfl⟩

theorem exists_redo (h : Coherent base editor) (hbounded : Bounded base editor) (now : Nat) :
    ∃ result, editor.redo now = .ok result := by
  unfold Editor.redo
  split
  · rename_i snapshot history hredo
    have hmem : snapshot ∈ editor.timeline.others := by
      obtain ⟨future, hfuture, -⟩ := History.redo_eq_some hredo
      simp [Timeline.others, timeline, hfuture]
    obtain ⟨result, hresult⟩ := exists_restore h hbounded hmem history now
    apply Fault.exists_bind_eq_ok hresult
    exact ⟨_, rfl⟩
  · exact ⟨_, rfl⟩

/-! ## Runs -/

theorem exists_perform (h : Coherent base editor) (hbounded : Bounded base editor)
    {operation : Operation} (hfits : operation.Fits) :
    ∃ reply, editor.perform operation = .ok reply := by
  cases operation with
  | setText text language now =>
    have htext := hfits.text text rfl
    exact Fault.exists_map_eq_ok (exists_setText h hbounded htext language now)
  | edit text now =>
    have htext := hfits.text text rfl
    exact Fault.exists_map_eq_ok (exists_edit h hbounded htext none now)
  | editSelecting text selections now =>
    have htext := hfits.text text rfl
    exact Fault.exists_map_eq_ok (exists_edit h hbounded htext (some selections) now)
  | undo now => exact Fault.exists_map_eq_ok (exists_undo h hbounded now)
  | redo now => exact Fault.exists_map_eq_ok (exists_redo h hbounded now)
  | increaseFont => exact Fault.exists_map_eq_ok (exists_adjustFont h hbounded _)
  | decreaseFont => exact Fault.exists_map_eq_ok (exists_adjustFont h hbounded _)
  | adjustFont delta => exact Fault.exists_map_eq_ok (exists_adjustFont h hbounded delta)
  | jump line now => exact Fault.exists_map_eq_ok (exists_jump h line now)
  | click y now => exact Fault.exists_map_eq_ok (exists_jump h _ now)
  | useLayout layout =>
    have hlaid : ∃ next, editor.useLayout layout = .ok next := by
      obtain ⟨laid, hlaid, -⟩ :=
        Layout.relayout_eq_ok (hfits.layout layout rfl) hbounded.text editor.display.fontSize
      rw [← h.document.lines_eq] at hlaid
      exact ⟨_, relayout_eq_ok.mpr ⟨laid, hlaid, rfl⟩⟩
    exact Fault.exists_map_eq_ok hlaid
  | poll now => exact ⟨_, rfl⟩
  | complete generation styled => exact ⟨_, rfl⟩
  | tick now => exact ⟨_, rfl⟩
  | lint messages => exact ⟨_, rfl⟩
  | lintFor revision messages => exact ⟨_, rfl⟩
  | setTheme id now => exact ⟨_, rfl⟩
  | setLanguage language now => exact ⟨_, rfl⟩
  | select selections => exact ⟨_, rfl⟩
  | setViewportHeight height => exact ⟨_, rfl⟩
  | scroll y => exact ⟨_, rfl⟩

theorem Bounded.perform (hbounded : Bounded base editor) {operation : Operation}
    (hfits : operation.Fits) {reply : Reply}
    (hmoved : Moved editor (operation.move reply.answer) reply.editor reply.answer) :
    Bounded (operation.layout?.getD base) reply.editor := by
  constructor
  · cases hlayout : operation.layout? with
    | none => exact hbounded.layout
    | some layout => exact hfits.layout layout hlayout
  · rw [hmoved.timeline]
    apply Timeline.text_of_move hbounded.texts
    rw [operation.text?_move]
    exact hfits.text

theorem exists_run {operations : List Operation} (h : Coherent base editor)
    (hlimit : 1 ≤ editor.history.limit) (hproper : editor.timeline.Proper editor.history.limit)
    (hbounded : Bounded base editor) (hfits : ∀ operation ∈ operations, operation.Fits) :
    ∃ result, editor.run operations = .ok result := by
  induction operations generalizing base editor with
  | nil => exact ⟨_, rfl⟩
  | cons operation rest ih =>
    obtain ⟨hoperation, hrest⟩ := List.forall_mem_cons.mp hfits
    obtain ⟨reply, hreply⟩ := exists_perform h hbounded hoperation
    have hmoved := moved_perform h hlimit hproper hreply
    have hproper' := hproper.move (settled_snapshot h) (operation.move reply.answer)
    rw [← hmoved.timeline, ← hmoved.limit] at hproper'
    obtain ⟨result, hresult⟩ := ih (h.perform hreply) (hmoved.limit ▸ hlimit) hproper'
      (hbounded.perform hoperation hmoved) hrest
    apply Fault.exists_bind_eq_ok hreply
    apply Fault.exists_bind_eq_ok hresult
    exact ⟨_, rfl⟩

/-- A run of a new editor. -/
def session (settings : Settings) (highlighter : Highlighter) (operations : List Operation) :
    Except Fault (Editor × List (List Notice × Answer)) := do
  let editor ← create settings highlighter
  editor.run operations

/-- A session whose texts and layouts are within bounds comes to its end. -/
theorem exists_session {settings : Settings} {operations : List Operation}
    (highlighter : Highlighter) (hlayout : settings.normalized.layout.Fits)
    (hfits : ∀ operation ∈ operations, operation.Fits) :
    ∃ result, session settings highlighter operations = .ok result := by
  have hempty : TextFits "" := by decide
  obtain ⟨layout, hlaid, -⟩ := Layout.relayout_eq_ok
    (show (Layout.monospace (.ofConfig settings.normalized.layout)).Fits from hlayout) hempty
    settings.normalized.display.fontSize
  have hcreate : ∃ editor, create settings highlighter = .ok editor :=
    ⟨_, relayout_eq_ok.mpr ⟨layout, hlaid, rfl⟩⟩
  obtain ⟨editor, hcreate⟩ := hcreate
  obtain ⟨htimeline, -, hlimit⟩ := timeline_create hcreate
  have hproper : editor.timeline.Proper editor.history.limit := by
    rw [htimeline]
    exact Timeline.proper_start _
  have hbounded : Bounded (.monospace (.ofConfig settings.normalized.layout)) editor := by
    refine ⟨hlayout, ?_⟩
    rw [htimeline]
    intro snapshot hsnapshot
    rw [List.mem_singleton.mp hsnapshot]
    exact hempty
  apply Fault.exists_bind_eq_ok hcreate
  exact exists_run (.create hcreate) hlimit hproper hbounded hfits

end Editor

end CodeEditor
