import CodeEditor.Proofs.Editor.Steps
import CodeEditor.Proofs.Layout.Relayout
import CodeEditor.Proofs.Style.Tiling

/-!
# Coherent editors

An editor is coherent if everything that lies on its text fits it: the styling covers the text,
the selections are settled in it, the decorations lie in it, and the layout is the one that some
basic layout gives for it now. Every operation keeps this, whatever it is given; only the choice
of another layout replaces the basic one.
-/

namespace CodeEditor

/-- The layout that an operation brings in. -/
def Operation.layout? : Operation → Option Layout
  | useLayout layout => some layout
  | _ => none

namespace Editor

/-- Everything that lies on the text fits it. -/
structure Coherent (base : Layout) (editor : Editor) : Prop where
  document : editor.document.Coherent
  canonical : editor.styled.Canonical
  styled_length : editor.styled.length = editor.document.length
  selections : editor.selections.Settled editor.document.length
  decorations : editor.decorations.Fits editor.document.length
  laid : base.relayout editor.document.text.toList editor.document.lines
    editor.display.fontSize = .ok editor.layout

namespace Coherent

variable {base : Layout} {editor next : Editor} {events : List Event} {now : Nat}

/-- The layout of a coherent editor lays every text out as the basic one does. -/
theorem relayout_eq (h : Coherent base editor) (text : List Char) (lines : LineIndex)
    (fontSize : Float32) :
    editor.layout.relayout text lines fontSize = base.relayout text lines fontSize :=
  Layout.relayout_of_relayout h.laid text lines fontSize

theorem lines_ordered (h : Coherent base editor) :
    editor.document.lines.Ordered ∧ editor.document.lines.length = editor.document.length := by
  rw [h.document.lines_eq, h.document.length_eq]
  exact ⟨LineIndex.ordered_ofChars _, LineIndex.length_ofChars _⟩

theorem create {settings : Settings} {highlighter : Highlighter}
    (h : Editor.create settings highlighter = .ok editor) :
    Coherent (.monospace (.ofConfig settings.normalized.layout)) editor := by
  obtain ⟨layout, hlayout, rfl⟩ := relayout_eq_ok.mp h
  exact {
    document := Document.coherent_ofText "" .plain
    canonical := StyledText.canonical_uniform 0 _
    styled_length := rfl
    selections := SelectionSet.settled_default _
    decorations := Layers.fits_empty _
    laid := hlayout }

/-! ## Display and navigation -/

theorem setScrollY (h : Coherent base editor) (scrollY : Extent) :
    Coherent base (editor.setScrollY scrollY).1 := by
  obtain ⟨viewport, hviewport⟩ := setScrollY_eq editor scrollY
  rw [hviewport]
  exact { h with }

theorem setViewportHeight (h : Coherent base editor) (height : Extent) :
    Coherent base (editor.setViewportHeight height).1 := by
  obtain ⟨viewport, hviewport⟩ := setViewportHeight_eq editor height
  rw [hviewport]
  exact { h with }

theorem adjustFont (h : Coherent base editor) {delta : Float32} {changed : Bool}
    (hnext : editor.adjustFont delta = .ok (next, events, changed)) : Coherent base next := by
  obtain ⟨-, rfl⟩ | ⟨-, display, layout, viewport, -, hlayout, rfl⟩ := adjustFont_eq_ok hnext
  · exact h
  · rw [h.relayout_eq] at hlayout
    exact { h with laid := hlayout }

theorem setTheme (h : Coherent base editor) (id : String) (now : Nat) :
    Coherent base (editor.setTheme id now).1 := by
  unfold Editor.setTheme
  split
  · exact h
  · exact { h with }

theorem setLanguage (h : Coherent base editor) (language : Language) (now : Nat) :
    Coherent base (editor.setLanguage language now).1 := by
  unfold Editor.setLanguage
  split
  · exact h
  · exact { h with document := h.document.withLanguage language }

theorem jump (h : Coherent base editor) {line reached : Nat}
    (hnext : editor.jump line now = .ok (next, events, reached)) : Coherent base next := by
  obtain ⟨-, flash, range, viewport, hrange, rfl⟩ := jump_eq_ok hnext
  obtain ⟨hordered, hlength⟩ := h.lines_ordered
  have hwithin := hordered.range_le hrange
  rw [hlength] at hwithin
  have hselected : (SelectionSet.single (.between range.start range.stop)).Settled
      editor.document.length := by
    rw [Selection.between_of_le hwithin.1]
    exact SelectionSet.settled_single hwithin.1 hwithin.2
  have hdecorations : ∀ decoration ∈ [Decoration.flash range.start range.stop],
      decoration.Within editor.document.length := by
    intro decoration hdecoration
    rw [List.mem_singleton.mp hdecoration]
    exact hwithin
  exact { h with
    selections := hselected
    decorations := h.decorations.replace (Or.inr rfl) hdecorations }

theorem useLayout (h : Coherent base editor) {layout : Layout}
    (hnext : editor.useLayout layout = .ok next) : Coherent layout next := by
  obtain ⟨laid, hlaid, rfl⟩ := relayout_eq_ok.mp hnext
  exact { h with laid := hlaid }

theorem setSelections (h : Coherent base editor) (selections : SelectionSet) :
    Coherent base (editor.setSelections selections).1 := by
  rw [setSelections_eq]
  exact { h with selections := SelectionSet.settled_clamp selections _ }

/-! ## Highlighting and linting -/

theorem applyLint (h : Coherent base editor) : Coherent base editor.applyLint := by
  obtain ⟨hordered, hlength⟩ := h.lines_ordered
  have hunderlines := Lint.decorations_within hordered editor.lintMessages
  rw [hlength] at hunderlines
  exact { h with decorations := h.decorations.replace (Or.inl rfl) hunderlines }

theorem lint (h : Coherent base editor) (messages : List LintMessage) :
    Coherent base (editor.lint messages).1 := by
  have hreceived : Coherent base { editor with
      lintMessages := messages
      lintRevision := some editor.document.revision } := { h with }
  unfold Editor.lint
  dsimp only
  split
  · exact hreceived
  · exact hreceived.applyLint

theorem lintFor (h : Coherent base editor) (revision : Nat) (messages : List LintMessage) :
    Coherent base (editor.lintFor revision messages).1 := by
  unfold Editor.lintFor
  split
  · exact h.lint messages
  · exact h

theorem poll (h : Coherent base editor) (now : Nat) : Coherent base (editor.poll now).1 :=
  { h with }

/-- Any result whatever is brought into form before it is taken over. -/
theorem complete (h : Coherent base editor) (generation : Generation) (styled : StyledText) :
    Coherent base (editor.complete generation styled).1 := by
  unfold Editor.complete
  dsimp only
  split
  · exact { h with }
  · apply applyLint
    exact { h with
      canonical := StyledText.canonical_normalized _ _ _
      styled_length := rfl
      selections := SelectionSet.settled_clamp _ _ }

theorem expireFlash (h : Coherent base editor) (now : Nat) :
    Coherent base (editor.expireFlash now).1 := by
  unfold Editor.expireFlash
  split
  · exact { h with decorations := h.decorations.clear Layers.flash }
  · exact h

theorem runHighlight (h : Coherent base editor) (now : Nat) :
    Coherent base (editor.runHighlight now).1 := by
  have hpolled := h.poll now
  unfold Editor.runHighlight
  split
  · rename_i polled job hpoll
    rw [hpoll] at hpolled
    exact hpolled.complete job.generation _
  · rename_i polled hpoll
    rwa [hpoll] at hpolled

theorem tick (h : Coherent base editor) (now : Nat) : Coherent base (editor.tick now).1 :=
  (h.expireFlash now).runHighlight now

/-- The result of a pass touches the schedule, the styling and the decorations, and nothing else:
the selections of a coherent editor are clamped already. -/
theorem complete_eq (h : Coherent base editor) (generation : Generation)
    (result : StyledText) :
    ∃ schedule styled decorations, (editor.complete generation result).1 =
      { editor with schedule, styled, decorations } := by
  cases hcompletion : (editor.schedule.complete generation).2 with
  | stale =>
    rw [complete_of_stale hcompletion]
    exact ⟨_, editor.styled, editor.decorations, rfl⟩
  | current =>
    rw [complete_of_current hcompletion, SelectionSet.clamp_eq_self h.selections]
    exact ⟨_, _, _, rfl⟩

theorem runHighlight_eq (h : Coherent base editor) (now : Nat) :
    ∃ schedule styled decorations, (editor.runHighlight now).1 =
      { editor with schedule, styled, decorations } := by
  have hcoherent := h.poll now
  unfold Editor.runHighlight
  split
  · rename_i polled job hpoll
    rw [hpoll] at hcoherent
    obtain ⟨schedule, styled, decorations, hcomplete⟩ :=
      hcoherent.complete_eq job.generation (polled.highlighter.highlightOrPlain job.request)
    refine ⟨schedule, styled, decorations, hcomplete.trans ?_⟩
    rw [← hpoll]
    rfl
  · rename_i polled hpoll
    rw [← congrArg Prod.fst hpoll]
    exact ⟨_, _, _, rfl⟩

theorem tick_eq (h : Coherent base editor) (now : Nat) :
    ∃ schedule styled decorations flash, (editor.tick now).1 =
      { editor with schedule, styled, decorations, flash } := by
  obtain ⟨schedule, styled, decorations, hrun⟩ := (h.expireFlash now).runHighlight_eq now
  refine ⟨schedule, styled, decorations, (editor.expireFlash now).1.flash, hrun.trans ?_⟩
  unfold Editor.expireFlash
  split <;> rfl

/-! ## Changing the text -/

/-- Following an edit brings everything in step with the text after it. -/
theorem follow (h : Coherent base editor) {text : String} {document : Document} {edit : Edit}
    (hreplace : editor.document.replace text = (document, some edit)) (history : History)
    {selections : Option SelectionSet}
    (hnext : Editor.follow { editor with document, history } edit selections now =
      .ok (next, events)) :
    Coherent base next := by
  obtain ⟨styled, layout, hstyled, hlayout, rfl, -⟩ := follow_eq_ok hnext
  have hreplaced := Document.replace_eq_some h.document hreplace
  obtain ⟨hcanonical, hstyledLength⟩ := StyledText.applyEdit_canonical hstyled
  have hdecorations := h.decorations.carry hreplaced.fits
  rw [hreplaced.carryLength_eq] at hdecorations
  rw [h.styled_length, hreplaced.carryLength_eq] at hstyledLength
  rw [h.relayout_eq] at hlayout
  exact {
    document := hreplaced.coherent
    canonical := hcanonical
    styled_length := hstyledLength
    selections := SelectionSet.settled_clamp _ _
    decorations := hdecorations
    laid := hlayout }

/-- Loading a text that is there already changes no view of it. -/
theorem setText (h : Coherent base editor) {text : String} {language : Language}
    (hnext : editor.setText text language now = .ok (next, events)) : Coherent base next := by
  obtain ⟨document, hreplace, rfl, -⟩ | ⟨document, edit, layout, hreplace, hlayout, rfl, -⟩ :=
    setText_eq_ok hnext
  · obtain ⟨rfl, -⟩ := Document.replace_eq_none hreplace
    exact { h with
      document := h.document.withLanguage language
      decorations := h.decorations.clear Layers.lint }
  · have hreplaced := Document.replace_eq_some h.document hreplace
    rw [h.relayout_eq] at hlayout
    exact {
      document := hreplaced.coherent.withLanguage language
      canonical := StyledText.canonical_uniform _ _
      styled_length := by
        have hlength := hreplaced.coherent.length_eq
        rw [hreplaced.text_eq] at hlength
        exact hlength.symm
      selections := SelectionSet.settled_default _
      decorations := h.decorations.clear_all _
      laid := hlayout }

theorem restore (h : Coherent base editor) {snapshot : Snapshot} (history : History)
    (hnext : Editor.restore { editor with history } snapshot now = .ok (next, events)) :
    Coherent base next := by
  obtain ⟨-, rfl, -⟩ | ⟨document, edit, hreplace, hnext⟩ := restore_eq_ok hnext
  · exact { h with selections := SelectionSet.settled_clamp _ _ }
  · exact h.follow hreplace history hnext

theorem edit (h : Coherent base editor) {text : String} {selections : Option SelectionSet}
    {changed : Bool} (hnext : editor.edit text selections now = .ok (next, events, changed)) :
    Coherent base next := by
  obtain ⟨-, -, rfl, -⟩ | ⟨-, document, edit, hreplace, hnext⟩ := edit_eq_ok hnext
  · cases selections with
    | none => exact h
    | some selections => exact { h with selections := SelectionSet.settled_clamp _ _ }
  · exact h.follow hreplace _ hnext

theorem undo (h : Coherent base editor) {done : Bool}
    (hnext : editor.undo now = .ok (next, events, done)) : Coherent base next := by
  obtain ⟨-, -, rfl, -⟩ | ⟨-, snapshot, history, -, hnext⟩ := undo_eq_ok hnext
  · exact h
  · exact h.restore history hnext

theorem redo (h : Coherent base editor) {done : Bool}
    (hnext : editor.redo now = .ok (next, events, done)) : Coherent base next := by
  obtain ⟨-, -, rfl, -⟩ | ⟨-, snapshot, history, -, hnext⟩ := redo_eq_ok hnext
  · exact h
  · exact h.restore history hnext

/-! ## Runs -/

/-- No operation with any arguments brings a coherent editor out of step with its text. -/
theorem perform (h : Coherent base editor) {operation : Operation} {reply : Reply}
    (hreply : editor.perform operation = .ok reply) :
    Coherent (operation.layout?.getD base) reply.editor := by
  cases operation with
  | setText text language now =>
    obtain ⟨result, hresult, rfl⟩ := Fault.map_eq_ok.mp hreply
    exact h.setText hresult
  | edit text now =>
    obtain ⟨result, hresult, rfl⟩ := Fault.map_eq_ok.mp hreply
    exact h.edit hresult
  | editSelecting text selections now =>
    obtain ⟨result, hresult, rfl⟩ := Fault.map_eq_ok.mp hreply
    exact h.edit hresult
  | undo now =>
    obtain ⟨result, hresult, rfl⟩ := Fault.map_eq_ok.mp hreply
    exact h.undo hresult
  | redo now =>
    obtain ⟨result, hresult, rfl⟩ := Fault.map_eq_ok.mp hreply
    exact h.redo hresult
  | poll now =>
    obtain rfl := Except.ok.inj hreply
    exact h.poll now
  | complete generation styled =>
    obtain rfl := Except.ok.inj hreply
    exact h.complete generation styled
  | tick now =>
    obtain rfl := Except.ok.inj hreply
    exact h.tick now
  | lint messages =>
    obtain rfl := Except.ok.inj hreply
    exact h.lint messages
  | lintFor revision messages =>
    obtain rfl := Except.ok.inj hreply
    exact h.lintFor revision messages
  | increaseFont =>
    obtain ⟨result, hresult, rfl⟩ := Fault.map_eq_ok.mp hreply
    exact h.adjustFont hresult
  | decreaseFont =>
    obtain ⟨result, hresult, rfl⟩ := Fault.map_eq_ok.mp hreply
    exact h.adjustFont hresult
  | adjustFont delta =>
    obtain ⟨result, hresult, rfl⟩ := Fault.map_eq_ok.mp hreply
    exact h.adjustFont hresult
  | setTheme id now =>
    obtain rfl := Except.ok.inj hreply
    exact h.setTheme id now
  | setLanguage language now =>
    obtain rfl := Except.ok.inj hreply
    exact h.setLanguage language now
  | jump line now =>
    obtain ⟨result, hresult, rfl⟩ := Fault.map_eq_ok.mp hreply
    exact h.jump hresult
  | click y now =>
    obtain ⟨result, hresult, rfl⟩ := Fault.map_eq_ok.mp hreply
    exact h.jump hresult
  | select selections =>
    obtain rfl := Except.ok.inj hreply
    exact h.setSelections selections
  | setViewportHeight height =>
    obtain rfl := Except.ok.inj hreply
    exact h.setViewportHeight height
  | scroll y =>
    obtain rfl := Except.ok.inj hreply
    exact h.setScrollY y
  | useLayout layout =>
    obtain ⟨result, hresult, rfl⟩ := Fault.map_eq_ok.mp hreply
    exact h.useLayout hresult

/-- Every editor that a run reaches is coherent with the layout chosen last. -/
theorem run {operations : List Operation} {log : List (List Notice × Answer)}
    (h : Coherent base editor) (hrun : editor.run operations = .ok (next, log)) :
    Coherent (operations.foldl (fun base operation ↦ operation.layout?.getD base) base) next := by
  induction operations generalizing base editor log with
  | nil =>
    cases hrun
    exact h
  | cons operation rest ih =>
    obtain ⟨reply, hreply, hrun⟩ := Fault.bind_eq_ok.mp hrun
    obtain ⟨⟨reached, more⟩, hrest, hrun⟩ := Fault.bind_eq_ok.mp hrun
    cases hrun
    exact ih (h.perform hreply) hrest

end Coherent

end Editor

end CodeEditor
