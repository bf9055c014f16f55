import CodeEditor.Editor.Operation
import CodeEditor.Proofs.Decoration.Layers
import CodeEditor.Proofs.Highlight.Calls
import CodeEditor.Proofs.Selection
import CodeEditor.Proofs.Text.LineIndex

/-!
# What an operation does

For each operation that can stop, the state it gives if it does not. Which viewport scrolling
gives depends on comparisons of extents; it changes nothing else. A result of highlighting either
counts and replaces the styling, or only frees the slot of the pass that ran.
-/

namespace CodeEditor.Editor

variable {editor next : Editor} {events : List Event} {now : Nat}

/-! ## Viewing -/

theorem setScrollY_eq (editor : Editor) (scrollY : Extent) :
    ∃ viewport, (editor.setScrollY scrollY).1 = { editor with viewport } := by
  unfold setScrollY
  dsimp only
  split
  · exact ⟨editor.viewport, rfl⟩
  · exact ⟨_, rfl⟩

theorem scrollToLine_eq (editor : Editor) (line : Nat) :
    ∃ viewport, (editor.scrollToLine line).1 = { editor with viewport } := by
  unfold scrollToLine
  split
  · exact ⟨editor.viewport, rfl⟩
  · split
    · exact setScrollY_eq editor _
    · split
      · exact setScrollY_eq editor _
      · exact ⟨editor.viewport, rfl⟩

theorem setViewportHeight_eq (editor : Editor) (height : Extent) :
    ∃ viewport, (editor.setViewportHeight height).1 = { editor with viewport } := by
  obtain ⟨viewport, hviewport⟩ := setScrollY_eq
    { editor with viewport := { editor.viewport with height := Extent.max height 0 } }
    editor.viewport.scrollY
  exact ⟨viewport, hviewport⟩

theorem relayout_eq_ok :
    editor.relayout = .ok next ↔
      ∃ layout, editor.layout.relayout editor.document.text.toList editor.document.lines
        editor.display.fontSize = .ok layout ∧ next = { editor with layout } := by
  unfold relayout
  rw [Fault.bind_eq_ok]
  exact exists_congr fun layout ↦ and_congr_right fun _ ↦ ⟨fun h ↦ (Except.ok.inj h).symm,
    fun h ↦ congrArg Except.ok h.symm⟩

theorem adjustFontSize_themeId {display changed : Display} {delta : Float32}
    (h : display.adjustFontSize delta = (changed, true)) : changed.themeId = display.themeId := by
  have hfst : changed = (display.adjustFontSize delta).1 := (congrArg Prod.fst h).symm
  rw [hfst]
  unfold Display.adjustFontSize
  split <;> rfl

theorem adjustFont_eq_ok {delta : Float32} {changed : Bool}
    (h : editor.adjustFont delta = .ok (next, events, changed)) :
    (changed = false ∧ next = editor) ∨
    (changed = true ∧ ∃ display layout viewport,
      display.themeId = editor.display.themeId ∧
      editor.layout.relayout editor.document.text.toList editor.document.lines display.fontSize =
        .ok layout ∧
      next = { editor with display, layout, viewport }) := by
  unfold adjustFont at h
  split at h
  · cases h
    exact Or.inl ⟨rfl, rfl⟩
  · rename_i display hdisplay
    obtain ⟨laid, hlaid, h⟩ := Fault.bind_eq_ok.mp h
    obtain ⟨layout, hlayout, rfl⟩ := relayout_eq_ok.mp hlaid
    obtain ⟨viewport, hviewport⟩ :=
      setScrollY_eq { editor with display, layout } editor.viewport.scrollY
    cases h
    exact Or.inr ⟨rfl, display, layout, viewport, adjustFontSize_themeId hdisplay, hlayout,
      hviewport⟩

/-- A jump selects the line and lets it flash. -/
theorem jump_eq_ok {line reached : Nat} (h : editor.jump line now = .ok (next, events, reached)) :
    reached = max 1 (min line editor.document.lines.count) ∧
    ∃ flash range viewport,
      editor.document.lines.range? (reached - 1) = some range ∧
      next = { editor with
        flash
        selections := .single (.between range.start range.stop)
        decorations := editor.decorations.replace Layers.flash [.flash range.start range.stop]
        viewport } := by
  obtain ⟨⟨flash, range⟩, hflash, h⟩ := Fault.bind_eq_ok.mp h
  obtain ⟨viewport, hviewport⟩ := scrollToLine_eq { editor with
    flash
    selections := .single (.between range.start range.stop)
    decorations := editor.decorations.replace Layers.flash [.flash range.start range.stop] }
    (max 1 (min line editor.document.lines.count) - 1)
  obtain ⟨found, hfound, hflash⟩ := Fault.bind_eq_ok.mp hflash
  cases hflash
  cases h
  refine ⟨rfl, _, range, viewport, ?_, hviewport⟩
  have hreached : max 1 (min (max 1 (min line editor.document.lines.count))
      editor.document.lines.count) = max 1 (min line editor.document.lines.count) := by
    omega
  rw [hreached] at hfound
  exact LineIndex.range?_of_range_eq_ok hfound

/-! ## Highlighting -/

theorem complete_of_stale {generation : Generation}
    (h : (editor.schedule.complete generation).2 = .stale) (styled : StyledText) :
    editor.complete generation styled =
      ({ editor with schedule := (editor.schedule.complete generation).1 }, [], .stale) := by
  unfold Editor.complete
  dsimp only
  rw [h]

theorem complete_of_current {generation : Generation}
    (h : (editor.schedule.complete generation).2 = .current) (styled : StyledText) :
    editor.complete generation styled =
      (applyLint { editor with
        schedule := (editor.schedule.complete generation).1
        styled := .normalized styled.spans editor.document.length editor.theme.plain
        selections := editor.selections.clamp editor.document.length },
        .highlightApplied generation :: lintEvents, .current) := by
  unfold Editor.complete
  dsimp only
  rw [h]

/-- A result that counts is taken over; the others leave everything but the running pass. -/
theorem complete_cases (editor : Editor) (generation : Generation) (styled : StyledText) :
    (generation = editor.schedule.generation ∧ editor.schedule.pending = none ∧
      ∃ selections decorations, (editor.complete generation styled).1 = { editor with
        schedule := (editor.schedule.complete generation).1
        styled := .normalized styled.spans editor.document.length editor.theme.plain
        selections
        decorations }) ∨
    (¬(generation = editor.schedule.generation ∧ editor.schedule.pending = none) ∧
      (editor.complete generation styled).1 =
        { editor with schedule := (editor.schedule.complete generation).1 }) := by
  rw [← Schedule.complete_eq_current_iff]
  cases hcompletion : (editor.schedule.complete generation).2 with
  | stale =>
    rw [complete_of_stale hcompletion]
    exact Or.inr ⟨nofun, rfl⟩
  | current =>
    obtain ⟨hgeneration, hpending⟩ := Schedule.complete_eq_current_iff.mp hcompletion
    rw [complete_of_current hcompletion]
    exact Or.inl ⟨hgeneration, hpending, _, _, rfl⟩

/-! ## Linting -/

theorem lint_eq (editor : Editor) (messages : List LintMessage) :
    ∃ decorations, (editor.lint messages).1 = { editor with
      lintMessages := messages
      lintRevision := some editor.document.revision
      decorations } := by
  unfold Editor.lint
  dsimp only
  split
  · exact ⟨editor.decorations, rfl⟩
  · exact ⟨_, rfl⟩

/-! ## Editing -/

theorem setText_eq_ok {text : String} {language : Language}
    (h : editor.setText text language now = .ok (next, events)) :
    (∃ document, editor.document.replace text = (document, none) ∧
      next = scheduleHighlightNow { editor with
        document := document.withLanguage language
        history := editor.history.clear
        lintMessages := []
        lintRevision := none
        decorations := editor.decorations.clear Layers.lint
        schedule := editor.schedule.reset } now ∧
      events = [next.lintRequest, .decorationsChanged Layers.lint, .gutterRepaint]) ∨
    (∃ document edit layout, editor.document.replace text = (document, some edit) ∧
      editor.layout.relayout document.text.toList document.lines editor.display.fontSize =
        .ok layout ∧
      next = scheduleHighlightNow { editor with
        document := document.withLanguage language
        history := editor.history.clear
        lintMessages := []
        lintRevision := none
        decorations := (editor.decorations.clear Layers.lint).clear Layers.flash
        styled := Highlighter.plainText text editor.theme
        selections := .default
        layout
        schedule := editor.schedule.reset } now ∧
      events = [.selectionChanged, next.lintRequest, .decorationsChanged Layers.lint,
        .gutterRepaint]) := by
  unfold setText at h
  cases hreplace : editor.document.replace text with
  | mk document edit? =>
    rw [hreplace] at h
    cases edit? with
    | none =>
      cases h
      exact Or.inl ⟨document, rfl, rfl, rfl⟩
    | some edit =>
      obtain ⟨laid, hlaid, h⟩ := Fault.bind_eq_ok.mp h
      obtain ⟨layout, hlayout, rfl⟩ := relayout_eq_ok.mp hlaid
      cases h
      exact Or.inr ⟨document, edit, layout, rfl, hlayout, rfl, rfl⟩

theorem follow_eq_ok {edit : Edit} {selections : Option SelectionSet}
    (h : editor.follow edit selections now = .ok (next, events)) :
    ∃ styled layout,
      editor.styled.applyEdit edit editor.theme.plain = .ok styled ∧
      editor.layout.relayout editor.document.text.toList editor.document.lines
        editor.display.fontSize = .ok layout ∧
      next = scheduleHighlight { editor with
        styled
        decorations := editor.decorations.carry edit
        selections :=
          (selections.getD (editor.selections.carry edit)).clamp editor.document.length
        layout } now ∧
      events = [.textChanged next.document.revision next.document.text edit, next.lintRequest,
        .selectionChanged, .gutterRepaint] := by
  unfold follow at h
  obtain ⟨styled, hstyled, h⟩ := Fault.bind_eq_ok.mp h
  obtain ⟨decorations, hdecorations, h⟩ := Fault.bind_eq_ok.mp h
  obtain rfl := Layers.eq_carry_of_applyEdit hdecorations
  cases selections with
  | some selections =>
    obtain ⟨selected, hselected, h⟩ := Fault.bind_eq_ok.mp h
    obtain rfl := Except.ok.inj hselected
    obtain ⟨laid, hlaid, h⟩ := Fault.bind_eq_ok.mp h
    obtain ⟨layout, hlayout, rfl⟩ := relayout_eq_ok.mp hlaid
    cases h
    exact ⟨styled, layout, hstyled, hlayout, rfl, rfl⟩
  | none =>
    obtain ⟨selected, hselected, h⟩ := Fault.bind_eq_ok.mp h
    obtain rfl := SelectionSet.eq_carry_of_map hselected
    obtain ⟨laid, hlaid, h⟩ := Fault.bind_eq_ok.mp h
    obtain ⟨layout, hlayout, rfl⟩ := relayout_eq_ok.mp hlaid
    cases h
    exact ⟨styled, layout, hstyled, hlayout, rfl, rfl⟩

theorem setSelections_eq (editor : Editor) (selections : SelectionSet) :
    (editor.setSelections selections).1 =
      { editor with selections := selections.clamp editor.document.length } := by
  unfold setSelections
  dsimp only
  split
  · rename_i hsame
    rw [hsame]
  · rfl

theorem edit_eq_ok {text : String} {selections : Option SelectionSet} {changed : Bool}
    (h : editor.edit text selections now = .ok (next, events, changed)) :
    (changed = false ∧ text = editor.document.text ∧
      next = { editor with
        selections := (selections.map (·.clamp editor.document.length)).getD editor.selections } ∧
      events = ((selections.map editor.setSelections).getD (editor, [])).2) ∨
    (changed = true ∧ ∃ document edit, editor.document.replace text = (document, some edit) ∧
      follow { editor with
        document
        history := editor.history.record editor.snapshot } edit selections now =
          .ok (next, events)) := by
  unfold edit at h
  split at h
  · rename_i replaced hreplace
    obtain ⟨-, htext⟩ := Document.replace_eq_none hreplace
    cases selections with
    | some selections =>
      cases h
      exact Or.inl ⟨rfl, htext, setSelections_eq editor selections, rfl⟩
    | none =>
      cases h
      exact Or.inl ⟨rfl, htext, rfl, rfl⟩
  · rename_i document edit hreplace
    obtain ⟨⟨followed, told⟩, hfollowed, h⟩ := Fault.bind_eq_ok.mp h
    cases h
    exact Or.inr ⟨rfl, document, edit, hreplace, hfollowed⟩

/-- Going back to a snapshot of the text that is there only selects. -/
theorem restore_eq_ok {snapshot : Snapshot}
    (h : editor.restore snapshot now = .ok (next, events)) :
    (snapshot.text = editor.document.text ∧
      next = { editor with selections := snapshot.selections.clamp editor.document.length } ∧
      events = (editor.setSelections snapshot.selections).2) ∨
    (∃ document edit, editor.document.replace snapshot.text = (document, some edit) ∧
      follow { editor with document } edit snapshot.selections now = .ok (next, events)) := by
  unfold restore at h
  split at h
  · rename_i document edit hreplace
    exact Or.inr ⟨document, edit, hreplace, h⟩
  · rename_i replaced hreplace
    obtain ⟨-, htext⟩ := Document.replace_eq_none hreplace
    refine Or.inl ⟨htext, ?_, ?_⟩
    · rw [← setSelections_eq, Except.ok.inj h]
    · rw [Except.ok.inj h]

theorem undo_eq_ok {done : Bool} (h : editor.undo now = .ok (next, events, done)) :
    (done = false ∧ editor.history.undo editor.snapshot = none ∧ next = editor ∧ events = []) ∨
    (done = true ∧ ∃ snapshot history,
      editor.history.undo editor.snapshot = some (snapshot, history) ∧
      restore { editor with history } snapshot now = .ok (next, events)) := by
  unfold undo at h
  split at h
  · rename_i snapshot history hundo
    obtain ⟨⟨restored, told⟩, hrestored, h⟩ := Fault.bind_eq_ok.mp h
    cases h
    exact Or.inr ⟨rfl, snapshot, history, hundo, hrestored⟩
  · rename_i hundo
    cases h
    exact Or.inl ⟨rfl, hundo, rfl, rfl⟩

theorem redo_eq_ok {done : Bool} (h : editor.redo now = .ok (next, events, done)) :
    (done = false ∧ editor.history.redo editor.snapshot = none ∧ next = editor ∧ events = []) ∨
    (done = true ∧ ∃ snapshot history,
      editor.history.redo editor.snapshot = some (snapshot, history) ∧
      restore { editor with history } snapshot now = .ok (next, events)) := by
  unfold redo at h
  split at h
  · rename_i snapshot history hredo
    obtain ⟨⟨restored, told⟩, hrestored, h⟩ := Fault.bind_eq_ok.mp h
    cases h
    exact Or.inr ⟨rfl, snapshot, history, hredo, hrestored⟩
  · rename_i hredo
    cases h
    exact Or.inl ⟨rfl, hredo, rfl, rfl⟩

end CodeEditor.Editor
