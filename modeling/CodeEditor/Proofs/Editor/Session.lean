import CodeEditor.Proofs.Decoration.Render
import CodeEditor.Proofs.Editor.Faultless

/-!
# Sessions

What holds of every run of a new editor, whatever the operations are given: the views stay in step
with the text, and undo and redo are those of the ideal timeline.
-/

namespace CodeEditor.Editor

/-- Everything that is derived from the text covers it, lies in it, or is laid out as it. -/
structure InStep (config : LayoutConfig) (editor : Editor) : Prop where
  length_eq : editor.document.length = editor.document.text.toList.length
  styled_length : editor.styled.length = editor.document.length
  styled_tiles : Tiles 0 editor.document.length editor.styled.spans
  selections_separate : Selection.Separate editor.selections.all
  selections_within : ∀ selection ∈ editor.selections.all,
    selection.stop ≤ editor.document.length
  decorations_within : ∀ decoration ∈ editor.decorations.decorations,
    decoration.start ≤ decoration.stop ∧ decoration.stop ≤ editor.document.length
  rendered_tiles : Tiles 0 editor.document.length editor.rendered
  layout_fresh : ∃ layout, editor.layout = .monospace layout ∧
    (Monospace.ofConfig config).relayout editor.document.text.toList
      (.ofText editor.document.text) editor.display.fontSize = .ok layout

theorem Coherent.inStep {config : LayoutConfig} {editor : Editor}
    (h : Coherent (.monospace (.ofConfig config)) editor) : InStep config editor := by
  have htiles := h.canonical.tiles
  have hrendered := Render.compose_tiles h.canonical editor.decorations editor.theme
  rw [h.styled_length] at htiles hrendered
  obtain ⟨layout, hlayout, hsame⟩ := Fault.map_eq_ok.mp h.laid
  rw [h.document.lines_eq] at hlayout
  exact {
    length_eq := h.document.length_eq
    styled_length := h.styled_length
    styled_tiles := htiles
    selections_separate := h.selections.separate
    selections_within := h.selections.stop_le
    decorations_within := h.decorations.decorations_within
    rendered_tiles := hrendered
    layout_fresh := ⟨layout, hsame.symm, hlayout⟩ }

/-- As long as no other layout is chosen, the basic one stays. -/
theorem foldl_layout? {operations : List Operation} (base : Layout)
    (h : ∀ operation ∈ operations, operation.layout? = none) :
    operations.foldl (fun base operation ↦ operation.layout?.getD base) base = base := by
  induction operations with
  | nil => rfl
  | cons operation rest ih =>
    obtain ⟨hoperation, hrest⟩ := List.forall_mem_cons.mp h
    rw [List.foldl_cons, hoperation, Option.getD_none, ih hrest]

/-- In every state that a session with the layout of its settings reaches, the views are in step
with the text, and every session within bounds reaches one. -/
theorem session_inStep (settings : Settings) (highlighter : Highlighter)
    (operations : List Operation) (hlayout : ∀ operation ∈ operations, operation.layout? = none) :
    (∀ editor log, session settings highlighter operations = .ok (editor, log) →
      InStep settings.normalized.layout editor) ∧
    (settings.normalized.layout.Fits → (∀ operation ∈ operations, operation.Fits) →
      ∃ result, session settings highlighter operations = .ok result) := by
  constructor
  · intro editor log hsession
    obtain ⟨initial, hcreate, hrun⟩ := Fault.bind_eq_ok.mp hsession
    have hcoherent := (Coherent.create hcreate).run hrun
    rw [foldl_layout? _ hlayout] at hcoherent
    exact hcoherent.inStep
  · exact exists_session highlighter

/-- Selections and results that reach past the text leave the views in step with it. -/
theorem session_inStep_past_end :
    ∃ editor log, session { layout := { wrapWidth := some 80 } } .plain
        [.edit "a\nb" 0, .select ⟨[⟨9, 2⟩, ⟨0, 3⟩], 7⟩, .complete 1 ⟨[⟨2, 7, {}⟩], 1⟩, .jump 2 0,
          .undo 1] = .ok (editor, log) ∧
      InStep (Settings.normalized { layout := { wrapWidth := some 80 } }).layout editor := by
  obtain ⟨hstep, hexists⟩ := session_inStep { layout := { wrapWidth := some 80 } } .plain
    [.edit "a\nb" 0, .select ⟨[⟨9, 2⟩, ⟨0, 3⟩], 7⟩, .complete 1 ⟨[⟨2, 7, {}⟩], 1⟩, .jump 2 0,
      .undo 1] (by decide)
  obtain ⟨⟨editor, log⟩, hsession⟩ := hexists (by decide) (by decide)
  exact ⟨editor, log, hsession, hstep editor log hsession⟩

/-- The history of a session is the ideal timeline of its moves, its answers tell when that
timeline moved, and every session within bounds comes to its end. -/
theorem session_timeline (settings : Settings) (highlighter : Highlighter)
    (operations : List Operation) :
    (∀ editor log, session settings highlighter operations = .ok (editor, log) →
      let moves := operations.zipWith Operation.move (log.map Prod.snd)
      let ideal := Timeline.start.run settings.normalized.undoLimit moves
      log.length = operations.length ∧ editor.timeline = ideal.1 ∧
        List.Forall₂ Answer.Tells (log.map Prod.snd) ideal.2) ∧
    (settings.normalized.layout.Fits → (∀ operation ∈ operations, operation.Fits) →
      ∃ result, session settings highlighter operations = .ok result) := by
  constructor
  · intro editor log hsession
    obtain ⟨initial, hcreate, hrun⟩ := Fault.bind_eq_ok.mp hsession
    obtain ⟨hstart, hlimit, hpositive⟩ := timeline_create hcreate
    have hproper : initial.timeline.Proper initial.history.limit := by
      rw [hstart]
      exact Timeline.proper_start _
    have htimeline := timeline_run (.create hcreate) hpositive hproper hrun
    rwa [hstart, hlimit] at htimeline
  · exact exists_session highlighter

/-- With room for one snapshot, the second step back is the first that fails. -/
theorem session_timeline_limit_one :
    ∃ editor log, session { undoLimit := 1 } .plain
        [.edit "a" 0, .edit "ab" 0, .undo 1, .undo 2] = .ok (editor, log) ∧
      editor.document.text = "a" ∧
      log.map Prod.snd = [.flag true, .flag true, .flag true, .flag false] := by
  obtain ⟨htimeline, hexists⟩ := session_timeline { undoLimit := 1 } .plain
    [.edit "a" 0, .edit "ab" 0, .undo 1, .undo 2]
  obtain ⟨⟨editor, log⟩, hsession⟩ := hexists (by decide) (by decide)
  obtain ⟨hlength, hideal, htold⟩ := htimeline editor log hsession
  obtain ⟨first, second, third, fourth, rfl⟩ := List.length_eq_four.mp hlength
  have htext : editor.document.text = "a" := congrArg (·.present.text) hideal
  have hanswers : List.Forall₂ Answer.Tells ([first, second, third, fourth].map Prod.snd)
      [some true, some true, some true, some false] := htold
  simp only [List.map_cons, List.map_nil, List.forall₂_cons, Answer.Tells, Option.mem_some_iff,
    forall_eq'] at hanswers
  obtain ⟨hfirst, hsecond, hthird, hfourth, -⟩ := hanswers
  refine ⟨editor, _, hsession, htext, ?_⟩
  rw [List.map_cons, List.map_cons, List.map_cons, List.map_cons, hfirst, hsecond, hthird,
    hfourth, List.map_nil]

end CodeEditor.Editor
