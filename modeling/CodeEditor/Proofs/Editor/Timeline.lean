import CodeEditor.Proofs.Editor.Coherence
import CodeEditor.Proofs.History

/-!
# Editors as timelines

Each operation is a move on the ideal timeline. The history of an editor together with its present
text and selections is the timeline that these moves lead to, and what undo, redo and edits answer
is whether the timeline moved.
-/

namespace CodeEditor

/-- What an operation means for the timeline, given what it answered. -/
def Operation.move : Operation → Answer → Timeline.Move
  | setText text _ _, _ => .load text
  | edit text _, _ => .write text none
  | editSelecting text selections _, _ => .write text (some selections)
  | undo _, _ => .back
  | redo _, _ => .forth
  | select selections, _ => .select selections
  | jump line _, _ => .goTo line
  | click _ _, .line reached => .goTo reached
  | _, _ => .stay

/-- The answer tells whether the timeline moved, where that is asked. -/
def Answer.Tells (answer : Answer) (moved : Option Bool) : Prop :=
  ∀ value ∈ moved, answer = .flag value

namespace Editor

def timeline (editor : Editor) : Timeline :=
  ⟨editor.history.past, editor.snapshot, editor.history.future⟩

variable {base : Layout} {editor next : Editor} {events : List Event} {now : Nat}

/-- From one editor to the next, the timeline made the move, and the answer tells of it. -/
structure Moved (editor : Editor) (move : Timeline.Move) (next : Editor) (answer : Answer) :
    Prop where
  limit : next.history.limit = editor.history.limit
  timeline : next.timeline = (editor.timeline.move editor.history.limit move).1
  answer : answer.Tells (editor.timeline.move editor.history.limit move).2

theorem moved_of_move {move : Timeline.Move} {done : Bool}
    (hlimit : next.history.limit = editor.history.limit)
    (hmove : editor.timeline.move editor.history.limit move = (next.timeline, some done)) :
    Moved editor move next (.flag done) := by
  refine ⟨hlimit, ?_, ?_⟩
  · rw [hmove]
  · rw [hmove]
    intro value hvalue
    rw [Option.mem_some_iff.mp hvalue]

theorem settled_snapshot (h : Coherent base editor) : editor.snapshot.Settled := by
  have hselections := h.selections
  rwa [h.document.length_eq] at hselections

/-! ## Selecting -/

theorem moved_select (h : Coherent base editor) (selections : SelectionSet) {answer : Answer} :
    Moved editor (.select selections) (editor.setSelections selections).1 answer := by
  rw [setSelections_eq, h.document.length_eq]
  exact ⟨rfl, rfl, fun _ h ↦ (nomatch h)⟩

/-- A jump goes to the line asked for, which is to go to the line reached. -/
theorem moved_jump (h : Coherent base editor) {line reached : Nat} {answer : Answer}
    (hnext : editor.jump line now = .ok (next, events, reached)) :
    Moved editor (.goTo line) next answer ∧ Moved editor (.goTo reached) next answer := by
  obtain ⟨hreached, flash, range, viewport, hrange, rfl⟩ := jump_eq_ok hnext
  have hagain : max 1 (min reached editor.document.lines.count) = reached := by
    omega
  have hgoTo (asked : Nat) (hasked : max 1 (min asked editor.document.lines.count) = reached) :
      editor.snapshot.goTo asked = { editor.snapshot with
        selections := .single (.between range.start range.stop) } := by
    have hlines : LineIndex.ofText editor.snapshot.text = editor.document.lines :=
      h.document.lines_eq.symm
    unfold Snapshot.goTo
    rw [hlines]
    dsimp only
    rw [hasked, hrange]
  have hmoved (asked : Nat) (hasked : max 1 (min asked editor.document.lines.count) = reached) :
      Moved editor (.goTo asked) { editor with
        flash
        selections := .single (.between range.start range.stop)
        decorations := editor.decorations.replace Layers.flash [.flash range.start range.stop]
        viewport } answer := by
    refine ⟨rfl, ?_, fun _ h ↦ (nomatch h)⟩
    change _ = Timeline.mk editor.history.past (editor.snapshot.goTo asked) editor.history.future
    rw [hgoTo asked hasked]
    rfl
  exact ⟨hmoved line hreached.symm, hmoved reached hagain⟩

/-! ## Changing the text -/

/-- A change leaves the text and the selections as the timeline writes them. -/
theorem follow_snapshot (h : Coherent base editor) {text : String} {document : Document}
    {edit : Edit} (hreplace : editor.document.replace text = (document, some edit))
    {history : History} {selections : Option SelectionSet}
    (hnext : follow { editor with document, history } edit selections now = .ok (next, events)) :
    Edit.between editor.snapshot.text.toList text.toList = some edit ∧
      next.history = history ∧
      next.snapshot =
        Snapshot.clamped ⟨text, selections.getD (editor.snapshot.selections.carry edit)⟩ := by
  obtain ⟨styled, layout, -, -, rfl, -⟩ := follow_eq_ok hnext
  have hreplaced := Document.replace_eq_some h.document hreplace
  refine ⟨hreplaced.between_eq, rfl, ?_⟩
  unfold Snapshot.clamped
  rw [← hreplaced.text_eq, ← hreplaced.coherent.length_eq]
  rfl

/-- A settled snapshot comes back exactly as it was put away. -/
theorem restore_snapshot (h : Coherent base editor) {snapshot : Snapshot}
    (hsnapshot : snapshot.Settled) {history : History}
    (hnext : restore { editor with history } snapshot now = .ok (next, events)) :
    next.history = history ∧ next.snapshot = snapshot := by
  obtain ⟨htext, rfl, -⟩ | ⟨document, edit, hreplace, hnext⟩ := restore_eq_ok hnext
  · refine ⟨rfl, ?_⟩
    have htext' : snapshot.text = editor.document.text := htext
    calc
      Snapshot.mk editor.document.text (snapshot.selections.clamp editor.document.length) =
          snapshot.clamped := by
        unfold Snapshot.clamped
        rw [htext', h.document.length_eq]
      _ = snapshot := hsnapshot.clamped_eq
  · obtain ⟨-, hhistory, hrestored⟩ := follow_snapshot h hreplace hnext
    exact ⟨hhistory, hrestored.trans hsnapshot.clamped_eq⟩

theorem moved_edit (h : Coherent base editor) (hlimit : 1 ≤ editor.history.limit)
    (hproper : editor.timeline.Proper editor.history.limit) {text : String}
    {selections : Option SelectionSet} {changed : Bool}
    (hnext : editor.edit text selections now = .ok (next, events, changed)) :
    Moved editor (.write text selections) next (.flag changed) := by
  obtain ⟨rfl, rfl, rfl, -⟩ | ⟨rfl, document, edit, hreplace, hnext⟩ := edit_eq_ok hnext
  · have hbetween : Edit.between editor.snapshot.text.toList editor.document.text.toList = none :=
      Edit.between_eq_none_iff.mpr rfl
    have hpresent : Snapshot.clamped ⟨editor.document.text, selections.getD editor.selections⟩ =
        ⟨editor.document.text,
          (selections.map (·.clamp editor.document.length)).getD editor.selections⟩ := by
      cases selections with
      | none => exact (settled_snapshot h).clamped_eq
      | some selections =>
        rw [h.document.length_eq]
        rfl
    apply moved_of_move
    · rfl
    · unfold Timeline.move Editor.timeline
      dsimp only
      rw [hbetween]
      dsimp only
      rw [show editor.snapshot.selections = editor.selections from rfl, hpresent]
      rfl
  · obtain ⟨hbetween, hhistory, hsnapshot⟩ := follow_snapshot h hreplace hnext
    have hrecord := History.record_eq hlimit hproper.length_past_le editor.snapshot
    apply moved_of_move
    · rw [hhistory, hrecord]
    · unfold Timeline.move Editor.timeline
      dsimp only
      rw [hbetween, hhistory, hsnapshot, hrecord]

theorem moved_setText (h : Coherent base editor) {text : String} {language : Language}
    {answer : Answer} (hnext : editor.setText text language now = .ok (next, events)) :
    Moved editor (.load text) next answer := by
  obtain ⟨document, hreplace, rfl, -⟩ | ⟨document, edit, layout, hreplace, -, rfl, -⟩ :=
    setText_eq_ok hnext
  · obtain ⟨rfl, rfl⟩ := Document.replace_eq_none hreplace
    refine ⟨rfl, ?_, fun _ h ↦ (nomatch h)⟩
    unfold Timeline.move Editor.timeline
    dsimp only
    rw [if_pos (show editor.document.text = editor.snapshot.text from rfl)]
    rfl
  · have hreplaced := Document.replace_eq_some h.document hreplace
    refine ⟨rfl, ?_, fun _ h ↦ (nomatch h)⟩
    unfold Timeline.move Editor.timeline
    dsimp only
    rw [if_neg (show text ≠ editor.snapshot.text from hreplaced.text_ne), ← hreplaced.text_eq]
    rfl

/-! ## Going back and forth -/

theorem moved_undo (h : Coherent base editor)
    (hproper : editor.timeline.Proper editor.history.limit) {done : Bool}
    (hnext : editor.undo now = .ok (next, events, done)) :
    Moved editor .back next (.flag done) := by
  obtain ⟨rfl, hundo, hsame, -⟩ | ⟨rfl, snapshot, history, hundo, hnext⟩ := undo_eq_ok hnext
  · subst next
    have hpast : editor.history.past = [] := History.past_of_undo_eq_none hundo
    apply moved_of_move rfl
    unfold Timeline.move Editor.timeline
    dsimp only
    rw [hpast]
  · obtain ⟨hpast, hlimit, hfuture⟩ := History.undo_eq_some hundo
    have hsettled : snapshot.Settled := by
      apply hproper.settled
      unfold Timeline.others Editor.timeline
      dsimp only
      rw [hpast]
      exact List.mem_cons_self
    obtain ⟨hhistory, hsnapshot⟩ := restore_snapshot h hsettled hnext
    apply moved_of_move
    · rw [hhistory, hlimit]
    · unfold Timeline.move Editor.timeline
      dsimp only
      rw [hpast, hhistory, hsnapshot, hfuture]

/-- Nothing is given up on the way forth: what was undone had been there before. -/
theorem moved_redo (h : Coherent base editor)
    (hproper : editor.timeline.Proper editor.history.limit) {done : Bool}
    (hnext : editor.redo now = .ok (next, events, done)) :
    Moved editor .forth next (.flag done) := by
  obtain ⟨rfl, hredo, hsame, -⟩ | ⟨rfl, snapshot, history, hredo, hnext⟩ := redo_eq_ok hnext
  · subst next
    have hfuture : editor.history.future = [] := History.future_of_redo_eq_none hredo
    apply moved_of_move rfl
    unfold Timeline.move Editor.timeline
    dsimp only
    rw [hfuture]
  · obtain ⟨future, hfuture, rfl⟩ := History.redo_eq_some hredo
    have hothers : editor.timeline.others = editor.history.past ++ snapshot :: future := by
      unfold Timeline.others Editor.timeline
      dsimp only
      rw [hfuture]
    have hroom : editor.history.past.length < editor.history.limit := by
      have hlength := hproper.length_le
      rw [hothers, List.length_append, List.length_cons] at hlength
      omega
    have hsettled : snapshot.Settled := by
      apply hproper.settled
      rw [hothers]
      exact List.mem_append_right _ List.mem_cons_self
    rw [History.remember_eq hroom] at hnext
    obtain ⟨hhistory, hsnapshot⟩ := restore_snapshot h hsettled hnext
    apply moved_of_move
    · rw [hhistory]
    · unfold Timeline.move Editor.timeline
      dsimp only
      rw [hfuture, hhistory, hsnapshot]

/-! ## Everything else -/

/-- The history, the text and the selections are the same. -/
def Stays (editor next : Editor) : Prop :=
  next.history = editor.history ∧ next.snapshot = editor.snapshot

theorem Stays.moved {answer : Answer} (h : Stays editor next) : Moved editor .stay next answer := by
  refine ⟨congrArg History.limit h.1, ?_, fun _ h ↦ (nomatch h)⟩
  change next.timeline = editor.timeline
  unfold Editor.timeline
  rw [h.1, h.2]

theorem stays_complete (h : Coherent base editor) (generation : Generation) (styled : StyledText) :
    Stays editor (editor.complete generation styled).1 := by
  obtain ⟨schedule, styled, decorations, hcomplete⟩ := h.complete_eq generation styled
  rw [hcomplete]
  exact ⟨rfl, rfl⟩

theorem stays_tick (h : Coherent base editor) (now : Nat) : Stays editor (editor.tick now).1 := by
  obtain ⟨schedule, styled, decorations, flash, htick⟩ := h.tick_eq now
  rw [htick]
  exact ⟨rfl, rfl⟩

theorem stays_lint (editor : Editor) (messages : List LintMessage) :
    Stays editor (editor.lint messages).1 := by
  obtain ⟨decorations, hlint⟩ := lint_eq editor messages
  rw [hlint]
  exact ⟨rfl, rfl⟩

theorem stays_lintFor (editor : Editor) (revision : Nat) (messages : List LintMessage) :
    Stays editor (editor.lintFor revision messages).1 := by
  unfold Editor.lintFor
  split
  · exact stays_lint editor messages
  · exact ⟨rfl, rfl⟩

theorem stays_adjustFont {delta : Float32} {changed : Bool}
    (hnext : editor.adjustFont delta = .ok (next, events, changed)) : Stays editor next := by
  obtain ⟨-, rfl⟩ | ⟨-, display, layout, viewport, -, -, rfl⟩ := adjustFont_eq_ok hnext
  · exact ⟨rfl, rfl⟩
  · exact ⟨rfl, rfl⟩

theorem stays_setTheme (editor : Editor) (id : String) (now : Nat) :
    Stays editor (editor.setTheme id now).1 := by
  unfold Editor.setTheme
  split <;> exact ⟨rfl, rfl⟩

theorem stays_setLanguage (editor : Editor) (language : Language) (now : Nat) :
    Stays editor (editor.setLanguage language now).1 := by
  unfold Editor.setLanguage
  split <;> exact ⟨rfl, rfl⟩

theorem stays_setScrollY (editor : Editor) (scrollY : Extent) :
    Stays editor (editor.setScrollY scrollY).1 := by
  obtain ⟨viewport, hviewport⟩ := setScrollY_eq editor scrollY
  rw [hviewport]
  exact ⟨rfl, rfl⟩

theorem stays_setViewportHeight (editor : Editor) (height : Extent) :
    Stays editor (editor.setViewportHeight height).1 := by
  obtain ⟨viewport, hviewport⟩ := setViewportHeight_eq editor height
  rw [hviewport]
  exact ⟨rfl, rfl⟩

/-! ## Runs -/

/-- Each operation is a move on the timeline. -/
theorem moved_perform (h : Coherent base editor) (hlimit : 1 ≤ editor.history.limit)
    (hproper : editor.timeline.Proper editor.history.limit) {operation : Operation}
    {reply : Reply} (hreply : editor.perform operation = .ok reply) :
    Moved editor (operation.move reply.answer) reply.editor reply.answer := by
  cases operation with
  | setText text language now =>
    obtain ⟨result, hresult, rfl⟩ := Fault.map_eq_ok.mp hreply
    exact moved_setText h hresult
  | edit text now =>
    obtain ⟨result, hresult, rfl⟩ := Fault.map_eq_ok.mp hreply
    exact moved_edit h hlimit hproper hresult
  | editSelecting text selections now =>
    obtain ⟨result, hresult, rfl⟩ := Fault.map_eq_ok.mp hreply
    exact moved_edit h hlimit hproper hresult
  | undo now =>
    obtain ⟨result, hresult, rfl⟩ := Fault.map_eq_ok.mp hreply
    exact moved_undo h hproper hresult
  | redo now =>
    obtain ⟨result, hresult, rfl⟩ := Fault.map_eq_ok.mp hreply
    exact moved_redo h hproper hresult
  | poll now =>
    obtain rfl := Except.ok.inj hreply
    exact Stays.moved ⟨rfl, rfl⟩
  | complete generation styled =>
    obtain rfl := Except.ok.inj hreply
    exact (stays_complete h generation styled).moved
  | tick now =>
    obtain rfl := Except.ok.inj hreply
    exact (stays_tick h now).moved
  | lint messages =>
    obtain rfl := Except.ok.inj hreply
    exact (stays_lint editor messages).moved
  | lintFor revision messages =>
    obtain rfl := Except.ok.inj hreply
    exact (stays_lintFor editor revision messages).moved
  | increaseFont =>
    obtain ⟨result, hresult, rfl⟩ := Fault.map_eq_ok.mp hreply
    exact (stays_adjustFont hresult).moved
  | decreaseFont =>
    obtain ⟨result, hresult, rfl⟩ := Fault.map_eq_ok.mp hreply
    exact (stays_adjustFont hresult).moved
  | adjustFont delta =>
    obtain ⟨result, hresult, rfl⟩ := Fault.map_eq_ok.mp hreply
    exact (stays_adjustFont hresult).moved
  | setTheme id now =>
    obtain rfl := Except.ok.inj hreply
    exact (stays_setTheme editor id now).moved
  | setLanguage language now =>
    obtain rfl := Except.ok.inj hreply
    exact (stays_setLanguage editor language now).moved
  | jump line now =>
    obtain ⟨result, hresult, rfl⟩ := Fault.map_eq_ok.mp hreply
    exact (moved_jump h hresult).1
  | click y now =>
    obtain ⟨result, hresult, rfl⟩ := Fault.map_eq_ok.mp hreply
    exact (moved_jump h hresult).2
  | select selections =>
    obtain rfl := Except.ok.inj hreply
    exact moved_select h selections
  | setViewportHeight height =>
    obtain rfl := Except.ok.inj hreply
    exact (stays_setViewportHeight editor height).moved
  | scroll y =>
    obtain rfl := Except.ok.inj hreply
    exact (stays_setScrollY editor y).moved
  | useLayout layout =>
    obtain ⟨result, hresult, rfl⟩ := Fault.map_eq_ok.mp hreply
    obtain ⟨laid, -, rfl⟩ := relayout_eq_ok.mp hresult
    exact Stays.moved ⟨rfl, rfl⟩

theorem timeline_create {settings : Settings} {highlighter : Highlighter}
    (h : create settings highlighter = .ok editor) :
    editor.timeline = .start ∧ editor.history.limit = settings.normalized.undoLimit ∧
      1 ≤ editor.history.limit := by
  obtain ⟨layout, -, rfl⟩ := relayout_eq_ok.mp h
  have hlimit : 1 ≤ settings.normalized.undoLimit := Nat.le_max_right _ _
  exact ⟨rfl, Nat.max_eq_left hlimit, Nat.le_max_right _ _⟩

/-- The moves of a run lead the timeline of its first editor to that of its last. -/
theorem timeline_run {operations : List Operation} {log : List (List Notice × Answer)}
    (h : Coherent base editor) (hlimit : 1 ≤ editor.history.limit)
    (hproper : editor.timeline.Proper editor.history.limit)
    (hrun : editor.run operations = .ok (next, log)) :
    let moves := operations.zipWith Operation.move (log.map Prod.snd)
    let ideal := editor.timeline.run editor.history.limit moves
    log.length = operations.length ∧ next.timeline = ideal.1 ∧
      List.Forall₂ Answer.Tells (log.map Prod.snd) ideal.2 := by
  induction operations generalizing base editor log with
  | nil =>
    cases hrun
    exact ⟨rfl, rfl, List.Forall₂.nil⟩
  | cons operation rest ih =>
    obtain ⟨reply, hreply, hrun⟩ := Fault.bind_eq_ok.mp hrun
    obtain ⟨⟨reached, more⟩, hrest, hrun⟩ := Fault.bind_eq_ok.mp hrun
    cases hrun
    have hmoved := moved_perform h hlimit hproper hreply
    have hproper' := hproper.move (settled_snapshot h) (operation.move reply.answer)
    rw [← hmoved.timeline, ← hmoved.limit] at hproper'
    obtain ⟨hlength, htimeline, htold⟩ :=
      ih (h.perform hreply) (hmoved.limit ▸ hlimit) hproper' hrest
    rw [hmoved.timeline, hmoved.limit] at htimeline htold
    exact ⟨congrArg (· + 1) hlength, htimeline, List.Forall₂.cons hmoved.answer htold⟩

end Editor

end CodeEditor
