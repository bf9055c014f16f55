import CodeEditor.Proofs.Editor.Effects

/-!
# Results that come late

What the results of highlighting and linting do to an editor, whenever they come. A result of
highlighting, whatever it is, leaves the text, the selections, the history, the lint messages and
the viewport as they are. Lint messages that come while a pass is under way show as soon as nothing
waits and nothing runs, because the pass that was the last to run has brought them up to date.
-/

namespace CodeEditor

namespace Editor

variable {base : Layout} {editor next : Editor} {now : Nat}

/-! ## The user's context -/

/-- Everything that belongs to the user is the same. -/
structure KeepsContext (editor next : Editor) : Prop where
  text : next.document.text = editor.document.text
  revision : next.document.revision = editor.document.revision
  selections : next.selections = editor.selections
  history : next.history = editor.history
  lintMessages : next.lintMessages = editor.lintMessages
  lintRevision : next.lintRevision = editor.lintRevision
  viewport : next.viewport = editor.viewport

/-- No result of highlighting and no passing of time touches what belongs to the user, and a stale
result touches neither the styling nor the decorations and is not told of. -/
theorem session_keepsContext {settings : Settings} {highlighter : Highlighter}
    {operations : List Operation} {log : List (List Notice × Answer)}
    (h : session settings highlighter operations = .ok (editor, log)) :
    (∀ generation styled,
      KeepsContext editor (editor.complete generation styled).1 ∧
      ((editor.complete generation styled).2.2 = .stale →
        (editor.complete generation styled).1.styled = editor.styled ∧
        (editor.complete generation styled).1.decorations = editor.decorations ∧
        (editor.complete generation styled).2.1 = [])) ∧
    ∀ now, KeepsContext editor (editor.tick now).1 := by
  obtain ⟨initial, hcreate, hrun⟩ := Fault.bind_eq_ok.mp h
  have hcoherent := (Coherent.create hcreate).run hrun
  refine ⟨fun generation result ↦ ⟨?_, fun hstale ↦ ?_⟩, fun now ↦ ?_⟩
  · obtain ⟨schedule, styled, decorations, hcomplete⟩ := hcoherent.complete_eq generation result
    rw [hcomplete]
    exact ⟨rfl, rfl, rfl, rfl, rfl, rfl, rfl⟩
  · cases hcompletion : (editor.schedule.complete generation).2 with
    | stale =>
      rw [complete_of_stale hcompletion]
      exact ⟨rfl, rfl, rfl⟩
    | current =>
      rw [complete_of_current hcompletion] at hstale
      nomatch hstale
  · obtain ⟨schedule, styled, decorations, flash, htick⟩ := hcoherent.tick_eq now
    rw [htick]
    exact ⟨rfl, rfl, rfl, rfl, rfl, rfl, rfl⟩

/-- A result that reaches past the text keeps two selections and which of them is primary; the same
result for the request before it is not even shown. -/
theorem session_keepsContext_two_selections :
    let operations : List Operation :=
      [.setText "one" .plain 0, .poll 0, .editSelecting "one two" ⟨[⟨4, 7⟩, ⟨0, 1⟩], 0⟩ 10,
        .complete 2 .empty, .poll 310]
    let result : StyledText := ⟨[⟨3, 90, {}⟩], 5⟩
    ∃ editor log, session {} .plain operations = .ok (editor, log) ∧
      (editor.complete 3 result).2.2 = .current ∧
      KeepsContext editor (editor.complete 3 result).1 ∧
      (editor.complete 2 result).1.styled = editor.styled := by
  intro operations result
  obtain ⟨editor, log, hsession, hcurrent, hstale⟩ : ∃ editor log,
      session {} .plain operations = .ok (editor, log) ∧
      (editor.complete 3 result).2.2 = .current ∧ (editor.complete 2 result).2.2 = .stale :=
    ⟨_, _, rfl, rfl, rfl⟩
  obtain ⟨hcomplete, -⟩ := session_keepsContext hsession
  exact ⟨editor, log, hsession, hcurrent, (hcomplete 3 result).1,
    ((hcomplete 2 result).2 hstale).1⟩

/-! ## Lint messages -/

/-- The underlines are those of the lint messages on the lines that are there now. -/
def LintShown (editor : Editor) : Prop :=
  editor.decorations.layer Layers.lint =
    (Lint.decorations editor.document.lines editor.lintMessages).mergeSort Decoration.precedes

theorem lintShown_applyLint (editor : Editor) : editor.applyLint.LintShown :=
  (Layers.layer_replace _ _ _ _).trans (if_pos rfl)

/-- What waits and, if nothing waits, what runs belongs to the current generation; and if nothing
runs either, the lint messages are shown. -/
structure Linted (editor : Editor) : Prop where
  asked : Asked editor
  waiting_current : ∀ waiting ∈ editor.schedule.pending,
    waiting.generation = editor.schedule.generation
  running_current : editor.schedule.pending = none →
    ∀ generation ∈ editor.schedule.running, generation = editor.schedule.generation
  shown : editor.schedule.pending = none → editor.schedule.running = none → editor.LintShown

theorem linted_create {settings : Settings} {highlighter : Highlighter}
    (h : create settings highlighter = .ok editor) : Linted editor := by
  obtain ⟨layout, -, rfl⟩ := relayout_eq_ok.mp h
  exact {
    asked := ⟨rfl, fun _ h ↦ nomatch h⟩
    waiting_current := fun _ h ↦ nomatch h
    running_current := fun _ _ h ↦ nomatch h
    shown := fun _ _ ↦ by simp [LintShown, Lint.decorations] }

theorem Linted.views (h : Linted editor) (hviews : Views editor next) : Linted next := by
  constructor
  · exact hviews.toQuiet.asked h.asked
  · rw [hviews.schedule]
    exact h.waiting_current
  · rw [hviews.schedule]
    exact h.running_current
  · rw [hviews.schedule]
    unfold LintShown
    rw [hviews.document, hviews.lintMessages, hviews.underlines]
    exact h.shown

/-- A request that was just asked waits, so nothing has to be shown yet. -/
theorem Linted.asks (hasks : Asks editor next) : Linted next := by
  obtain ⟨deadline, hpending⟩ := hasks.pending
  constructor
  · exact hasks.asked
  · intro waiting hwaiting
    rw [hpending] at hwaiting
    rw [← Option.mem_some_iff.mp hwaiting]
  · intro hnone
    rw [hpending] at hnone
    nomatch hnone
  · intro hnone
    rw [hpending] at hnone
    nomatch hnone

theorem Linted.lint (h : Linted editor) (messages : List LintMessage) :
    Linted (editor.lint messages).1 := by
  unfold Editor.lint
  dsimp only
  split
  · rename_i hbusy
    refine ⟨quiet_views.asked h.asked, h.waiting_current, h.running_current,
      fun hpending hrunning ↦ ?_⟩
    have hidle : editor.schedule.state = .idle :=
      Schedule.state_eq_idle_iff.mpr ⟨hpending, hrunning⟩
    simp [Schedule.isBusy, hidle] at hbusy
  · exact ⟨quiet_views.asked h.asked, h.waiting_current, h.running_current,
      fun _ _ ↦ lintShown_applyLint _⟩

theorem Linted.poll (h : Linted editor) (now : Nat) : Linted (editor.poll now).1 := by
  obtain heq | ⟨waiting, hwaiting, hrunning, -, heq⟩ := Schedule.poll_cases editor.schedule now
  · unfold Editor.poll
    rw [heq]
    exact h
  · have hcurrent := h.waiting_current waiting hwaiting
    unfold Editor.poll
    rw [heq]
    refine ⟨⟨h.asked.theme_eq, h.asked.latest_eq⟩, nofun, fun _ generation hgeneration ↦ ?_, nofun⟩
    rw [← Option.mem_some_iff.mp hgeneration]
    exact hcurrent

/-- A stale result cannot be the last one that was waited for: if nothing waits, what runs belongs
to the current generation. -/
theorem Linted.complete (h : Linted editor) (generation : Generation) (styled : StyledText) :
    Linted (editor.complete generation styled).1 := by
  have hasked : Asked { editor with schedule := (editor.schedule.complete generation).1 } :=
    ⟨h.asked.theme_eq, h.asked.latest_eq⟩
  have hrunning : editor.schedule.pending = none →
      ∀ running ∈ (editor.schedule.complete generation).1.running,
        running = editor.schedule.generation := fun hpending running hrunning ↦
    h.running_current hpending running (Schedule.mem_running_of_complete hrunning)
  cases hcompletion : (editor.schedule.complete generation).2 with
  | stale =>
    rw [complete_of_stale hcompletion]
    refine ⟨hasked, h.waiting_current, hrunning, fun hpending hfree ↦ h.shown hpending ?_⟩
    by_contra hslot
    have hcurrent := h.running_current hpending generation
      (Schedule.running_eq_some_of_complete hslot hfree)
    rw [Schedule.complete_eq_current_iff.mpr ⟨hcurrent, hpending⟩] at hcompletion
    nomatch hcompletion
  | current =>
    rw [complete_of_current hcompletion]
    exact ⟨⟨hasked.theme_eq, hasked.latest_eq⟩, h.waiting_current, hrunning,
      fun _ _ ↦ lintShown_applyLint _⟩

theorem Linted.runHighlight (h : Linted editor) (now : Nat) :
    Linted (editor.runHighlight now).1 := by
  have hpolled := h.poll now
  unfold Editor.runHighlight
  split
  · rename_i polled job hpoll
    rw [hpoll] at hpolled
    exact hpolled.complete job.generation _
  · rename_i polled hpoll
    rwa [hpoll] at hpolled

theorem Linted.perform (h : Linted editor) (hdocument : editor.document.Coherent)
    {operation : Operation} {reply : Reply} (hreply : editor.perform operation = .ok reply) :
    Linted reply.editor := by
  cases effect_perform hreply with
  | view hviews => exact h.views hviews
  | load hresult => exact .asks (h.asked.setText hresult)
  | write hoperation hreplace hresult => exact .asks (h.asked.follow hdocument hreplace hresult)
  | theme hid => exact .asks (h.asked.asks_setTheme hid _)
  | language hlanguage => exact .asks (h.asked.asks_setLanguage hlanguage _)
  | lint => exact h.lint _
  | poll => exact h.poll _
  | complete => exact h.complete _ _
  | tick => exact (h.views (views_expireFlash editor _).1).runHighlight _

/-- Whenever nothing waits and nothing runs, replacing the underlines by those of the lint messages
on the present text would change nothing. -/
theorem lint_layer_of_idle {settings : Settings} {highlighter : Highlighter}
    {operations : List Operation} {log : List (List Notice × Answer)}
    (h : session settings highlighter operations = .ok (editor, log))
    (hidle : editor.schedule.state = .idle) :
    editor.decorations.layer Layers.lint =
      (editor.decorations.replace Layers.lint
        (Lint.decorations (.ofText editor.document.text) editor.lintMessages)).layer
          Layers.lint := by
  obtain ⟨⟨base, hcoherent⟩, hlinted⟩ := session_induction (motive := fun editor _ ↦ Linted editor)
    linted_create (fun hcoherent h hreply ↦ h.perform hcoherent.document hreply) h
  obtain ⟨hpending, hrunning⟩ := Schedule.state_eq_idle_iff.mp hidle
  rw [Layers.layer_replace, if_pos rfl, ← hcoherent.document.lines_eq]
  exact hlinted.shown hpending hrunning

/-- Messages that come while a pass runs that an edit has superseded show once the next pass is
over. -/
theorem lint_layer_of_superseded_pass :
    let operations : List Operation :=
      [.setText "x\ny" .python 0, .poll 0, .edit "x\ny\nz" 10,
        .lint [⟨2, "undefined name", .error⟩], .complete 2 .empty, .tick 310]
    ∃ editor log, session {} .plain operations = .ok (editor, log) ∧
      editor.schedule.state = .idle ∧
      editor.decorations.layer Layers.lint = [.underline 2 3 .error (some "undefined name")] := by
  intro operations
  obtain ⟨editor, log, hsession, hidle, htext, hmessages⟩ : ∃ editor log,
      session {} .plain operations = .ok (editor, log) ∧ editor.schedule.state = .idle ∧
      editor.document.text = "x\ny\nz" ∧
      editor.lintMessages = [⟨2, "undefined name", .error⟩] :=
    ⟨_, _, rfl, rfl, rfl, rfl⟩
  have hunderline : Lint.underline? (.ofText "x\ny\nz") ⟨2, "undefined name", .error⟩ =
      some (.underline 2 3 .error (some "undefined name")) := by decide
  refine ⟨editor, log, hsession, hidle, ?_⟩
  rw [lint_layer_of_idle hsession hidle, htext, hmessages, Layers.layer_replace, if_pos rfl]
  simp [Lint.decorations, hunderline]

end Editor

end CodeEditor
