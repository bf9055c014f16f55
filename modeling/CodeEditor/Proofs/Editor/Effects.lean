import CodeEditor.Proofs.Editor.Faultless
import CodeEditor.Proofs.Editor.Requests

/-!
# What operations come to

Most operations, on most editors, only change how the document is viewed: they leave the document,
the schedule and the underlines alone and tell nothing of the text. The others load or write a text,
change the theme or the language, bring lint messages, or hand out and report passes. What all of
these keep holds at the end of every session.
-/

namespace CodeEditor

/-- The operations by which the user changes the text. -/
def Operation.writes : Operation → Bool
  | edit _ _ => true
  | editSelecting _ _ _ => true
  | undo _ => true
  | redo _ => true
  | _ => false

namespace Notice

/-- The revision, text and edit of a notice that the text changed. -/
def textChange? : Notice → Option (Nat × String × Edit)
  | event (.textChanged revision text edit) => some (revision, text, edit)
  | _ => none

/-- The revision, text and language of a notice that asks for lint messages. -/
def lintRequest? : Notice → Option (Nat × String × Language)
  | event (.lintRequested revision text language) => some (revision, text, language)
  | _ => none

end Notice

/-- Nothing is told of the text. -/
def Silent (notices : List Notice) : Prop :=
  notices.filterMap Notice.textChange? = [] ∧ notices.filterMap Notice.lintRequest? = []

@[simp] theorem silent_nil : Silent [] := ⟨rfl, rfl⟩

@[simp] theorem silent_append {first second : List Notice} :
    Silent (first ++ second) ↔ Silent first ∧ Silent second := by
  unfold Silent
  simp only [List.filterMap_append, List.append_eq_nil_iff]
  tauto

namespace Editor

variable {base : Layout} {editor next : Editor} {events : List Event} {now : Nat}

/-! ## Views -/

/-- Neither the document nor anything that highlighting or linting depends on changes. -/
structure Views (editor next : Editor) : Prop extends Quiet editor next where
  document : next.document = editor.document
  lintMessages : next.lintMessages = editor.lintMessages
  underlines : next.decorations.layer Layers.lint = editor.decorations.layer Layers.lint

theorem views_self (editor : Editor) : Views editor editor := ⟨quiet_views, rfl, rfl, rfl⟩

theorem views_setScrollY (editor : Editor) (scrollY : Extent) :
    Views editor (editor.setScrollY scrollY).1 ∧
      Silent ((editor.setScrollY scrollY).2.map .event) := by
  constructor
  · obtain ⟨viewport, hviewport⟩ := setScrollY_eq editor scrollY
    rw [hviewport]
    exact ⟨quiet_views, rfl, rfl, rfl⟩
  · unfold Editor.setScrollY
    dsimp only
    split <;> exact ⟨rfl, rfl⟩

theorem silent_scrollToLine (editor : Editor) (line : Nat) :
    Silent ((editor.scrollToLine line).2.map .event) := by
  unfold scrollToLine
  split
  · exact silent_nil
  · split
    · exact (views_setScrollY editor _).2
    · split
      · exact (views_setScrollY editor _).2
      · exact silent_nil

theorem views_setViewportHeight (editor : Editor) (height : Extent) :
    Views editor (editor.setViewportHeight height).1 ∧
      Silent ((editor.setViewportHeight height).2.map .event) := by
  constructor
  · obtain ⟨viewport, hviewport⟩ := setViewportHeight_eq editor height
    rw [hviewport]
    exact ⟨quiet_views, rfl, rfl, rfl⟩
  · unfold Editor.setViewportHeight
    rw [List.map_append, silent_append]
    exact ⟨(views_setScrollY _ _).2, rfl, rfl⟩

theorem views_adjustFont {delta : Float32} {changed : Bool}
    (hnext : editor.adjustFont delta = .ok (next, events, changed)) :
    Views editor next ∧ Silent (events.map .event) := by
  constructor
  · have hquiet := quiet_adjustFont hnext
    obtain ⟨-, rfl⟩ | ⟨-, display, layout, viewport, -, -, rfl⟩ := adjustFont_eq_ok hnext
    · exact views_self _
    · exact ⟨hquiet, rfl, rfl, rfl⟩
  · unfold Editor.adjustFont at hnext
    split at hnext
    · cases hnext
      exact silent_nil
    · obtain ⟨laid, -, hnext⟩ := Fault.bind_eq_ok.mp hnext
      cases hnext
      rw [List.map_append, silent_append]
      exact ⟨(views_setScrollY _ _).2, rfl, rfl⟩

theorem views_jump {line reached : Nat}
    (hnext : editor.jump line now = .ok (next, events, reached)) :
    Views editor next ∧ Silent (events.map .event) := by
  constructor
  · have hquiet := quiet_jump hnext
    obtain ⟨-, flash, range, viewport, -, rfl⟩ := jump_eq_ok hnext
    exact ⟨hquiet, rfl, rfl, Layers.layer_replace _ _ _ _⟩
  · obtain ⟨started, -, hnext⟩ := Fault.bind_eq_ok.mp hnext
    cases hnext
    rw [List.map_append, silent_append]
    exact ⟨silent_scrollToLine _ _, rfl, rfl⟩

theorem views_setSelections (editor : Editor) (selections : SelectionSet) :
    Views editor (editor.setSelections selections).1 ∧
      Silent ((editor.setSelections selections).2.map .event) := by
  constructor
  · rw [setSelections_eq]
    exact ⟨quiet_views, rfl, rfl, rfl⟩
  · unfold setSelections
    dsimp only
    split <;> exact ⟨rfl, rfl⟩

theorem views_useLayout {layout : Layout} (hnext : editor.useLayout layout = .ok next) :
    Views editor next := by
  obtain ⟨laid, -, rfl⟩ := relayout_eq_ok.mp hnext
  exact ⟨quiet_views, rfl, rfl, rfl⟩

theorem views_expireFlash (editor : Editor) (now : Nat) :
    Views editor (editor.expireFlash now).1 ∧
      Silent ((editor.expireFlash now).2.map .event) := by
  unfold Editor.expireFlash
  split
  · exact ⟨⟨quiet_views, rfl, rfl, Layers.layer_clear _ _ _⟩, rfl, rfl⟩
  · exact ⟨views_self editor, silent_nil⟩

/-! ## Results -/

theorem silent_complete (editor : Editor) (generation : Generation) (styled : StyledText) :
    Silent ((editor.complete generation styled).2.1.map .event) := by
  cases hcompletion : (editor.schedule.complete generation).2 with
  | stale =>
    rw [complete_of_stale hcompletion]
    exact silent_nil
  | current =>
    rw [complete_of_current hcompletion]
    exact ⟨rfl, rfl⟩

theorem silent_runHighlight (editor : Editor) (now : Nat) :
    Silent (editor.runHighlight now).2 := by
  unfold Editor.runHighlight
  split
  · exact silent_complete _ _ _
  · exact silent_nil

theorem silent_tick (editor : Editor) (now : Nat) : Silent (editor.tick now).2 :=
  silent_append.mpr ⟨(views_expireFlash editor now).2, silent_runHighlight _ now⟩

theorem silent_lint (editor : Editor) (messages : List LintMessage) :
    Silent ((editor.lint messages).2.map .event) := by
  unfold Editor.lint
  dsimp only
  split <;> exact ⟨rfl, rfl⟩

/-! ## All operations -/

/-- What an operation comes to. -/
inductive Effect (editor : Editor) : Operation → Reply → Prop
  | view {operation : Operation} {reply : Reply} (hviews : Views editor reply.editor)
    (hsilent : Silent reply.notices) : Effect editor operation reply
  | load {text : String} {language : Language} {now : Nat} {result : Editor × List Event}
    (hresult : editor.setText text language now = .ok result) :
    Effect editor (.setText text language now) (.ofEvents result)
  | write {operation : Operation} {text : String} {document : Document} {edit : Edit}
    {history : History} {selections : Option SelectionSet} {now : Nat}
    {result : Editor × List Event} (hoperation : operation.writes = true)
    (hreplace : editor.document.replace text = (document, some edit))
    (hresult : follow { editor with document, history } edit selections now = .ok result) :
    Effect editor operation ⟨result.1, result.2.map .event, .flag true⟩
  | theme {id : String} {now : Nat} (hid : id ≠ editor.display.themeId) :
    Effect editor (.setTheme id now) (.ofEvents (editor.setTheme id now))
  | language {language : Language} {now : Nat} (hlanguage : language ≠ editor.document.language) :
    Effect editor (.setLanguage language now) (.ofEvents (editor.setLanguage language now))
  | lint {operation : Operation} {messages : List LintMessage} {answer : Answer} :
    Effect editor operation
      ⟨(editor.lint messages).1, (editor.lint messages).2.map .event, answer⟩
  | poll {now : Nat} :
    Effect editor (.poll now) ⟨(editor.poll now).1, [], .job (editor.poll now).2⟩
  | complete {generation : Generation} {styled : StyledText} :
    Effect editor (.complete generation styled)
      (.ofAnswer .completion (editor.complete generation styled))
  | tick {now : Nat} : Effect editor (.tick now) ⟨(editor.tick now).1, (editor.tick now).2, .nothing⟩

theorem effect_edit {operation : Operation} (hoperation : operation.writes = true) {text : String}
    {selections : Option SelectionSet} {result : Editor × List Event × Bool}
    (hresult : editor.edit text selections now = .ok result) :
    Effect editor operation (.ofAnswer .flag result) := by
  obtain ⟨next, events, changed⟩ := result
  obtain ⟨-, -, rfl, rfl⟩ | ⟨rfl, document, edit, hreplace, hfollow⟩ := edit_eq_ok hresult
  · cases selections with
    | none => exact .view (views_self editor) silent_nil
    | some selections =>
      exact .view ⟨quiet_views, rfl, rfl, rfl⟩ (views_setSelections editor selections).2
  · exact .write hoperation hreplace hfollow

theorem effect_restore {operation : Operation} (hoperation : operation.writes = true)
    {snapshot : Snapshot} {history : History} {result : Editor × List Event}
    (hresult : restore { editor with history } snapshot now = .ok result) :
    Effect editor operation ⟨result.1, result.2.map .event, .flag true⟩ := by
  obtain ⟨next, events⟩ := result
  obtain ⟨-, rfl, rfl⟩ | ⟨document, edit, hreplace, hfollow⟩ := restore_eq_ok hresult
  · exact .view ⟨quiet_views, rfl, rfl, rfl⟩ (views_setSelections _ snapshot.selections).2
  · exact .write hoperation hreplace hfollow

theorem effect_undo {operation : Operation} (hoperation : operation.writes = true)
    {result : Editor × List Event × Bool} (hresult : editor.undo now = .ok result) :
    Effect editor operation (.ofAnswer .flag result) := by
  obtain ⟨next, events, done⟩ := result
  obtain ⟨-, -, rfl, rfl⟩ | ⟨rfl, snapshot, history, -, hrestore⟩ := undo_eq_ok hresult
  · exact .view (views_self next) silent_nil
  · exact effect_restore hoperation hrestore

theorem effect_redo {operation : Operation} (hoperation : operation.writes = true)
    {result : Editor × List Event × Bool} (hresult : editor.redo now = .ok result) :
    Effect editor operation (.ofAnswer .flag result) := by
  obtain ⟨next, events, done⟩ := result
  obtain ⟨-, -, rfl, rfl⟩ | ⟨rfl, snapshot, history, -, hrestore⟩ := redo_eq_ok hresult
  · exact .view (views_self next) silent_nil
  · exact effect_restore hoperation hrestore

theorem effect_perform {operation : Operation} {reply : Reply}
    (hreply : editor.perform operation = .ok reply) : Effect editor operation reply := by
  cases operation with
  | setText text language now =>
    obtain ⟨result, hresult, rfl⟩ := Fault.map_eq_ok.mp hreply
    exact .load hresult
  | edit text now =>
    obtain ⟨result, hresult, rfl⟩ := Fault.map_eq_ok.mp hreply
    exact effect_edit rfl hresult
  | editSelecting text selections now =>
    obtain ⟨result, hresult, rfl⟩ := Fault.map_eq_ok.mp hreply
    exact effect_edit rfl hresult
  | undo now =>
    obtain ⟨result, hresult, rfl⟩ := Fault.map_eq_ok.mp hreply
    exact effect_undo rfl hresult
  | redo now =>
    obtain ⟨result, hresult, rfl⟩ := Fault.map_eq_ok.mp hreply
    exact effect_redo rfl hresult
  | poll now =>
    obtain rfl := Except.ok.inj hreply
    exact .poll
  | complete generation styled =>
    obtain rfl := Except.ok.inj hreply
    exact .complete
  | tick now =>
    obtain rfl := Except.ok.inj hreply
    exact .tick
  | lint messages =>
    obtain rfl := Except.ok.inj hreply
    exact .lint
  | lintFor revision messages =>
    obtain rfl := Except.ok.inj hreply
    unfold Editor.lintFor
    split
    · exact .lint
    · exact .view (views_self editor) silent_nil
  | increaseFont =>
    obtain ⟨result, hresult, rfl⟩ := Fault.map_eq_ok.mp hreply
    obtain ⟨hviews, hsilent⟩ := views_adjustFont hresult
    exact .view hviews hsilent
  | decreaseFont =>
    obtain ⟨result, hresult, rfl⟩ := Fault.map_eq_ok.mp hreply
    obtain ⟨hviews, hsilent⟩ := views_adjustFont hresult
    exact .view hviews hsilent
  | adjustFont delta =>
    obtain ⟨result, hresult, rfl⟩ := Fault.map_eq_ok.mp hreply
    obtain ⟨hviews, hsilent⟩ := views_adjustFont hresult
    exact .view hviews hsilent
  | setTheme id now =>
    obtain rfl := Except.ok.inj hreply
    by_cases hid : id = editor.display.themeId
    · unfold Editor.setTheme
      rw [if_pos hid]
      exact .view (views_self editor) silent_nil
    · exact .theme hid
  | setLanguage language now =>
    obtain rfl := Except.ok.inj hreply
    by_cases hlanguage : language = editor.document.language
    · unfold Editor.setLanguage
      rw [if_pos hlanguage]
      exact .view (views_self editor) silent_nil
    · exact .language hlanguage
  | jump line now =>
    obtain ⟨result, hresult, rfl⟩ := Fault.map_eq_ok.mp hreply
    obtain ⟨hviews, hsilent⟩ := views_jump hresult
    exact .view hviews hsilent
  | click y now =>
    obtain ⟨result, hresult, rfl⟩ := Fault.map_eq_ok.mp hreply
    obtain ⟨hviews, hsilent⟩ := views_jump hresult
    exact .view hviews hsilent
  | select selections =>
    obtain rfl := Except.ok.inj hreply
    obtain ⟨hviews, hsilent⟩ := views_setSelections editor selections
    exact .view hviews hsilent
  | setViewportHeight height =>
    obtain rfl := Except.ok.inj hreply
    obtain ⟨hviews, hsilent⟩ := views_setViewportHeight editor height
    exact .view hviews hsilent
  | scroll y =>
    obtain rfl := Except.ok.inj hreply
    obtain ⟨hviews, hsilent⟩ := views_setScrollY editor y
    exact .view hviews hsilent
  | useLayout layout =>
    obtain ⟨result, hresult, rfl⟩ := Fault.map_eq_ok.mp hreply
    exact .view (views_useLayout hresult) silent_nil

/-! ## Sessions -/

/-- What every operation keeps on a coherent editor, together with all that was told and answered,
a run keeps. -/
theorem run_induction {motive : Editor → List (List Notice × Answer) → Prop}
    (hperform : ∀ {base : Layout} {editor : Editor} {log : List (List Notice × Answer)}
      {operation : Operation} {reply : Reply}, Coherent base editor → motive editor log →
      editor.perform operation = .ok reply →
      motive reply.editor (log ++ [(reply.notices, reply.answer)]))
    {operations : List Operation} {before log : List (List Notice × Answer)}
    (h : Coherent base editor) (hbefore : motive editor before)
    (hrun : editor.run operations = .ok (next, log)) : motive next (before ++ log) := by
  induction operations generalizing base editor before log with
  | nil =>
    cases hrun
    rwa [List.append_nil]
  | cons operation rest ih =>
    obtain ⟨reply, hreply, hrun⟩ := Fault.bind_eq_ok.mp hrun
    obtain ⟨⟨reached, more⟩, hrest, hrun⟩ := Fault.bind_eq_ok.mp hrun
    cases hrun
    rw [List.append_cons]
    exact ih (h.perform hreply) (hperform h hbefore hreply) hrest

/-- What holds of a new editor and is kept by every operation holds at the end of every session. -/
theorem session_induction {motive : Editor → List (List Notice × Answer) → Prop}
    {settings : Settings} {highlighter : Highlighter}
    (hcreate : ∀ {editor : Editor}, create settings highlighter = .ok editor → motive editor [])
    (hperform : ∀ {base : Layout} {editor : Editor} {log : List (List Notice × Answer)}
      {operation : Operation} {reply : Reply}, Coherent base editor → motive editor log →
      editor.perform operation = .ok reply →
      motive reply.editor (log ++ [(reply.notices, reply.answer)]))
    {operations : List Operation} {log : List (List Notice × Answer)}
    (hsession : session settings highlighter operations = .ok (editor, log)) :
    (∃ base, Coherent base editor) ∧ motive editor log := by
  obtain ⟨initial, hinitial, hrun⟩ := Fault.bind_eq_ok.mp hsession
  have hcoherent := Coherent.create hinitial
  exact ⟨⟨_, hcoherent.run hrun⟩, run_induction hperform hcoherent (hcreate hinitial) hrun⟩

end Editor

end CodeEditor
