import CodeEditor.Proofs.Editor.Steps

/-!
# What operations ask of the highlighter

Apart from those that hand out passes or report them, an operation either leaves the styling, the
schedule and everything that enters a request as they are, or asks for what is there after it,
under a new number. No request is repeated, because the latest one is always the present one.
-/

namespace CodeEditor

/-- The operation hands out a pass or reports one. -/
def Operation.handlesPass : Operation → Bool
  | poll _ => true
  | complete _ _ => true
  | tick _ => true
  | _ => false

/-- The jobs that an answer hands out. -/
def Answer.jobs : Answer → List Job
  | .job handed => handed.toList
  | _ => []

namespace Editor

/-- The theme is the one displayed, and the latest request is what would be asked now. -/
structure Asked (editor : Editor) : Prop where
  theme_eq : editor.theme = editor.highlighter.themeOrDefault editor.display.themeId
  latest_eq : ∀ request ∈ editor.schedule.latest, request = editor.request

/-- The operation neither changes what would be asked nor asks. -/
structure Quiet (editor next : Editor) : Prop where
  highlighter : next.highlighter = editor.highlighter
  theme : next.theme = editor.theme
  schedule : next.schedule = editor.schedule
  request : next.request = editor.request
  styled : next.styled = editor.styled

/-- The operation asks for what is there now under a new number. -/
structure Asks (editor next : Editor) : Prop where
  highlighter : next.highlighter = editor.highlighter
  theme : next.theme = next.highlighter.themeOrDefault next.display.themeId
  generation : next.schedule.generation ≠ editor.schedule.generation
  latest : next.schedule.latest = some next.request
  pending : ∃ deadline,
    next.schedule.pending = some ⟨next.request, next.schedule.generation, deadline⟩
  running : next.schedule.running = editor.schedule.running

variable {editor next : Editor} {events : List Event} {now : Nat}

theorem Quiet.asked (h : Asked editor) (hquiet : Quiet editor next) : Asked next := by
  have hthemeId : next.display.themeId = editor.display.themeId :=
    congrArg HighlightRequest.themeId hquiet.request
  constructor
  · rw [hquiet.theme, hquiet.highlighter, hthemeId, h.theme_eq]
  · rw [hquiet.schedule, hquiet.request]
    exact h.latest_eq

theorem Asks.asked (hasks : Asks editor next) : Asked next := by
  refine ⟨hasks.theme, fun request hrequest ↦ ?_⟩
  rw [hasks.latest] at hrequest
  exact (Option.mem_some_iff.mp hrequest).symm

/-! ## Operations that ask nothing -/

/-- What lies on the text and how it is viewed does not enter a request. -/
theorem quiet_views {selections : SelectionSet} {history : History} {decorations : Layers}
    {lintMessages : List LintMessage} {lintRevision : Option Nat} {layout : Layout}
    {viewport : Viewport} {flash : Flash} :
    Quiet editor { editor with
      selections, history, decorations, lintMessages, lintRevision, layout, viewport, flash } :=
  ⟨rfl, rfl, rfl, rfl, rfl⟩

theorem quiet_jump {line reached : Nat}
    (hnext : editor.jump line now = .ok (next, events, reached)) : Quiet editor next := by
  obtain ⟨-, flash, range, viewport, -, rfl⟩ := jump_eq_ok hnext
  exact quiet_views

theorem quiet_adjustFont {delta : Float32} {changed : Bool}
    (hnext : editor.adjustFont delta = .ok (next, events, changed)) : Quiet editor next := by
  obtain ⟨-, rfl⟩ | ⟨-, display, layout, viewport, hthemeId, -, rfl⟩ := adjustFont_eq_ok hnext
  · exact quiet_views
  · have hrequest : HighlightRequest.mk editor.document.text editor.document.language
        display.themeId = editor.request := by
      rw [hthemeId]
      rfl
    exact ⟨rfl, rfl, rfl, hrequest, rfl⟩

theorem quiet_setScrollY (editor : Editor) (scrollY : Extent) :
    Quiet editor (editor.setScrollY scrollY).1 := by
  obtain ⟨viewport, hviewport⟩ := setScrollY_eq editor scrollY
  rw [hviewport]
  exact quiet_views

theorem quiet_setViewportHeight (editor : Editor) (height : Extent) :
    Quiet editor (editor.setViewportHeight height).1 := by
  obtain ⟨viewport, hviewport⟩ := setViewportHeight_eq editor height
  rw [hviewport]
  exact quiet_views

theorem quiet_useLayout {layout : Layout} (hnext : editor.useLayout layout = .ok next) :
    Quiet editor next := by
  obtain ⟨laid, -, rfl⟩ := relayout_eq_ok.mp hnext
  exact quiet_views

theorem quiet_setSelections (editor : Editor) (selections : SelectionSet) :
    Quiet editor (editor.setSelections selections).1 := by
  rw [setSelections_eq]
  exact quiet_views

theorem quiet_lint (editor : Editor) (messages : List LintMessage) :
    Quiet editor (editor.lint messages).1 := by
  obtain ⟨decorations, hlint⟩ := lint_eq editor messages
  rw [hlint]
  exact quiet_views

theorem quiet_lintFor (editor : Editor) (revision : Nat) (messages : List LintMessage) :
    Quiet editor (editor.lintFor revision messages).1 := by
  unfold Editor.lintFor
  split
  · exact quiet_lint editor messages
  · exact quiet_views

theorem quiet_expireFlash (editor : Editor) (now : Nat) :
    Quiet editor (editor.expireFlash now).1 := by
  unfold Editor.expireFlash
  split <;> exact quiet_views

/-! ## Operations that may ask -/

theorem asks_scheduleAt (hhighlighter : next.highlighter = editor.highlighter)
    (htheme : next.theme = next.highlighter.themeOrDefault next.display.themeId)
    (hlatest : next.schedule.latest ≠ some next.request)
    (hgeneration : next.schedule.generation + 1 ≠ editor.schedule.generation)
    (hrunning : next.schedule.running = editor.schedule.running) (deadline : Nat) :
    Asks editor { next with
      schedule := (next.schedule.scheduleAt next.request deadline).1 } := by
  obtain ⟨hsame, -⟩ | ⟨-, heq⟩ := Schedule.scheduleAt_cases next.schedule next.request deadline
  · exact absurd hsame hlatest
  · rw [heq]
    exact {
      highlighter := hhighlighter
      theme := htheme
      generation := hgeneration
      latest := rfl
      pending := ⟨deadline, rfl⟩
      running := hrunning }

/-- After a reset, even the present request is new. -/
theorem asks_of_reset (hhighlighter : next.highlighter = editor.highlighter)
    (htheme : next.theme = next.highlighter.themeOrDefault next.display.themeId)
    (hschedule : next.schedule = editor.schedule.reset) (now : Nat) :
    Asks editor (next.scheduleHighlightNow now) := by
  apply asks_scheduleAt hhighlighter htheme
  · rw [hschedule]
    exact nofun
  · rw [hschedule]
    change editor.schedule.generation + 1 + 1 ≠ editor.schedule.generation
    rw [UInt64.add_assoc, ne_eq, UInt64.add_eq_left]
    decide
  · rw [hschedule]
    rfl

/-- A request that differs from the present one was never the latest. -/
theorem Asked.asks_of_request_ne (h : Asked editor)
    (hhighlighter : next.highlighter = editor.highlighter)
    (htheme : next.theme = next.highlighter.themeOrDefault next.display.themeId)
    (hschedule : next.schedule = editor.schedule) (hrequest : next.request ≠ editor.request)
    (deadline : Nat) :
    Asks editor { next with
      schedule := (next.schedule.scheduleAt next.request deadline).1 } := by
  apply asks_scheduleAt hhighlighter htheme
  · rw [hschedule]
    intro hlatest
    exact hrequest (h.latest_eq next.request hlatest)
  · rw [hschedule, ne_eq, UInt64.add_eq_left]
    decide
  · rw [hschedule]

theorem Asked.setText (h : Asked editor) {text : String} {language : Language}
    (hnext : editor.setText text language now = .ok (next, events)) : Asks editor next := by
  obtain ⟨document, -, rfl, -⟩ | ⟨document, edit, layout, -, -, rfl, -⟩ := setText_eq_ok hnext
  · apply asks_of_reset
    · rfl
    · exact h.theme_eq
    · rfl
  · apply asks_of_reset
    · rfl
    · exact h.theme_eq
    · rfl

theorem Asked.follow (h : Asked editor) (hdocument : editor.document.Coherent) {text : String}
    {document : Document} {edit : Edit}
    (hreplace : editor.document.replace text = (document, some edit)) {history : History}
    {selections : Option SelectionSet}
    (hnext : Editor.follow { editor with document, history } edit selections now =
      .ok (next, events)) :
    Asks editor next := by
  obtain ⟨styled, layout, -, -, rfl, -⟩ := follow_eq_ok hnext
  have hreplaced := Document.replace_eq_some hdocument hreplace
  obtain rfl := hreplaced.text_eq
  apply h.asks_of_request_ne
  · rfl
  · exact h.theme_eq
  · rfl
  · exact fun hrequest ↦ hreplaced.text_ne (congrArg HighlightRequest.text hrequest)

theorem Asked.edit (h : Asked editor) (hdocument : editor.document.Coherent) {text : String}
    {selections : Option SelectionSet} {changed : Bool}
    (hnext : editor.edit text selections now = .ok (next, events, changed)) :
    Quiet editor next ∨ Asks editor next := by
  obtain ⟨-, -, rfl, -⟩ | ⟨-, document, edit, hreplace, hnext⟩ := edit_eq_ok hnext
  · exact Or.inl quiet_views
  · exact Or.inr (h.follow hdocument hreplace hnext)

theorem Asked.restore (h : Asked editor) (hdocument : editor.document.Coherent)
    {snapshot : Snapshot} {history : History}
    (hnext : Editor.restore { editor with history } snapshot now = .ok (next, events)) :
    Quiet editor next ∨ Asks editor next := by
  obtain ⟨-, rfl, -⟩ | ⟨document, edit, hreplace, hnext⟩ := restore_eq_ok hnext
  · exact Or.inl quiet_views
  · exact Or.inr (h.follow hdocument hreplace hnext)

theorem Asked.undo (h : Asked editor) (hdocument : editor.document.Coherent) {done : Bool}
    (hnext : editor.undo now = .ok (next, events, done)) :
    Quiet editor next ∨ Asks editor next := by
  obtain ⟨-, -, rfl, -⟩ | ⟨-, snapshot, history, -, hnext⟩ := undo_eq_ok hnext
  · exact Or.inl quiet_views
  · exact h.restore hdocument hnext

theorem Asked.redo (h : Asked editor) (hdocument : editor.document.Coherent) {done : Bool}
    (hnext : editor.redo now = .ok (next, events, done)) :
    Quiet editor next ∨ Asks editor next := by
  obtain ⟨-, -, rfl, -⟩ | ⟨-, snapshot, history, -, hnext⟩ := redo_eq_ok hnext
  · exact Or.inl quiet_views
  · exact h.restore hdocument hnext

theorem Asked.asks_setTheme (h : Asked editor) {id : String} (hid : id ≠ editor.display.themeId)
    (now : Nat) : Asks editor (editor.setTheme id now).1 := by
  unfold Editor.setTheme
  rw [if_neg hid]
  apply h.asks_of_request_ne
  · rfl
  · rfl
  · rfl
  · exact fun hrequest ↦ hid (congrArg HighlightRequest.themeId hrequest)

theorem Asked.setTheme (h : Asked editor) (id : String) (now : Nat) :
    Quiet editor (editor.setTheme id now).1 ∨ Asks editor (editor.setTheme id now).1 := by
  by_cases hid : id = editor.display.themeId
  · unfold Editor.setTheme
    rw [if_pos hid]
    exact Or.inl quiet_views
  · exact Or.inr (h.asks_setTheme hid now)

theorem Asked.asks_setLanguage (h : Asked editor) {language : Language}
    (hlanguage : language ≠ editor.document.language) (now : Nat) :
    Asks editor (editor.setLanguage language now).1 := by
  unfold Editor.setLanguage
  rw [if_neg hlanguage]
  apply h.asks_of_request_ne
  · rfl
  · exact h.theme_eq
  · rfl
  · exact fun hrequest ↦ hlanguage (congrArg HighlightRequest.language hrequest)

theorem Asked.setLanguage (h : Asked editor) (language : Language) (now : Nat) :
    Quiet editor (editor.setLanguage language now).1 ∨
      Asks editor (editor.setLanguage language now).1 := by
  by_cases hlanguage : language = editor.document.language
  · unfold Editor.setLanguage
    rw [if_pos hlanguage]
    exact Or.inl quiet_views
  · exact Or.inr (h.asks_setLanguage hlanguage now)

/-! ## All operations -/

/-- An operation that handles no pass hands none out, and is quiet or asks. -/
theorem Asked.perform (h : Asked editor) (hdocument : editor.document.Coherent)
    {operation : Operation} (hpass : operation.handlesPass = false) {reply : Reply}
    (hreply : editor.perform operation = .ok reply) :
    reply.answer.jobs = [] ∧ (Quiet editor reply.editor ∨ Asks editor reply.editor) := by
  cases operation with
  | setText text language now =>
    obtain ⟨result, hresult, rfl⟩ := Fault.map_eq_ok.mp hreply
    exact ⟨rfl, Or.inr (h.setText hresult)⟩
  | edit text now =>
    obtain ⟨result, hresult, rfl⟩ := Fault.map_eq_ok.mp hreply
    exact ⟨rfl, h.edit hdocument hresult⟩
  | editSelecting text selections now =>
    obtain ⟨result, hresult, rfl⟩ := Fault.map_eq_ok.mp hreply
    exact ⟨rfl, h.edit hdocument hresult⟩
  | undo now =>
    obtain ⟨result, hresult, rfl⟩ := Fault.map_eq_ok.mp hreply
    exact ⟨rfl, h.undo hdocument hresult⟩
  | redo now =>
    obtain ⟨result, hresult, rfl⟩ := Fault.map_eq_ok.mp hreply
    exact ⟨rfl, h.redo hdocument hresult⟩
  | poll now => nomatch hpass
  | complete generation styled => nomatch hpass
  | tick now => nomatch hpass
  | lint messages =>
    obtain rfl := Except.ok.inj hreply
    exact ⟨rfl, Or.inl (quiet_lint editor messages)⟩
  | lintFor revision messages =>
    obtain rfl := Except.ok.inj hreply
    exact ⟨rfl, Or.inl (quiet_lintFor editor revision messages)⟩
  | increaseFont =>
    obtain ⟨result, hresult, rfl⟩ := Fault.map_eq_ok.mp hreply
    exact ⟨rfl, Or.inl (quiet_adjustFont hresult)⟩
  | decreaseFont =>
    obtain ⟨result, hresult, rfl⟩ := Fault.map_eq_ok.mp hreply
    exact ⟨rfl, Or.inl (quiet_adjustFont hresult)⟩
  | adjustFont delta =>
    obtain ⟨result, hresult, rfl⟩ := Fault.map_eq_ok.mp hreply
    exact ⟨rfl, Or.inl (quiet_adjustFont hresult)⟩
  | setTheme id now =>
    obtain rfl := Except.ok.inj hreply
    exact ⟨rfl, h.setTheme id now⟩
  | setLanguage language now =>
    obtain rfl := Except.ok.inj hreply
    exact ⟨rfl, h.setLanguage language now⟩
  | jump line now =>
    obtain ⟨result, hresult, rfl⟩ := Fault.map_eq_ok.mp hreply
    exact ⟨rfl, Or.inl (quiet_jump hresult)⟩
  | click y now =>
    obtain ⟨result, hresult, rfl⟩ := Fault.map_eq_ok.mp hreply
    exact ⟨rfl, Or.inl (quiet_jump hresult)⟩
  | select selections =>
    obtain rfl := Except.ok.inj hreply
    exact ⟨rfl, Or.inl (quiet_setSelections editor selections)⟩
  | setViewportHeight height =>
    obtain rfl := Except.ok.inj hreply
    exact ⟨rfl, Or.inl (quiet_setViewportHeight editor height)⟩
  | scroll y =>
    obtain rfl := Except.ok.inj hreply
    exact ⟨rfl, Or.inl (quiet_setScrollY editor y)⟩
  | useLayout layout =>
    obtain ⟨result, hresult, rfl⟩ := Fault.map_eq_ok.mp hreply
    exact ⟨rfl, Or.inl (quiet_useLayout hresult)⟩

end Editor

end CodeEditor
