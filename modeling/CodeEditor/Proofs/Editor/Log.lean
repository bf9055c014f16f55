import CodeEditor.Proofs.Editor.Effects

/-!
# What is told of the text

The notices of a session are a log of its edits: each edit, undo and redo that changes the text is
told once, with the next revision and an edit that leads from the text before to the text after, and
nothing else is. The linter is asked whenever the text, the revision or the language changes, so
the request made last is for the document that is there now. Replies to older requests are told from
it by their revision alone, which stands for the text but not for the language.
-/

namespace CodeEditor.Editor

/-- The revision, text and language of every request for lint messages, in order. -/
def lintRequests (log : List (List Notice × Answer)) : List (Nat × String × Language) :=
  (log.flatMap Prod.fst).filterMap Notice.lintRequest?

theorem lintRequests_append (log : List (List Notice × Answer)) (notices : List Notice)
    (answer : Answer) :
    lintRequests (log ++ [(notices, answer)]) =
      lintRequests log ++ notices.filterMap Notice.lintRequest? := by
  simp [lintRequests]

/-- What the linter would be asked now. -/
def lintable (editor : Editor) : Nat × String × Language :=
  (editor.document.revision, editor.document.text, editor.document.language)

variable {base : Layout} {editor : Editor} {now : Nat}

/-! ## Single operations -/

/-- What an operation tells of the text. -/
structure Told (editor : Editor) (operation : Operation) (reply : Reply) : Prop where
  revision : reply.editor.document.revision = editor.document.revision + 1 ∨
    reply.editor.document.revision = editor.document.revision ∧
      reply.editor.document.text = editor.document.text
  lintRequests : reply.notices.filterMap Notice.lintRequest? = [reply.editor.lintable] ∨
    reply.editor.document = editor.document ∧ reply.notices.filterMap Notice.lintRequest? = []
  written : operation.writes = true → reply.editor.document.text ≠ editor.document.text →
    ∃ edit, reply.notices.filterMap Notice.textChange? =
        [(editor.document.revision + 1, reply.editor.document.text, edit)] ∧
      reply.editor.document.revision = editor.document.revision + 1 ∧
      edit.start + edit.deleted ≤ editor.document.text.toList.length ∧
      edit.replay editor.document.text.toList reply.editor.document.text.toList =
        .ok reply.editor.document.text.toList
  unwritten : (operation.writes = true → reply.editor.document.text = editor.document.text) →
    reply.notices.filterMap Notice.textChange? = []

theorem told_of_silent {operation : Operation} {reply : Reply}
    (hdocument : reply.editor.document = editor.document) (hsilent : Silent reply.notices) :
    Told editor operation reply where
  revision := Or.inr (by rw [hdocument]; exact ⟨rfl, rfl⟩)
  lintRequests := Or.inr ⟨hdocument, hsilent.2⟩
  written _ hne := absurd (congrArg Document.text hdocument) hne
  unwritten _ := hsilent.1

theorem told_setText {text : String} {language : Language}
    {result : Editor × List Event} (hresult : editor.setText text language now = .ok result) :
    Told editor (.setText text language now) (.ofEvents result) := by
  obtain ⟨next, events⟩ := result
  obtain ⟨document, hreplace, rfl, rfl⟩ | ⟨document, edit, layout, hreplace, -, rfl, rfl⟩ :=
    setText_eq_ok hresult
  · obtain rfl := (Document.replace_eq_none hreplace).1
    exact ⟨Or.inr ⟨rfl, rfl⟩, Or.inl rfl, nofun, fun _ ↦ rfl⟩
  · have hrevision := Document.revision_of_replace hreplace
    exact ⟨Or.inl hrevision, Or.inl rfl, nofun, fun _ ↦ rfl⟩

theorem told_follow (h : Coherent base editor) {operation : Operation} {text : String}
    {document : Document} {edit : Edit}
    (hreplace : editor.document.replace text = (document, some edit)) {history : History}
    {selections : Option SelectionSet} {result : Editor × List Event}
    (hresult : follow { editor with document, history } edit selections now = .ok result)
    (hoperation : operation.writes = true) :
    Told editor operation ⟨result.1, result.2.map .event, .flag true⟩ := by
  obtain ⟨next, events⟩ := result
  obtain ⟨styled, layout, hstyled, -, rfl, rfl⟩ := follow_eq_ok hresult
  have hreplaced := Document.replace_eq_some h.document hreplace
  have hrevision := Document.revision_of_replace hreplace
  have hfits : edit.Fits editor.styled.length := by
    rw [h.styled_length]
    exact hreplaced.fits
  -- The styling was carried across the edit, which had to find the length of the new text first.
  obtain ⟨length, hlength, -⟩ := Fault.bind_eq_ok.mp hstyled
  have hreplay : edit.replay editor.document.text.toList text.toList = .ok text.toList :=
    Edit.replay_between hreplaced.between_eq (Edit.newEnd_of_mapLength hfits hlength)
  obtain rfl := hreplaced.text_eq
  constructor
  · exact Or.inl hrevision
  · exact Or.inl rfl
  · intro _ _
    rw [← hrevision]
    refine ⟨edit, rfl, rfl, ?_, hreplay⟩
    rw [← h.document.length_eq]
    exact hreplaced.fits
  · intro hsame
    exact absurd (hsame hoperation) hreplaced.text_ne

theorem told_perform (h : Coherent base editor) {operation : Operation} {reply : Reply}
    (hreply : editor.perform operation = .ok reply) : Told editor operation reply := by
  cases effect_perform hreply with
  | view hviews hsilent => exact told_of_silent hviews.document hsilent
  | load hresult => exact told_setText hresult
  | write hoperation hreplace hresult => exact told_follow h hreplace hresult hoperation
  | theme hid =>
    unfold Editor.setTheme
    rw [if_neg hid]
    exact told_of_silent rfl ⟨rfl, rfl⟩
  | language hlanguage =>
    unfold Editor.setLanguage
    rw [if_neg hlanguage]
    exact ⟨Or.inr ⟨rfl, rfl⟩, Or.inl rfl, nofun, fun _ ↦ rfl⟩
  | @lint _ messages =>
    refine told_of_silent ?_ (silent_lint editor messages)
    obtain ⟨decorations, hlint⟩ := lint_eq editor messages
    exact (congrArg Editor.document hlint).trans rfl
  | poll => exact told_of_silent rfl silent_nil
  | @complete generation result =>
    refine told_of_silent ?_ (silent_complete editor generation result)
    obtain ⟨schedule, styled, decorations, hcomplete⟩ := h.complete_eq generation result
    exact (congrArg Editor.document hcomplete).trans rfl
  | @tick now =>
    refine told_of_silent ?_ (silent_tick editor now)
    obtain ⟨schedule, styled, decorations, flash, htick⟩ := h.tick_eq now
    exact (congrArg Editor.document htick).trans rfl

/-! ## Sessions -/

/-- A request is for a revision before the present one, or for the text of the present one. -/
def Dated (editor : Editor) (request : Nat × String × Language) : Prop :=
  request.1 < editor.document.revision ∨
    request.1 = editor.document.revision ∧ request.2.1 = editor.document.text

/-- The linter was asked last for the document that is there now, and every request tells its text
by its revision. -/
structure Logged (editor : Editor) (requests : List (Nat × String × Language)) : Prop where
  latest : ∀ request ∈ requests.getLast?, request = editor.lintable
  dated : ∀ request ∈ requests, Dated editor request

theorem dated_lintable (editor : Editor) : Dated editor editor.lintable := Or.inr ⟨rfl, rfl⟩

variable {operation : Operation} {reply : Reply} {request : Nat × String × Language}
  {requests : List (Nat × String × Language)}

theorem Dated.told (h : Dated editor request) (htold : Told editor operation reply) :
    Dated reply.editor request := by
  unfold Dated at h ⊢
  obtain hrevision | ⟨hrevision, htext⟩ := htold.revision
  · left
    omega
  · rwa [hrevision, htext]

theorem Logged.told (h : Logged editor requests) (htold : Told editor operation reply) :
    Logged reply.editor (requests ++ reply.notices.filterMap Notice.lintRequest?) := by
  obtain hasked | ⟨hdocument, hsilent⟩ := htold.lintRequests
  · rw [hasked]
    constructor
    · simp
    · intro request hrequest
      obtain hbefore | hnow := List.mem_append.mp hrequest
      · exact (h.dated request hbefore).told htold
      · rw [List.mem_singleton.mp hnow]
        exact dated_lintable _
  · have hlintable : reply.editor.lintable = editor.lintable := by
      unfold lintable
      rw [hdocument]
    rw [hsilent, List.append_nil]
    exact ⟨hlintable ▸ h.latest, fun request hrequest ↦ (h.dated request hrequest).told htold⟩

section

variable {settings : Settings} {highlighter : Highlighter} {operations : List Operation}
  {log : List (List Notice × Answer)}

theorem session_logged (h : session settings highlighter operations = .ok (editor, log)) :
    (∃ base, Coherent base editor) ∧ Logged editor (lintRequests log) := by
  refine session_induction (motive := fun editor log ↦ Logged editor (lintRequests log))
    (fun _ ↦ ⟨nofun, nofun⟩) (fun hcoherent hlogged hreply ↦ ?_) h
  rw [lintRequests_append]
  exact hlogged.told (told_perform hcoherent hreply)

end

/-- At the end of every session the linter was asked last for the present document, and whatever is
done next, a text changed by the user is told once, with an edit that leads to it, and nothing else
is told. Every session within bounds comes to its end. -/
theorem session_edit_log (settings : Settings) (highlighter : Highlighter)
    (operations : List Operation) :
    (∀ editor log, session settings highlighter operations = .ok (editor, log) →
      (∀ request ∈ (lintRequests log).getLast?, request =
        (editor.document.revision, editor.document.text, editor.document.language)) ∧
      ∀ operation reply, editor.perform operation = .ok reply →
        (operation.writes = true → reply.editor.document.text ≠ editor.document.text →
          ∃ edit, reply.notices.filterMap Notice.textChange? =
              [(editor.document.revision + 1, reply.editor.document.text, edit)] ∧
            reply.editor.document.revision = editor.document.revision + 1 ∧
            edit.start + edit.deleted ≤ editor.document.text.toList.length ∧
            edit.replay editor.document.text.toList reply.editor.document.text.toList =
              .ok reply.editor.document.text.toList) ∧
        ((operation.writes = true → reply.editor.document.text = editor.document.text) →
          reply.notices.filterMap Notice.textChange? = [])) ∧
    (settings.normalized.layout.Fits → (∀ operation ∈ operations, operation.Fits) →
      ∃ result, session settings highlighter operations = .ok result) := by
  constructor
  · intro editor log hsession
    obtain ⟨⟨base, hcoherent⟩, hlogged⟩ := session_logged hsession
    refine ⟨hlogged.latest, fun operation reply hreply ↦ ?_⟩
    have htold := told_perform hcoherent hreply
    exact ⟨htold.written, htold.unwritten⟩
  · exact exists_session highlighter

/-- A character is typed after the language was changed. -/
theorem session_edit_log_typed :
    let operations : List Operation := [.setText "ab" .python 0, .setLanguage .bash 1]
    ∃ editor log reply edit, session {} .plain operations = .ok (editor, log) ∧
      (lintRequests log).getLast? = some (1, "ab", .bash) ∧
      editor.perform (.edit "acb" 10) = .ok reply ∧
      reply.notices.filterMap Notice.textChange? = [(2, "acb", edit)] ∧
      edit.replay "ab".toList "acb".toList = .ok "acb".toList := by
  intro operations
  obtain ⟨hlog, hexists⟩ := session_edit_log {} .plain operations
  obtain ⟨⟨editor, log⟩, hsession⟩ := hexists (by decide) (by decide)
  obtain ⟨hlatest, hedits⟩ := hlog editor log hsession
  obtain ⟨request, reply, hrequest, hreply, hdocument, htext⟩ : ∃ request reply,
      (lintRequests log).getLast? = some request ∧ editor.perform (.edit "acb" 10) = .ok reply ∧
      (editor.document.revision, editor.document.text, editor.document.language) =
        (1, "ab", .bash) ∧
      reply.editor.document.text = "acb" := by
    cases hsession
    exact ⟨_, _, rfl, rfl, rfl, rfl⟩
  obtain ⟨hrevision, hbefore, -⟩ : editor.document.revision = 1 ∧ editor.document.text = "ab" ∧
      editor.document.language = .bash := by simpa using hdocument
  have hne : reply.editor.document.text ≠ editor.document.text := by
    rw [htext, hbefore]
    decide
  obtain ⟨edit, hnotices, -, -, hreplay⟩ := (hedits _ _ hreply).1 rfl hne
  rw [htext, hbefore] at hreplay
  rw [hrevision, htext] at hnotices
  refine ⟨editor, log, reply, edit, hsession, ?_, hreply, hnotices, hreplay⟩
  rw [hrequest, hlatest request hrequest, hdocument]

/-! ## Replies -/

/-- Messages for a language that the document no longer has are taken over, since changing the
language leaves the revision as it is. -/
theorem lintFor_accepts_former_language :
    ∃ editor log reply,
      session {} .plain [.setText "x = 1\n" .python 0, .setLanguage .bash 1] =
        .ok (editor, log) ∧
      (1, "x = 1\n", .python) ∈ lintRequests log ∧
      editor.perform (.lintFor 1 [⟨1, "undefined name", .error⟩]) = .ok reply ∧
      reply.answer = .flag true ∧ editor.document.language ≠ .python := by
  refine ⟨_, _, _, rfl, ?_, rfl, rfl, ?_⟩
  · decide
  · decide

/-- Messages are taken over only if they are for the present text, and only if they are for the
present language or the linter has since been asked for that. -/
theorem lintFor_accepted {settings : Settings} {highlighter : Highlighter}
    {operations : List Operation} {log : List (List Notice × Answer)}
    {before after : List (Nat × String × Language)} {revision : Nat} {text : String}
    {language : Language} (h : session settings highlighter operations = .ok (editor, log))
    (hlog : lintRequests log = before ++ (revision, text, language) :: after)
    (messages : List LintMessage) :
    ∃ reply, editor.perform (.lintFor revision messages) = .ok reply ∧
      (reply.answer = .flag true →
        text = editor.document.text ∧
        (language = editor.document.language ∨
          (revision, text, editor.document.language) ∈ after)) := by
  obtain ⟨-, hlogged⟩ := session_logged h
  refine ⟨_, rfl, fun haccepted ↦ ?_⟩
  have hcurrent : revision = editor.document.revision := by
    by_contra hstale
    simp [Reply.ofAnswer, Editor.lintFor, hstale] at haccepted
  have hmem : (revision, text, language) ∈ lintRequests log := by
    rw [hlog]
    exact List.mem_append_right before List.mem_cons_self
  obtain hearlier | ⟨-, htext⟩ : revision < editor.document.revision ∨
      revision = editor.document.revision ∧ text = editor.document.text := hlogged.dated _ hmem
  · exact absurd hcurrent hearlier.ne
  · refine ⟨htext, ?_⟩
    have hlast : after.getLast?.getD (revision, text, language) = editor.lintable :=
      hlogged.latest _ (by simp [hlog, List.getLast?_append, List.getLast?_cons])
    cases hafter : after.getLast? with
    | none =>
      rw [hafter] at hlast
      exact Or.inl (congrArg (·.2.2) hlast)
    | some request =>
      rw [hafter] at hlast
      obtain rfl : request = editor.lintable := hlast
      rw [hcurrent, htext]
      exact Or.inr (List.mem_of_getLast? hafter)

/-- A reply for the former language is taken over after the linter was asked for the present
one. -/
theorem lintFor_accepted_former_language :
    let operations : List Operation := [.setText "a" .plain 0, .edit "ab" 1, .setLanguage .bash 2]
    ∃ editor log reply, session {} .plain operations = .ok (editor, log) ∧
      lintRequests log = [(1, "a", .plain), (2, "ab", .plain), (2, "ab", .bash)] ∧
      editor.perform (.lintFor 2 []) = .ok reply ∧ reply.answer = .flag true ∧
      editor.document.text = "ab" ∧
      (.plain = editor.document.language ∨ (2, "ab", editor.document.language) ∈
        [((2, "ab", .bash) : Nat × String × Language)]) := by
  intro operations
  obtain ⟨editor, log, hsession, hlog, hrevision⟩ : ∃ editor log,
      session {} .plain operations = .ok (editor, log) ∧
      lintRequests log = [(1, "a", .plain)] ++ (2, "ab", .plain) :: [(2, "ab", .bash)] ∧
      editor.document.revision = 2 := ⟨_, _, rfl, rfl, rfl⟩
  obtain ⟨reply, hreply, haccepted⟩ := lintFor_accepted hsession hlog []
  have hanswer : reply.answer = .flag true := by
    obtain rfl := Except.ok.inj hreply
    simp [Reply.ofAnswer, Editor.lintFor, hrevision]
  obtain ⟨htext, hlanguage⟩ := haccepted hanswer
  exact ⟨editor, log, reply, hsession, hlog, hreply, hanswer, htext.symm, hlanguage⟩

end CodeEditor.Editor
