import CodeEditor.Proofs.Editor.JumpFlash
import CodeEditor.Proofs.Editor.Results
import CodeEditor.Proofs.Highlight.Transcript

/-!
# When the passing of time does something

The deadline of an editor is the earlier of two: that of the request that waits, and that of the
flash. Before it the passing of time does nothing. From then on it does something unless the request
is held back, which it is as long as the result of a job that was handed out is awaited. So an
editor whose request is due but held back names a deadline at which nothing happens.
-/

namespace CodeEditor

/-- There is a deadline, and it has come. -/
def DeadlineCome (deadline? : Option Nat) (now : Nat) : Prop :=
  ∃ deadline ∈ deadline?, deadline ≤ now

/-- A job was handed out under this generation, and its result has not come since. -/
def Operation.Awaited (history : List (Operation × Answer)) (generation : Generation) : Prop :=
  ∃ earlier now request since,
    history = earlier ++ (.poll now, .job (some ⟨request, generation⟩)) :: since ∧
    ∀ styled, .complete generation styled ∉ since.map Prod.fst

namespace Editor

/-- The passing of time changes the state or tells an event. -/
def Works (editor : Editor) (now : Nat) : Prop :=
  (editor.tick now).1 ≠ editor ∨ ∃ event, .event event ∈ (editor.tick now).2

variable {base : Layout} {editor next : Editor} {now : Nat} {generation : Generation}

/-! ## One passing of time -/

theorem deadlineCome_iff :
    DeadlineCome editor.deadline? now ↔
      DeadlineCome editor.schedule.deadline? now ∨ DeadlineCome editor.flash.deadline? now := by
  unfold DeadlineCome Editor.deadline?
  cases editor.schedule.deadline? with
  | none => simp
  | some waiting =>
    cases editor.flash.deadline? with
    | none => simp
    | some flashing =>
      simp only [Option.mem_some_iff, exists_eq_left']
      omega

theorem schedule_complete (editor : Editor) (generation : Generation) (styled : StyledText) :
    (editor.complete generation styled).1.schedule = (editor.schedule.complete generation).1 := by
  obtain ⟨-, -, selections, decorations, heq⟩ | ⟨-, heq⟩ := complete_cases editor generation styled
  · rw [heq]
  · rw [heq]

/-- A request that is due and not held back is handed out and reported at once. -/
theorem runHighlight_cases (editor : Editor) (now : Nat) :
    (editor.schedule.running = none ∧ DeadlineCome editor.schedule.deadline? now ∧
      (editor.runHighlight now).1.schedule.pending = none ∧
      (editor.runHighlight now).1.schedule.running = none) ∨
    (¬(editor.schedule.running = none ∧ DeadlineCome editor.schedule.deadline? now) ∧
      editor.runHighlight now = (editor, [])) := by
  have hdue : DeadlineCome editor.schedule.deadline? now ↔
      ∃ waiting ∈ editor.schedule.pending, waiting.deadline ≤ now := by
    simp [DeadlineCome, Schedule.deadline?]
  obtain heq | ⟨waiting, hwaiting, hrunning, hcome, heq⟩ :=
    Schedule.poll_cases editor.schedule now
  · right
    constructor
    · rintro ⟨hrunning, hcome⟩
      obtain ⟨waiting, hwaiting, hcome⟩ := hdue.mp hcome
      have hjob := Schedule.poll_eq_some_iff.mpr ⟨hrunning, waiting, hwaiting, hcome, rfl⟩
      rw [heq] at hjob
      nomatch hjob
    · unfold Editor.runHighlight Editor.poll
      rw [heq]
  · refine Or.inl ⟨hrunning, hdue.mpr ⟨waiting, hwaiting, hcome⟩, ?_⟩
    unfold Editor.runHighlight Editor.poll
    rw [heq]
    dsimp only
    rw [schedule_complete]
    exact ⟨rfl, if_pos rfl⟩

/-- The passing of time ends a flash that is over, and runs a pass that is due unless the result of
another one is awaited. -/
theorem works_iff :
    editor.Works now ↔ DeadlineCome editor.flash.deadline? now ∨
      editor.schedule.running = none ∧ DeadlineCome editor.schedule.deadline? now := by
  have hflash : DeadlineCome editor.flash.deadline? now ↔
      ∃ flashing ∈ editor.flash.current, flashing.deadline ≤ now := by
    simp [DeadlineCome, Flash.deadline?]
  have htick : editor.tick now = (((editor.expireFlash now).1.runHighlight now).1,
      (editor.expireFlash now).2.map .event ++
        ((editor.expireFlash now).1.runHighlight now).2) := rfl
  unfold Works
  obtain ⟨flashing, hcurrent, hover, hexpired⟩ | ⟨hlater, hexpired⟩ := expireFlash_cases editor now
  · have htold : .event (.jumpFinished flashing.line) ∈ (editor.tick now).2 := by
      rw [htick, hexpired]
      simp
    exact iff_of_true (Or.inr ⟨_, htold⟩) (Or.inl (hflash.mpr ⟨flashing, hcurrent, hover⟩))
  · have hdark : ¬DeadlineCome editor.flash.deadline? now := by
      rw [hflash]
      rintro ⟨flashing, hcurrent, hover⟩
      exact Nat.not_lt_of_le hover (hlater flashing hcurrent)
    rw [htick, hexpired, or_iff_right hdark]
    obtain ⟨hrunning, hcome, hpending, -⟩ | ⟨hheld, heq⟩ := runHighlight_cases editor now
    · refine iff_of_true (Or.inl fun hsame ↦ ?_) ⟨hrunning, hcome⟩
      obtain ⟨deadline, hdeadline, -⟩ := hcome
      rw [hsame] at hpending
      rw [Schedule.deadline?, hpending] at hdeadline
      nomatch hdeadline
    · rw [heq]
      exact iff_of_false (by simp) hheld

theorem works_iff_deadlineCome :
    editor.Works now ↔ DeadlineCome editor.deadline? now ∧
      (editor.schedule.running = none ∨ DeadlineCome editor.flash.deadline? now) := by
  rw [works_iff, deadlineCome_iff]
  tauto

/-! ## What is in flight -/

theorem running_tick (editor : Editor) (now : Nat) :
    (editor.tick now).1.schedule.running = editor.schedule.running := by
  have hschedule : (editor.expireFlash now).1.schedule = editor.schedule :=
    (quiet_expireFlash editor now).schedule
  change ((editor.expireFlash now).1.runHighlight now).1.schedule.running = _
  rw [← hschedule]
  obtain ⟨hrunning, -, -, hfree⟩ | ⟨-, heq⟩ := runHighlight_cases (editor.expireFlash now).1 now
  · rw [hfree, hrunning]
  · rw [heq]

theorem Asked.running_perform (h : Asked editor) (hdocument : editor.document.Coherent)
    {operation : Operation} (hpass : operation.handlesPass = false) {reply : Reply}
    (hreply : editor.perform operation = .ok reply) :
    reply.editor.schedule.running = editor.schedule.running := by
  obtain ⟨-, hquiet | hasks⟩ := h.perform hdocument hpass hreply
  · rw [hquiet.schedule]
  · exact hasks.running

/-- A pass is in flight if it was before and its result did not come, or was just handed out. -/
theorem Asked.mem_running_perform (h : Asked editor) (hdocument : editor.document.Coherent)
    {operation : Operation} {reply : Reply} (hreply : editor.perform operation = .ok reply) :
    generation ∈ reply.editor.schedule.running ↔
      (generation ∈ editor.schedule.running ∧
        ∀ styled, operation ≠ .complete generation styled) ∨
      ∃ now request,
        (operation, reply.answer) = (.poll now, .job (some ⟨request, generation⟩)) := by
  cases operation with
  | poll now =>
    obtain rfl := Except.ok.inj hreply
    have hpoll := @Schedule.mem_running_perform editor.schedule (.poll now) generation
    change generation ∈ (editor.schedule.poll now).1.running ↔ _ ∨ ∃ _ request,
      (Operation.poll now, Answer.job (editor.schedule.poll now).2) = _
    simpa [Schedule.perform] using hpoll
  | complete completed styled =>
    obtain rfl := Except.ok.inj hreply
    have hcomplete := @Schedule.mem_running_perform editor.schedule (.complete completed) generation
    change generation ∈ (editor.complete completed styled).1.schedule.running ↔ _
    rw [schedule_complete]
    simpa [Schedule.perform] using hcomplete
  | tick now =>
    obtain rfl := Except.ok.inj hreply
    change generation ∈ (editor.tick now).1.schedule.running ↔ _
    rw [running_tick]
    simp
  | _ =>
    rw [h.running_perform hdocument rfl hreply]
    simp

theorem awaited_cons_iff {entry : Operation × Answer} {history : List (Operation × Answer)} :
    Operation.Awaited (entry :: history) generation ↔
      ((∃ now request, entry = (.poll now, .job (some ⟨request, generation⟩))) ∧
        ∀ styled, .complete generation styled ∉ history.map Prod.fst) ∨
      Operation.Awaited history generation := by
  constructor
  · rintro ⟨earlier, now, request, since, heq, hsince⟩
    obtain ⟨rfl, rfl, rfl⟩ | ⟨rest, rfl, rfl⟩ := List.cons_eq_append_iff.mp heq
    · exact Or.inl ⟨⟨now, request, rfl⟩, hsince⟩
    · exact Or.inr ⟨rest, now, request, since, rfl, hsince⟩
  · rintro (⟨⟨now, request, rfl⟩, hsince⟩ | ⟨earlier, now, request, since, rfl, hsince⟩)
    · exact ⟨[], now, request, history, rfl, hsince⟩
    · exact ⟨entry :: earlier, now, request, since, rfl, hsince⟩

variable {operations : List Operation} {log : List (List Notice × Answer)}

theorem length_of_run (h : editor.run operations = .ok (next, log)) :
    log.length = operations.length := by
  induction operations generalizing editor log with
  | nil =>
    cases h
    rfl
  | cons operation rest ih =>
    obtain ⟨reply, -, h⟩ := Fault.bind_eq_ok.mp h
    obtain ⟨⟨reached, more⟩, hrest, h⟩ := Fault.bind_eq_ok.mp h
    cases h
    exact congrArg (· + 1) (ih hrest)

/-- The pass in flight after a run was in flight before and its result did not come, or it is one
whose result is awaited. -/
theorem Linted.mem_running_run (h : Linted editor) (hcoherent : Coherent base editor)
    (hrun : editor.run operations = .ok (next, log)) :
    generation ∈ next.schedule.running ↔
      (generation ∈ editor.schedule.running ∧
        ∀ styled, .complete generation styled ∉ operations) ∨
      Operation.Awaited (operations.zip (log.map Prod.snd)) generation := by
  induction operations generalizing base editor log with
  | nil =>
    cases hrun
    simp [Operation.Awaited]
  | cons operation rest ih =>
    obtain ⟨reply, hreply, hrun⟩ := Fault.bind_eq_ok.mp hrun
    obtain ⟨⟨reached, more⟩, hrest, hrun⟩ := Fault.bind_eq_ok.mp hrun
    cases hrun
    have hoperations : (rest.zip (more.map Prod.snd)).map Prod.fst = rest := by
      rw [List.map_fst_zip]
      rw [List.length_map, length_of_run hrest]
    have hreported : (∀ styled, .complete generation styled ∉ operation :: rest) ↔
        (∀ styled, operation ≠ .complete generation styled) ∧
          ∀ styled, .complete generation styled ∉ rest := by
      simp [forall_and, eq_comm]
    rw [List.map_cons, List.zip_cons_cons, awaited_cons_iff, hoperations, hreported,
      ih (h.perform hcoherent.document hreply) (hcoherent.perform hreply) hrest,
      h.asked.mem_running_perform hcoherent.document hreply, or_and_right, and_assoc, or_assoc]

/-! ## Sessions -/

/-- Whatever was done before, the passing of time does something exactly if the deadline has come
and either no result is awaited or the deadline of the flash itself has come. -/
theorem session_works_iff {settings : Settings} {highlighter : Highlighter}
    (h : session settings highlighter operations = .ok (editor, log)) (now : Nat) :
    editor.Works now ↔ DeadlineCome editor.deadline? now ∧
      ((∀ generation, ¬Operation.Awaited (operations.zip (log.map Prod.snd)) generation) ∨
        DeadlineCome editor.flash.deadline? now) := by
  obtain ⟨initial, hcreate, hrun⟩ := Fault.bind_eq_ok.mp h
  have hnone : initial.schedule.running = none := by
    obtain ⟨layout, -, rfl⟩ := relayout_eq_ok.mp hcreate
    rfl
  have hfree : editor.schedule.running = none ↔
      ∀ generation, ¬Operation.Awaited (operations.zip (log.map Prod.snd)) generation := by
    rw [Option.eq_none_iff_forall_not_mem]
    refine forall_congr' fun generation ↦ not_congr ?_
    rw [(linted_create hcreate).mem_running_run (Coherent.create hcreate) hrun, hnone]
    simp
  rw [works_iff_deadlineCome, hfree]

/-- While the first request is being highlighted, the second one is held back behind its deadline;
the flash is not. -/
theorem session_works_iff_held_back :
    let operations : List Operation :=
      [.edit "a" 0, .poll 300, .edit "ab" 310, .jump 1 400]
    ∃ editor log, session {} .plain operations = .ok (editor, log) ∧
      editor.deadline? = some 610 ∧ ¬editor.Works 899 ∧ editor.Works 900 := by
  intro operations
  let job : Job := ⟨⟨"a", .plain, "light"⟩, 1⟩
  have hresult : (session {} .plain operations).toOption.map (fun result ↦
      (result.1.deadline?, result.1.flash.deadline?, result.2.map Prod.snd)) =
        some (some 610, some 900, [.flag true, .job (some job), .flag true, .line 1]) := by
    decide +kernel
  obtain ⟨⟨editor, log⟩, hsession, hvalues⟩ := Fault.exists_of_toOption hresult
  simp only [Prod.mk.injEq] at hvalues
  obtain ⟨hdeadline, hflash, hanswers⟩ := hvalues
  have hworks := session_works_iff hsession
  rw [hanswers, hdeadline, hflash] at hworks
  have hawaited : Operation.Awaited
      (operations.zip [.flag true, .job (some job), .flag true, .line 1]) 1 :=
    ⟨[(.edit "a" 0, .flag true)], 300, job.request, _, rfl, by simp⟩
  refine ⟨editor, log, hsession, hdeadline, fun hworking ↦ ?_, ?_⟩
  · obtain ⟨-, hfree | hover⟩ := (hworks 899).mp hworking
    · exact hfree 1 hawaited
    · simp [DeadlineCome] at hover
  · exact (hworks 900).mpr ⟨⟨610, rfl, by decide⟩, Or.inr ⟨900, rfl, le_rfl⟩⟩

/-- The deadline of a request that is held back can be over, and still time passes in vain. -/
theorem deadline_over_in_vain :
    let operations : List Operation := [.edit "a" 0, .poll 300, .edit "ab" 310]
    ∃ editor log, session {} .plain operations = .ok (editor, log) ∧
      DeadlineCome editor.deadline? 700 ∧ ¬editor.Works 700 := by
  intro operations
  have hresult : (session {} .plain operations).toOption.map (fun result ↦
      (result.1.deadline?, result.1.schedule.running, result.1.flash.deadline?)) =
        some (some 610, some 1, none) := by decide +kernel
  obtain ⟨⟨editor, log⟩, hsession, hvalues⟩ := Fault.exists_of_toOption hresult
  simp only [Prod.mk.injEq] at hvalues
  obtain ⟨hdeadline, hrunning, hflash⟩ := hvalues
  refine ⟨editor, log, hsession, ⟨610, hdeadline, by decide⟩, ?_⟩
  rw [works_iff, hrunning, hflash]
  simp [DeadlineCome]

end Editor

end CodeEditor
