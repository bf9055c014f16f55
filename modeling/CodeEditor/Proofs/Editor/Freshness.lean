import CodeEditor.Proofs.Editor.Coherence
import CodeEditor.Proofs.Editor.Requests

/-!
# Highlighting catches up

A host performs operations on an editor and reports the jobs it was handed, each with the result
of one and the same highlighter. Reports may come at any time and in any order, and more than once.
Whenever nothing waits and nothing runs, the styling is that which the highlighter gives for the
text, the language and the theme that are there now.
-/

namespace CodeEditor

namespace Editor

/-- The jobs whose number is not given to another request between two editors. -/
def unrenewed (before after : Editor) (jobs : List Job) : List Job :=
  if after.schedule.generation = before.schedule.generation then jobs
  else jobs.filter (·.generation != after.schedule.generation)

/-- The editors that a host can reach, with the jobs handed out whose number no later request was
given, and with the jobs not reported yet. It may report the jobs of either list. -/
inductive Hosted (settings : Settings) (highlighter : Highlighter) :
    Editor → List Job → List Job → Prop
  | start {editor : Editor} (hcreate : create settings highlighter = .ok editor) :
    Hosted settings highlighter editor [] []
  | perform {editor : Editor} {handed awaited : List Job} {operation : Operation} {reply : Reply}
    (hhosted : Hosted settings highlighter editor handed awaited)
    (hoperation : ∀ generation styled, operation ≠ .complete generation styled)
    (hreply : editor.perform operation = .ok reply) :
    Hosted settings highlighter reply.editor
      (reply.answer.jobs ++ unrenewed editor reply.editor handed) (reply.answer.jobs ++ awaited)
  | report {editor : Editor} {handed awaited : List Job} {job : Job}
    (hhosted : Hosted settings highlighter editor handed awaited)
    (hjob : job ∈ handed ∨ job ∈ awaited) :
    Hosted settings highlighter
      (editor.complete job.generation (highlighter.highlightOrPlain job.request)).1
      handed (awaited.erase job)

/-! ## What is known of the jobs -/

/-- What waits is what would be asked now, what runs is what is awaited, and whatever could still
count was asked for what is there now. -/
structure Tracked (highlighter : Highlighter) (editor : Editor) (handed awaited : List Job) :
    Prop where
  highlighter_eq : editor.highlighter = highlighter
  asked : Asked editor
  pending_asked : ∀ waiting ∈ editor.schedule.pending,
    waiting.request = editor.request ∧ waiting.generation = editor.schedule.generation
  running_awaited : awaited.map Job.generation = editor.schedule.running.toList
  awaited_asked : ∀ job ∈ awaited, editor.schedule.pending = none →
    job.generation = editor.schedule.generation ∧ job.request = editor.request
  handed_asked : ∀ job ∈ handed, job.generation = editor.schedule.generation →
    editor.schedule.pending = none ∧ job.request = editor.request
  handed_awaited : ∀ job ∈ handed, ∀ other ∈ awaited,
    job.generation = other.generation → job = other
  fresh : editor.schedule.pending = none → editor.schedule.running = none →
    editor.styled = highlighter.highlightOrPlain editor.request

variable {base : Layout} {highlighter : Highlighter} {editor next : Editor}
  {handed awaited : List Job}

theorem mem_of_mem_unrenewed {job : Job} (h : job ∈ unrenewed editor next handed) :
    job ∈ handed := by
  unfold unrenewed at h
  split at h
  · exact h
  · exact (List.mem_filter.mp h).1

theorem generation_ne_of_mem_unrenewed {job : Job} (h : job ∈ unrenewed editor next handed)
    (hgeneration : next.schedule.generation ≠ editor.schedule.generation) :
    job.generation ≠ next.schedule.generation := by
  unfold unrenewed at h
  rw [if_neg hgeneration, List.mem_filter, bne_iff_ne] at h
  exact h.2

theorem Tracked.forget {kept : List Job} (h : Tracked highlighter editor handed awaited)
    (hkept : ∀ job ∈ kept, job ∈ handed) : Tracked highlighter editor kept awaited :=
  { h with
    handed_asked := fun job hjob ↦ h.handed_asked job (hkept job hjob)
    handed_awaited := fun job hjob ↦ h.handed_awaited job (hkept job hjob) }

theorem Tracked.quiet (h : Tracked highlighter editor handed awaited) (hquiet : Quiet editor next) :
    Tracked highlighter next handed awaited := by
  constructor
  · rw [hquiet.highlighter, h.highlighter_eq]
  · exact hquiet.asked h.asked
  · rw [hquiet.schedule, hquiet.request]
    exact h.pending_asked
  · rw [hquiet.schedule]
    exact h.running_awaited
  · rw [hquiet.schedule, hquiet.request]
    exact h.awaited_asked
  · rw [hquiet.schedule, hquiet.request]
    exact h.handed_asked
  · exact h.handed_awaited
  · rw [hquiet.schedule, hquiet.request, hquiet.styled]
    exact h.fresh

theorem Tracked.asks (h : Tracked highlighter editor handed awaited) (hasks : Asks editor next) :
    Tracked highlighter next (unrenewed editor next handed) awaited := by
  obtain ⟨deadline, hpending⟩ := hasks.pending
  have hwaits : next.schedule.pending ≠ none := by
    rw [hpending]
    exact Option.some_ne_none _
  constructor
  · rw [hasks.highlighter, h.highlighter_eq]
  · exact hasks.asked
  · intro waiting hwaiting
    rw [hpending] at hwaiting
    rw [← Option.mem_some_iff.mp hwaiting]
    exact ⟨rfl, rfl⟩
  · rw [hasks.running]
    exact h.running_awaited
  · intro job _ hnone
    exact absurd hnone hwaits
  · intro job hjob hgeneration
    exact absurd hgeneration (generation_ne_of_mem_unrenewed hjob hasks.generation)
  · intro job hjob
    exact h.handed_awaited job (mem_of_mem_unrenewed hjob)
  · intro hnone
    exact absurd hnone hwaits

/-- A job is handed out when none is awaited, and asks for what is there now. -/
theorem Tracked.poll (h : Tracked highlighter editor handed awaited) (now : Nat) :
    Tracked highlighter (editor.poll now).1 ((editor.poll now).2.toList ++ handed)
      ((editor.poll now).2.toList ++ awaited) := by
  obtain heq | ⟨waiting, hwaiting, hrunning, -, heq⟩ :=
    Schedule.poll_cases editor.schedule now
  · unfold Editor.poll
    rw [heq]
    exact h
  · obtain ⟨hrequest, hgeneration⟩ := h.pending_asked waiting hwaiting
    have hnone : awaited = [] := by
      have hempty := h.running_awaited
      rw [hrunning] at hempty
      exact List.map_eq_nil_iff.mp hempty
    have hother : ∀ job ∈ handed, job.generation ≠ editor.schedule.generation := by
      intro job hjob hsame
      have hpending := (h.handed_asked job hjob hsame).1
      rw [hwaiting] at hpending
      nomatch hpending
    unfold Editor.poll
    rw [heq, hnone]
    constructor
    · exact h.highlighter_eq
    · exact ⟨h.asked.theme_eq, h.asked.latest_eq⟩
    · intro other hnothing
      nomatch hnothing
    · rfl
    · intro job hjob _
      rw [List.mem_singleton.mp hjob]
      exact ⟨hgeneration, hrequest⟩
    · intro job hjob hsame
      rcases List.mem_cons.mp hjob with rfl | hjob
      · exact ⟨rfl, hrequest⟩
      · exact absurd hsame (hother job hjob)
    · intro job hjob other hawaited hsame
      rw [List.mem_singleton.mp hawaited] at hsame ⊢
      rcases List.mem_cons.mp hjob with rfl | hjob
      · rfl
      · exact absurd (hsame.trans hgeneration) (hother job hjob)
    · intro _ hnothing
      nomatch hnothing

theorem Tracked.running_erase (h : Tracked highlighter editor handed awaited) {job : Job}
    (hjob : job ∈ handed ∨ job ∈ awaited) :
    (awaited.erase job).map Job.generation =
      (editor.schedule.complete job.generation).1.running.toList := by
  have hrunning := h.running_awaited
  unfold Schedule.complete
  dsimp only
  cases hslot : editor.schedule.running with
  | none =>
    rw [hslot] at hrunning
    rw [List.map_eq_nil_iff.mp hrunning]
    rfl
  | some generation =>
    rw [hslot] at hrunning
    obtain ⟨other, rest, rfl, rfl, hrest⟩ := List.map_eq_cons_iff.mp hrunning
    obtain rfl := List.map_eq_nil_iff.mp hrest
    by_cases hsame : job.generation = other.generation
    · have hother : job = other := by
        rcases hjob with hhanded | hawaited
        · exact h.handed_awaited job hhanded other List.mem_cons_self hsame
        · exact List.mem_singleton.mp hawaited
      rw [hother, List.erase_cons_head, if_pos rfl]
      rfl
    · have hne : other ≠ job := fun heq ↦ hsame (heq ▸ rfl)
      have hslot' : some other.generation ≠ some job.generation := fun heq ↦
        hsame (Option.some.inj heq).symm
      rw [List.erase_cons_tail (by simpa using hne), if_neg hslot']
      rfl

/-- A job that counts was asked for what is there now. -/
theorem Tracked.request_eq (h : Tracked highlighter editor handed awaited) {job : Job}
    (hjob : job ∈ handed ∨ job ∈ awaited)
    (hgeneration : job.generation = editor.schedule.generation)
    (hpending : editor.schedule.pending = none) : job.request = editor.request := by
  rcases hjob with hhanded | hawaited
  · exact (h.handed_asked job hhanded hgeneration).2
  · exact (h.awaited_asked job hawaited hpending).2

theorem canonical_highlightOrPlain (highlighter : Highlighter) (request : HighlightRequest) :
    (highlighter.highlightOrPlain request).Canonical ∧
      (highlighter.highlightOrPlain request).length = request.text.toList.length := by
  unfold Highlighter.highlightOrPlain
  dsimp only
  split
  · exact ⟨StyledText.canonical_normalized _ _ _, rfl⟩
  · exact ⟨StyledText.canonical_uniform _ _, rfl⟩

/-- The slot of the running pass is free after a report only if it was, or the report counts. -/
theorem Tracked.current_of_free (h : Tracked highlighter editor handed awaited) {job : Job}
    (hpending : editor.schedule.pending = none) (hrunning : editor.schedule.running ≠ none)
    (hfree : (editor.schedule.complete job.generation).1.running = none) :
    job.generation = editor.schedule.generation := by
  have hslot := Schedule.running_eq_some_of_complete hrunning hfree
  have hawaited := h.running_awaited
  rw [hslot] at hawaited
  obtain ⟨other, rest, rfl, hother, -⟩ := List.map_eq_cons_iff.mp hawaited
  rw [← hother]
  exact (h.awaited_asked other List.mem_cons_self hpending).1

theorem Tracked.completed (h : Tracked highlighter editor handed awaited) {job : Job}
    (hjob : job ∈ handed ∨ job ∈ awaited) (styled : StyledText) (selections : SelectionSet)
    (decorations : Layers)
    (hfresh : editor.schedule.pending = none →
      (editor.schedule.complete job.generation).1.running = none →
      styled = highlighter.highlightOrPlain editor.request) :
    Tracked highlighter { editor with
      schedule := (editor.schedule.complete job.generation).1
      styled
      selections
      decorations } handed (awaited.erase job) where
  highlighter_eq := h.highlighter_eq
  asked := ⟨h.asked.theme_eq, h.asked.latest_eq⟩
  pending_asked := h.pending_asked
  running_awaited := h.running_erase hjob
  awaited_asked other hother := h.awaited_asked other (List.mem_of_mem_erase hother)
  handed_asked := h.handed_asked
  handed_awaited first hfirst other hother :=
    h.handed_awaited first hfirst other (List.mem_of_mem_erase hother)
  fresh := hfresh

/-- A report leaves the styling fresh if nothing is left to do, whichever job it is. -/
theorem Tracked.report (h : Tracked highlighter editor handed awaited)
    (hcoherent : Coherent base editor) {job : Job} (hjob : job ∈ handed ∨ job ∈ awaited) :
    Tracked highlighter
      (editor.complete job.generation (highlighter.highlightOrPlain job.request)).1
      handed (awaited.erase job) := by
  obtain ⟨hgeneration, hpending, selections, decorations, hnext⟩ | ⟨hstale, hnext⟩ :=
    complete_cases editor job.generation (highlighter.highlightOrPlain job.request)
  · have hstyled : StyledText.normalized (highlighter.highlightOrPlain job.request).spans
        editor.document.length editor.theme.plain =
          highlighter.highlightOrPlain editor.request := by
      obtain ⟨hcanonical, hlength⟩ := canonical_highlightOrPlain highlighter editor.request
      have hsame : editor.document.length =
          (highlighter.highlightOrPlain editor.request).length :=
        hcoherent.document.length_eq.trans hlength.symm
      rw [h.request_eq hjob hgeneration hpending, hsame,
        StyledText.normalized_eq_self hcanonical]
    rw [hnext]
    exact h.completed hjob _ selections decorations fun _ _ ↦ hstyled
  · rw [hnext]
    apply h.completed hjob
    intro hpending hfree
    apply h.fresh hpending
    by_contra hrunning
    exact hstale ⟨h.current_of_free hpending hrunning hfree, hpending⟩

/-! ## Runs -/

/-- The pass of a tick is handed out and reported at once. -/
theorem Tracked.runHighlight (h : Tracked highlighter editor handed awaited)
    (hcoherent : Coherent base editor) (now : Nat) :
    Tracked highlighter (editor.runHighlight now).1 handed awaited := by
  have hpolled := h.poll now
  have hcoherent' := hcoherent.poll now
  unfold Editor.runHighlight
  split
  · rename_i polled job hpoll
    rw [hpoll] at hpolled hcoherent'
    have hreported := hpolled.report hcoherent' (Or.inl List.mem_cons_self)
    dsimp only at hreported
    rw [hpolled.highlighter_eq]
    rw [Option.toList_some, List.singleton_append, List.singleton_append,
      List.erase_cons_head] at hreported
    exact hreported.forget fun _ ↦ List.mem_cons_of_mem job
  · rename_i polled hpoll
    rwa [hpoll] at hpolled

theorem Tracked.tick (h : Tracked highlighter editor handed awaited)
    (hcoherent : Coherent base editor) (now : Nat) :
    Tracked highlighter (editor.tick now).1 handed awaited :=
  (h.quiet (quiet_expireFlash editor now)).runHighlight (hcoherent.expireFlash now) now

theorem Tracked.perform (h : Tracked highlighter editor handed awaited)
    (hcoherent : Coherent base editor) {operation : Operation} {reply : Reply}
    (hoperation : ∀ generation styled, operation ≠ .complete generation styled)
    (hreply : editor.perform operation = .ok reply) :
    Tracked highlighter reply.editor
      (reply.answer.jobs ++ unrenewed editor reply.editor handed)
      (reply.answer.jobs ++ awaited) := by
  by_cases hpass : operation.handlesPass = true
  · cases operation with
    | poll now =>
      obtain rfl := Except.ok.inj hreply
      apply (h.poll now).forget
      intro job hjob
      rcases List.mem_append.mp hjob with hjob | hjob
      · exact List.mem_append_left _ hjob
      · exact List.mem_append_right _ (mem_of_mem_unrenewed hjob)
    | complete generation styled => exact absurd rfl (hoperation generation styled)
    | tick now =>
      obtain rfl := Except.ok.inj hreply
      exact (h.tick hcoherent now).forget fun _ ↦ mem_of_mem_unrenewed
    | _ => nomatch hpass
  · obtain ⟨hjobs, hstep⟩ :=
      h.asked.perform hcoherent.document (Bool.not_eq_true _ ▸ hpass) hreply
    rw [hjobs, List.nil_append, List.nil_append]
    rcases hstep with hquiet | hasks
    · exact (h.quiet hquiet).forget fun _ ↦ mem_of_mem_unrenewed
    · exact h.asks hasks

/-- A new editor has the styling of the empty text, whatever the highlighter gives for it. -/
theorem tracked_create {settings : Settings}
    (h : create settings highlighter = .ok editor) : Tracked highlighter editor [] [] := by
  obtain ⟨layout, -, rfl⟩ := relayout_eq_ok.mp h
  have hempty (request : HighlightRequest) (hrequest : request.text = "") (style : Style) :
      StyledText.uniform 0 style = highlighter.highlightOrPlain request := by
    obtain ⟨hcanonical, hlength⟩ := canonical_highlightOrPlain highlighter request
    generalize highlighter.highlightOrPlain request = styled at hcanonical hlength
    obtain ⟨spans, length⟩ := styled
    rw [hrequest] at hlength
    obtain rfl : length = 0 := hlength
    cases spans with
    | nil => rfl
    | cons first rest =>
      have hbounds := hcanonical.tiles.bounds first List.mem_cons_self
      dsimp only at hbounds
      omega
  exact {
    highlighter_eq := rfl
    asked := ⟨rfl, fun _ h ↦ nomatch h⟩
    pending_asked := fun _ h ↦ nomatch h
    running_awaited := rfl
    awaited_asked := fun _ h ↦ nomatch h
    handed_asked := fun _ h ↦ nomatch h
    handed_awaited := fun _ h ↦ nomatch h
    fresh := fun _ _ ↦ hempty _ rfl _ }

theorem Hosted.tracked {settings : Settings}
    (h : Hosted settings highlighter editor handed awaited) :
    (∃ base, Coherent base editor) ∧ Tracked highlighter editor handed awaited := by
  induction h with
  | start hcreate => exact ⟨⟨_, Coherent.create hcreate⟩, tracked_create hcreate⟩
  | perform hhosted hoperation hreply ih =>
    obtain ⟨⟨base, hcoherent⟩, htracked⟩ := ih
    exact ⟨⟨_, hcoherent.perform hreply⟩, htracked.perform hcoherent hoperation hreply⟩
  | report hhosted hjob ih =>
    obtain ⟨⟨base, hcoherent⟩, htracked⟩ := ih
    exact ⟨⟨base, hcoherent.complete _ _⟩, htracked.report hcoherent hjob⟩

/-- Whenever an editor with a host is idle, its styling is what its highlighter makes of the
present text, language and theme from scratch. -/
theorem styled_eq_of_idle {settings : Settings}
    (h : Hosted settings highlighter editor handed awaited)
    (hidle : editor.schedule.state = .idle) :
    editor.styled = highlighter.highlightOrPlain editor.request := by
  have hslots : editor.schedule.pending = none ∧ editor.schedule.running = none := by
    unfold Schedule.state at hidle
    split at hidle
    · rename_i hpending hrunning
      exact ⟨hpending, hrunning⟩
    · nomatch hidle
    · split at hidle <;> nomatch hidle
    · nomatch hidle
  exact h.tracked.2.fresh hslots.1 hslots.2

/-- A pass whose theme was changed under it is reported late, and the next one is shown. -/
theorem styled_eq_of_late_report :
    ∃ editor handed awaited, Hosted {} .plain editor handed awaited ∧
      editor.schedule.state = .idle ∧
      editor.styled = Highlighter.plain.highlightOrPlain ⟨"a", .plain, "dark"⟩ := by
  obtain ⟨started, loaded, first, themed, second, hstarted, hloaded, hfirst, hthemed, hsecond,
      hlight, hdark, hidle, hrequest⟩ : ∃ started loaded first themed second,
      let light := Highlighter.plain.highlightOrPlain ⟨"a", .plain, "light"⟩
      let dark := Highlighter.plain.highlightOrPlain ⟨"a", .plain, "dark"⟩
      create {} .plain = .ok started ∧
      started.perform (.setText "a" .plain 0) = .ok loaded ∧
      loaded.editor.perform (.poll 0) = .ok first ∧
      first.editor.perform (.setTheme "dark" 10) = .ok themed ∧
      (themed.editor.complete 2 light).1.perform (.poll 20) = .ok second ∧
      first.answer.jobs = [⟨⟨"a", .plain, "light"⟩, 2⟩] ∧
      second.answer.jobs = [⟨⟨"a", .plain, "dark"⟩, 3⟩] ∧
      (second.editor.complete 3 dark).1.schedule.state = .idle ∧
      (second.editor.complete 3 dark).1.request = ⟨"a", .plain, "dark"⟩ :=
    ⟨_, _, _, _, _, rfl, rfl, rfl, rfl, rfl, rfl, rfl, rfl, rfl⟩
  have hpolled := ((Hosted.start hstarted).perform (by nofun) hloaded).perform (by nofun) hfirst
  have hthemed' := hpolled.perform (by nofun) hthemed
  have hlate := hthemed'.report
    (Or.inr (show (⟨⟨"a", .plain, "light"⟩, 2⟩ : Job) ∈ _ by simp [hlight]))
  have hpolled' := hlate.perform (by nofun) hsecond
  have hreported := hpolled'.report
    (Or.inr (show (⟨⟨"a", .plain, "dark"⟩, 3⟩ : Job) ∈ _ by simp [hdark]))
  have hstyled := styled_eq_of_idle hreported hidle
  rw [hrequest] at hstyled
  exact ⟨_, _, _, hreported, hidle, hstyled⟩

end Editor

end CodeEditor
