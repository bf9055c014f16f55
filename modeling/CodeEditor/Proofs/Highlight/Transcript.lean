import CodeEditor.Proofs.Highlight.Staleness

/-!
# Transcripts of a schedule

The transcript of a run lists its calls with their responses. It determines the state that the run
reaches. The latest request is the one of the last call that opened a generation; it waits until it
is handed out, for the earliest of the times at which it was asked for. The pass in flight is the
one handed out last, until its result comes.
-/

namespace CodeEditor

/-- The request waiting for the earliest of these times and its own. -/
def Pending.soonest (waiting : Pending) (dues : List Nat) : Pending :=
  { waiting with deadline := dues.foldl min waiting.deadline }

namespace Schedule

/-- A call with its response. -/
abbrev Entry := Call × Response

/-- The calls of a run with their responses. -/
def transcript (schedule : Schedule) (calls : List Call) : List Entry :=
  calls.zip (schedule.run calls).2

/-- The job was asked for by the call at this place, and nothing has opened a generation since. -/
def AskedAt (entries : List Entry) (place : Nat) (job : Job) : Prop :=
  ∃ earlier call since,
    entries = earlier ++ (call, .outcome (.scheduled job.generation)) :: since ∧
    earlier.length = place ∧ call.request? = some job.request ∧
    ∀ entry ∈ since, entry.2.opens = false

/-- The result of every job that was handed out has come. -/
def AllCompleted (entries : List Entry) : Prop :=
  ∀ earlier now job since, entries = earlier ++ (.poll now, .job (some job)) :: since →
    .complete job.generation ∈ since.map Prod.fst

/-- A job was handed out under this generation, and its result has not come since. -/
def Awaited (entries : List Entry) (generation : Generation) : Prop :=
  ∃ earlier now request since,
    entries = earlier ++ (.poll now, .job (some ⟨request, generation⟩)) :: since ∧
    .complete generation ∉ since.map Prod.fst

/-- When the call wants a pass to begin. -/
def Call.due? (debounce : Nat) : Call → Option Nat
  | schedule _ now => some (now + debounce)
  | scheduleNow _ now => some now
  | _ => none

/-- The earliest time for which these calls want a pass. -/
def earliest (debounce : Nat) (calls : List Call) : Option Nat :=
  (calls.filterMap (Call.due? debounce)).min?

/-- How many generations were opened. -/
def opened (entries : List Entry) : Nat := entries.countP (·.2.opens)

variable {schedule : Schedule} {calls : List Call} {call : Call}

@[simp] theorem transcript_nil (schedule : Schedule) : schedule.transcript [] = [] := rfl

theorem transcript_cons (schedule : Schedule) (call : Call) (rest : List Call) :
    schedule.transcript (call :: rest) =
      (call, (schedule.perform call).2) :: (schedule.perform call).1.transcript rest := rfl

theorem transcript_append (schedule : Schedule) (calls more : List Call) :
    schedule.transcript (calls ++ more) =
      schedule.transcript calls ++ (schedule.run calls).1.transcript more := by
  induction calls generalizing schedule with
  | nil => rfl
  | cons call rest ih => exact congrArg _ (ih (schedule.perform call).1)

theorem map_fst_transcript (schedule : Schedule) (calls : List Call) :
    (schedule.transcript calls).map Prod.fst = calls := by
  induction calls generalizing schedule with
  | nil => rfl
  | cons call rest ih => exact congrArg _ (ih (schedule.perform call).1)

theorem map_snd_transcript (schedule : Schedule) (calls : List Call) :
    (schedule.transcript calls).map Prod.snd = (schedule.run calls).2 := by
  induction calls generalizing schedule with
  | nil => rfl
  | cons call rest ih => exact congrArg _ (ih (schedule.perform call).1)

theorem forall_mem_transcript {p : Response → Prop} :
    (∀ entry ∈ schedule.transcript calls, p entry.2) ↔ ∀ response ∈ (schedule.run calls).2,
      p response := by
  rw [← map_snd_transcript, List.forall_mem_map]

theorem opened_transcript (schedule : Schedule) (calls : List Call) :
    opened (schedule.transcript calls) = (schedule.run calls).2.countP Response.opens := by
  rw [← map_snd_transcript, List.countP_map]
  rfl

theorem opened_append (entries more : List Entry) :
    opened (entries ++ more) = opened entries + opened more := List.countP_append

theorem opened_cons (entry : Entry) (entries : List Entry) :
    opened (entry :: entries) = opened entries + if entry.2.opens then 1 else 0 :=
  List.countP_cons

theorem opened_eq_zero_iff {entries : List Entry} :
    opened entries = 0 ↔ ∀ entry ∈ entries, entry.2.opens = false := by
  simp only [opened, List.countP_eq_zero, Bool.not_eq_true]

/-- A place of the transcript is a call of the run, made in the state reached before it. -/
theorem exists_of_transcript_eq {earlier since : List Entry} {entry : Entry}
    (h : schedule.transcript calls = earlier ++ entry :: since) :
    ∃ before later, calls = before ++ entry.1 :: later ∧ earlier = schedule.transcript before ∧
      ((schedule.run before).1.perform entry.1).2 = entry.2 ∧
      since = ((schedule.run before).1.perform entry.1).1.transcript later := by
  induction calls generalizing schedule earlier with
  | nil => exact absurd h (by simp)
  | cons call rest ih =>
    rw [transcript_cons] at h
    cases earlier with
    | nil =>
      obtain ⟨rfl, rfl⟩ := List.cons.inj h
      exact ⟨[], rest, rfl, rfl, rfl, rfl⟩
    | cons first earlier =>
      obtain ⟨rfl, hrest⟩ := List.cons.inj h
      obtain ⟨before, later, rfl, rfl, hresponse, hsince⟩ := ih hrest
      exact ⟨call :: before, later, rfl, rfl, hresponse, hsince⟩

/-! ## Single calls -/

theorem opens_cases {response : Response} (h : response.opens = true) :
    (∃ generation, response = .outcome (.scheduled generation)) ∨ response = .reset := by
  cases response with
  | outcome outcome =>
    cases outcome with
    | scheduled generation => exact Or.inl ⟨generation, rfl⟩
    | unchanged => nomatch h
  | job job => nomatch h
  | completion completion => nomatch h
  | reset => exact Or.inr rfl

/-- A request that opens a generation is the latest and waits for the time it was asked for. -/
theorem perform_of_scheduled {generation : Generation}
    (h : (schedule.perform call).2 = .outcome (.scheduled generation)) :
    ∃ request due, call.request? = some request ∧ call.due? schedule.debounce = some due ∧
      (schedule.perform call).1 =
        { schedule with
          generation, latest := some request, pending := some ⟨request, generation, due⟩ } := by
  have hschedule (request : HighlightRequest) (due : Nat)
      (houtcome : (schedule.scheduleAt request due).2 = .scheduled generation) :
      (schedule.scheduleAt request due).1 =
        { schedule with
          generation, latest := some request, pending := some ⟨request, generation, due⟩ } := by
    obtain ⟨-, heq⟩ | ⟨-, heq⟩ := scheduleAt_cases schedule request due
    · rw [heq] at houtcome
      nomatch houtcome
    · rw [heq] at houtcome ⊢
      rw [← Outcome.scheduled.inj houtcome]
  cases call with
  | schedule request now => exact ⟨request, _, rfl, rfl, hschedule _ _ (Response.outcome.inj h)⟩
  | scheduleNow request now => exact ⟨request, _, rfl, rfl, hschedule _ _ (Response.outcome.inj h)⟩
  | poll now => nomatch h
  | complete completed => nomatch h
  | reset => nomatch h

theorem latest_of_reset (h : (schedule.perform call).2 = .reset) :
    (schedule.perform call).1.latest = none := by
  cases call with
  | reset => rfl
  | schedule request now => nomatch h
  | scheduleNow request now => nomatch h
  | poll now => nomatch h
  | complete generation => nomatch h

theorem poll_eq_some_iff {now : Nat} {job : Job} :
    (schedule.poll now).2 = some job ↔
      schedule.running = none ∧ ∃ waiting ∈ schedule.pending,
        waiting.deadline ≤ now ∧ job = ⟨waiting.request, waiting.generation⟩ := by
  obtain ⟨debounce, generation, pending, running, latest⟩ := schedule
  unfold poll
  cases running with
  | some generation => simp
  | none =>
    cases pending with
    | none => simp
    | some waiting =>
      dsimp only
      split
      · rename_i hdue
        simp [hdue, eq_comm]
      · rename_i hearly
        simp [hearly]

/-- Only a poll hands a job out, and then its pass runs and nothing waits. -/
theorem perform_of_job {job : Job} (h : (schedule.perform call).2 = .job (some job)) :
    ∃ now, call = .poll now ∧ (schedule.poll now).2 = some job ∧
      (schedule.perform call).1 =
        { schedule with pending := none, running := some job.generation } := by
  cases call with
  | poll now =>
    have hjob : (schedule.poll now).2 = some job := Response.job.inj h
    refine ⟨now, rfl, hjob, ?_⟩
    change (schedule.poll now).1 = _
    obtain heq | ⟨waiting, -, -, -, heq⟩ := poll_cases schedule now
    · rw [heq] at hjob
      nomatch hjob
    · rw [heq] at hjob ⊢
      rw [← Option.some.inj hjob]
  | schedule request now => nomatch h
  | scheduleNow request now => nomatch h
  | complete generation => nomatch h
  | reset => nomatch h

theorem poll_of_mem_transcript {entry : Entry} {job : Job} (h : entry ∈ schedule.transcript calls)
    (hjob : entry.2 = .job (some job)) : ∃ now, entry = (.poll now, .job (some job)) := by
  obtain ⟨earlier, since, heq⟩ := List.append_of_mem h
  obtain ⟨before, -, -, -, hresponse, -⟩ := exists_of_transcript_eq heq
  obtain ⟨now, hcall, -, -⟩ := perform_of_job (hresponse.trans hjob)
  exact ⟨now, Prod.ext hcall hjob⟩

theorem running_scheduleAt (schedule : Schedule) (request : HighlightRequest) (deadline : Nat) :
    (schedule.scheduleAt request deadline).1.running = schedule.running := by
  obtain ⟨-, heq⟩ | ⟨-, heq⟩ := scheduleAt_cases schedule request deadline <;> rw [heq]

/-- A pass runs if it ran before and its result did not come, or was just handed out. -/
theorem mem_running_perform {generation : Generation} :
    generation ∈ (schedule.perform call).1.running ↔
      (generation ∈ schedule.running ∧ call ≠ .complete generation) ∨
      ∃ request, (schedule.perform call).2 = .job (some ⟨request, generation⟩) := by
  cases call with
  | schedule request now =>
    change generation ∈ (schedule.scheduleAt _ _).1.running ↔ _
    simp [running_scheduleAt, perform]
  | scheduleNow request now =>
    change generation ∈ (schedule.scheduleAt _ _).1.running ↔ _
    simp [running_scheduleAt, perform]
  | poll now =>
    obtain heq | ⟨waiting, -, hrunning, -, heq⟩ := poll_cases schedule now
    · simp [perform, heq]
    · simp [perform, heq, hrunning]
  | complete completed =>
    simp only [perform, complete, Option.mem_def]
    split
    · rename_i hrunning
      simp only [hrunning, Option.some.injEq, reduceCtorEq, false_iff, not_or, not_and, not_exists]
      exact ⟨fun heq hne ↦ hne (heq ▸ rfl), fun _ h ↦ nomatch h⟩
    · rename_i hrunning
      simp only [ne_eq, Call.complete.injEq, reduceCtorEq, exists_false, or_false, iff_self_and]
      exact fun h heq ↦ hrunning (heq ▸ h)
  | reset => simp [perform, reset]

/-! ## What is latest -/

theorem AskedAt.behind {entries : List Entry} {place : Nat} {job : Job}
    (h : AskedAt entries place job) (front : List Entry) :
    AskedAt (front ++ entries) (front.length + place) job := by
  obtain ⟨earlier, call, since, rfl, rfl, hcall⟩ := h
  exact ⟨front ++ earlier, call, since, (List.append_assoc _ _ _).symm, List.length_append, hcall⟩

/-- The latest request is that of the last call that opened a generation, if there was one. -/
theorem latest_run_cases {request : HighlightRequest}
    (h : request ∈ (schedule.run calls).1.latest) :
    (∀ entry ∈ schedule.transcript calls, entry.2.opens = false) ∨
      ∃ place, AskedAt (schedule.transcript calls) place
        ⟨request, (schedule.run calls).1.generation⟩ := by
  induction calls generalizing schedule with
  | nil => exact Or.inl fun _ hentry ↦ nomatch hentry
  | cons call rest ih =>
    rw [run_cons] at h ⊢
    rw [transcript_cons]
    obtain hquiet | ⟨place, hasked⟩ := ih h
    · obtain ⟨hgeneration, hlatest, -⟩ := run_of_not_opens (forall_mem_transcript.mp hquiet)
      dsimp only at h ⊢
      rw [hlatest] at h
      rw [hgeneration]
      cases hopens : (schedule.perform call).2.opens with
      | false => exact Or.inl (List.forall_mem_cons.mpr ⟨hopens, hquiet⟩)
      | true =>
        right
        obtain ⟨generation, hscheduled⟩ | hreset := opens_cases hopens
        · obtain ⟨asked, due, hrequest, -, hperform⟩ := perform_of_scheduled hscheduled
          rw [hperform] at h hquiet ⊢
          obtain rfl := Option.some.inj h
          exact ⟨0, [], call, _, by rw [hscheduled]; rfl, rfl, hrequest, hquiet⟩
        · rw [latest_of_reset hreset] at h
          nomatch h
    · exact Or.inr ⟨_, hasked.behind [_]⟩

/-- The latest request of a new schedule was asked for, with the current generation. -/
theorem exists_askedAt {debounce : Nat} {request : HighlightRequest}
    (h : request ∈ (run { debounce } calls).1.latest) :
    ∃ place, AskedAt (transcript { debounce } calls) place
      ⟨request, (run { debounce } calls).1.generation⟩ := by
  obtain hquiet | hasked := latest_run_cases h
  · obtain ⟨-, hlatest, -⟩ := run_of_not_opens (forall_mem_transcript.mp hquiet)
    rw [hlatest] at h
    nomatch h
  · exact hasked

/-! ## What waits -/

/-- Without a new generation, a request that waits is handed out or waits on, at most brought
forward. -/
theorem pending_perform_cases (h : (schedule.perform call).2.opens = false) :
    ((schedule.perform call).1.pending = none ∧ ∃ waiting ∈ schedule.pending,
      (schedule.perform call).2 = .job (some ⟨waiting.request, waiting.generation⟩)) ∨
    ((schedule.perform call).1.pending =
        schedule.pending.map (·.soonest (call.due? schedule.debounce).toList) ∧
      ∀ job, (schedule.perform call).2 ≠ .job (some job)) := by
  have hschedule (request : HighlightRequest) (due : Nat)
      (hquiet : (Response.outcome (schedule.scheduleAt request due).2).opens = false) :
      (schedule.scheduleAt request due).1.pending = schedule.pending.map (·.soonest [due]) := by
    obtain ⟨-, heq⟩ | ⟨-, heq⟩ := scheduleAt_cases schedule request due
    · rw [heq]
      rfl
    · rw [heq] at hquiet
      nomatch hquiet
  cases call with
  | schedule request now => exact Or.inr ⟨hschedule _ _ h, fun _ hjob ↦ nomatch hjob⟩
  | scheduleNow request now => exact Or.inr ⟨hschedule _ _ h, fun _ hjob ↦ nomatch hjob⟩
  | poll now =>
    obtain heq | ⟨waiting, hwaiting, -, -, heq⟩ := poll_cases schedule now
    · right
      simp only [perform, heq]
      exact ⟨Option.map_id'.symm, fun _ hjob ↦ nomatch hjob⟩
    · refine Or.inl ⟨?_, waiting, hwaiting, ?_⟩ <;> simp only [perform, heq]
  | complete generation =>
    exact Or.inr ⟨Option.map_id'.symm, fun _ hjob ↦ nomatch hjob⟩
  | reset => nomatch h

theorem debounce_perform (schedule : Schedule) (call : Call) :
    (schedule.perform call).1.debounce = schedule.debounce := by
  have hschedule (request : HighlightRequest) (deadline : Nat) :
      (schedule.scheduleAt request deadline).1.debounce = schedule.debounce := by
    obtain ⟨-, heq⟩ | ⟨-, heq⟩ := scheduleAt_cases schedule request deadline <;> rw [heq]
  cases call with
  | schedule request now => exact hschedule _ _
  | scheduleNow request now => exact hschedule _ _
  | poll now =>
    change (schedule.poll now).1.debounce = _
    obtain heq | ⟨waiting, -, -, -, heq⟩ := poll_cases schedule now <;> rw [heq]
  | complete generation => rfl
  | reset => rfl

theorem debounce_run (schedule : Schedule) (calls : List Call) :
    (schedule.run calls).1.debounce = schedule.debounce := by
  induction calls generalizing schedule with
  | nil => rfl
  | cons call rest ih => exact (ih _).trans (debounce_perform schedule call)

/-- As long as no generation is opened, a request that waits is handed out once, or waits for the
earliest of its own time and those of the calls. -/
theorem pending_run_cases (h : ∀ entry ∈ schedule.transcript calls, entry.2.opens = false) :
    ((schedule.run calls).1.pending = none ∧ ∃ waiting ∈ schedule.pending,
      ∃ entry ∈ schedule.transcript calls,
        entry.2 = .job (some ⟨waiting.request, waiting.generation⟩)) ∨
    ((schedule.run calls).1.pending =
        schedule.pending.map (·.soonest (calls.filterMap (Call.due? schedule.debounce))) ∧
      ∀ entry ∈ schedule.transcript calls, ∀ job, entry.2 ≠ .job (some job)) := by
  induction calls generalizing schedule with
  | nil => exact Or.inr ⟨Option.map_id'.symm, fun _ hentry ↦ nomatch hentry⟩
  | cons call rest ih =>
    rw [transcript_cons, List.forall_mem_cons] at h
    rw [run_cons, transcript_cons]
    have hrest := ih h.2
    obtain ⟨hnone, waiting, hwaiting, hjob⟩ | ⟨hpending, hnojob⟩ := pending_perform_cases h.1
    · -- Once the request is handed out, nothing waits any more.
      left
      refine ⟨?_, waiting, hwaiting, _, List.mem_cons_self, hjob⟩
      rw [hnone] at hrest
      obtain ⟨-, other, hother, -⟩ | ⟨hrest, -⟩ := hrest
      · nomatch hother
      · exact hrest
    · rw [hpending, debounce_perform] at hrest
      obtain ⟨hrest, waiting, hwaiting, entry, hentry, hjob⟩ | ⟨hrest, hnojobs⟩ := hrest
      · obtain ⟨before, hbefore, rfl⟩ := Option.map_eq_some_iff.mp hwaiting
        exact Or.inl ⟨hrest, before, hbefore, entry, List.mem_cons_of_mem _ hentry, hjob⟩
      · refine Or.inr ⟨?_, List.forall_mem_cons.mpr ⟨hnojob, hnojobs⟩⟩
        rw [hrest, Option.map_map, List.filterMap_cons]
        cases call.due? schedule.debounce <;> rfl

/-- What was scheduled last is handed out once, or waits for the earliest time that it was asked
for since. -/
theorem pending_of_scheduled {debounce : Nat} {earlier since : List Entry} {generation : Generation}
    {request : HighlightRequest}
    (h : transcript { debounce } calls =
      earlier ++ (call, .outcome (.scheduled generation)) :: since)
    (hrequest : call.request? = some request) (hquiet : ∀ entry ∈ since, entry.2.opens = false) :
    ((run { debounce } calls).1.pending = none ∧
      ∃ entry ∈ since, entry.2 = .job (some ⟨request, generation⟩)) ∨
    ((∃ due ∈ earliest debounce (call :: since.map Prod.fst),
        (run { debounce } calls).1.pending = some ⟨request, generation, due⟩) ∧
      ∀ entry ∈ since, ∀ job, entry.2 ≠ .job (some job)) := by
  obtain ⟨before, later, hcalls, -, hscheduled, rfl⟩ := exists_of_transcript_eq h
  dsimp only at hcalls hscheduled hquiet ⊢
  obtain ⟨asked, due, hasked, hdue, hperform⟩ := perform_of_scheduled hscheduled
  obtain rfl := Option.some.inj (hrequest.symm.trans hasked)
  have hdebounce : (run { debounce } before).1.debounce = debounce := debounce_run _ _
  have hrun : (run { debounce } calls).1 =
      (((run { debounce } before).1.perform call).1.run later).1 := by
    rw [hcalls]
    exact run_append _ _ _
  rw [hrun, map_fst_transcript]
  rw [hdebounce] at hdue
  rw [hperform] at hquiet ⊢
  obtain ⟨hnone, waiting, hwaiting, hjob⟩ | ⟨hpending, hnojob⟩ := pending_run_cases hquiet
  · obtain rfl := Option.some.inj hwaiting
    exact Or.inl ⟨hnone, hjob⟩
  · refine Or.inr ⟨⟨_, ?_, hpending⟩, hnojob⟩
    rw [earliest, List.filterMap_cons, hdue, hdebounce]
    exact List.min?_cons'

/-! ## What runs -/

/-- A pass runs until its result comes. -/
theorem mem_running_run {generation : Generation} (h : generation ∈ schedule.running)
    (hcalls : .complete generation ∉ calls) : generation ∈ (schedule.run calls).1.running := by
  induction calls generalizing schedule with
  | nil => exact h
  | cons call rest ih =>
    rw [List.mem_cons, not_or] at hcalls
    exact ih (mem_running_perform.mpr (Or.inl ⟨h, Ne.symm hcalls.1⟩)) hcalls.2

/-- A pass that runs was handed out and its result has not come. -/
theorem running_run_cases {generation : Generation}
    (h : generation ∈ (schedule.run calls).1.running) :
    generation ∈ schedule.running ∨ Awaited (schedule.transcript calls) generation := by
  suffices hcases : (generation ∈ schedule.running ∧ .complete generation ∉ calls) ∨
      Awaited (schedule.transcript calls) generation from hcases.imp_left And.left
  induction calls generalizing schedule with
  | nil => exact Or.inl ⟨h, fun hcall ↦ nomatch hcall⟩
  | cons call rest ih =>
    rw [transcript_cons]
    obtain ⟨hrunning, hrest⟩ | ⟨earlier, now, request, since, heq, hsince⟩ := ih h
    · obtain ⟨hrunning, hcall⟩ | ⟨request, hjob⟩ := mem_running_perform.mp hrunning
      · exact Or.inl ⟨hrunning, List.not_mem_cons_of_ne_of_not_mem (Ne.symm hcall) hrest⟩
      · obtain ⟨now, rfl, -, -⟩ := perform_of_job hjob
        refine Or.inr ⟨[], now, request, _, by rw [hjob]; rfl, ?_⟩
        rwa [map_fst_transcript]
    · exact Or.inr ⟨_ :: earlier, now, request, since, congrArg _ heq, hsince⟩

/-- The pass in flight is the one whose result is awaited. -/
theorem mem_running_iff_awaited {debounce : Nat} {generation : Generation} :
    generation ∈ (run { debounce } calls).1.running ↔
      Awaited (transcript { debounce } calls) generation := by
  constructor
  · intro h
    exact (running_run_cases h).resolve_left fun hnew ↦ nomatch hnew
  · rintro ⟨earlier, now, request, since, heq, hsince⟩
    obtain ⟨before, later, rfl, -, hjob, rfl⟩ := exists_of_transcript_eq heq
    rw [map_fst_transcript] at hsince
    rw [run_append, run_cons]
    exact mem_running_run (mem_running_perform.mpr (Or.inr ⟨request, hjob⟩)) hsince

/-- No pass is in flight if and only if all jobs that were handed out are completed. -/
theorem running_eq_none_iff {debounce : Nat} :
    (run { debounce } calls).1.running = none ↔ AllCompleted (transcript { debounce } calls) := by
  rw [Option.eq_none_iff_forall_not_mem]
  constructor
  · intro hnone earlier now job since heq
    by_contra hsince
    exact hnone job.generation (mem_running_iff_awaited.mpr ⟨earlier, now, _, since, heq, hsince⟩)
  · intro hall generation hrunning
    obtain ⟨earlier, now, request, since, heq, hsince⟩ := mem_running_iff_awaited.mp hrunning
    exact hsince (hall earlier now _ since heq)

end Schedule

end CodeEditor
