import CodeEditor.Proofs.Highlight.Transcript

/-!
# Jobs that are handed out

A schedule hands its jobs out one after the other: a job comes only after the result of the one
before it, with a higher generation, and it is what was asked for under that generation. No request
is lost on the way. The latest one is the one given last since the last reset, and it waits, or its
pass is in flight, or the result has come.
-/

namespace CodeEditor.Schedule

/-- What the transcript of a run that leads to the schedule says of requests and jobs. -/
structure Orderly (schedule : Schedule) (entries : List Entry) : Prop where
  /-- The latest request is the one given last since the last reset. -/
  latest_given : schedule.latest = lastRequest? (sinceReset (entries.map Prod.fst))
  /-- What waits is the latest request and has the current generation. -/
  pending_latest : ∀ waiting ∈ schedule.pending,
    waiting.generation = schedule.generation ∧ schedule.latest = some waiting.request
  /-- What runs is not newer than the current generation, and older if something waits. -/
  running_le : ∀ generation ∈ schedule.running,
    generation ≤ schedule.generation ∧
      (schedule.pending ≠ none → generation < schedule.generation)
  /-- Between two jobs the result of the first has come, and the second has a higher generation. -/
  one_at_a_time : ∀ earlier now job between later next rest,
    entries = earlier ++ (.poll now, .job (some job)) ::
      (between ++ (.poll later, .job (some next)) :: rest) →
    .complete job.generation ∈ between.map Prod.fst ∧ job.generation < next.generation
  /-- A job has the request that was scheduled under its generation, by one call before it. -/
  job_asked : ∀ earlier now job since,
    entries = earlier ++ (.poll now, .job (some job)) :: since →
    (∃ place, AskedAt earlier place job) ∧
      ∀ call, (call, .outcome (.scheduled job.generation)) ∈ entries →
        call.request? = some job.request
  /-- The latest request waits, or was handed out and is in flight or completed. -/
  latest_kept : ∀ request ∈ schedule.latest,
    (∃ waiting ∈ schedule.pending, waiting.request = request) ∨
    ∃ earlier now since,
      entries = earlier ++ (.poll now, .job (some ⟨request, schedule.generation⟩)) :: since ∧
      (schedule.running = some schedule.generation ∨
        .complete schedule.generation ∈ since.map Prod.fst)

variable {debounce : Nat} {calls : List Call}

/-! ## Generations as numbers -/

/-- With less than `2 ^ 64` generations, the current one is the number of those opened. -/
theorem toNat_generation_run (h : opened (transcript { debounce } calls) < UInt64.size) :
    (run { debounce } calls).1.generation.toNat = opened (transcript { debounce } calls) := by
  rw [generation_run, ← opened_transcript, UInt64.zero_add, UInt64.toNat_ofNat']
  exact Nat.mod_eq_of_lt h

theorem toNat_of_scheduled {earlier since : List Entry} {call : Call} {generation : Generation}
    (h : transcript { debounce } calls =
      earlier ++ (call, .outcome (.scheduled generation)) :: since)
    (hopened : opened (transcript { debounce } calls) < UInt64.size) :
    generation.toNat = opened earlier + 1 := by
  obtain ⟨before, later, -, rfl, hscheduled, -⟩ := exists_of_transcript_eq h
  have hopens : ((run { debounce } before).1.perform call).2.opens = true := hscheduled ▸ rfl
  have hnext := generation_perform_of_opens hopens
  obtain ⟨request, due, -, -, hperform⟩ := perform_of_scheduled hscheduled
  rw [hperform] at hnext
  dsimp only at hnext
  rw [h, opened_append, opened_cons] at hopened
  rw [hnext, UInt64.toNat_add, toNat_generation_run (by omega)]
  apply Nat.mod_eq_of_lt
  change _ + (_ + 1) < 2 ^ 64 at hopened
  change _ + 1 < 2 ^ 64
  omega

/-- Entries that open a generation are told apart by how many did so before. -/
theorem eq_of_opened_eq {earlier since before later : List Entry} {entry other : Entry}
    (h : earlier ++ entry :: since = before ++ other :: later) (hentry : entry.2.opens = true)
    (hother : other.2.opens = true) (hopened : opened earlier = opened before) :
    entry = other := by
  induction earlier generalizing before with
  | nil =>
    cases before with
    | nil => exact (List.cons.inj h).1
    | cons first before =>
      obtain ⟨rfl, -⟩ := List.cons.inj h
      rw [opened_cons, hentry] at hopened
      exact absurd hopened.symm (Nat.succ_ne_zero _)
  | cons first earlier ih =>
    cases before with
    | nil =>
      obtain ⟨rfl, -⟩ := List.cons.inj h
      rw [opened_cons, hother] at hopened
      exact absurd hopened (Nat.succ_ne_zero _)
    | cons head before =>
      obtain ⟨rfl, hrest⟩ := List.cons.inj h
      rw [opened_cons, opened_cons, Nat.add_right_cancel_iff] at hopened
      exact ih hrest hopened

/-! ## After a job -/

/-- A schedule right after a job was handed out: nothing waits, and all is about the job. -/
structure JustHandedOut (schedule : Schedule) (job : Job) : Prop where
  pending : schedule.pending = none
  running : schedule.running = some job.generation
  generation : schedule.generation = job.generation
  latest : schedule.latest = some job.request

theorem exists_justHandedOut {earlier since : List Entry} {now : Nat} {job : Job}
    (h : transcript { debounce } calls = earlier ++ (.poll now, .job (some job)) :: since) :
    ∃ before later schedule, calls = before ++ .poll now :: later ∧
      earlier = transcript { debounce } before ∧ since = schedule.transcript later ∧
      (run { debounce } calls).1 = (schedule.run later).1 ∧
      (run { debounce } before).1.generation = job.generation ∧
      (run { debounce } before).1.latest = some job.request ∧
      JustHandedOut schedule job := by
  obtain ⟨before, later, rfl, rfl, hresponse, rfl⟩ := exists_of_transcript_eq h
  obtain ⟨time, htime, hjob, hperform⟩ := perform_of_job hresponse
  obtain rfl := Call.poll.inj htime
  have hconsistent := consistent_run debounce before
  obtain ⟨hpending, hgeneration, hlatest⟩ := poll_eq_some hconsistent hjob
  obtain ⟨-, waiting, hwaiting, -, rfl⟩ := poll_eq_some_iff.mp hjob
  obtain ⟨hcurrent, hasked⟩ := hconsistent waiting hwaiting
  exact ⟨before, later, _, rfl, rfl, rfl, run_append _ _ _, hcurrent.symm, hasked,
    ⟨hpending, hperform ▸ rfl, hgeneration, hlatest⟩⟩

theorem toNat_of_job {earlier since : List Entry} {now : Nat} {job : Job}
    (h : transcript { debounce } calls = earlier ++ (.poll now, .job (some job)) :: since)
    (hopened : opened (transcript { debounce } calls) < UInt64.size) :
    job.generation.toNat = opened earlier := by
  obtain ⟨before, later, -, -, rfl, -, -, hgeneration, -, -⟩ := exists_justHandedOut h
  rw [h, opened_append] at hopened
  rw [← hgeneration, toNat_generation_run (by omega)]

/-- Something waits after a job only if a generation was opened since. -/
theorem JustHandedOut.opened_pos {schedule : Schedule} {job : Job}
    (h : JustHandedOut schedule job) {later : List Call}
    (hpending : (schedule.run later).1.pending ≠ none) :
    0 < opened (schedule.transcript later) := by
  by_contra hzero
  have hquiet := opened_eq_zero_iff.mp (Nat.eq_zero_of_not_pos hzero)
  exact hpending ((run_of_not_opens (forall_mem_transcript.mp hquiet)).2.2 h.pending)

theorem opened_of_job (earlier since : List Entry) (now : Nat) (job : Option Job) :
    opened (earlier ++ (.poll now, .job job) :: since) = opened earlier + opened since := by
  rw [opened_append, opened_cons]
  rfl

/-! ## The law -/

theorem running_le_generation (hopened : opened (transcript { debounce } calls) < UInt64.size)
    {generation : Generation} (h : generation ∈ (run { debounce } calls).1.running) :
    generation ≤ (run { debounce } calls).1.generation ∧
      ((run { debounce } calls).1.pending ≠ none →
        generation < (run { debounce } calls).1.generation) := by
  obtain ⟨earlier, now, request, since, heq, -⟩ := mem_running_iff_awaited.mp h
  have hjob := toNat_of_job heq hopened
  obtain ⟨before, later, reached, -, -, hsince, hrun, -, -, hreached⟩ := exists_justHandedOut heq
  rw [UInt64.le_iff_toNat_le, UInt64.lt_iff_toNat_lt, toNat_generation_run hopened, hjob, heq,
    opened_of_job]
  refine ⟨Nat.le_add_right _ _, fun hpending ↦ ?_⟩
  rw [hrun] at hpending
  have hpos := hreached.opened_pos hpending
  rw [← hsince] at hpos
  exact Nat.lt_add_of_pos_right hpos

theorem completed_between (hopened : opened (transcript { debounce } calls) < UInt64.size)
    {earlier between rest : List Entry} {now later : Nat} {job next : Job}
    (h : transcript { debounce } calls = earlier ++ (.poll now, .job (some job)) ::
      (between ++ (.poll later, .job (some next)) :: rest)) :
    .complete job.generation ∈ between.map Prod.fst ∧ job.generation < next.generation := by
  obtain ⟨before, more, reached, -, -, hsince, -, -, -, hreached⟩ := exists_justHandedOut h
  obtain ⟨middle, last, -, rfl, hresponse, -⟩ := exists_of_transcript_eq hsince.symm
  obtain ⟨hfree, waiting, hwaiting, -⟩ := poll_eq_some_iff.mp (Response.job.inj hresponse)
  constructor
  · by_contra hcompleted
    rw [map_fst_transcript] at hcompleted
    have hrunning : job.generation ∈ reached.running := hreached.running
    rw [mem_running_run hrunning hcompleted] at hfree
    nomatch hfree
  · have hpending : (reached.run middle).1.pending ≠ none := by
      rw [hwaiting]
      exact nofun
    have hpos := hreached.opened_pos hpending
    have hjob := toNat_of_job h hopened
    rw [← List.cons_append, ← List.append_assoc] at h
    have hnext := toNat_of_job h hopened
    rw [opened_of_job] at hnext
    rw [UInt64.lt_iff_toNat_lt, hjob, hnext]
    exact Nat.lt_add_of_pos_right hpos

theorem job_asked_once (hopened : opened (transcript { debounce } calls) < UInt64.size)
    {earlier since : List Entry} {now : Nat} {job : Job}
    (h : transcript { debounce } calls = earlier ++ (.poll now, .job (some job)) :: since) :
    (∃ place, AskedAt earlier place job) ∧
      ∀ call, (call, .outcome (.scheduled job.generation)) ∈ transcript { debounce } calls →
        call.request? = some job.request := by
  obtain ⟨before, later, -, -, hearlier, -, -, hgeneration, hlatest, -⟩ := exists_justHandedOut h
  obtain ⟨place, hasked⟩ := exists_askedAt hlatest
  rw [hgeneration, ← hearlier] at hasked
  refine ⟨⟨place, hasked⟩, fun call hcall ↦ ?_⟩
  obtain ⟨front, back, hback⟩ := List.append_of_mem hcall
  obtain ⟨first, asking, quiet, hfirst, -, hrequest, -⟩ := hasked
  have hwhole : transcript { debounce } calls =
      first ++ (asking, .outcome (.scheduled job.generation)) ::
        (quiet ++ (.poll now, .job (some job)) :: since) := by
    rw [h, hfirst, List.append_assoc, List.cons_append]
  have hcount := toNat_of_scheduled hback hopened
  rw [toNat_of_scheduled hwhole hopened, Nat.add_right_cancel_iff] at hcount
  have hsame := eq_of_opened_eq (hwhole.symm.trans hback) rfl rfl hcount
  rw [← (Prod.mk.inj hsame).1]
  exact hrequest

/-- If nothing waits, the latest request was handed out under the current generation, and none has
been opened since. -/
theorem exists_handed_out {request : HighlightRequest}
    (h : request ∈ (run { debounce } calls).1.latest)
    (hpending : (run { debounce } calls).1.pending = none) :
    let job : Job := ⟨request, (run { debounce } calls).1.generation⟩
    ∃ earlier now since,
      transcript { debounce } calls = earlier ++ (.poll now, .job (some job)) :: since ∧
      ∀ entry ∈ since, entry.2.opens = false := by
  intro job
  obtain ⟨place, earlier, call, since, heq, -, hrequest, hquiet⟩ := exists_askedAt h
  obtain ⟨-, entry, hentry, hjob⟩ | ⟨⟨due, -, hwaits⟩, -⟩ :=
    pending_of_scheduled heq hrequest hquiet
  · have hmem : entry ∈ transcript { debounce } calls := by
      rw [heq]
      exact List.mem_append_right _ (List.mem_cons_of_mem _ hentry)
    obtain ⟨now, rfl⟩ := poll_of_mem_transcript hmem hjob
    obtain ⟨front, back, rfl⟩ := List.append_of_mem hentry
    refine ⟨earlier ++ (call, .outcome (.scheduled job.generation)) :: front, now, back, ?_, ?_⟩
    · rw [heq, List.append_assoc, List.cons_append]
    · intro later hlater
      exact hquiet later (List.mem_append_right _ (List.mem_cons_of_mem _ hlater))
  · rw [hpending] at hwaits
    nomatch hwaits

theorem latest_not_lost {request : HighlightRequest}
    (h : request ∈ (run { debounce } calls).1.latest) :
    let reached := (run { debounce } calls).1
    (∃ waiting ∈ reached.pending, waiting.request = request) ∨
    ∃ earlier now since,
      transcript { debounce } calls =
        earlier ++ (.poll now, .job (some ⟨request, reached.generation⟩)) :: since ∧
      (reached.running = some reached.generation ∨
        .complete reached.generation ∈ since.map Prod.fst) := by
  intro reached
  cases hpending : reached.pending with
  | some waiting =>
    obtain ⟨-, hlatest⟩ := consistent_run debounce calls waiting hpending
    exact Or.inl ⟨waiting, rfl, Option.some.inj (hlatest.symm.trans h)⟩
  | none =>
    obtain ⟨earlier, now, since, heq, -⟩ := exists_handed_out h hpending
    refine Or.inr ⟨earlier, now, since, heq, or_iff_not_imp_right.mpr fun hcompleted ↦ ?_⟩
    exact mem_running_iff_awaited.mpr ⟨earlier, now, request, since, heq, hcompleted⟩

/-- Whatever the calls of a run are, one pass is in flight at a time and no request is lost. -/
theorem orderly_run (debounce : Nat) (calls : List Call)
    (h : opened (transcript { debounce } calls) < UInt64.size) :
    Orderly (run { debounce } calls).1 (transcript { debounce } calls) where
  latest_given := by rw [map_fst_transcript, latest_run]
  pending_latest := consistent_run debounce calls
  running_le _ hrunning := running_le_generation h hrunning
  one_at_a_time _ _ _ _ _ _ _ heq := completed_between h heq
  job_asked _ _ _ _ heq := job_asked_once h heq
  latest_kept _ hlatest := latest_not_lost hlatest

/-- Of requests that come while another one waits, the last one counts. If a pass is in flight, it
is handed out once the result of that pass has come, and of no other. -/
theorem orderly_run_superseded :
    let first : HighlightRequest := ⟨"a", .plain, "light"⟩
    let second : HighlightRequest := ⟨"ab", .plain, "light"⟩
    let third : HighlightRequest := ⟨"abc", .plain, "light"⟩
    let fourth : HighlightRequest := ⟨"abcd", .plain, "light"⟩
    let begun : List Call := [.schedule first 0, .schedule second 100]
    let calls : List Call := begun ++
      [.poll 400, .scheduleNow third 410, .schedule fourth 420, .poll 430, .complete 9, .poll 440,
        .complete 2, .poll 800]
    (opened (transcript {} begun) < UInt64.size ∧
      Orderly (run {} begun).1 (transcript {} begun) ∧
      (run {} begun).1.latest = some second ∧
      (run {} begun).1.pending = some ⟨second, 2, 400⟩) ∧
    opened (transcript {} calls) < UInt64.size ∧
      Orderly (run {} calls).1 (transcript {} calls) ∧
      (run {} calls).1.latest = some fourth ∧
      (run {} calls).1.running = some 4 := by
  intro first second third fourth begun calls
  have hbegun : opened (transcript {} begun) < UInt64.size := by decide
  have hopened : opened (transcript {} calls) < UInt64.size := by decide
  have hwaits := orderly_run 300 begun hbegun
  have horderly := orderly_run 300 calls hopened
  have hsecond : (run {} begun).1.latest = some second := hwaits.latest_given
  have hfourth : (run {} calls).1.latest = some fourth := horderly.latest_given
  exact ⟨⟨hbegun, hwaits, hsecond, rfl⟩, hopened, horderly, hfourth, rfl⟩

end CodeEditor.Schedule
