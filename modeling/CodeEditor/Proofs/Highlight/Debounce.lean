import CodeEditor.Proofs.Highlight.Transcript
import Mathlib.Data.List.Chain

/-!
# When a job is handed out

A request that was scheduled is handed out by the first poll that comes when it is due and no pass
is in flight; it is due at the earliest of the times it was asked for. So of requests that follow
each other faster than the debounce time only the last is ever handed out, and not before its own
debounce time has gone by.
-/

namespace CodeEditor.Schedule

/-- A request of a burst, and the calls that come between it and the next. -/
structure Stroke where
  request : HighlightRequest
  now : Nat
  pause : List Call

def Stroke.calls (stroke : Stroke) : List Call :=
  .schedule stroke.request stroke.now :: stroke.pause

/-- A poll or a result. -/
def Call.isPassive : Call → Bool
  | poll _ | complete _ => true
  | _ => false

/-- A poll before this time, or a result. -/
def Call.isEarly (due : Nat) : Call → Bool
  | poll now => now < due
  | complete _ => true
  | _ => false

/-- The strokes that come before the last request of a burst. Each request differs from the next,
and is not polled for when it is due. -/
structure Burst (debounce : Nat) (strokes : List Stroke) (last : HighlightRequest) : Prop where
  differ : (strokes.map (·.request) ++ [last]).IsChain (· ≠ ·)
  early : ∀ stroke ∈ strokes, ∀ call ∈ stroke.pause, call.isEarly (stroke.now + debounce) = true

variable {schedule : Schedule} {calls : List Call} {debounce : Nat}

/-! ## What is scheduled -/

theorem poll_of_scheduled {earlier since : List Entry} {call : Call} {generation : Generation}
    {request : HighlightRequest}
    (h : transcript { debounce } calls =
      earlier ++ (call, .outcome (.scheduled generation)) :: since)
    (hrequest : call.request? = some request) (hquiet : ∀ entry ∈ since, entry.2.opens = false)
    (now : Nat) (job : Job) :
    ((run { debounce } calls).1.poll now).2 = some job ↔
      job = ⟨request, generation⟩ ∧ (∀ entry ∈ since, entry.2 ≠ .job (some job)) ∧
        AllCompleted (transcript { debounce } calls) ∧
        ∃ due ∈ earliest debounce (call :: since.map Prod.fst), due ≤ now := by
  rw [poll_eq_some_iff, running_eq_none_iff]
  obtain ⟨hnone, entry, hentry, hjob⟩ | ⟨⟨due, hdue, hpending⟩, hnojob⟩ :=
    pending_of_scheduled h hrequest hquiet
  · rw [hnone]
    constructor
    · rintro ⟨-, waiting, hwaiting, -⟩
      nomatch hwaiting
    · rintro ⟨rfl, hnojob, -⟩
      exact absurd hjob (hnojob entry hentry)
  · rw [hpending]
    constructor
    · rintro ⟨hcompleted, waiting, hwaiting, hle, rfl⟩
      obtain rfl := Option.some.inj hwaiting
      exact ⟨rfl, fun entry hentry ↦ hnojob entry hentry _, hcompleted, due, hdue, hle⟩
    · rintro ⟨rfl, -, hcompleted, other, hother, hle⟩
      obtain rfl := Option.some.inj (hdue.symm.trans hother)
      exact ⟨hcompleted, _, rfl, hle, rfl⟩

/-- A request that differs from the latest one is scheduled. -/
theorem exists_scheduled {request : HighlightRequest} (h : schedule.latest ≠ some request)
    (now : Nat) :
    ∃ generation, (schedule.perform (.schedule request now)).2 =
      .outcome (.scheduled generation) := by
  obtain ⟨hlatest, -⟩ | ⟨-, heq⟩ := scheduleAt_cases schedule request (now + schedule.debounce)
  · exact absurd hlatest h
  · refine ⟨schedule.generation + 1, ?_⟩
    change Response.outcome (schedule.scheduleAt _ _).2 = _
    rw [heq]

/-! ## Calls that come too early -/

/-- Neither polls that come too early nor results change what waits. -/
theorem run_early {waiting : Pending} (h : schedule.pending = some waiting)
    (hcalls : ∀ call ∈ calls, call.isEarly waiting.deadline = true) :
    (schedule.run calls).1.pending = some waiting ∧
      (schedule.run calls).1.latest = schedule.latest ∧
      ∀ entry ∈ schedule.transcript calls, ∀ job, entry.2 ≠ .job (some job) := by
  induction calls generalizing schedule with
  | nil => exact ⟨h, rfl, fun _ hentry ↦ nomatch hentry⟩
  | cons call rest ih =>
    obtain ⟨hcall, hrest⟩ := List.forall_mem_cons.mp hcalls
    have hkept : (schedule.perform call).1.pending = some waiting ∧
        (schedule.perform call).1.latest = schedule.latest ∧
        ∀ job, (schedule.perform call).2 ≠ .job (some job) := by
      cases call with
      | poll now =>
        obtain heq | ⟨due, hdue, -, hle, -⟩ := poll_cases schedule now
        · change (schedule.poll now).1.pending = _ ∧ (schedule.poll now).1.latest = _ ∧
            ∀ job, Response.job (schedule.poll now).2 ≠ _
          rw [heq]
          exact ⟨h, rfl, fun _ hjob ↦ nomatch hjob⟩
        · obtain rfl := Option.some.inj (h.symm.trans hdue)
          exact absurd (of_decide_eq_true hcall) (Nat.not_lt.mpr hle)
      | complete generation => exact ⟨h, rfl, fun _ hjob ↦ nomatch hjob⟩
      | schedule request now => nomatch hcall
      | scheduleNow request now => nomatch hcall
      | reset => nomatch hcall
    obtain ⟨hpending, hlatest, hnojob⟩ := hkept
    obtain ⟨hpending', hlatest', hnojobs⟩ := ih hpending hrest
    exact ⟨hpending', hlatest'.trans hlatest, List.forall_mem_cons.mpr ⟨hnojob, hnojobs⟩⟩

theorem opens_of_isPassive {call : Call} (h : call.isPassive = true) (schedule : Schedule) :
    (schedule.perform call).2.opens = false := by
  cases call with
  | poll now => rfl
  | complete generation => rfl
  | schedule request now => nomatch h
  | scheduleNow request now => nomatch h
  | reset => nomatch h

/-- Polls and results do not bring a request forward. -/
theorem deadline_le_of_passive {waiting : Pending} (h : schedule.pending = some waiting)
    (hcalls : ∀ call ∈ calls, call.isPassive = true) {now : Nat} {job : Job}
    (hjob : (.poll now, .job (some job)) ∈ schedule.transcript calls) :
    waiting.deadline ≤ now := by
  obtain ⟨earlier, since, heq⟩ := List.append_of_mem hjob
  obtain ⟨before, later, rfl, -, hresponse, -⟩ := exists_of_transcript_eq heq
  have hbefore : ∀ call ∈ before, call.isPassive = true := fun call hcall ↦
    hcalls call (List.mem_append_left _ hcall)
  have hquiet : ∀ entry ∈ schedule.transcript before, entry.2.opens = false := by
    intro entry hentry
    obtain ⟨front, back, hback⟩ := List.append_of_mem hentry
    obtain ⟨more, rest, rfl, -, hanswer, -⟩ := exists_of_transcript_eq hback
    rw [← hanswer]
    exact opens_of_isPassive (hbefore _ (List.mem_append_right _ List.mem_cons_self)) _
  have hdues : before.filterMap (Call.due? schedule.debounce) = [] := by
    rw [List.filterMap_eq_nil_iff]
    intro call hcall
    have hpassive := hbefore call hcall
    cases call with
    | poll time => rfl
    | complete generation => rfl
    | schedule request time => nomatch hpassive
    | scheduleNow request time => nomatch hpassive
    | reset => nomatch hpassive
  obtain ⟨-, due, hdue, hle, -⟩ := poll_eq_some_iff.mp (Response.job.inj hresponse)
  obtain ⟨hnone, -⟩ | ⟨hpending, -⟩ := pending_run_cases hquiet
  · rw [hnone] at hdue
    nomatch hdue
  · rw [hpending, h, hdues] at hdue
    obtain rfl := Option.some.inj hdue
    exact hle

/-! ## Bursts -/

/-- The strokes of a burst and its last request begin with a request that is scheduled, if it
differs from the latest one. -/
theorem exists_scheduled_head {strokes : List Stroke} {last : HighlightRequest}
    (h : ∀ request ∈ (strokes.map (·.request) ++ [last]).head?, schedule.latest ≠ some request)
    (now : Nat) :
    ∃ generation,
      (schedule.transcript (strokes.flatMap Stroke.calls ++ [.schedule last now])).head?.map
        Prod.snd = some (.outcome (.scheduled generation)) := by
  cases strokes with
  | nil =>
    obtain ⟨generation, hscheduled⟩ := exists_scheduled (h last rfl) now
    exact ⟨generation, congrArg some hscheduled⟩
  | cons stroke rest =>
    obtain ⟨generation, hscheduled⟩ := exists_scheduled (h stroke.request rfl) stroke.now
    exact ⟨generation, congrArg some hscheduled⟩

/-- No job is handed out during a burst, and its last request is scheduled if the first was. -/
theorem run_burst {strokes : List Stroke} {last : HighlightRequest} {now : Nat}
    (h : Burst schedule.debounce strokes last)
    (hfirst : ∃ generation,
      (schedule.transcript (strokes.flatMap Stroke.calls ++ [.schedule last now])).head?.map
        Prod.snd = some (.outcome (.scheduled generation))) :
    (∀ entry ∈ schedule.transcript (strokes.flatMap Stroke.calls), ∀ job,
      entry.2 ≠ .job (some job)) ∧
    ∃ generation, ((schedule.run (strokes.flatMap Stroke.calls)).1.perform
      (.schedule last now)).2 = .outcome (.scheduled generation) := by
  induction strokes generalizing schedule with
  | nil =>
    obtain ⟨generation, hfirst⟩ := hfirst
    exact ⟨fun _ hentry ↦ (nomatch hentry), generation, Option.some.inj hfirst⟩
  | cons stroke rest ih =>
    obtain ⟨generation, hfirst⟩ := hfirst
    have hscheduled : (schedule.perform (.schedule stroke.request stroke.now)).2 =
        .outcome (.scheduled generation) := Option.some.inj hfirst
    obtain ⟨hearly, hrest⟩ := List.forall_mem_cons.mp h.early
    obtain ⟨hdiffer, hchain⟩ := List.isChain_cons.mp h.differ
    obtain ⟨request, due, hrequest, hdue, hperform⟩ := perform_of_scheduled hscheduled
    obtain rfl := Option.some.inj hrequest
    obtain rfl := Option.some.inj hdue
    have hpending : (schedule.perform (.schedule stroke.request stroke.now)).1.pending =
        some ⟨stroke.request, generation, stroke.now + schedule.debounce⟩ := by
      rw [hperform]
    obtain ⟨-, hkept, hnojob⟩ := run_early hpending hearly
    have hlatest : (schedule.run stroke.calls).1.latest = some stroke.request :=
      hkept.trans (congrArg Schedule.latest hperform)
    have hstroke : ∀ entry ∈ schedule.transcript stroke.calls, ∀ job,
        entry.2 ≠ .job (some job) := by
      rw [Stroke.calls, transcript_cons, List.forall_mem_cons, hscheduled]
      exact ⟨fun _ hjob ↦ (nomatch hjob), hnojob⟩
    have hdebounce := debounce_run schedule stroke.calls
    -- The next request differs from this one, which is still the latest after the pause.
    have hnext : ∀ request ∈ (rest.map (·.request) ++ [last]).head?,
        (schedule.run stroke.calls).1.latest ≠ some request := by
      intro request hrequest hsame
      exact hdiffer request hrequest (Option.some.inj (hlatest.symm.trans hsame))
    have hburst : Burst (schedule.run stroke.calls).1.debounce rest last :=
      ⟨hchain, hdebounce.symm ▸ hrest⟩
    obtain ⟨hnojobs, hlast⟩ := ih hburst (exists_scheduled_head hnext now)
    rw [List.flatMap_cons, transcript_append, run_append]
    exact ⟨fun entry hentry ↦ (List.mem_append.mp hentry).elim (hstroke entry) (hnojobs entry),
      hlast⟩

/-- What is handed out after the last request of a burst was asked for by it or by a later call. -/
theorem asked_since_last {before : List Call} {call : Call}
    (hbefore : ∀ entry ∈ schedule.transcript before, ∀ job, entry.2 ≠ .job (some job))
    (hcall : ((schedule.run before).1.perform call).2.opens = true)
    (hconsistent : schedule.Consistent) {more : List Call} {earlier rest : List Entry} {now : Nat}
    {job : Job}
    (h : schedule.transcript (before ++ call :: more) =
      earlier ++ (.poll now, .job (some job)) :: rest) :
    ∃ place, AskedAt earlier place job ∧ before.length ≤ place := by
  have hself : (call, ((schedule.run before).1.perform call).2) ≠ (.poll now, .job (some job)) := by
    intro heq
    rw [(Prod.mk.inj heq).2] at hcall
    nomatch hcall
  rw [transcript_append, transcript_cons] at h
  obtain ⟨tail, rfl, htail⟩ | ⟨tail, hfront, htail⟩ := List.append_eq_append_iff.mp h
  · obtain ⟨-, hfirst⟩ | ⟨since, rfl, hsince⟩ := List.cons_eq_append_iff.mp htail
    · exact absurd (List.cons.inj hfirst).1.symm hself
    · obtain ⟨middle, later, rfl, rfl, hresponse, -⟩ := exists_of_transcript_eq hsince
      have hreached : ((schedule.run before).1.run (call :: middle)).1.Consistent :=
        (hconsistent.run before).run (call :: middle)
      obtain ⟨-, waiting, hwaiting, -, rfl⟩ := poll_eq_some_iff.mp (Response.job.inj hresponse)
      obtain ⟨hgeneration, hlatest⟩ := hreached waiting hwaiting
      obtain hquiet | ⟨place, hasked⟩ := latest_run_cases hlatest
      · have hnone : ((schedule.run before).1.perform call).2.opens = false :=
          hquiet _ List.mem_cons_self
        rw [hcall] at hnone
        nomatch hnone
      · rw [← hgeneration] at hasked
        refine ⟨_, hasked.behind (schedule.transcript before), ?_⟩
        have hlength := congrArg List.length (map_fst_transcript schedule before)
        rw [List.length_map] at hlength
        rw [hlength]
        exact Nat.le_add_right _ _
  · obtain ⟨-, hfirst⟩ | ⟨since, rfl, -⟩ := List.cons_eq_append_iff.mp htail
    · exact absurd (List.cons.inj hfirst).1 hself
    · have hmem : (.poll now, .job (some job)) ∈ schedule.transcript before := by
        rw [hfront]
        exact List.mem_append_right _ List.mem_cons_self
      exact absurd rfl (hbefore _ hmem job)

/-- When a job is handed out: exactly when it is due, was not handed out before, and no pass is in
flight. In a burst this comes to the last request alone, after its debounce time. -/
theorem debounce_law (debounce : Nat) :
    (∀ (calls : List Call) (earlier since : List Entry) (call : Call) (generation : Generation)
      (request : HighlightRequest),
      transcript { debounce } calls =
        earlier ++ (call, .outcome (.scheduled generation)) :: since →
      call.request? = some request →
      (∀ entry ∈ since, entry.2.opens = false) →
      ∀ now job, ((run { debounce } calls).1.poll now).2 = some job ↔
        job = ⟨request, generation⟩ ∧ (∀ entry ∈ since, entry.2 ≠ .job (some job)) ∧
          AllCompleted (transcript { debounce } calls) ∧
          ∃ due ∈ earliest debounce (call :: since.map Prod.fst), due ≤ now) ∧
    (∀ (before : List Call) (strokes : List Stroke) (last : HighlightRequest) (now : Nat),
      let start := (run { debounce } before).1
      let earlierCalls := strokes.flatMap Stroke.calls
      let burst := earlierCalls ++ [.schedule last now]
      Burst debounce strokes last →
      (∃ generation, (start.transcript burst).head?.map Prod.snd =
        some (.outcome (.scheduled generation))) →
      (∀ more earlier time job rest,
        start.transcript (burst ++ more) = earlier ++ (.poll time, .job (some job)) :: rest →
        ∃ place, AskedAt earlier place job ∧ earlierCalls.length ≤ place) ∧
      ∀ later, (∀ call ∈ later, call.isPassive = true) →
        ∀ time job, (.poll time, .job (some job)) ∈ (start.run burst).1.transcript later →
          now + debounce ≤ time) := by
  refine ⟨fun _ _ _ _ _ _ h hrequest hquiet ↦ poll_of_scheduled h hrequest hquiet, ?_⟩
  intro before strokes last now start earlierCalls burst hburst hfirst
  have hdebounce : start.debounce = debounce := debounce_run _ _
  obtain ⟨hnojob, generation, hlast⟩ := run_burst (hdebounce.symm ▸ hburst) hfirst
  constructor
  · intro more earlier time job rest h
    rw [List.append_assoc] at h
    exact asked_since_last hnojob (hlast ▸ rfl) (consistent_run debounce before) h
  · intro later hlater time job hjob
    obtain ⟨request, due, -, hdue, hperform⟩ := perform_of_scheduled hlast
    have hdebounce' : (start.run earlierCalls).1.debounce = debounce :=
      (debounce_run _ _).trans hdebounce
    have hreached : (start.run burst).1.pending = some ⟨request, generation, due⟩ := by
      rw [run_append, run_cons, hperform]
      rfl
    have hdeadline := deadline_le_of_passive hreached hlater hjob
    rw [hdebounce'] at hdue
    rwa [← Option.some.inj hdue] at hdeadline

/-- Asking again for the same at once brings the request forward; of three requests in quick
succession the third is handed out, and not too early. -/
theorem debounce_law_three_requests :
    let first : HighlightRequest := ⟨"a", .plain, "light"⟩
    let second : HighlightRequest := ⟨"ab", .plain, "light"⟩
    let third : HighlightRequest := ⟨"abc", .plain, "light"⟩
    let calls : List Call :=
      [.schedule first 0, .poll 299, .complete 7, .schedule second 250, .schedule third 400]
    ((run {} [.schedule first 0, .poll 100, .scheduleNow first 150]).1.poll 150).2 =
        some ⟨first, 1⟩ ∧
      ((run {} calls).1.poll 700).2 = some ⟨third, 3⟩ ∧
      (∃ place, AskedAt (transcript {} calls) place ⟨third, 3⟩ ∧ 4 ≤ place) ∧ 400 + 300 ≤ 700 := by
  intro first second third calls
  obtain ⟨hlaw, hbursts⟩ := debounce_law 300
  have hhanded := (hlaw [.schedule first 0, .poll 100, .scheduleNow first 150] [] _ _ 1 first rfl
    rfl (by decide) 150 ⟨first, 1⟩).mpr
      ⟨rfl, by decide, running_eq_none_iff.mp rfl, 150, by decide, Nat.le_refl _⟩
  obtain ⟨hasked, hdue⟩ := hbursts [] [⟨first, 0, [.poll 299, .complete 7]⟩, ⟨second, 250, []⟩]
    third 400 ⟨by decide, by decide⟩ ⟨1, rfl⟩
  exact ⟨hhanded, rfl, hasked [.poll 700] _ 700 ⟨third, 3⟩ [] rfl,
    hdue [.poll 700] (by decide) 700 ⟨third, 3⟩ (by decide)⟩

end CodeEditor.Schedule
