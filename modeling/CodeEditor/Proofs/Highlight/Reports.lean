import CodeEditor.Proofs.Highlight.Handout

/-!
# Reports that count

A report counts by its generation, not because its result is awaited: the same result counts
however often it is reported. What a report that counts tells of the calls before it is that its job
was handed out for the request given last, and that nothing has opened a generation since. There is
no such job only while every request that was scheduled has been forgotten.
-/

namespace CodeEditor.Schedule

/-- Each request that was scheduled has been forgotten since. -/
def AllForgotten (entries : List Entry) : Prop :=
  ∀ earlier call generation since,
    entries = earlier ++ (call, .outcome (.scheduled generation)) :: since →
    .reset ∈ since.map Prod.fst

variable {schedule : Schedule} {debounce : Nat} {calls : List Call} {call : Call}

/-! ## Requests that are not forgotten -/

/-- Only a reset forgets the latest request. -/
theorem latest_perform_ne_none (h : schedule.latest ≠ none) (hcall : call ≠ .reset) :
    (schedule.perform call).1.latest ≠ none := by
  rw [latest_perform schedule hcall, ne_eq, Option.or_eq_none_iff, not_and]
  exact fun _ ↦ h

theorem latest_run_ne_none (h : schedule.latest ≠ none) (hcalls : .reset ∉ calls) :
    (schedule.run calls).1.latest ≠ none := by
  induction calls generalizing schedule with
  | nil => exact h
  | cons call rest ih =>
    rw [List.mem_cons, not_or] at hcalls
    exact ih (latest_perform_ne_none h (Ne.symm hcalls.1)) hcalls.2

theorem allForgotten_of_latest (h : (run { debounce } calls).1.latest = none) :
    AllForgotten (transcript { debounce } calls) := by
  intro earlier call generation since heq
  obtain ⟨before, later, rfl, -, hscheduled, rfl⟩ := exists_of_transcript_eq heq
  obtain ⟨request, due, -, -, hperform⟩ := perform_of_scheduled hscheduled
  have hlatest : ((run { debounce } before).1.perform call).1.latest ≠ none := by
    rw [hperform]
    exact Option.some_ne_none request
  rw [map_fst_transcript]
  by_contra hkept
  rw [run_append, run_cons] at h
  exact latest_run_ne_none hlatest hkept h

/-! ## Reports of one job -/

/-- As long as no generation is opened, every report of the job handed out last counts. -/
theorem JustHandedOut.completion_eq {job : Job} (h : JustHandedOut schedule job)
    (hquiet : ∀ entry ∈ schedule.transcript calls, entry.2.opens = false) {response : Response}
    (hreport : (.complete job.generation, response) ∈ schedule.transcript calls) :
    response = .completion .current := by
  obtain ⟨earlier, since, heq⟩ := List.append_of_mem hreport
  obtain ⟨before, later, -, rfl, hresponse, -⟩ := exists_of_transcript_eq heq
  have hbefore : ∀ entry ∈ schedule.transcript before, entry.2.opens = false :=
    fun entry hentry ↦ hquiet entry (heq ▸ List.mem_append_left _ hentry)
  obtain ⟨hgeneration, -, hpending⟩ := run_of_not_opens (forall_mem_transcript.mp hbefore)
  have hcurrent : ((schedule.run before).1.complete job.generation).2 = .current :=
    complete_eq_current_iff.mpr ⟨(hgeneration.trans h.generation).symm, hpending h.pending⟩
  calc
    response = ((schedule.run before).1.perform (.complete job.generation)).2 := hresponse.symm
    _ = .completion .current := congrArg Response.completion hcurrent

/-! ## The law -/

/-- A report counts only under the current generation and while nothing waits. Unless all requests
are forgotten, its job was then handed out for the request given last, nothing has opened a
generation since, and all earlier reports of the job counted as well. -/
theorem handed_out_of_current (debounce : Nat) (calls : List Call) (generation : Generation)
    (h : ((run { debounce } calls).1.complete generation).2 = .current) :
    generation = (run { debounce } calls).1.generation ∧
    (run { debounce } calls).1.pending = none ∧
    (AllForgotten (transcript { debounce } calls) ∨
      ∃ earlier now request since,
        transcript { debounce } calls =
          earlier ++ (.poll now, .job (some ⟨request, generation⟩)) :: since ∧
        lastRequest? calls = some request ∧
        (∀ entry ∈ since, entry.2.opens = false) ∧
        ∀ response, (.complete generation, response) ∈ since →
          response = .completion .current) := by
  obtain ⟨rfl, hpending⟩ := complete_eq_current_iff.mp h
  refine ⟨rfl, hpending, ?_⟩
  cases hlatest : (run { debounce } calls).1.latest with
  | none => exact Or.inl (allForgotten_of_latest hlatest)
  | some request =>
    right
    obtain ⟨earlier, now, since, heq, hquiet⟩ := exists_handed_out hlatest hpending
    obtain ⟨before, later, reached, -, -, rfl, -, -, -, hreached⟩ := exists_justHandedOut heq
    exact ⟨earlier, now, request, _, heq, lastRequest?_of_latest_run hlatest, hquiet,
      fun response hreport ↦ hreached.completion_eq hquiet hreport⟩

/-- The second report of a job counts again: the first one did, and the request is still the one
given last. -/
theorem handed_out_of_current_reported_twice :
    let old : HighlightRequest := ⟨"a", .plain, "light"⟩
    let request : HighlightRequest := ⟨"ab", .plain, "light"⟩
    let calls : List Call :=
      [.schedule old 0, .poll 300, .scheduleNow request 310, .complete 1, .poll 320, .complete 2]
    ((run {} calls).1.complete 2).2 = .current ∧
      (run {} calls).1.generation = 2 ∧ (run {} calls).1.pending = none ∧
      ∃ earlier now since,
        transcript {} calls = earlier ++ (.poll now, .job (some ⟨request, 2⟩)) :: since ∧
        lastRequest? calls = some request ∧ (∀ entry ∈ since, entry.2.opens = false) ∧
        ∀ response, (.complete 2, response) ∈ since → response = .completion .current := by
  intro old request calls
  have hcurrent : ((run {} calls).1.complete 2).2 = .current := by decide
  obtain ⟨hgeneration, hpending, hforgotten | ⟨earlier, now, asked, since, heq, hlast, hsince⟩⟩ :=
    handed_out_of_current 300 calls 2 hcurrent
  · have hreset := hforgotten [] (.schedule old 0) 1 _ rfl
    exact absurd hreset (by decide)
  · obtain rfl : asked = request := Option.some.inj (hlast.symm.trans (by decide))
    exact ⟨hcurrent, hgeneration.symm, hpending, earlier, now, since, heq, hlast, hsince⟩

/-- A report can count although no result is awaited: that of a result reported before, and on a
new schedule even one of a job that was never handed out. -/
theorem current_without_awaited :
    let request : HighlightRequest := ⟨"a", .plain, "light"⟩
    let calls : List Call := [.schedule request 0, .poll 300, .complete 1]
    (((run {} calls).1.complete 1).2 = .current ∧ ¬Awaited (transcript {} calls) 1) ∧
      ((run {} []).1.complete 0).2 = .current ∧ ¬Awaited (transcript {} []) 0 := by
  intro request calls
  refine ⟨⟨by decide, fun hawaited ↦ ?_⟩, by decide, fun hawaited ↦ ?_⟩
  · exact absurd (mem_running_iff_awaited.mpr hawaited) (by decide)
  · exact absurd (mem_running_iff_awaited.mpr hawaited) (by decide)

end CodeEditor.Schedule
