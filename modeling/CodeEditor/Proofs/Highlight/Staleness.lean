import CodeEditor.Proofs.Highlight.Calls
import Mathlib.Data.List.Count

/-!
# Stale results

The generation of a schedule counts the generations that its calls have opened, modulo `2 ^ 64`.
So as long as fewer are opened, the result of a pass that was handed out counts exactly if none
was opened since, and then it is the result for the request given last.
-/

namespace CodeEditor.Schedule

/-- A generation comes back only after `2 ^ 64` others. -/
theorem eq_zero_of_add_ofNat_eq {generation : Generation} {opened : Nat}
    (h : opened < UInt64.size) (heq : generation + .ofNat opened = generation) : opened = 0 := by
  have hnat := congrArg UInt64.toNat heq
  have hlt := generation.toNat_lt
  rw [UInt64.toNat_add, UInt64.toNat_ofNat'] at hnat
  unfold UInt64.size at h
  omega

/-- Each generation that a run opens adds one. -/
theorem generation_run (schedule : Schedule) (calls : List Call) :
    (schedule.run calls).1.generation =
      schedule.generation + .ofNat ((schedule.run calls).2.countP Response.opens) := by
  induction calls generalizing schedule with
  | nil => exact (UInt64.add_zero _).symm
  | cons call rest ih =>
    rw [run_cons, ih, List.countP_cons]
    split
    · rename_i hopens
      rw [generation_perform_of_opens hopens, UInt64.ofNat_add, UInt64.add_assoc]
      exact congrArg _ (UInt64.add_comm _ _)
    · rename_i hopens
      rw [(perform_of_not_opens (Bool.not_eq_true _ ▸ hopens)).1, Nat.add_zero]

/-- A run that opens no generation keeps the latest request and lets nothing wait. -/
theorem run_of_not_opens {schedule : Schedule} {calls : List Call}
    (h : ∀ response ∈ (schedule.run calls).2, response.opens = false) :
    (schedule.run calls).1.generation = schedule.generation ∧
      (schedule.run calls).1.latest = schedule.latest ∧
      (schedule.pending = none → (schedule.run calls).1.pending = none) := by
  induction calls generalizing schedule with
  | nil => exact ⟨rfl, rfl, id⟩
  | cons call rest ih =>
    rw [run_cons, List.forall_mem_cons] at h
    obtain ⟨hgeneration, hlatest, hpending⟩ := perform_of_not_opens h.1
    obtain ⟨hgeneration', hlatest', hpending'⟩ := ih h.2
    exact ⟨hgeneration'.trans hgeneration, hlatest'.trans hlatest, hpending' ∘ hpending⟩

/-- A schedule that has just handed a job out has nothing waiting, is at the generation of the
job, and has its request as the latest one. -/
theorem poll_eq_some {schedule : Schedule} (h : schedule.Consistent) {now : Nat} {job : Job}
    (hjob : (schedule.poll now).2 = some job) :
    (schedule.poll now).1.pending = none ∧ (schedule.poll now).1.generation = job.generation ∧
      (schedule.poll now).1.latest = some job.request := by
  obtain heq | ⟨waiting, hpending, -, -, heq⟩ := poll_cases schedule now
  · rw [heq] at hjob
    nomatch hjob
  · rw [heq] at hjob ⊢
    obtain rfl := Option.some.inj hjob
    obtain ⟨hgeneration, hlatest⟩ := h waiting hpending
    exact ⟨rfl, hgeneration.symm, hlatest⟩

/-- A result counts if and only if no request was scheduled and no reset came since its job was
handed out; and then the job's request is the one given last. -/
theorem complete_current_iff (debounce : Nat) (before later : List Call) (now : Nat) {job : Job}
    (hjob : ((run { debounce } before).1.perform (.poll now)).2 = .job (some job)) :
    let since := (run { debounce } (before ++ [.poll now])).1.run later
    since.2.countP Response.opens < UInt64.size →
      ((since.1.complete job.generation).2 = .current ↔
        ∀ response ∈ since.2, response.opens = false) ∧
      ((since.1.complete job.generation).2 = .current →
        lastRequest? (before ++ .poll now :: later) = some job.request) := by
  intro since hcount
  have hpolled : (run { debounce } (before ++ [.poll now])).1 =
      ((run { debounce } before).1.poll now).1 := run_append _ _ _
  obtain ⟨hpending, hgeneration, hlatest⟩ :=
    poll_eq_some (consistent_run debounce before) (Response.job.inj hjob)
  rw [← hpolled] at hpending hgeneration hlatest
  have hiff : (since.1.complete job.generation).2 = .current ↔
      ∀ response ∈ since.2, response.opens = false := by
    rw [Schedule.complete_eq_current_iff]
    constructor
    · rintro ⟨hcurrent, -⟩ response hresponse
      rw [generation_run, hgeneration] at hcurrent
      have hzero := eq_zero_of_add_ofNat_eq hcount hcurrent.symm
      exact Bool.not_eq_true _ ▸ List.countP_eq_zero.mp hzero response hresponse
    · intro hnone
      obtain ⟨hsame, -, hstill⟩ := run_of_not_opens hnone
      exact ⟨(hsame.trans hgeneration).symm, hstill hpending⟩
  refine ⟨hiff, fun hcurrent ↦ ?_⟩
  obtain ⟨-, hsame, -⟩ := run_of_not_opens (hiff.mp hcurrent)
  rw [List.append_cons]
  apply lastRequest?_of_latest_run
  rw [run_append]
  exact hsame.trans hlatest

/-- Asking for the same again does not make the pass that runs stale. -/
theorem complete_current_of_repetition :
    let request : HighlightRequest := ⟨"a", .plain, "light"⟩
    let since :=
      (run { debounce := 300 } [.schedule request 0, .poll 300]).1.run
        [.schedule request 310, .scheduleNow request 320, .poll 700]
    (since.1.complete 1).2 = .current ∧
      lastRequest? [.schedule request 0, .poll 300, .schedule request 310,
        .scheduleNow request 320, .poll 700] = some request := by
  obtain ⟨hiff, hlast⟩ := complete_current_iff 300 [.schedule ⟨"a", .plain, "light"⟩ 0]
    [.schedule ⟨"a", .plain, "light"⟩ 310, .scheduleNow ⟨"a", .plain, "light"⟩ 320, .poll 700]
    300 (show _ = Response.job (some ⟨⟨"a", .plain, "light"⟩, 1⟩) by decide) (by decide)
  exact ⟨hiff.mpr (by decide), hlast (hiff.mpr (by decide))⟩

end CodeEditor.Schedule
