import CodeEditor.Highlight.Schedule
import Mathlib.Data.List.Induction

/-!
# Runs of a schedule

The calls of a schedule as data, with what is answered. A call either opens one generation, or
leaves the generation and the latest request as they are. In every state that a run reaches, what
waits belongs to the current generation and is the latest request, which is the one given last.
-/

namespace CodeEditor.Schedule

inductive Call where
  | schedule (request : HighlightRequest) (now : Nat)
  | scheduleNow (request : HighlightRequest) (now : Nat)
  | poll (now : Nat)
  | complete (generation : Generation)
  | reset
  deriving DecidableEq

inductive Response where
  | outcome (outcome : Outcome)
  | job (job : Option Job)
  | completion (completion : Completion)
  | reset
  deriving DecidableEq

def perform (schedule : Schedule) : Call → Schedule × Response
  | .schedule request now =>
    let (schedule, outcome) := schedule.schedule request now
    (schedule, .outcome outcome)
  | .scheduleNow request now =>
    let (schedule, outcome) := schedule.scheduleNow request now
    (schedule, .outcome outcome)
  | .poll now =>
    let (schedule, job) := schedule.poll now
    (schedule, .job job)
  | .complete generation =>
    let (schedule, completion) := schedule.complete generation
    (schedule, .completion completion)
  | .reset => (schedule.reset, .reset)

/-- Makes calls one after the other, and collects the responses. -/
def run (schedule : Schedule) : List Call → Schedule × List Response
  | [] => (schedule, [])
  | call :: rest =>
    let (schedule, response) := schedule.perform call
    let (schedule, responses) := schedule.run rest
    (schedule, response :: responses)

/-- Whether the call opened a generation. -/
def Response.opens : Response → Bool
  | .outcome (.scheduled _) => true
  | .reset => true
  | _ => false

def Call.request? : Call → Option HighlightRequest
  | schedule request _ => some request
  | scheduleNow request _ => some request
  | _ => none

/-- The request that was given last. -/
def lastRequest? (calls : List Call) : Option HighlightRequest :=
  (calls.filterMap Call.request?).getLast?

/-- The calls behind the last reset, which are all of them if there was none. -/
def sinceReset (calls : List Call) : List Call :=
  (calls.reverse.takeWhile (· ≠ .reset)).reverse

@[simp] theorem run_nil (schedule : Schedule) : schedule.run [] = (schedule, []) := rfl

theorem run_cons (schedule : Schedule) (call : Call) (rest : List Call) :
    schedule.run (call :: rest) =
      (((schedule.perform call).1.run rest).1,
        (schedule.perform call).2 :: ((schedule.perform call).1.run rest).2) := rfl

theorem run_append (schedule : Schedule) (calls more : List Call) :
    (schedule.run (calls ++ more)).1 = ((schedule.run calls).1.run more).1 := by
  induction calls generalizing schedule with
  | nil => rfl
  | cons call rest ih => exact ih (schedule.perform call).1

/-! ## Single calls -/

variable {schedule : Schedule}

/-- A request either repeats the latest one or opens a generation. -/
theorem scheduleAt_cases (schedule : Schedule) (request : HighlightRequest) (deadline : Nat) :
    (schedule.latest = some request ∧
      schedule.scheduleAt request deadline =
        ({ schedule with pending := schedule.pending.map fun waiting ↦
            { waiting with deadline := min waiting.deadline deadline } }, .unchanged)) ∨
    (schedule.latest ≠ some request ∧
      schedule.scheduleAt request deadline =
        ({ schedule with
            generation := schedule.generation + 1
            latest := some request
            pending := some ⟨request, schedule.generation + 1, deadline⟩ },
          .scheduled (schedule.generation + 1))) := by
  unfold scheduleAt
  split
  · exact Or.inl ⟨‹_›, rfl⟩
  · exact Or.inr ⟨‹_›, rfl⟩

/-- Whether it repeats or not, the latest request is the one just given. -/
theorem latest_scheduleAt (schedule : Schedule) (request : HighlightRequest) (deadline : Nat) :
    (schedule.scheduleAt request deadline).1.latest = some request := by
  obtain ⟨hlatest, heq⟩ | ⟨-, heq⟩ := scheduleAt_cases schedule request deadline
  · rw [heq]
    exact hlatest
  · rw [heq]

/-- A job is handed out only while no pass runs, and is then the request that waited. -/
theorem poll_cases (schedule : Schedule) (now : Nat) :
    schedule.poll now = (schedule, none) ∨
    ∃ waiting, schedule.pending = some waiting ∧ schedule.running = none ∧
      waiting.deadline ≤ now ∧
      schedule.poll now =
        ({ schedule with pending := none, running := some waiting.generation },
          some ⟨waiting.request, waiting.generation⟩) := by
  unfold poll
  split
  · rename_i waiting hrunning hpending
    split
    · exact Or.inr ⟨waiting, hpending, hrunning, ‹_›, rfl⟩
    · exact Or.inl rfl
  · exact Or.inl rfl

theorem complete_eq_current_iff {generation : Generation} :
    (schedule.complete generation).2 = .current ↔
      generation = schedule.generation ∧ schedule.pending = none := by
  unfold complete isCurrent
  dsimp only
  split
  · rename_i h
    rw [Bool.and_eq_true, beq_iff_eq, Option.isNone_iff_eq_none] at h
    exact ⟨fun _ ↦ h, fun _ ↦ rfl⟩
  · rename_i h
    rw [Bool.and_eq_true, beq_iff_eq, Option.isNone_iff_eq_none] at h
    exact ⟨fun hcurrent ↦ (nomatch hcurrent), fun hcurrent ↦ absurd hcurrent h⟩

/-- A result frees the slot of its own pass only. -/
theorem mem_running_of_complete {generation running : Generation}
    (h : running ∈ (schedule.complete generation).1.running) : running ∈ schedule.running := by
  unfold complete at h
  dsimp only at h
  split at h
  · nomatch h
  · exact h

theorem running_eq_some_of_complete {generation : Generation} (hrunning : schedule.running ≠ none)
    (hfree : (schedule.complete generation).1.running = none) :
    schedule.running = some generation := by
  unfold complete at hfree
  dsimp only at hfree
  split at hfree
  · assumption
  · exact absurd hfree hrunning

theorem state_eq_idle_iff :
    schedule.state = .idle ↔ schedule.pending = none ∧ schedule.running = none := by
  obtain ⟨debounce, generation, pending, running, latest⟩ := schedule
  unfold state
  cases pending <;> cases running <;> simp
  split <;> simp

theorem generation_perform_of_opens {call : Call} (h : (schedule.perform call).2.opens = true) :
    (schedule.perform call).1.generation = schedule.generation + 1 := by
  have hschedule (request : HighlightRequest) (deadline : Nat)
      (hopens : (Response.outcome (schedule.scheduleAt request deadline).2).opens = true) :
      (schedule.scheduleAt request deadline).1.generation = schedule.generation + 1 := by
    obtain ⟨-, heq⟩ | ⟨-, heq⟩ := scheduleAt_cases schedule request deadline
    · rw [heq] at hopens
      nomatch hopens
    · rw [heq]
  cases call with
  | schedule request now => exact hschedule request (now + schedule.debounce) h
  | scheduleNow request now => exact hschedule request now h
  | poll now => nomatch h
  | complete generation => nomatch h
  | reset => rfl

/-- A call that opens no generation changes neither the current one nor the latest request, and
lets nothing wait that did not wait before. -/
theorem perform_of_not_opens {call : Call} (h : (schedule.perform call).2.opens = false) :
    (schedule.perform call).1.generation = schedule.generation ∧
      (schedule.perform call).1.latest = schedule.latest ∧
      (schedule.pending = none → (schedule.perform call).1.pending = none) := by
  have hschedule (request : HighlightRequest) (deadline : Nat)
      (hopens : (Response.outcome (schedule.scheduleAt request deadline).2).opens = false) :
      (schedule.scheduleAt request deadline).1.generation = schedule.generation ∧
        (schedule.scheduleAt request deadline).1.latest = schedule.latest ∧
        (schedule.pending = none → (schedule.scheduleAt request deadline).1.pending = none) := by
    obtain ⟨-, heq⟩ | ⟨-, heq⟩ := scheduleAt_cases schedule request deadline
    · rw [heq]
      exact ⟨rfl, rfl, fun hpending ↦ by rw [hpending]; rfl⟩
    · rw [heq] at hopens
      nomatch hopens
  cases call with
  | schedule request now => exact hschedule request (now + schedule.debounce) h
  | scheduleNow request now => exact hschedule request now h
  | poll now =>
    change (schedule.poll now).1.generation = _ ∧ (schedule.poll now).1.latest = _ ∧
      (_ → (schedule.poll now).1.pending = none)
    obtain heq | ⟨waiting, -, -, -, heq⟩ := poll_cases schedule now
    · rw [heq]
      exact ⟨rfl, rfl, id⟩
    · rw [heq]
      exact ⟨rfl, rfl, fun _ ↦ rfl⟩
  | complete generation => exact ⟨rfl, rfl, id⟩
  | reset => nomatch h

/-! ## Reached states -/

/-- What waits belongs to the current generation and is the latest request. -/
def Consistent (schedule : Schedule) : Prop :=
  ∀ waiting ∈ schedule.pending,
    waiting.generation = schedule.generation ∧ schedule.latest = some waiting.request

theorem Consistent.scheduleAt (h : schedule.Consistent) (request : HighlightRequest)
    (deadline : Nat) : (schedule.scheduleAt request deadline).1.Consistent := by
  obtain ⟨-, heq⟩ | ⟨-, heq⟩ := scheduleAt_cases schedule request deadline
  · rw [heq]
    intro waiting hwaiting
    obtain ⟨before, hbefore, rfl⟩ := Option.map_eq_some_iff.mp hwaiting
    exact h before hbefore
  · rw [heq]
    intro waiting hwaiting
    obtain rfl := Option.some.inj hwaiting
    exact ⟨rfl, rfl⟩

theorem Consistent.perform (h : schedule.Consistent) (call : Call) :
    (schedule.perform call).1.Consistent := by
  cases call with
  | schedule request now => exact h.scheduleAt request (now + schedule.debounce)
  | scheduleNow request now => exact h.scheduleAt request now
  | poll now =>
    change (schedule.poll now).1.Consistent
    obtain heq | ⟨waiting, -, -, -, heq⟩ := poll_cases schedule now
    · rw [heq]
      exact h
    · rw [heq]
      exact fun _ hnone ↦ nomatch hnone
  | complete generation => exact h
  | reset => exact fun _ hnone ↦ nomatch hnone

theorem Consistent.run (h : schedule.Consistent) (calls : List Call) :
    (schedule.run calls).1.Consistent := by
  induction calls generalizing schedule with
  | nil => exact h
  | cons call rest ih => exact ih (h.perform call)

theorem consistent_run (debounce : Nat) (calls : List Call) :
    (run { debounce } calls).1.Consistent := by
  have hnew : Consistent { debounce } := fun _ hnone ↦ nomatch hnone
  exact hnew.run calls

/-! ## The latest request -/

theorem lastRequest?_append (calls more : List Call) :
    lastRequest? (calls ++ more) = (lastRequest? more).or (lastRequest? calls) := by
  unfold lastRequest?
  rw [List.filterMap_append, List.getLast?_append]

theorem lastRequest?_singleton (call : Call) : lastRequest? [call] = call.request? := by
  cases call <;> rfl

theorem sinceReset_append_reset (calls : List Call) : sinceReset (calls ++ [.reset]) = [] := by
  unfold sinceReset
  rw [List.reverse_concat, List.takeWhile_cons_of_neg (by decide), List.reverse_nil]

theorem sinceReset_append_of_ne (calls : List Call) {call : Call} (h : call ≠ .reset) :
    sinceReset (calls ++ [call]) = sinceReset calls ++ [call] := by
  unfold sinceReset
  rw [List.reverse_concat, List.takeWhile_cons, if_pos (decide_eq_true h), List.reverse_cons]

theorem latest_reset (schedule : Schedule) : (schedule.perform .reset).1.latest = none := rfl

/-- Every call but a reset keeps the latest request, unless it gives one itself. -/
theorem latest_perform (schedule : Schedule) {call : Call} (h : call ≠ .reset) :
    (schedule.perform call).1.latest = call.request?.or schedule.latest := by
  cases call with
  | schedule request now => exact latest_scheduleAt schedule request (now + schedule.debounce)
  | scheduleNow request now => exact latest_scheduleAt schedule request now
  | poll now =>
    have hquiet : (schedule.perform (.poll now)).2.opens = false := rfl
    exact (perform_of_not_opens hquiet).2.1
  | complete generation => rfl
  | reset => exact absurd rfl h

/-- The latest request of a state that a run reaches is the one given last since the last reset. -/
theorem latest_run (debounce : Nat) (calls : List Call) :
    (run { debounce } calls).1.latest = lastRequest? (sinceReset calls) := by
  induction calls using List.reverseRecOn with
  | nil => rfl
  | append_singleton calls call ih =>
    rw [run_append]
    change ((run { debounce } calls).1.perform call).1.latest = _
    by_cases hreset : call = .reset
    · rw [hreset, latest_reset, sinceReset_append_reset]
      rfl
    · rw [latest_perform _ hreset, ih, sinceReset_append_of_ne calls hreset, lastRequest?_append,
        lastRequest?_singleton]

/-- A latest request is also the one given last of all, since a reset would have left none. -/
theorem lastRequest?_of_latest_run {debounce : Nat} {calls : List Call} {request : HighlightRequest}
    (h : (run { debounce } calls).1.latest = some request) : lastRequest? calls = some request := by
  have hsplit : calls = (calls.reverse.dropWhile (· ≠ .reset)).reverse ++ sinceReset calls := by
    unfold sinceReset
    rw [← List.reverse_append, List.takeWhile_append_dropWhile, List.reverse_reverse]
  rw [latest_run] at h
  rw [hsplit, lastRequest?_append, h, Option.some_or]

end CodeEditor.Schedule
