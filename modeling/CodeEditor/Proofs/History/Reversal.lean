import CodeEditor.Proofs.History

/-!
# Going back and forth

Only recording checks the limit, yet the snapshots of a history never exceed it: undoing moves one
from the past into the future, redoing moves it back, and recording gives up the future. So a step
forth always finds room in the past, and any number of steps back is taken back by as many steps
forth.
-/

namespace CodeEditor.History

/-! ## Calls -/

inductive Call where
  | record (before : Snapshot)
  | undo (current : Snapshot)
  | redo (current : Snapshot)
  | clear
  deriving DecidableEq, Repr

/-- The history after a step and the snapshot given back; a step that is not possible changes
nothing. -/
def stepOr (history : History) : Option (Snapshot × History) → History × Option Snapshot
  | some (snapshot, next) => (next, some snapshot)
  | none => (history, none)

def perform (history : History) : Call → History × Option Snapshot
  | .record before => (history.record before, none)
  | .undo current => history.stepOr (history.undo current)
  | .redo current => history.stepOr (history.redo current)
  | .clear => (history.clear, none)

/-- What is kept for undoing after a call that gave something back or not, however much it is. The
newest snapshot stands first. -/
def Call.keep (kept : List Snapshot) : Call → Option Snapshot → List Snapshot
  | record before, _ => before :: kept
  | undo _, some _ => kept.tail
  | redo current, some _ => current :: kept
  | clear, _ => []
  | _, none => kept

/-- Makes calls in order. Beside the history stands what would be kept without a limit. -/
def run (history : History) (kept : List Snapshot) : List Call → History × List Snapshot
  | [] => (history, kept)
  | call :: rest =>
    let (next, restored) := history.perform call
    next.run (call.keep kept restored) rest

/-- The history has a limit that it does not exceed, and its past is the newest part of what would
be kept without it. -/
structure Holds (limit : Nat) (history : History) (kept : List Snapshot) : Prop where
  limit_eq : history.limit = limit
  one_le_limit : 1 ≤ limit
  length_le : history.past.length + history.future.length ≤ limit
  past_prefix : history.past <+: kept

variable {limit : Nat} {history : History} {kept : List Snapshot}

theorem holds_empty (limit : Nat) : Holds (max limit 1) (empty limit) [] where
  limit_eq := rfl
  one_le_limit := Nat.le_max_right _ _
  length_le := Nat.zero_le _
  past_prefix := List.prefix_rfl

namespace Holds

theorem record_eq (h : Holds limit history kept) (before : Snapshot) :
    history.record before = ⟨limit, (before :: history.past).take limit, []⟩ := by
  obtain ⟨rfl, hlimit, hlength, -⟩ := h
  exact History.record_eq hlimit (by omega) before

/-- What can be redone has left its place in the past. -/
theorem redo_eq_some (h : Holds limit history kept) {current snapshot : Snapshot}
    {redone : History} (hredo : history.redo current = some (snapshot, redone)) :
    ∃ future, history.future = snapshot :: future ∧
      redone = ⟨limit, current :: history.past, future⟩ := by
  obtain ⟨future, hfuture, rfl⟩ := History.redo_eq_some hredo
  refine ⟨future, hfuture, ?_⟩
  obtain ⟨rfl, -, hlength, -⟩ := h
  rw [hfuture, List.length_cons] at hlength
  rw [remember_eq (by omega)]

theorem perform (h : Holds limit history kept) (call : Call) :
    Holds limit (history.perform call).1 (call.keep kept (history.perform call).2) := by
  cases call with
  | record before =>
    change Holds limit (history.record before) (before :: kept)
    rw [h.record_eq before]
    refine ⟨rfl, h.one_le_limit, List.length_take_le _ _, ?_⟩
    exact (List.take_prefix _ _).trans ((List.prefix_cons_inj before).mpr h.past_prefix)
  | undo current =>
    change Holds limit (history.stepOr (history.undo current)).1
      (Call.keep kept (.undo current) (history.stepOr (history.undo current)).2)
    cases hundo : history.undo current with
    | none => exact h
    | some step =>
      obtain ⟨snapshot, undone⟩ := step
      obtain ⟨hpast, hlimit, hfuture⟩ := undo_eq_some hundo
      have hlength := h.length_le
      obtain ⟨older, hkept⟩ := h.past_prefix
      rw [hpast] at hlength hkept
      rw [List.length_cons] at hlength
      refine ⟨hlimit.trans h.limit_eq, h.one_le_limit, ?_, older, congrArg List.tail hkept⟩
      change undone.past.length + undone.future.length ≤ limit
      rw [hfuture, List.length_cons]
      omega
  | redo current =>
    change Holds limit (history.stepOr (history.redo current)).1
      (Call.keep kept (.redo current) (history.stepOr (history.redo current)).2)
    cases hredo : history.redo current with
    | none => exact h
    | some step =>
      obtain ⟨snapshot, redone⟩ := step
      obtain ⟨future, hfuture, rfl⟩ := h.redo_eq_some hredo
      have hlength := h.length_le
      rw [hfuture, List.length_cons] at hlength
      refine ⟨rfl, h.one_le_limit, ?_, (List.prefix_cons_inj current).mpr h.past_prefix⟩
      change (current :: history.past).length + future.length ≤ limit
      rw [List.length_cons]
      omega
  | clear => exact ⟨h.limit_eq, h.one_le_limit, Nat.zero_le _, List.prefix_rfl⟩

theorem run (h : Holds limit history kept) (calls : List Call) :
    Holds limit (history.run kept calls).1 (history.run kept calls).2 := by
  induction calls generalizing history kept with
  | nil => exact h
  | cons call rest ih => exact ih (h.perform call)

end Holds

/-! ## Steps -/

/-- Steps so many times, each time from the snapshot that the step before gave back, and collects
these snapshots. -/
def steps (step : History → Snapshot → Option (Snapshot × History)) :
    (count : Nat) → History → Snapshot → Option (List Snapshot × History)
  | 0, history, _ => some ([], history)
  | count + 1, history, current => do
    let (snapshot, history) ← step history current
    let (rest, history) ← steps step count history snapshot
    return (snapshot :: rest, history)

/-- Stepping back leaves the present one and all but the last of the snapshots that are given
back. -/
theorem steps_undo (limit : Nat) (restored past future : List Snapshot) (current : Snapshot) :
    steps undo restored.length ⟨limit, restored ++ past, future⟩ current =
      some (restored, ⟨limit, past, (current :: restored).dropLast.reverse ++ future⟩) := by
  induction restored generalizing current future with
  | nil => rfl
  | cons snapshot rest ih =>
    have hrest := ih (current :: future) snapshot
    rw [List.length_cons, steps, List.cons_append]
    change (steps undo rest.length ⟨limit, rest ++ past, current :: future⟩ snapshot >>= _) = _
    rw [hrest, List.dropLast_cons_cons, List.reverse_cons, List.append_assoc]
    rfl

/-- Stepping forth does the same in the other direction, as long as there is room. -/
theorem steps_redo {limit : Nat} {restored past future : List Snapshot}
    (hroom : past.length + restored.length ≤ limit) (current : Snapshot) :
    steps redo restored.length ⟨limit, past, restored ++ future⟩ current =
      some (restored, ⟨limit, (current :: restored).dropLast.reverse ++ past, future⟩) := by
  induction restored generalizing current past with
  | nil => rfl
  | cons snapshot rest ih =>
    rw [List.length_cons] at hroom
    have hrest := @ih (current :: past) (by rw [List.length_cons]; omega) snapshot
    have hstep : redo ⟨limit, past, snapshot :: rest ++ future⟩ current =
        some (snapshot, ⟨limit, current :: past, rest ++ future⟩) := by
      change some (snapshot, { remember _ current with future := rest ++ future }) = _
      rw [remember_eq (show past.length < limit by omega)]
    rw [List.length_cons, steps, hstep]
    change (steps redo rest.length ⟨limit, current :: past, rest ++ future⟩ snapshot >>= _) = _
    rw [hrest, List.dropLast_cons_cons, List.reverse_cons, List.append_assoc]
    rfl

/-- Walked in the other direction, the snapshots that are left are those that were given back. -/
theorem dropLast_reverse_left (current : Snapshot) (restored : List Snapshot) :
    ((current :: restored).getLast (List.cons_ne_nil _ _) ::
      (current :: restored).dropLast.reverse).dropLast.reverse = restored := by
  rw [← List.reverse_concat, List.dropLast_concat_getLast, List.dropLast_reverse,
    List.reverse_reverse, List.tail_cons]

/-- Steps back give back the newest of what is kept, and as many steps forth take them back. -/
theorem Holds.steps_redo_undo (h : Holds limit history kept) {count : Nat}
    (hcount : count ≤ history.depth) (current : Snapshot) :
    let restored := kept.take count
    ∃ undone, steps undo count history current = some (restored, undone) ∧
      steps redo count undone ((current :: restored).getLast (List.cons_ne_nil _ _)) =
        some ((current :: restored).dropLast.reverse, history) := by
  intro restored
  obtain ⟨limit, past, future⟩ := history
  obtain ⟨rfl, -, hlength, older, rfl⟩ := h
  have hcount : count ≤ past.length := hcount
  have hlength : past.length + future.length ≤ limit := hlength
  have hrestored : restored = past.take count := List.take_append_of_le_length hcount
  have hpast : restored ++ past.drop count = past := by
    rw [hrestored, List.take_append_drop]
  have hsize : restored.length = count := by
    rw [hrestored, List.length_take_of_le hcount]
  let left := (current :: restored).dropLast.reverse
  have hleft : left.length = count := by
    rw [List.length_reverse, List.length_dropLast, List.length_cons, hsize]
    rfl
  have hundo := steps_undo limit restored (past.drop count) future current
  rw [hpast, hsize] at hundo
  have hroom : (past.drop count).length + left.length ≤ limit := by
    rw [List.length_drop, hleft]
    omega
  have hredo := @steps_redo limit left (past.drop count) future hroom
    ((current :: restored).getLast (List.cons_ne_nil _ _))
  rw [dropLast_reverse_left, hpast, hleft] at hredo
  exact ⟨_, hundo, hredo⟩

/-! ## All calls -/

/-- In every state that calls reach, past and future together stay within the limit. Recording keeps
the newest snapshots up to the limit, and redoing gives none up. Any number of steps back that the
history allows gives back the newest snapshots kept, the nearest first; as many steps forth give
back the ones that were left, from the last to the first, and restore the history. -/
theorem run_reversible (limit : Nat) (calls : List Call) :
    let (history, kept) := (empty limit).run [] calls
    history.past.length + history.future.length ≤ max limit 1 ∧
    (∀ before, (history.record before).past = (before :: history.past).take (max limit 1)) ∧
    (∀ current snapshot redone, history.redo current = some (snapshot, redone) →
      redone.past = current :: history.past) ∧
    ∀ count ≤ history.depth, ∀ current,
      let restored := kept.take count
      ∃ undone, steps undo count history current = some (restored, undone) ∧
        steps redo count undone ((current :: restored).getLast (List.cons_ne_nil _ _)) =
          some ((current :: restored).dropLast.reverse, history) := by
  have hholds := (holds_empty limit).run calls
  generalize (empty limit).run [] calls = reached at hholds
  obtain ⟨history, kept⟩ := reached
  refine ⟨hholds.length_le, fun before ↦ congrArg past (hholds.record_eq before), ?_,
    fun count hcount current ↦ hholds.steps_redo_undo hcount current⟩
  intro current snapshot redone hredo
  obtain ⟨future, -, rfl⟩ := hholds.redo_eq_some hredo
  rfl

/-- A full history from which one snapshot has been undone and redone with another present one. -/
theorem run_reversible_full :
    let snapshot (text : String) : Snapshot := ⟨text, .default⟩
    let calls := [.record (snapshot "1"), .record (snapshot "2"), .record (snapshot "3"),
      .undo (snapshot "4"), .redo (snapshot "5")]
    let (history, kept) := (empty 2).run [] calls
    2 ≤ history.depth ∧ kept.map (·.text) = ["5", "2", "1"] ∧
      ∃ undone, steps undo 2 history (snapshot "6") = some (kept.take 2, undone) ∧
        steps redo 2 undone (snapshot "2") = some ([snapshot "5", snapshot "6"], history) := by
  intro snapshot calls
  obtain ⟨-, -, -, hsteps⟩ := run_reversible 2 calls
  refine ⟨by decide, by decide, hsteps 2 (by decide) (snapshot "6")⟩

end CodeEditor.History
