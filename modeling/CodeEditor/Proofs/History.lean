import CodeEditor.History
import CodeEditor.Proofs.Selection
import CodeEditor.Text.LineIndex
import Mathlib.Tactic.Tauto

/-!
# The ideal timeline

What undo and redo mean without an editor: snapshots before and after a present one, and moves on
them. A history that is never fuller than its limit, undone snapshots included, records and goes
back and forth as the timeline does.
-/

namespace CodeEditor

namespace Snapshot

/-- The selections as far as the text reaches. -/
def clamped (snapshot : Snapshot) : Snapshot :=
  { snapshot with selections := snapshot.selections.clamp snapshot.text.toList.length }

/-- Selects the line with the given number, or the nearest that exists. -/
def goTo (snapshot : Snapshot) (line : Nat) : Snapshot :=
  let lines := LineIndex.ofText snapshot.text
  match lines.range? (max 1 (min line lines.count) - 1) with
  | some range => { snapshot with selections := .single (.between range.start range.stop) }
  | none => snapshot

/-- The selections are settled in the text. -/
def Settled (snapshot : Snapshot) : Prop :=
  snapshot.selections.Settled snapshot.text.toList.length

theorem Settled.clamped_eq {snapshot : Snapshot} (h : snapshot.Settled) :
    snapshot.clamped = snapshot := by
  unfold clamped
  rw [SelectionSet.clamp_eq_self h]

end Snapshot

/-- The snapshots before and after the present one, the nearest first. -/
structure Timeline where
  past : List Snapshot
  present : Snapshot
  future : List Snapshot
  deriving DecidableEq, Repr

namespace Timeline

inductive Move where
  /-- Begins a new timeline with a text. -/
  | load (text : String)
  /-- Changes the text, with selections given or carried along. -/
  | write (text : String) (selections : Option SelectionSet)
  | select (selections : SelectionSet)
  | goTo (line : Nat)
  | back
  | forth
  | stay
  deriving DecidableEq, Repr

/-- The timeline of an empty text. -/
def start : Timeline := ⟨[], ⟨"", .default⟩, []⟩

/-- The timeline after a move, and whether a change, a step back or a step forth took place. -/
def move (limit : Nat) (timeline : Timeline) : Move → Timeline × Option Bool
  | .load text =>
    (⟨[], if text = timeline.present.text then timeline.present else ⟨text, .default⟩, []⟩, none)
  | .write text selections =>
    match Edit.between timeline.present.text.toList text.toList with
    | none =>
      let selections := selections.getD timeline.present.selections
      ({ timeline with present := Snapshot.clamped ⟨text, selections⟩ }, some false)
    | some edit =>
      let selections := selections.getD (timeline.present.selections.carry edit)
      (⟨(timeline.present :: timeline.past).take limit, Snapshot.clamped ⟨text, selections⟩, []⟩,
        some true)
  | .select selections =>
    ({ timeline with present := Snapshot.clamped { timeline.present with selections } }, none)
  | .goTo line => ({ timeline with present := timeline.present.goTo line }, none)
  | .back =>
    match timeline.past with
    | [] => (timeline, some false)
    | snapshot :: past => (⟨past, snapshot, timeline.present :: timeline.future⟩, some true)
  | .forth =>
    match timeline.future with
    | [] => (timeline, some false)
    | snapshot :: future => (⟨timeline.present :: timeline.past, snapshot, future⟩, some true)
  | .stay => (timeline, none)

/-- Makes moves one after the other, and collects what took place. -/
def run (limit : Nat) (timeline : Timeline) : List Move → Timeline × List (Option Bool)
  | [] => (timeline, [])
  | move :: rest =>
    let (timeline, moved) := timeline.move limit move
    let (timeline, more) := timeline.run limit rest
    (timeline, moved :: more)

/-! ## Snapshots of a timeline -/

/-- The snapshots that are not present. -/
def others (timeline : Timeline) : List Snapshot := timeline.past ++ timeline.future

/-- What is kept stays below the limit, and all of it is settled. -/
structure Proper (limit : Nat) (timeline : Timeline) : Prop where
  length_le : timeline.others.length ≤ limit
  settled : ∀ snapshot ∈ timeline.others, snapshot.Settled

theorem proper_start (limit : Nat) : start.Proper limit :=
  ⟨Nat.zero_le _, fun _ h ↦ (nomatch h)⟩

theorem Proper.length_past_le {limit : Nat} {timeline : Timeline} (h : timeline.Proper limit) :
    timeline.past.length ≤ limit := by
  have hlength := h.length_le
  rw [others, List.length_append] at hlength
  omega

/-- Each snapshot kept was kept before, or was the present one. -/
theorem mem_others_move {limit : Nat} {timeline : Timeline} {move : Move} {snapshot : Snapshot}
    (h : snapshot ∈ (timeline.move limit move).1.others) :
    snapshot = timeline.present ∨ snapshot ∈ timeline.others := by
  obtain ⟨past, present, future⟩ := timeline
  unfold others at h ⊢
  cases move with
  | load text => nomatch h
  | write text selections =>
    unfold Timeline.move at h
    dsimp only at h
    split at h
    · exact Or.inr h
    · rw [List.append_nil] at h
      have hmem := List.mem_of_mem_take h
      simp only [List.mem_cons, List.mem_append] at hmem ⊢
      tauto
  | select selections => exact Or.inr h
  | goTo line => exact Or.inr h
  | back =>
    cases past with
    | nil => exact Or.inr h
    | cons nearest past =>
      simp only [Timeline.move, List.mem_cons, List.mem_append] at h ⊢
      tauto
  | forth =>
    cases future with
    | nil => exact Or.inr h
    | cons nearest future =>
      simp only [Timeline.move, List.mem_cons, List.mem_append] at h ⊢
      tauto
  | stay => exact Or.inr h

theorem length_others_move {limit : Nat} {timeline : Timeline} (move : Move)
    (h : timeline.others.length ≤ limit) :
    (timeline.move limit move).1.others.length ≤ limit := by
  obtain ⟨past, present, future⟩ := timeline
  unfold others at h ⊢
  cases move with
  | load text => exact Nat.zero_le _
  | write text selections =>
    unfold Timeline.move
    dsimp only
    split
    · exact h
    · rw [List.append_nil]
      exact List.length_take_le _ _
  | select selections => exact h
  | goTo line => exact h
  | back =>
    cases past with
    | nil => exact h
    | cons nearest past =>
      simp only [Timeline.move, List.length_append, List.length_cons] at h ⊢
      omega
  | forth =>
    cases future with
    | nil => exact h
    | cons nearest future =>
      simp only [Timeline.move, List.length_append, List.length_cons] at h ⊢
      omega
  | stay => exact h

theorem Proper.move {limit : Nat} {timeline : Timeline} (h : timeline.Proper limit)
    (hpresent : timeline.present.Settled) (move : Move) :
    (timeline.move limit move).1.Proper limit := by
  refine ⟨length_others_move move h.length_le, fun snapshot hsnapshot ↦ ?_⟩
  rcases mem_others_move hsnapshot with rfl | hmem
  · exact hpresent
  · exact h.settled snapshot hmem

/-! ## Texts of a timeline -/

/-- The text that a move brings in. -/
def Move.text? : Move → Option String
  | .load text => some text
  | .write text _ => some text
  | _ => none

/-- A timeline never has texts that did not come in with a move. -/
theorem text_of_move {limit : Nat} {timeline : Timeline} {move : Move} {p : String → Prop}
    (h : ∀ snapshot ∈ timeline.present :: timeline.others, p snapshot.text)
    (hmove : ∀ text ∈ move.text?, p text) :
    ∀ snapshot ∈ (timeline.move limit move).1.present :: (timeline.move limit move).1.others,
      p snapshot.text := by
  have hpresent := h timeline.present List.mem_cons_self
  refine List.forall_mem_cons.mpr ⟨?_, ?_⟩
  · cases move with
    | load text =>
      unfold Timeline.move
      dsimp only
      split
      · exact hpresent
      · exact hmove text rfl
    | write text selections =>
      unfold Timeline.move
      dsimp only
      split <;> exact hmove text rfl
    | select selections => exact hpresent
    | goTo line =>
      unfold Timeline.move Snapshot.goTo
      dsimp only
      split <;> exact hpresent
    | back =>
      unfold Timeline.move
      dsimp only
      split
      · exact hpresent
      · rename_i snapshot past hpast
        apply h snapshot
        simp [others, hpast]
    | forth =>
      unfold Timeline.move
      dsimp only
      split
      · exact hpresent
      · rename_i snapshot future hfuture
        apply h snapshot
        simp [others, hfuture]
    | stay => exact hpresent
  · intro snapshot hsnapshot
    apply h snapshot
    rcases mem_others_move hsnapshot with rfl | hmem
    · exact List.mem_cons_self
    · exact List.mem_cons_of_mem _ hmem

end Timeline

namespace History

/-- Recording keeps the newest snapshots up to the limit. -/
theorem record_eq {history : History} (hlimit : 1 ≤ history.limit)
    (hpast : history.past.length ≤ history.limit) (before : Snapshot) :
    history.record before =
      ⟨history.limit, (before :: history.past).take history.limit, []⟩ := by
  have hkept : (before :: history.past).take history.limit =
      before :: history.past.take (history.limit - 1) := by
    rw [← Nat.succ_pred_eq_of_pos hlimit, List.take_succ_cons]
    rfl
  unfold record remember
  rw [hkept]
  split
  · rename_i hfull
    rw [List.dropLast_eq_take, hfull]
  · rename_i hfree
    rw [List.take_of_length_le (by omega)]

/-- As long as there is room, going forth again gives nothing up. -/
theorem remember_eq {history : History} (hpast : history.past.length < history.limit)
    (current : Snapshot) :
    history.remember current = { history with past := current :: history.past } := by
  unfold remember
  rw [if_neg (Nat.ne_of_lt hpast)]

theorem past_of_undo_eq_none {history : History} {current : Snapshot}
    (h : history.undo current = none) : history.past = [] := by
  unfold undo at h
  split at h
  · assumption
  · nomatch h

theorem undo_eq_some {history undone : History} {current snapshot : Snapshot}
    (h : history.undo current = some (snapshot, undone)) :
    history.past = snapshot :: undone.past ∧ undone.limit = history.limit ∧
      undone.future = current :: history.future := by
  unfold undo at h
  split at h
  · nomatch h
  · rename_i nearest past hpast
    cases h
    exact ⟨hpast, rfl, rfl⟩

theorem future_of_redo_eq_none {history : History} {current : Snapshot}
    (h : history.redo current = none) : history.future = [] := by
  unfold redo at h
  split at h
  · assumption
  · nomatch h

theorem redo_eq_some {history redone : History} {current snapshot : Snapshot}
    (h : history.redo current = some (snapshot, redone)) :
    ∃ future, history.future = snapshot :: future ∧
      redone = { history.remember current with future } := by
  unfold redo at h
  split at h
  · nomatch h
  · rename_i nearest future hfuture
    cases h
    exact ⟨future, hfuture, rfl⟩

end History

end CodeEditor
