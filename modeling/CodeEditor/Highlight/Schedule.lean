import CodeEditor.Highlight.Request

/-!
# Scheduling of highlighting

Requests wait until no newer one has come for a while, and at most one pass runs at a time. Each
request that differs from the one before it opens a generation; the result of a pass counts only
if its generation is still the current one and nothing waits. Times are in milliseconds.
-/

namespace CodeEditor

/-- The number of a request. Numbers wrap round. -/
abbrev Generation := UInt64

structure Job where
  request : HighlightRequest
  generation : Generation
  deriving DecidableEq, Repr

/-- A request that waits for its deadline. -/
structure Pending where
  request : HighlightRequest
  generation : Generation
  deadline : Nat
  deriving DecidableEq, Repr

structure Schedule where
  debounce : Nat := 300
  generation : Generation := 0
  pending : Option Pending := none
  running : Option Generation := none
  latest : Option HighlightRequest := none
  deriving DecidableEq, Repr

namespace Schedule

inductive State where
  | idle
  | pending
  | running
  | superseded
  deriving DecidableEq, Repr

inductive Outcome where
  | scheduled (generation : Generation)
  | unchanged
  deriving DecidableEq, Repr

inductive Completion where
  | current
  | stale
  deriving DecidableEq, Repr

def isCurrent (schedule : Schedule) (generation : Generation) : Bool :=
  generation == schedule.generation

def state (schedule : Schedule) : State :=
  match schedule.pending, schedule.running with
  | none, none => .idle
  | some _, none => .pending
  | none, some generation => if schedule.isCurrent generation then .running else .superseded
  | some _, some _ => .superseded

def isBusy (schedule : Schedule) : Bool := schedule.state != .idle

def deadline? (schedule : Schedule) : Option Nat := schedule.pending.map (·.deadline)

/-- Asks for a pass at a time. Asking again for the same can only bring the time forward. -/
def scheduleAt (schedule : Schedule) (request : HighlightRequest) (deadline : Nat) :
    Schedule × Outcome :=
  if schedule.latest = some request then
    let pending := schedule.pending.map fun waiting ↦
      { waiting with deadline := min waiting.deadline deadline }
    ({ schedule with pending }, .unchanged)
  else
    let generation := schedule.generation + 1
    ({ schedule with
        generation
        latest := some request
        pending := some ⟨request, generation, deadline⟩ },
      .scheduled generation)

/-- Asks for a pass once the debounce time has gone by. -/
def schedule (schedule : Schedule) (request : HighlightRequest) (now : Nat) : Schedule × Outcome :=
  schedule.scheduleAt request (now + schedule.debounce)

def scheduleNow (schedule : Schedule) (request : HighlightRequest) (now : Nat) :
    Schedule × Outcome :=
  schedule.scheduleAt request now

/-- Hands out the waiting request if it is due and no pass runs. -/
def poll (schedule : Schedule) (now : Nat) : Schedule × Option Job :=
  match schedule.running, schedule.pending with
  | none, some waiting =>
    if waiting.deadline ≤ now then
      ({ schedule with pending := none, running := some waiting.generation },
        some ⟨waiting.request, waiting.generation⟩)
    else
      (schedule, none)
  | _, _ => (schedule, none)

/-- Reports that a pass is over, and tells whether its result counts. -/
def complete (schedule : Schedule) (generation : Generation) : Schedule × Completion :=
  let running := if schedule.running = some generation then none else schedule.running
  ({ schedule with running },
    if schedule.isCurrent generation && schedule.pending.isNone then .current else .stale)

/-- Forgets all requests; a running pass goes on but its result will not count. -/
def reset (schedule : Schedule) : Schedule :=
  { schedule with pending := none, latest := none, generation := schedule.generation + 1 }

end Schedule

end CodeEditor
