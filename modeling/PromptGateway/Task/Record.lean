import PromptGateway.Task.Status
import PromptGateway.Wire.Message

/-
  The record of one request in flight.

  A record is stamped when it is created, when it is assigned and when it ends;
  a stamp of 0 says that this has not happened. `lastProgressAt` moves with
  creation, assignment and every answer of a worker, and the idle time of a task
  is measured from it, in arithmetic that stops at the ends of 64 bits.
-/

namespace PromptGateway

/-- A moment, in milliseconds. -/
abbrev Millis := Int64

/-- A difference of two moments that stops at the ends of the range. -/
def saturatingSub (a b : Millis) : Millis :=
  .ofInt (max Int64.minValue.toInt (min Int64.maxValue.toInt (a.toInt - b.toInt)))

/-- What the client asked for. -/
structure TaskPayload where
  model : String
  prompt : String
  maxTokens : UInt32
  stream : Bool
  deriving DecidableEq, Repr

/-- The payload of a request. -/
def InferenceRequest.payload (r : InferenceRequest) : TaskPayload :=
  ⟨r.model, r.prompt, r.maxTokens, r.stream⟩

/-- The state of one request in flight. -/
structure TaskRecord where
  id : RequestId
  owner : ConnectionId
  payload : TaskPayload
  worker : Option Nat := none
  /-- How many fragments have been handed to the client. -/
  delivered : Nat := 0
  status : TaskStatus := .pending
  /-- Carried along; the queues do not look at it. -/
  priority : Int32
  createdAt : Millis
  assignedAt : Millis := 0
  completedAt : Millis := 0
  lastProgressAt : Millis := createdAt
  errorMessage : Option String := none
  deriving DecidableEq, Repr

namespace TaskRecord

/-- Stamps a record that has just reached a status. -/
def stamp (r : TaskRecord) (now : Millis) : TaskRecord :=
  match r.status with
  | .assigning => { r with assignedAt := now, lastProgressAt := now }
  | .completed | .failed | .timeout | .cancelled => { r with completedAt := now }
  | .pending | .processing => r

/-- The record after a move to another status, none if the lifecycle does not
allow the move. -/
def move? (r : TaskRecord) (next : TaskStatus) (now : Millis) : Option TaskRecord :=
  if r.status.canMove next then some ({ r with status := next }.stamp now) else none

/-- The time since the task last moved forward. -/
def idle (r : TaskRecord) (now : Millis) : Millis := saturatingSub now r.lastProgressAt

theorem move?_eq_some_iff {r r' : TaskRecord} {next : TaskStatus} {now : Millis} :
    r.move? next now = some r' ↔
      r.status.canMove next = true ∧ r' = { r with status := next }.stamp now := by
  unfold move?
  split
  · next h => simp [h, eq_comm]
  · next h => simp [h]

end TaskRecord

end PromptGateway
