import PromptGateway.Wire.Message

/-
  The two queues of request ids.

  Pending ids wait for a worker and processing ids have been given to one. Both
  queues are first in, first out, each with a bound of its own; the priority of a
  request has no say. The records stay in the cache, a queue only orders them.

  What is proved: `enqueuePending?_eq_some_iff` and `enqueueProcessing?_eq_some_iff`,
  an id goes to the end exactly when there is room; `dequeuePending?_eq_some_iff`,
  the id that is taken is the first.
-/

namespace PromptGateway

/-- The ids that wait, and the ids that are being worked on. -/
structure TaskQueue where
  maxPending : Nat
  maxProcessing : Nat
  pending : List RequestId := []
  processing : List RequestId := []
  deriving DecidableEq, Repr

namespace TaskQueue

/-- Puts an id at the end of the pending queue, none when it is full. -/
def enqueuePending? (q : TaskQueue) (id : RequestId) : Option TaskQueue :=
  if q.maxPending ≤ q.pending.length then none
  else some { q with pending := q.pending ++ [id] }

/-- Takes the first pending id. -/
def dequeuePending? (q : TaskQueue) : Option (RequestId × TaskQueue) :=
  match q.pending with
  | [] => none
  | id :: rest => some (id, { q with pending := rest })

/-- Takes the first occurrence of an id out of the pending queue. -/
def removePending (q : TaskQueue) (id : RequestId) : TaskQueue :=
  { q with pending := q.pending.erase id }

/-- Puts an id at the end of the processing queue, none when it is full. -/
def enqueueProcessing? (q : TaskQueue) (id : RequestId) : Option TaskQueue :=
  if q.maxProcessing ≤ q.processing.length then none
  else some { q with processing := q.processing ++ [id] }

/-- Takes the first occurrence of an id out of the processing queue. -/
def removeProcessing (q : TaskQueue) (id : RequestId) : TaskQueue :=
  { q with processing := q.processing.erase id }

/-- Whether nothing waits. -/
def isPendingEmpty (q : TaskQueue) : Bool := q.pending.isEmpty

/-- Whether the processing queue is at its bound. -/
def isSaturated (q : TaskQueue) : Bool := q.maxProcessing ≤ q.processing.length

theorem enqueuePending?_eq_some_iff {q q' : TaskQueue} {id : RequestId} :
    q.enqueuePending? id = some q' ↔
      q.pending.length < q.maxPending ∧ q' = { q with pending := q.pending ++ [id] } := by
  unfold enqueuePending?
  split
  · next h => simp [Nat.not_lt_of_le h]
  · next h => simp [Nat.lt_of_not_le h, eq_comm]

theorem enqueueProcessing?_eq_some_iff {q q' : TaskQueue} {id : RequestId} :
    q.enqueueProcessing? id = some q' ↔
      q.processing.length < q.maxProcessing ∧
        q' = { q with processing := q.processing ++ [id] } := by
  unfold enqueueProcessing?
  split
  · next h => simp [Nat.not_lt_of_le h]
  · next h => simp [Nat.lt_of_not_le h, eq_comm]

theorem dequeuePending?_eq_some_iff {q q' : TaskQueue} {id : RequestId} :
    q.dequeuePending? = some (id, q') ↔
      q.pending = id :: q'.pending ∧ q' = { q with pending := q'.pending } := by
  unfold dequeuePending?
  cases hq : q.pending with
  | nil => simp
  | cons a rest =>
    constructor
    · intro h
      cases h
      exact ⟨rfl, rfl⟩
    · rintro ⟨h, hq'⟩
      cases h
      rw [hq']

end TaskQueue

end PromptGateway
