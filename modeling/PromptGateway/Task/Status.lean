/-
  The lifecycle of a task.

  A task is pending until it is chosen for a worker, assigning until its line has
  been sent, and processing from then on. It ends as completed only from
  processing, and as failed, timed out or cancelled from any of the three live
  statuses. Pending is only ever the first status, and an ended task never moves
  again (`canMove_of_isTerminal`).
-/

namespace PromptGateway

/-- Where a task is in its life. -/
inductive TaskStatus where
  | pending
  | assigning
  | processing
  | completed
  | failed
  | timeout
  | cancelled
  deriving DecidableEq, Repr

namespace TaskStatus

/-- Whether a task with this status has ended. -/
def isTerminal : TaskStatus → Bool
  | completed | failed | timeout | cancelled => true
  | pending | assigning | processing => false

/-- Whether a task may move from one status to another. -/
def canMove (current next : TaskStatus) : Bool :=
  !current.isTerminal &&
  match next with
  | pending => false
  | assigning => current == pending
  | processing => current == assigning || current == processing
  | completed => current == processing
  | failed | timeout | cancelled => true

/-- All statuses. -/
def all : List TaskStatus :=
  [pending, assigning, processing, completed, failed, timeout, cancelled]

/-- The name of a status. -/
def name : TaskStatus → String
  | pending => "PENDING"
  | assigning => "ASSIGNING"
  | processing => "PROCESSING"
  | completed => "COMPLETED"
  | failed => "FAILED"
  | timeout => "TIMEOUT"
  | cancelled => "CANCELLED"

/-- The status with a given name. -/
def ofName? (s : String) : Option TaskStatus := all.find? (·.name == s)

theorem ofName?_name (s : TaskStatus) : ofName? s.name = some s := by cases s <;> rfl

theorem canMove_of_isTerminal {s : TaskStatus} (h : s.isTerminal = true) (next : TaskStatus) :
    s.canMove next = false := by simp [canMove, h]

theorem canMove_pending (s : TaskStatus) : s.canMove pending = false := by cases s <;> rfl

end TaskStatus

end PromptGateway
