import PromptGateway.Link
import PromptGateway.Network
import PromptGateway.Snapshot
import PromptGateway.Task.Record
import PromptGateway.Wire.Frame

/-
  The connections to the workers.

  A pool has a table of slots, one for each worker, and the index of a worker is
  its place in that table. A slot whose connection was lost keeps its index until
  the loss has been reported by `drainDisconnected`; only then may a new worker
  take it over. Workers are chosen in turn among those that are connected and
  have said that they are available.

  A message is sent in one write. Anything short of the whole message is a
  failure, and since half a message would spoil every later one, a connection
  that took only a part is given up.
-/

namespace PromptGateway

/-- One worker. -/
structure WorkerSlot where
  address : String
  /-- Which of the connections of the pool is its own. -/
  link : Nat
  /-- What has arrived of a line that is not complete. -/
  buffer : Bytes := []
  connected : Bool := true
  available : Bool := true
  nodeId : Option String := none
  load : Number.Floating Number.binary32 := .zero _
  lastSeen : Millis
  deriving DecidableEq, Repr

namespace WorkerSlot

/-- Whether a worker can be given a task. -/
def isSelectable (s : WorkerSlot) : Bool := s.connected && s.available

end WorkerSlot

/-- Why a worker is not added. -/
inductive AddError where
  | poolFull (max : Nat)
  | connectFailed (address : String) (error : NetworkError)
  deriving DecidableEq, Repr

/-- The wording of a refused worker. -/
def AddError.message : AddError → String
  | poolFull max => s!"worker pool is full ({max} workers)"
  | connectFailed address e => s!"failed to connect to worker {address}: {e.message}"

/-- What went wrong with a write to a worker. -/
inductive SendFailure where
  | partialWrite (written total : Nat)
  | bufferFull
  | failed (error : IoError)
  deriving DecidableEq, Repr

/-- The wording of a failed write. -/
def SendFailure.message : SendFailure → String
  | partialWrite written total => s!"partial write: {written} of {total} bytes"
  | bufferFull => "socket send buffer full"
  | failed e => e.message

/-- Why a message is not sent. -/
inductive SendError where
  | unknownWorker (index : Nat)
  | notConnected (index : Nat)
  | sendFailed (index : Nat) (failure : SendFailure)
  deriving DecidableEq, Repr

/-- The wording of a message that was not sent. -/
def SendError.message : SendError → String
  | unknownWorker index => s!"no worker with index {index}"
  | notConnected index => s!"worker {index} is not connected"
  | sendFailed index failure => s!"failed to send to worker {index}: {failure.message}"

/-- The workers, and every connection that has been made to one. -/
structure WorkerPool where
  maxWorkers : Nat
  slots : List WorkerSlot := []
  /-- Where the search for the next worker begins. -/
  next : Nat := 0
  /-- The workers that were lost since the last report, oldest first. -/
  lost : List Nat := []
  /-- All connections, in the order in which they were made. -/
  links : List Link := []
  deriving DecidableEq, Repr

namespace WorkerPool

/-! ## Slots and connections -/

/-- Changes a slot. -/
def modifySlot (p : WorkerPool) (index : Nat) (f : WorkerSlot → WorkerSlot) : WorkerPool :=
  { p with slots := p.slots.modify index f }

/-- Changes a connection. -/
def modifyLink (p : WorkerPool) (link : Nat) (f : Link → Link) : WorkerPool :=
  { p with links := p.links.modify link f }

/-- Whether a new worker may take over a slot: its connection is gone, and the
loss has been reported. -/
def isReusable (p : WorkerPool) (index : Nat) (s : WorkerSlot) : Bool :=
  !s.connected && !p.lost.contains index

/-- The slot for a new worker: the first one that may be taken over, or else a
new one as long as the table has room. -/
def freeSlot? (p : WorkerPool) : Option Nat :=
  match p.slots.zipIdx.find? fun (s, i) => p.isReusable i s with
  | some (_, i) => some i
  | none => if p.slots.length < p.maxWorkers then some p.slots.length else none

/-- Connects to a worker and gives its index. -/
def addWorker (p : WorkerPool) (network : Network) (now : Millis) (address : String) :
    Except AddError (Nat × WorkerPool) :=
  match p.freeSlot? with
  | none => .error (.poolFull p.maxWorkers)
  | some index =>
    match network.connect address with
    | .error e => .error (.connectFailed address e)
    | .ok () =>
      let slot : WorkerSlot := { address := address, link := p.links.length, lastSeen := now }
      let slots := if index < p.slots.length then p.slots.set index slot else p.slots ++ [slot]
      .ok (index, { p with slots := slots, links := p.links ++ [.fresh] })

/-- Gives up the connection of a worker and notes the loss. -/
def markLost (p : WorkerPool) (index : Nat) : WorkerPool :=
  match p.slots[index]? with
  | none => p
  | some s =>
    if s.connected then
      { (p.modifySlot index fun s => { s with connected := false, available := false }).modifyLink
          s.link Link.close with
        lost := p.lost ++ [index] }
    else p

/-- The workers that were lost since the last report. -/
def drainDisconnected (p : WorkerPool) : List Nat × WorkerPool := (p.lost, { p with lost := [] })

/-! ## Writing and reading -/

/-- The outcome of one write of a message, and the pool after it. -/
def sendTo (p : WorkerPool) (index : Nat) (s : WorkerSlot) (payload : Bytes) :
    Except SendError Unit × WorkerPool :=
  match p.links[s.link]? with
  | none => (.error (.notConnected index), p)
  | some link =>
    let (outcome, link) := link.write payload
    let p := p.modifyLink s.link fun _ => link
    match outcome with
    | .accepted n =>
      if n = payload.length then (.ok (), p)
      else (.error (.sendFailed index (.partialWrite n payload.length)), p.markLost index)
    | .wouldBlock => (.error (.sendFailed index .bufferFull), p)
    | .failed e => (.error (.sendFailed index (.failed e)), p.markLost index)

/-- Sends a message to a worker. -/
def send (p : WorkerPool) (index : Nat) (payload : Bytes) : Except SendError Unit × WorkerPool :=
  match p.slots[index]? with
  | none => (.error (.unknownWorker index), p)
  | some s => if s.connected then p.sendTo index s payload else (.error (.notConnected index), p)

/-- How many reads one sweep makes from one worker. -/
def maxReadsPerPoll : Nat := 16

/-- Reads from one worker, and gives the complete lines. Lines that are not text
are dropped. -/
def pollSlot (p : WorkerPool) (index : Nat) : List (Nat × String) × WorkerPool :=
  match p.slots[index]? with
  | none => ([], p)
  | some s =>
    if !s.connected then ([], p)
    else match p.links[s.link]? with
      | none => ([], p)
      | some link =>
        let (bytes, ended, link) := link.readUpTo maxReadsPerPoll
        let (lines, rest) := Frame.drainLines (s.buffer ++ bytes)
        let p := (p.modifyLink s.link fun _ => link).modifySlot index fun s =>
          { s with buffer := rest }
        (lines.filterMap fun
          | .ok line => some (index, line)
          | .error _ => none,
          if ended then p.markLost index else p)

/-- Reads from every connected worker in turn, and gives the complete lines, each
with the worker it is from. -/
def pollAll (p : WorkerPool) : List (Nat × String) × WorkerPool :=
  (List.range p.slots.length).foldl
    (fun (lines, p) i =>
      let (more, p) := p.pollSlot i
      (lines ++ more, p))
    ([], p)

/-! ## Choosing a worker -/

/-- The places of the table in the order of the search. -/
def searchOrder (p : WorkerPool) : List Nat :=
  (List.range p.slots.length).map fun k => (p.next + k) % p.slots.length

/-- Whether the worker at a place can be given a task. -/
def isSelectableAt (p : WorkerPool) (index : Nat) : Bool :=
  match p.slots[index]? with
  | none => false
  | some s => s.isSelectable

/-- The next worker in turn that can be given a task. The search for the one
after it begins behind it. -/
def select? (p : WorkerPool) : Option (Nat × WorkerPool) :=
  (p.searchOrder.find? p.isSelectableAt).map fun i => (i, { p with next := i + 1 })

/-- Whether some worker can be given a task. -/
def hasAvailable (p : WorkerPool) : Bool := p.slots.any (·.isSelectable)

/-- The number of workers that are connected. -/
def connectedCount (p : WorkerPool) : Nat := p.slots.countP (·.connected)

/-- Whether the worker with an index is connected. -/
def isConnected (p : WorkerPool) (index : Nat) : Bool :=
  match p.slots[index]? with
  | none => false
  | some s => s.connected

/-! ## What workers report -/

/-- Takes down what a worker says about itself. A lost worker is not available,
whatever it says, and an empty name leaves the name as it was. -/
def updateStatus (p : WorkerPool) (index : Nat) (status : NodeStatus) (now : Millis) :
    WorkerPool :=
  p.modifySlot index fun s =>
    { s with
      nodeId := if status.nodeId = "" then s.nodeId else some status.nodeId
      available := status.available && s.connected
      load := status.load
      lastSeen := now }

/-- Notes that a worker has been heard of. -/
def touch (p : WorkerPool) (index : Nat) (now : Millis) : WorkerPool :=
  p.modifySlot index fun s => { s with lastSeen := now }

/-- What is known of every worker. -/
def snapshot (p : WorkerPool) : List WorkerSnapshot :=
  p.slots.zipIdx.map fun (s, i) =>
    { index := i, address := s.address, nodeId := s.nodeId, connected := s.connected
      available := s.available, load := s.load, lastSeenMs := s.lastSeen }

/-- Closes every connection. The workers are not reported as lost. -/
def closeAll (p : WorkerPool) : WorkerPool :=
  { p with
    slots := p.slots.map fun s =>
      if s.connected then { s with connected := false, available := false } else s
    links := p.links.map Link.close }

end WorkerPool

end PromptGateway
