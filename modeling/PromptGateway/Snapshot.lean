import PromptGateway.Json.Record
import PromptGateway.Json.Writer

/-
  The state of the gateway at one moment, for diagnostics.

  A snapshot counts what is cached, queued and open, and lists what is known of
  every worker. `Snapshot.toJson` writes it and `Snapshot.ofJson` reads it back.
-/

namespace PromptGateway

open Json (Cause Content Reader Slot)

/-- How many live tasks have each of the live statuses. -/
structure StatusCounts where
  pending : Nat := 0
  assigning : Nat := 0
  processing : Nat := 0
  deriving DecidableEq, Repr

/-- What is known of one worker. -/
structure WorkerSnapshot where
  index : Nat
  address : String
  nodeId : Option String
  connected : Bool
  available : Bool
  load : Number.Floating Number.binary32
  lastSeenMs : Int64
  deriving DecidableEq, Repr

/-- The state of the gateway at one moment. -/
structure Snapshot where
  takenAtMs : Int64 := 0
  cachedTasks : Nat := 0
  taskCapacity : Nat := 0
  pendingQueue : Nat := 0
  processingQueue : Nat := 0
  openStreams : Nat := 0
  statuses : StatusCounts := {}
  workers : List WorkerSnapshot := []
  deriving DecidableEq, Repr

/-- The number of workers that are connected. -/
def Snapshot.connectedWorkers (s : Snapshot) : Nat := s.workers.countP (·.connected)

/-! ## Writing -/

open Json.Write

/-- The counts as an object. -/
def StatusCounts.write (c : StatusCounts) : List Char :=
  object [member "pending" (nat c.pending), member "assigning" (nat c.assigning),
    member "processing" (nat c.processing)]

/-- A worker as an object. -/
def WorkerSnapshot.write (w : WorkerSnapshot) : List Char :=
  object [member "index" (nat w.index), member "address" (text w.address),
    member "node_id" (orNull text w.nodeId), member "connected" (boolean w.connected),
    member "available" (boolean w.available), member "load" (float32 w.load),
    member "last_seen_ms" (int w.lastSeenMs.toInt)]

/-- A snapshot as an object. -/
def Snapshot.toJson (s : Snapshot) : String :=
  String.ofList (object [
    member "taken_at_ms" (int s.takenAtMs.toInt), member "cached_tasks" (nat s.cachedTasks),
    member "task_capacity" (nat s.taskCapacity), member "pending_queue" (nat s.pendingQueue),
    member "processing_queue" (nat s.processingQueue), member "open_streams" (nat s.openStreams),
    member "statuses" s.statuses.write, member "workers" (list (s.workers.map (·.write)))])

/-! ## Reading -/

/-- Reads a natural number of 64 bits. -/
def readUSize : Reader Nat := Json.scalar Content.asUSize

/-- Reads an integer of 64 bits. -/
def readInt64 : Reader Int64 := Json.scalar Content.asInt64

namespace StatusCounts

/-- Counts under construction. -/
structure Draft where
  pending : Option Nat := none
  assigning : Option Nat := none
  processing : Option Nat := none

/-- The fields of the counts. -/
def slots : List (Slot Draft (Reader Draft)) := [
  .reading "pending" (·.pending) (fun s a => { s with pending := some a }) readUSize,
  .reading "assigning" (·.assigning) (fun s a => { s with assigning := some a }) readUSize,
  .reading "processing" (·.processing) (fun s a => { s with processing := some a }) readUSize]

/-- Reads the counts; all three are there. -/
def read : Reader StatusCounts := Json.record "TaskStatusCounts" slots {} fun d => do
  return { pending := ← Json.require "pending" d.pending
           assigning := ← Json.require "assigning" d.assigning
           processing := ← Json.require "processing" d.processing }

end StatusCounts

namespace WorkerSnapshot

/-- A worker under construction. -/
structure Draft where
  index : Option Nat := none
  address : Option String := none
  nodeId : Option (Option String) := none
  connected : Option Bool := none
  available : Option Bool := none
  load : Option (Number.Floating Number.binary32) := none
  lastSeenMs : Option Int64 := none

/-- The fields of a worker. -/
def slots : List (Slot Draft (Reader Draft)) := [
  .reading "index" (·.index) (fun s a => { s with index := some a }) readUSize,
  .reading "address" (·.address) (fun s a => { s with address := some a })
    (Json.scalar Content.asText),
  .reading "node_id" (·.nodeId) (fun s a => { s with nodeId := some a })
    (Json.scalar (·.asOptional Content.asText)),
  .reading "connected" (·.connected) (fun s a => { s with connected := some a })
    (Json.scalar Content.asBoolean),
  .reading "available" (·.available) (fun s a => { s with available := some a })
    (Json.scalar Content.asBoolean),
  .reading "load" (·.load) (fun s a => { s with load := some a }) (Json.scalar Content.asFloat32),
  .reading "last_seen_ms" (·.lastSeenMs) (fun s a => { s with lastSeenMs := some a }) readInt64]

/-- Reads a worker; only its own name may be missing from an object. -/
def read : Reader WorkerSnapshot := Json.record "WorkerSnapshot" slots {} fun d => do
  return { index := ← Json.require "index" d.index
           address := ← Json.require "address" d.address
           nodeId := d.nodeId.getD none
           connected := ← Json.require "connected" d.connected
           available := ← Json.require "available" d.available
           load := ← Json.require "load" d.load
           lastSeenMs := ← Json.require "last_seen_ms" d.lastSeenMs }

end WorkerSnapshot

namespace Snapshot

/-- A snapshot under construction. -/
structure Draft where
  takenAtMs : Option Int64 := none
  cachedTasks : Option Nat := none
  taskCapacity : Option Nat := none
  pendingQueue : Option Nat := none
  processingQueue : Option Nat := none
  openStreams : Option Nat := none
  statuses : Option StatusCounts := none
  workers : Option (List WorkerSnapshot) := none

/-- The fields of a snapshot. -/
def slots : List (Slot Draft (Reader Draft)) := [
  .reading "taken_at_ms" (·.takenAtMs) (fun s a => { s with takenAtMs := some a }) readInt64,
  .reading "cached_tasks" (·.cachedTasks) (fun s a => { s with cachedTasks := some a }) readUSize,
  .reading "task_capacity" (·.taskCapacity) (fun s a => { s with taskCapacity := some a })
    readUSize,
  .reading "pending_queue" (·.pendingQueue) (fun s a => { s with pendingQueue := some a })
    readUSize,
  .reading "processing_queue" (·.processingQueue) (fun s a => { s with processingQueue := some a })
    readUSize,
  .reading "open_streams" (·.openStreams) (fun s a => { s with openStreams := some a }) readUSize,
  .reading "statuses" (·.statuses) (fun s a => { s with statuses := some a }) StatusCounts.read,
  .reading "workers" (·.workers) (fun s a => { s with workers := some a })
    (Json.sequence WorkerSnapshot.read)]

/-- Reads a snapshot; every field is there. -/
def read : Reader Snapshot := Json.record "GatewaySnapshot" slots {} fun d => do
  return { takenAtMs := ← Json.require "taken_at_ms" d.takenAtMs
           cachedTasks := ← Json.require "cached_tasks" d.cachedTasks
           taskCapacity := ← Json.require "task_capacity" d.taskCapacity
           pendingQueue := ← Json.require "pending_queue" d.pendingQueue
           processingQueue := ← Json.require "processing_queue" d.processingQueue
           openStreams := ← Json.require "open_streams" d.openStreams
           statuses := ← Json.require "statuses" d.statuses
           workers := ← Json.require "workers" d.workers }

/-- A snapshot from its text. -/
def ofJson (document : String) : Except Json.Error Snapshot :=
  let cs := document.toList
  let read := do
    let (s, rest) ← Snapshot.read cs
    Json.atEnd rest
    .ok s
  read.mapError (·.locate cs)

end Snapshot

end PromptGateway
