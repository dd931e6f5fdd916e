import PromptGateway.Task.Cache
import PromptGateway.Task.Queue
import PromptGateway.Task.Stream
import PromptGateway.Worker.Pool

/-
  The dispatch engine.

  A request that is admitted gets a record and a place in the pending queue. One
  assignment takes the first pending request to a worker, the answers of workers
  are gathered into the stream of the request they name, and a client takes the
  fragments of its requests out of those streams one at a time. A request ends
  when its stream has been delivered, or when it fails, times out or is cancelled;
  its record and its place in the queues go at once, and a failure stays in the
  stream until the client has been told.

  Every operation is a function of the state, and the time and the ids it needs
  from outside are given to it as a `Moment`. An assignment is made of two steps,
  `beginAssign` up to the write to the worker and `commitAssign` after it, between
  which other operations may come.
-/

namespace PromptGateway

/-- What an operation takes from outside: the time, and an id for a request that
comes without one, depending on how many were used before. -/
structure Moment where
  now : Millis
  newId : Nat → RequestId

/-- A generated id: the time and a random number. -/
def generatedId (now : Millis) (random : UInt64) : RequestId := s!"{now.toInt}-{random.toNat}"

/-- The state of the dispatch engine. -/
structure Dispatcher where
  cache : TaskCache
  queue : TaskQueue
  /-- What workers have answered, by request. -/
  streams : Table RequestId TokenStream := .empty
  pool : WorkerPool
  /-- How many requests have been admitted under a generated id. -/
  generated : Nat := 0

/-- What one assignment comes to. -/
inductive Assignment where
  /-- Nothing is pending. -/
  | idle
  /-- The processing queue is at its bound. -/
  | saturated
  /-- The first pending id has no record that could be assigned. -/
  | skipped (id : RequestId)
  | assigned (id : RequestId) (worker : Nat)
  | failed (id : RequestId) (reason : String)
  deriving DecidableEq, Repr

/-- What the first step of an assignment comes to. -/
inductive AssignStep where
  /-- The assignment is over. -/
  | done (result : Assignment)
  /-- The task has been sent to a worker, and is yet to be entered. -/
  | sent (id : RequestId) (worker : Nat)
  deriving DecidableEq, Repr

/-- What one line of a worker comes to. -/
inductive IngestOutcome where
  | appended (id : RequestId)
  | finished (id : RequestId)
  | failed (id : RequestId)
  /-- The id has no record, and the line is dropped. -/
  | orphaned (id : RequestId)
  | statusUpdated
  | heartbeat
  | ignored
  | decodeFailed
  deriving DecidableEq, Repr

namespace IngestOutcome

/-- Whether a client has something new to read. -/
def touchesStream : IngestOutcome → Bool
  | appended _ | finished _ | failed _ => true
  | orphaned _ | statusUpdated | heartbeat | ignored | decodeFailed => false

/-- The request an outcome is about. -/
def id? : IngestOutcome → Option RequestId
  | appended id | finished id | failed id | orphaned id => some id
  | statusUpdated | heartbeat | ignored | decodeFailed => none

end IngestOutcome

/-- What a client finds when it asks for the next part of an answer. -/
inductive Drain where
  | fragment (text : String)
  /-- The stream has ended and everything has been handed out. -/
  | finished
  /-- The request has failed; nothing is left of it. -/
  | failed (reason : String)
  | nothing
  deriving DecidableEq, Repr

namespace Dispatcher

/-- An engine without requests. -/
def create (maxTasks maxPending maxProcessing maxWorkers : Nat) : Dispatcher where
  cache := { capacity := maxTasks }
  queue := { maxPending := maxPending, maxProcessing := maxProcessing }
  pool := { maxWorkers := maxWorkers }

/-! ## Admission -/

/-- The id under which a request would be admitted. -/
def idFor (d : Dispatcher) (m : Moment) (r : InferenceRequest) : RequestId :=
  r.requestedId.getD (m.newId d.generated)

/-- Makes a record of a request and queues it. An id is refused while it has a
record, and also while its client has yet to be told of a failure. -/
def admitRequest (d : Dispatcher) (m : Moment) (r : InferenceRequest) (owner : ConnectionId) :
    Except AdmissionError (TaskRecord × Dispatcher) :=
  let id := d.idFor m r
  if d.streams.contains id then .error (.duplicate id)
  else
    let record : TaskRecord :=
      { id := id, owner := owner, payload := r.payload, priority := r.priority, createdAt := m.now }
    match d.cache.insertNew record with
    | .error e => .error e
    | .ok cache =>
      match d.queue.enqueuePending? id with
      | none => .error (.queueFull d.queue.maxPending)
      | some queue =>
        let generated := if r.requestedId.isSome then d.generated else d.generated + 1
        .ok (record, { d with cache := cache, queue := queue, generated := generated })

/-! ## Streams -/

/-- The stream of a request, an empty one if it has none yet. -/
def streamOf (d : Dispatcher) (id : RequestId) : TokenStream := (d.streams.find? id).getD {}

/-- Puts a stream in place of the stream of a request. -/
def setStream (d : Dispatcher) (id : RequestId) (s : TokenStream) : Dispatcher :=
  { d with streams := d.streams.insert id s }

/-- Appends a fragment to the stream of a request, and whether it was open. -/
def addToken (d : Dispatcher) (id : RequestId) (fragment : String) : Bool × Dispatcher :=
  let (open?, s) := (d.streamOf id).append fragment
  (open?, d.setStream id s)

/-- Ends the stream of a request. -/
def finishStream (d : Dispatcher) (id : RequestId) : Dispatcher :=
  d.setStream id (d.streamOf id).finish

/-- The fragments of a request, read or not. -/
def tokens (d : Dispatcher) (id : RequestId) : List String := (d.streamOf id).fragments

/-- Releases the stream of a request. -/
def clearStream (d : Dispatcher) (id : RequestId) : Dispatcher :=
  { d with streams := d.streams.erase id }

/-- Whether the stream of a request has ended. -/
def streamFinished (d : Dispatcher) (id : RequestId) : Bool :=
  match d.streams.find? id with
  | none => false
  | some s => s.finished

/-! ## Ending a task -/

/-- Takes a request out of the queues and the cache. -/
def release (d : Dispatcher) (id : RequestId) : Dispatcher :=
  { d with
    queue := (d.queue.removePending id).removeProcessing id
    cache := d.cache.remove id }

/-- Ends a live task as failed, timed out or cancelled; none if the lifecycle
does not allow it. The stream of a cancelled task goes with it, that of another
one is left behind with the failure. -/
def endTask? (d : Dispatcher) (id : RequestId) (status : TaskStatus) (message : String)
    (now : Millis) : Option Dispatcher :=
  match d.cache.transition? id status now with
  | none => none
  | some _ =>
    let d := d.release id
    some (if status = .cancelled then d.clearStream id
      else d.setStream id ((d.streamOf id).fail message))

/-- Ends, of the given records, those that qualify when their turn comes, and
counts them. -/
def endEach (d : Dispatcher) (qualifies : Dispatcher → TaskRecord → Bool) (status : TaskStatus)
    (message : String) (now : Millis) (records : List TaskRecord) : Nat × Dispatcher :=
  records.foldl
    (fun (n, d) r =>
      if qualifies d r then
        match d.endTask? r.id status message now with
        | some d => (n + 1, d)
        | none => (n, d)
      else (n, d))
    (0, d)

/-- Cancels every task of a connection that is gone. Workers are not told; what
they still answer has no record to go to. -/
def cancelConnection (d : Dispatcher) (owner : ConnectionId) (now : Millis) : Nat × Dispatcher :=
  d.endEach (fun _ _ => true) .cancelled "client disconnected" now (d.cache.ownedBy owner)

/-- Fails the tasks of a worker that was lost, except those whose stream has
ended and only waits to be delivered. -/
def failWorkerTasks (d : Dispatcher) (worker : Nat) (now : Millis) : Nat × Dispatcher :=
  d.endEach (fun d r => !d.streamFinished r.id) .failed s!"worker {worker} disconnected" now
    (d.cache.givenTo worker)

/-- Ends the tasks that have made no progress for longer than a time, again
except those whose stream has ended. -/
def sweepTimeouts (d : Dispatcher) (now : Millis) (timeoutMs : Nat) (clock : Millis) :
    Nat × Dispatcher :=
  let limit : Int := min timeoutMs Int64.maxValue.toInt
  d.endEach (fun d r => decide (limit < (r.idle now).toInt) && !d.streamFinished r.id) .timeout
    s!"no progress for {timeoutMs} ms" clock d.cache.records

/-! ## Assignment -/

/-- The line that tells a worker of a task. -/
def taskMessage (r : TaskRecord) : WireMessage :=
  .task { id := r.id, clientSocket := r.owner, model := r.payload.model
          prompt := r.payload.prompt, maxTokens := r.payload.maxTokens
          stream := r.payload.stream }

/-- Ends a task that could not be given to a worker. -/
def failAssign (d : Dispatcher) (id : RequestId) (reason : String) (now : Millis) :
    AssignStep × Dispatcher :=
  (.done (.failed id reason), (d.endTask? id .failed reason now).getD d)

/-- The first step of an assignment: the first pending task is given to the next
worker in turn, and its line is written to that worker's connection. -/
def beginAssign (d : Dispatcher) (now : Millis) : AssignStep × Dispatcher :=
  if d.queue.isSaturated then (.done .saturated, d)
  else match d.queue.dequeuePending? with
    | none => (.done .idle, d)
    | some (id, queue) =>
      let d := { d with queue := queue }
      match d.cache.transition? id .assigning now with
      | none => (.done (.skipped id), d)
      | some (record, cache) =>
        let d := { d with cache := cache }
        match d.pool.select? with
        | none => d.failAssign id "no worker available" now
        | some (worker, pool) =>
          let cache := d.cache.modify id fun r => { r with worker := some worker }
          let (sent, pool) := pool.send worker (taskMessage record).encode
          let d := { d with cache := cache, pool := pool }
          match sent with
          | .error e => d.failAssign id e.message now
          | .ok () => (.sent id worker, d)

/-- The second step of an assignment: a task that still lives after its line has
been written is entered as processing. -/
def commitAssign (d : Dispatcher) (id : RequestId) : Dispatcher :=
  let live := d.cache.contains id
  let d := { d with
    cache := d.cache.modify id fun r =>
      if r.status = .assigning then { r with status := .processing } else r }
  if live then
    match d.queue.enqueueProcessing? id with
    | some queue => { d with queue := queue }
    | none => d
  else d

/-- Gives at most one pending task to a worker. -/
def assignNext (d : Dispatcher) (now : Millis) : Assignment × Dispatcher :=
  match d.beginAssign now with
  | (.done result, d) => (result, d)
  | (.sent id worker, d) => (.assigned id worker, d.commitAssign id)

/-! ## Answers of workers -/

/-- Takes in a response: progress for its task, and a fragment or the end for its
stream. Nothing follows the end of a stream. -/
def ingestResponse (d : Dispatcher) (now : Millis) (r : TokenResponse) :
    IngestOutcome × Dispatcher :=
  match d.cache.get? r.id with
  | none => (.orphaned r.id, d)
  | some _ =>
    let cache := d.cache.modify r.id fun t => { t with lastProgressAt := now }
    let cache := match cache.get? r.id with
      | some t => if t.status = .assigning then cache.updateStatus r.id .processing now else cache
      | none => cache
    let d := { d with cache := cache }
    if d.streamFinished r.id then (.ignored, d)
    else
      let d := match r.token.or r.result with
        | some fragment => (d.addToken r.id fragment).2
        | none => d
      if r.finished then (.finished r.id, d.finishStream r.id) else (.appended r.id, d)

/-- Takes in a report of a failure. One that names no request is ignored. -/
def ingestError (d : Dispatcher) (now : Millis) (e : ErrorReport) : IngestOutcome × Dispatcher :=
  if e.id = "" then (.ignored, d)
  else match d.endTask? e.id .failed e.message now with
    | some d => (.failed e.id, d)
    | none => (.orphaned e.id, d)

/-- Takes in one line of a worker. -/
def ingest (d : Dispatcher) (now : Millis) (worker : Nat) (line : String) :
    IngestOutcome × Dispatcher :=
  match WireMessage.decode line with
  | .error _ => (.decodeFailed, d)
  | .ok message =>
    let d := { d with pool := d.pool.touch worker now }
    match message with
    | .response r => d.ingestResponse now r
    | .error e => d.ingestError now e
    | .status s => (.statusUpdated, { d with pool := d.pool.updateStatus worker s now })
    | .heartbeat => (.heartbeat, d)
    | .request _ | .task _ => (.ignored, d)

/-! ## Delivery -/

/-- Hands out the next part of an answer. A failure is handed out once, and its
stream goes with it. -/
def nextFragment (d : Dispatcher) (id : RequestId) : Drain × Dispatcher :=
  match d.streams.find? id with
  | none =>
    if d.cache.contains id then (.nothing, d) else (.failed "request is no longer tracked", d)
  | some s =>
    match s.failure with
    | some reason => (.failed reason, d.clearStream id)
    | none =>
      match s.nextUnread with
      | some (fragment, s) =>
        let d := d.setStream id s
        (.fragment fragment,
          { d with cache := d.cache.modify id fun r => { r with delivered := r.delivered + 1 } })
      | none => if s.isDrained then (.finished, d) else (.nothing, d)

/-- Closes out an answer that has been delivered in full. -/
def finishDelivery (d : Dispatcher) (id : RequestId) (now : Millis) : Dispatcher :=
  (({ d with cache := d.cache.updateStatus id .completed now }).release id).clearStream id

/-! ## Diagnostics -/

/-- The state of the engine at one moment. -/
def snapshot (d : Dispatcher) (now : Millis) : Snapshot where
  takenAtMs := now
  cachedTasks := d.cache.size
  taskCapacity := d.cache.capacity
  pendingQueue := d.queue.pending.length
  processingQueue := d.queue.processing.length
  openStreams := d.streams.size
  statuses :=
    { pending := (d.cache.withStatus .pending).length
      assigning := (d.cache.withStatus .assigning).length
      processing := (d.cache.withStatus .processing).length }
  workers := d.pool.snapshot

end Dispatcher

end PromptGateway
