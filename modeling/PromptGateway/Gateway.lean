import PromptGateway.Client
import PromptGateway.Settings.Basic

/-
  A running gateway, without its clients.

  Two things happen over and over again while a gateway runs. An assignment tick
  gives a pending task to a worker; it waits as long as all connected workers are
  busy. A delivery tick reads from every worker, takes in what they said, and only
  then fails the tasks of workers that were found lost, so that an answer that
  arrived before a loss still counts. Each tick says whether there was anything to
  do; the loops around them pause when there was not.
-/

namespace PromptGateway

/-- A running gateway, without its clients. -/
structure Gateway where
  settings : Settings
  dispatcher : Dispatcher
  stopping : Bool := false

namespace Gateway

/-- A gateway that has just been started. -/
def create (s : Settings) : Gateway where
  settings := s
  dispatcher := Dispatcher.create s.limits.maxTasks s.limits.maxPending s.limits.maxProcessing
    s.limits.maxWorkers

/-- Puts another pool in place of the one there. -/
def withPool (g : Gateway) (p : WorkerPool) : Gateway :=
  { g with dispatcher := { g.dispatcher with pool := p } }

/-- Connects to every configured worker and counts those that could be reached.
The others are passed over. -/
def connectWorkers (g : Gateway) (network : Network) (now : Millis) : Nat × Gateway :=
  g.settings.workers.addresses.foldl
    (fun (n, g) address =>
      match g.dispatcher.pool.addWorker network now address with
      | .ok (_, pool) => (n + 1, g.withPool pool)
      | .error _ => (n, g))
    (0, g)

/-- Asks the gateway to stop. -/
def requestShutdown (g : Gateway) : Gateway := { g with stopping := true }

/-- Whether pending work has to wait for a worker to become available. -/
def mustWait (g : Gateway) : Bool :=
  decide (0 < g.dispatcher.pool.connectedCount) && !g.dispatcher.pool.hasAvailable

/-- One assignment, and whether there was anything to do. With no worker connected
at all a pending task fails at once. -/
def assignmentTick (g : Gateway) (now : Millis) : Bool × Gateway :=
  if g.dispatcher.queue.isPendingEmpty || g.mustWait then (false, g)
  else
    let (result, d) := g.dispatcher.assignNext now
    let busy := match result with
      | .idle | .saturated => false
      | .failed _ _ | .assigned _ _ | .skipped _ => true
    (busy, { g with dispatcher := d })

/-- Takes in what workers said, in the order in which it was read. -/
def ingestAll (d : Dispatcher) (now : Millis) (lines : List (Nat × String)) : Dispatcher :=
  lines.foldl (fun d (worker, line) => (d.ingest now worker line).2) d

/-- Fails the tasks of every worker whose loss has not been reported yet. -/
def failLost (d : Dispatcher) (now : Millis) : Dispatcher :=
  let (lost, pool) := d.pool.drainDisconnected
  lost.foldl (fun d worker => (d.failWorkerTasks worker now).2) { d with pool := pool }

/-- Ends the tasks that have made no progress for too long, if there is a limit. -/
def expire (d : Dispatcher) (now : Millis) : Option Nat → Dispatcher
  | none => d
  | some timeoutMs => (d.sweepTimeouts now timeoutMs now).2

/-- Reads from every worker once and applies what arrived, and whether anything
did. -/
def deliveryTick (g : Gateway) (now : Millis) : Bool × Gateway :=
  let (lines, pool) := g.dispatcher.pool.pollAll
  let d := ingestAll { g.dispatcher with pool := pool } now lines
  let d := expire (failLost d now) now g.settings.dispatch.taskTimeoutMs
  (!lines.isEmpty, { g with dispatcher := d })

end Gateway

end PromptGateway
