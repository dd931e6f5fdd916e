/-
  The settings of a gateway.

  Settings come in five sections, and every one of them has a default. Not every
  combination makes sense: `firstFault?` names the first setting that cannot be
  used, in a fixed order, and settings are only taken when it finds none.
-/

namespace PromptGateway

/-- Where clients connect, and how many of them. -/
structure ServerSettings where
  host : String := "0.0.0.0"
  port : UInt16 := 9000
  maxClients : Nat := 64
  pollTimeoutMs : Nat := 5
  deriving DecidableEq, Repr

/-- The bounds of the tables and queues. -/
structure LimitSettings where
  maxTasks : Nat := 128
  maxPending : Nat := 128
  maxProcessing : Nat := 128
  maxWorkers : Nat := 8
  deriving DecidableEq, Repr

/-- The pace of the dispatch engine. -/
structure DispatchSettings where
  idleBackoffMs : Nat := 10
  /-- How long a task may make no progress; unset, it may take any time. -/
  taskTimeoutMs : Option Nat := none
  maxFragmentsPerSweep : Nat := 64
  snapshotIntervalSecs : Nat := 30
  deriving DecidableEq, Repr

/-- The workers to connect to. -/
structure WorkerSettings where
  addresses : List String := []
  connectTimeoutMs : Nat := 2000
  deriving DecidableEq, Repr

/-- What is logged. -/
structure LogSettings where
  filter : String := "info"
  deriving DecidableEq, Repr

/-- The settings of a gateway. -/
structure Settings where
  server : ServerSettings := {}
  limits : LimitSettings := {}
  dispatch : DispatchSettings := {}
  workers : WorkerSettings := {}
  logging : LogSettings := {}
  deriving DecidableEq, Repr

/-- The address to listen on. -/
def Settings.listenAddress (s : Settings) : String := s!"{s.server.host}:{s.server.port.toNat}"

/-- The pause of an idle loop, as whole seconds and the nanoseconds beyond. -/
def DispatchSettings.idleBackoff (s : DispatchSettings) : Nat × Nat :=
  (s.idleBackoffMs / 1000, s.idleBackoffMs % 1000 * 1000000)

/-- A setting that cannot be used. -/
structure SettingFault where
  key : String
  reason : String
  deriving DecidableEq, Repr

namespace Settings

/-- The settings that have to be positive, in the order in which they are looked
at. -/
def positives (s : Settings) : List (String × Nat) := [
  ("limits.max_tasks", s.limits.maxTasks),
  ("limits.max_pending", s.limits.maxPending),
  ("limits.max_processing", s.limits.maxProcessing),
  ("limits.max_workers", s.limits.maxWorkers),
  ("server.max_clients", s.server.maxClients),
  ("dispatch.max_fragments_per_sweep", s.dispatch.maxFragmentsPerSweep)]

/-- The first setting that cannot be used. -/
def firstFault? (s : Settings) : Option SettingFault :=
  match s.positives.find? fun (_, n) => n == 0 with
  | some (key, _) => some ⟨key, "must be greater than zero"⟩
  | none =>
    let configured := s.workers.addresses.length
    if s.limits.maxWorkers < configured then
      some ⟨"workers.addresses",
        s!"{configured} addresses configured but limits.max_workers is {s.limits.maxWorkers}"⟩
    else if s.dispatch.taskTimeoutMs = some 0 then
      some ⟨"dispatch.task_timeout_ms", "use a positive deadline or leave it unset"⟩
    else none

end Settings

end PromptGateway
