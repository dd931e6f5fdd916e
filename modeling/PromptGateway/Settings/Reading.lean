import PromptGateway.Settings.Basic
import PromptGateway.Toml.Document

/-
  Settings from a TOML document.

  Each section is a table of fields, all of which may be missing; a key that is no
  field is passed over. A section may also be a list that gives the fields in
  order, as far as it goes. A moment has no fields at all, and leaves a section as
  it is.
-/

namespace PromptGateway

open Toml (Node)

/-- A field of a section: its key, and what a value does to the section. -/
structure SettingField (σ : Type) where
  key : String
  put : Node → σ → Option σ

namespace SettingField

/-- The fields of a table, each by its key. -/
def byKey (fields : List (SettingField σ)) (es : Toml.Entries) (s : σ) : Option σ :=
  fields.foldlM
    (fun s f =>
      match es.lookup f.key with
      | none => some s
      | some v => f.put v s)
    s

/-- The fields of a list, in order. What goes beyond the fields is passed over. -/
def inOrder (fields : List (SettingField σ)) (items : List Node) (s : σ) : Option σ :=
  (fields.zip items).foldlM (fun s (f, v) => f.put v s) s

/-- The fields of a section. -/
def section? (fields : List (SettingField σ)) (s : σ) : Node → Option σ
  | .table _ es => byKey fields es s
  | .list items => inOrder fields items s
  | .tables items => inOrder fields (items.map (.table .header)) s
  | .moment => some s
  | .text _ | .integer _ | .float | .boolean _ => none

/-- A text. -/
def text : Node → Option String
  | .text s => some s
  | _ => none

/-- A number that is not negative. -/
def nat : Node → Option Nat
  | .integer n => if 0 ≤ n then some n.toNat else none
  | _ => none

/-- A number of 16 bits. -/
def nat16 (v : Node) : Option UInt16 := do
  let n ← nat v
  if n < UInt16.size then some (.ofNat n) else none

/-- A list of texts. -/
def texts : Node → Option (List String)
  | .list items => items.mapM text
  | _ => none

/-- A field that is read and then stored. -/
def of (key : String) (read : Node → Option α) (store : α → σ → σ) : SettingField σ where
  key := key
  put v s := (read v).map (store · s)

end SettingField

open SettingField

/-- The fields of the server section. -/
def ServerSettings.fields : List (SettingField ServerSettings) := [
  .of "host" text fun a s => { s with host := a },
  .of "port" nat16 fun a s => { s with port := a },
  .of "max_clients" nat fun a s => { s with maxClients := a },
  .of "poll_timeout_ms" nat fun a s => { s with pollTimeoutMs := a }]

/-- The fields of the limits section. -/
def LimitSettings.fields : List (SettingField LimitSettings) := [
  .of "max_tasks" nat fun a s => { s with maxTasks := a },
  .of "max_pending" nat fun a s => { s with maxPending := a },
  .of "max_processing" nat fun a s => { s with maxProcessing := a },
  .of "max_workers" nat fun a s => { s with maxWorkers := a }]

/-- The fields of the dispatch section. -/
def DispatchSettings.fields : List (SettingField DispatchSettings) := [
  .of "idle_backoff_ms" nat fun a s => { s with idleBackoffMs := a },
  .of "task_timeout_ms" nat fun a s => { s with taskTimeoutMs := some a },
  .of "max_fragments_per_sweep" nat fun a s => { s with maxFragmentsPerSweep := a },
  .of "snapshot_interval_secs" nat fun a s => { s with snapshotIntervalSecs := a }]

/-- The fields of the workers section. -/
def WorkerSettings.fields : List (SettingField WorkerSettings) := [
  .of "addresses" texts fun a s => { s with addresses := a },
  .of "connect_timeout_ms" nat fun a s => { s with connectTimeoutMs := a }]

/-- The field of the logging section. -/
def LogSettings.fields : List (SettingField LogSettings) := [
  .of "filter" text fun a s => { s with filter := a }]

/-- The sections. -/
def Settings.fields : List (SettingField Settings) := [
  .of "server" (section? ServerSettings.fields {}) fun a s => { s with server := a },
  .of "limits" (section? LimitSettings.fields {}) fun a s => { s with limits := a },
  .of "dispatch" (section? DispatchSettings.fields {}) fun a s => { s with dispatch := a },
  .of "workers" (section? WorkerSettings.fields {}) fun a s => { s with workers := a },
  .of "logging" (section? LogSettings.fields {}) fun a s => { s with logging := a }]

/-- The settings that a document spells, whether they can be used or not. -/
def Settings.parse (document : String) : Option Settings := do
  byKey Settings.fields (← Toml.parse document) {}

end PromptGateway
