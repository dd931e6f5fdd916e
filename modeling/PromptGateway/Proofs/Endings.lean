import PromptGateway.Proofs.Accounts
import Mathlib.Data.List.Nodup

/-
  Many tasks that end at once.

  A client that leaves, a worker that is lost and a sweep for time-outs end many tasks, one
  after the other, and each record is tested when its turn comes. As long as the test looks at
  nothing but the record and its own stream, the order makes no difference: the tasks that
  qualify in the beginning are ended, and no others (`endEach_eq_endAll`). What is then left of
  records, streams and queues can be read off, request by request (`get?_endAll`,
  `streams_endAll`, `pending_endAll`, `processing_endAll`).

  This needs that every record is stored under its own id and has not ended, which `Keyed`
  says. No call of the engine breaks it, and neither does half an assignment.
-/

namespace PromptGateway

namespace TaskStatus

/-- A task that has not ended can fail, time out or be cancelled at any time. -/
theorem canMove_of_live {s next : TaskStatus} (hs : s.isTerminal = false)
    (hnext : next.isTerminal = true) (hcompleted : next ≠ .completed) :
    s.canMove next = true := by
  cases next with
  | failed => simp [canMove, hs]
  | timeout => simp [canMove, hs]
  | cancelled => simp [canMove, hs]
  | completed => exact absurd rfl hcompleted
  | pending => cases hnext
  | assigning => cases hnext
  | processing => cases hnext

end TaskStatus

/-- Records whose ids are all their own have the ids of the cache. -/
theorem TaskCache.map_id_records {c : TaskCache} (h : ∀ id r, c.get? id = some r → r.id = id) :
    c.records.map (·.id) = c.tasks.keys := by
  unfold TaskCache.records Table.values Table.keys
  rw [List.map_map]
  apply List.map_congr_left
  intro x hx
  obtain ⟨id, r⟩ := x
  exact h id r ((c.tasks.mem_entries_iff id r).mp hx)

namespace Dispatcher

/-- Every record is stored under its own id, and its task has not ended. -/
structure Keyed (d : Dispatcher) : Prop where
  own_id : ∀ id r, d.cache.get? id = some r → r.id = id
  live : ∀ id r, d.cache.get? id = some r → r.status.isTerminal = false

variable {d : Dispatcher}

theorem keyed_of_listed {b : Bounds} (h : Listed b d.cache d.queue) : d.Keyed where
  own_id := h.own_id
  live := by
    intro id r hr
    rcases h.live id r hr with hst | hst
    · rw [hst]
      rfl
    · rw [hst]
      rfl

/-! ## Tasks that are ended one after the other -/

/-- What is left of the stream of a task that ends: the failure, unless it was cancelled. -/
def residue (d : Dispatcher) (status : TaskStatus) (message : String) (id : RequestId) :
    Option TokenStream :=
  if status = .cancelled then none else some ((d.streamOf id).fail message)

/-- The engine when the tasks with these ids have been ended. -/
def endAll (d : Dispatcher) (status : TaskStatus) (message : String) (ids : List RequestId) :
    Dispatcher :=
  ids.foldl (fun d id => d.ended id status message) d

variable {status : TaskStatus} {message : String}

theorem get?_ended (d : Dispatcher) (id j : RequestId) :
    (d.ended id status message).cache.get? j = if j = id then none else d.cache.get? j := by
  rw [cache_ended, TaskCache.get?_remove]

theorem streams_ended (d : Dispatcher) (id j : RequestId) :
    (d.ended id status message).streams.find? j =
      if j = id then d.residue status message j else d.streams.find? j := by
  by_cases hst : status = .cancelled
  · rw [ended, residue, if_pos hst, if_pos hst]
    exact Table.find?_erase _ _ _
  · rw [find?_ended hst, residue, if_neg hst]
    split
    · next hj => rw [hj]
    · rfl

/-- There is as much of a request as before. -/
def Spared (d d' : Dispatcher) (id : RequestId) : Prop :=
  d'.cache.get? id = d.cache.get? id ∧ d'.streams.find? id = d.streams.find? id

theorem residue_congr {d d' : Dispatcher} {id : RequestId}
    (h : d'.streams.find? id = d.streams.find? id) :
    d'.residue status message id = d.residue status message id := by
  simp only [residue, streamOf, h]

theorem get?_endAll (d : Dispatcher) (ids : List RequestId) (j : RequestId) :
    (d.endAll status message ids).cache.get? j = if j ∈ ids then none else d.cache.get? j := by
  induction ids generalizing d with
  | nil => rfl
  | cons id ids ih =>
    rw [endAll, List.foldl_cons, ← endAll, ih, get?_ended]
    by_cases hj : j = id
    · simp [hj]
    · simp [hj]

theorem streams_endAll (d : Dispatcher) {ids : List RequestId} (hids : ids.Nodup)
    (j : RequestId) :
    (d.endAll status message ids).streams.find? j =
      if j ∈ ids then d.residue status message j else d.streams.find? j := by
  induction ids generalizing d with
  | nil => rfl
  | cons id ids ih =>
    rw [List.nodup_cons] at hids
    rw [endAll, List.foldl_cons, ← endAll, ih _ hids.2]
    by_cases hj : j = id
    · subst hj
      simp [hids.1, streams_ended]
    · have hsame : (d.ended id status message).streams.find? j = d.streams.find? j := by
        rw [streams_ended, if_neg hj]
      simp [hj, hsame, residue_congr hsame]

theorem pending_endAll (d : Dispatcher) (ids : List RequestId) :
    (d.endAll status message ids).queue.pending = d.queue.pending.diff ids := by
  induction ids generalizing d with
  | nil => rfl
  | cons id ids ih =>
    rw [endAll, List.foldl_cons, ← endAll, ih, queue_ended, List.diff_cons]
    rfl

theorem processing_endAll (d : Dispatcher) (ids : List RequestId) :
    (d.endAll status message ids).queue.processing = d.queue.processing.diff ids := by
  induction ids generalizing d with
  | nil => rfl
  | cons id ids ih =>
    rw [endAll, List.foldl_cons, ← endAll, ih, queue_ended, List.diff_cons]
    rfl

/-! ## Tasks that are tested when their turn comes -/

/-- A test that looks at nothing of the engine but the stream of the record. -/
def Local (q : Dispatcher → TaskRecord → Bool) : Prop :=
  ∀ d d' r, d'.streams.find? r.id = d.streams.find? r.id → q d' r = q d r

/-- A list of records, each of them found under its id and listed once. -/
structure Roll (d : Dispatcher) (records : List TaskRecord) : Prop where
  found : ∀ r ∈ records, d.cache.get? r.id = some r
  once : (records.map (·.id)).Nodup

/-- Any choice of the records of a cache is such a list. -/
theorem Keyed.roll (h : d.Keyed) (p : TaskRecord → Bool) : d.Roll (d.cache.records.filter p) where
  found := by
    intro r hr
    obtain ⟨id, hid⟩ := (d.cache.mem_records_iff r).mp (List.mem_filter.mp hr).1
    rwa [h.own_id id r hid]
  once := by
    have hnodup : (d.cache.records.map (·.id)).Nodup := by
      rw [TaskCache.map_id_records h.own_id]
      exact d.cache.tasks.nodup
    exact hnodup.sublist (List.filter_sublist.map _)

theorem Keyed.mem_filter (h : d.Keyed) (p : TaskRecord → Bool) (id : RequestId) :
    id ∈ (d.cache.records.filter p).map (·.id) ↔ ∃ r, d.cache.get? id = some r ∧ p r = true := by
  rw [List.mem_map]
  constructor
  · intro hm
    obtain ⟨r, hr, rfl⟩ := hm
    exact ⟨r, (h.roll p).found r hr, (List.mem_filter.mp hr).2⟩
  · intro hm
    obtain ⟨r, hr, hp⟩ := hm
    exact ⟨r, List.mem_filter.mpr ⟨(d.cache.mem_records_iff r).mpr ⟨id, hr⟩, hp⟩, h.own_id id r hr⟩

/-- The others are still on the list when one task has ended. -/
theorem Roll.ended {r : TaskRecord} {records : List TaskRecord} (h : d.Roll (r :: records)) :
    (d.ended r.id status message).Roll records where
  found := by
    intro s hs
    have honce := h.once
    rw [List.map_cons, List.nodup_cons] at honce
    have hne : s.id ≠ r.id := by
      intro he
      exact honce.1 (List.mem_map.mpr ⟨s, hs, he⟩)
    rw [get?_ended, if_neg hne]
    exact h.found s (List.mem_cons_of_mem r hs)
  once := by
    have honce := h.once
    rw [List.map_cons, List.nodup_cons] at honce
    exact honce.2

/-- The tasks that qualify in the beginning are ended, and no others. -/
theorem endEach_eq_endAll {q : Dispatcher → TaskRecord → Bool} (hq : Local q)
    (hstatus : status.isTerminal = true) (hcompleted : status ≠ .completed) (now : Millis)
    {records : List TaskRecord} (hroll : d.Roll records)
    (hlive : ∀ r ∈ records, r.status.isTerminal = false) :
    (d.endEach q status message now records).2 =
      d.endAll status message ((records.filter (q d)).map (·.id)) := by
  rw [endEach_eq]
  induction records generalizing d with
  | nil => rfl
  | cons r records ih =>
    have hrest : ∀ s ∈ records, s.status.isTerminal = false := by
      intro s hs
      exact hlive s (List.mem_cons_of_mem r hs)
    rw [List.foldl_cons, endIf, List.filter_cons]
    cases hqr : q d r with
    | false =>
      have htail : d.Roll records :=
        ⟨fun s hs => hroll.found s (List.mem_cons_of_mem r hs), (List.nodup_cons.mp hroll.once).2⟩
      simpa using ih htail hrest
    | true =>
      have hends : d.endTask? r.id status message now = some (d.ended r.id status message) := by
        rw [endTask?_eq_some_iff]
        have hmove := TaskStatus.canMove_of_live (hlive r List.mem_cons_self) hstatus hcompleted
        exact ⟨⟨r, hroll.found r List.mem_cons_self, hmove⟩, rfl⟩
      -- what comes later on the list has another id, and so the same stream as before
      have hsame : ∀ s ∈ records, q (d.ended r.id status message) s = q d s := by
        intro s hs
        apply hq
        have hne : s.id ≠ r.id := by
          intro he
          exact (List.nodup_cons.mp hroll.once).1 (List.mem_map.mpr ⟨s, hs, he⟩)
        rw [streams_ended, if_neg hne]
      rw [if_pos rfl, hends, Option.getD_some, ih hroll.ended hrest, List.filter_congr hsame]
      rfl

/-- To cancel a connection is to end the tasks that it owns. -/
theorem Keyed.cancelConnection (h : d.Keyed) (owner : ConnectionId) (now : Millis) :
    (d.cancelConnection owner now).2 =
      d.endAll .cancelled "client disconnected" ((d.cache.ownedBy owner).map (·.id)) := by
  have hlive : ∀ r ∈ d.cache.ownedBy owner, r.status.isTerminal = false := by
    intro r hr
    exact h.live r.id r ((h.roll _).found r hr)
  have hlocal : Local fun _ _ => true := fun _ _ _ _ => rfl
  have hcancelled : TaskStatus.cancelled.isTerminal = true ∧ TaskStatus.cancelled ≠ .completed := by
    decide
  have hends : (d.cancelConnection owner now).2 = _ :=
    endEach_eq_endAll hlocal hcancelled.1 hcancelled.2 now (h.roll (·.owner == owner)) hlive
  rwa [List.filter_true] at hends

end Dispatcher

end PromptGateway
