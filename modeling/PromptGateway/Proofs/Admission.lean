import PromptGateway.Proofs.Invariants
import PromptGateway.Proofs.Progress
import PromptGateway.Proofs.Seniority

/-
  A request is admitted as a whole or not at all.

  An admission touches two stores one after the other, and each has a bound of its own. When
  the record goes into the cache it is not known yet whether there is room in the queue, and if
  there is none the record is taken out again. `admitInPlace` is an admission step by step, with
  the engine that is left after each of its exits.

    1. `admitInPlace_eq`: it gives the same answer and the same engine as `admitRequest`, which
       shows no half-way state. To take a record out that has just been put in restores the
       cache to the last entry (`TaskCache.remove_insertNew`).
    2. `Answers` lists the four answers in the order of the checks (`answers_admitRequest`), and
       `TakesIn` is all that an admission changes (`Admits.takesIn`).
    3. `admission_all_or_nothing` collects this for every state that a run comes to. The bounds
       that are compared with are those the engine began with, since no act changes them.
-/

namespace PromptGateway

/-- To take out what has just been put under a free name undoes it, and the order of the other
names is as it was. -/
theorem Table.erase_insert_of_not_contains {κ α : Type} [DecidableEq κ] (t : Table κ α) {k : κ}
    (a : α) (h : t.contains k = false) : (t.insert k a).erase k = t := by
  have hk : k ∉ t.keys := by
    rw [← t.find?_eq_none_iff, ← t.contains_eq_false_iff]
    exact h
  have hothers : t.entries.filter (·.1 ≠ k) = t.entries := by
    rw [List.filter_eq_self]
    intro x hx
    have hne : x.1 ≠ k := fun he => hk (he ▸ List.mem_map_of_mem (f := Prod.fst) hx)
    simpa using hne
  obtain ⟨entries, nodup⟩ := t
  simp only [insert, h, dif_pos, erase, mk.injEq, List.filter_append]
  rw [hothers]
  simp

/-- A new record that is taken back leaves the cache as it was. -/
theorem TaskCache.remove_insertNew {c c' : TaskCache} {r : TaskRecord}
    (h : c.insertNew r = .ok c') : c'.remove r.id = c := by
  obtain ⟨hfresh, -, rfl⟩ := insertNew_eq_ok h
  have hfree : c.tasks.contains r.id = false := (c.tasks.contains_eq_false_iff r.id).mpr hfresh
  simp only [remove, Table.erase_insert_of_not_contains _ _ hfree]

namespace Dispatcher

variable {d d' : Dispatcher} {m : Moment} {r : InferenceRequest} {owner : ConnectionId}
  {record : TaskRecord}

/-! ## Step by step -/

/-- An admission as it is made. The record is in the cache before there is known to be room in
the queue, and is taken out again if there is none. -/
def admitInPlace (d : Dispatcher) (m : Moment) (r : InferenceRequest) (owner : ConnectionId) :
    Except AdmissionError TaskRecord × Dispatcher :=
  let id := d.idFor m r
  if d.streams.contains id then (.error (.duplicate id), d)
  else
    let record := d.newRecord m r owner
    match d.cache.insertNew record with
    | .error e => (.error e, d)
    | .ok cache =>
      let entered := { d with cache := cache }
      match entered.queue.enqueuePending? id with
      | none =>
        (.error (.queueFull d.queue.maxPending),
          { entered with cache := entered.cache.remove id })
      | some queue =>
        let generated := if r.requestedId.isSome then d.generated else d.generated + 1
        (.ok record, { entered with queue := queue, generated := generated })

/-- Whatever an admission comes to, nothing of its steps is to be seen afterwards. -/
theorem admitInPlace_eq (d : Dispatcher) (m : Moment) (r : InferenceRequest)
    (owner : ConnectionId) :
    d.admitInPlace m r owner =
      match d.admitRequest m r owner with
      | .ok (record, d') => (.ok record, d')
      | .error e => (.error e, d) := by
  simp only [admitInPlace, admitRequest, newRecord]
  by_cases hs : d.streams.contains (d.idFor m r) = true
  · simp only [if_pos hs]
  · simp only [if_neg hs]
    let record : TaskRecord :=
      { id := d.idFor m r, owner := owner, payload := r.payload, priority := r.priority
        createdAt := m.now }
    cases hc : d.cache.insertNew record with
    | error e => rfl
    | ok cache =>
      dsimp only
      cases d.queue.enqueuePending? (d.idFor m r) with
      | some queue => rfl
      | none => exact congrArg (fun c => (_, { d with cache := c })) (TaskCache.remove_insertNew hc)

theorem admitInPlace_ok_iff :
    d.admitInPlace m r owner = (.ok record, d') ↔ d.admitRequest m r owner = .ok (record, d') := by
  rw [admitInPlace_eq]
  cases d.admitRequest m r owner with
  | ok x => simp [Prod.ext_iff]
  | error e => simp

theorem admitInPlace_error_iff {e : AdmissionError} :
    d.admitInPlace m r owner = (.error e, d') ↔
      d.admitRequest m r owner = .error e ∧ d' = d := by
  rw [admitInPlace_eq]
  cases d.admitRequest m r owner with
  | ok x => simp
  | error e => simp [eq_comm]

/-! ## The answers -/

/-- There is something of an id already: a record, or a stream. -/
def Taken (d : Dispatcher) (id : RequestId) : Prop :=
  (∃ t, d.cache.get? id = some t) ∨ ∃ s, d.streams.find? id = some s

theorem taken_iff_contains {id : RequestId} :
    d.Taken id ↔ d.streams.contains id = true ∨ d.cache.contains id = true := by
  have hstream : d.streams.contains id = true ↔ ∃ s, d.streams.find? id = some s :=
    Option.isSome_iff_exists
  rw [hstream, TaskCache.contains_iff, or_comm, Taken]

/-- The four answers to a request, each with what holds where it is given. -/
inductive Answers (d : Dispatcher) (m : Moment) (r : InferenceRequest) (owner : ConnectionId) :
    Except AdmissionError (TaskRecord × Dispatcher) → Prop where
  | duplicate : d.Taken (d.idFor m r) → Answers d m r owner (.error (.duplicate (d.idFor m r)))
  | rejected : ¬ d.Taken (d.idFor m r) → d.cache.capacity ≤ d.cache.size →
      Answers d m r owner (.error (.rejected d.cache.capacity))
  | queueFull : ¬ d.Taken (d.idFor m r) → d.cache.size < d.cache.capacity →
      d.queue.maxPending ≤ d.queue.pending.length →
      Answers d m r owner (.error (.queueFull d.queue.maxPending))
  | admitted {record : TaskRecord} {d' : Dispatcher} : ¬ d.Taken (d.idFor m r) →
      d.Admits m r owner record d' → Answers d m r owner (.ok (record, d'))

theorem answers_admitRequest (d : Dispatcher) (m : Moment) (r : InferenceRequest)
    (owner : ConnectionId) : d.Answers m r owner (d.admitRequest m r owner) := by
  by_cases htaken : d.Taken (d.idFor m r)
  · have hduplicate : d.admitRequest m r owner = .error (.duplicate (d.idFor m r)) :=
      admitRequest_duplicate_iff.mpr ⟨rfl, taken_iff_contains.mp htaken⟩
    rw [hduplicate]
    exact .duplicate htaken
  · obtain ⟨hstream, hrecord⟩ := not_or.mp (mt taken_iff_contains.mpr htaken)
    have hfree : d.cache.contains (d.newRecord m r owner).id = false :=
      Bool.eq_false_iff.mpr hrecord
    cases ha : d.admitRequest m r owner with
    | ok x => exact .admitted htaken (admits_of_admitRequest ha)
    | error e =>
      simp only [admitRequest, if_neg hstream] at ha
      -- the cache has the first word, and the queue is asked only if there is room in the cache
      by_cases hroom : d.cache.capacity ≤ d.cache.size
      · have hfull : d.cache.insertNew (d.newRecord m r owner) =
            .error (.rejected d.cache.capacity) := by
          simp [TaskCache.insertNew, hfree, hroom]
        simp only [newRecord] at hfull
        rw [hfull] at ha
        cases ha
        exact .rejected htaken hroom
      · have hroom := Nat.lt_of_not_le hroom
        obtain ⟨cache, hcache⟩ := TaskCache.insertNew_eq_ok_iff.mpr ⟨hfree, hroom⟩
        simp only [newRecord] at hcache
        rw [hcache] at ha
        by_cases hqueue : d.queue.maxPending ≤ d.queue.pending.length
        · simp only [TaskQueue.enqueuePending?, if_pos hqueue] at ha
          cases ha
          exact .queueFull htaken hroom hqueue
        · simp only [TaskQueue.enqueuePending?, if_neg hqueue] at ha
          cases ha

/-- All that an admission changes: there is one record more, and its id is the last to wait. -/
structure TakesIn (d : Dispatcher) (record : TaskRecord) (d' : Dispatcher) : Prop where
  fresh : d.cache.get? record.id = none
  records : ∀ id, d'.cache.get? id = if id = record.id then some record else d.cache.get? id
  size : d'.cache.size = d.cache.size + 1
  pending : d'.queue.pending = d.queue.pending ++ [record.id]
  processing : d'.queue.processing = d.queue.processing
  streams : d'.streams = d.streams
  pool : d'.pool = d.pool

theorem Admits.takesIn (h : d.Admits m r owner record d') : d.TakesIn record d' := by
  obtain ⟨generated, rfl⟩ := h.engine_eq
  have hfree := (d.cache.tasks.contains_eq_false_iff record.id).mpr h.fresh
  exact {
    fresh := h.fresh
    records := fun id => Table.find?_insert _ _ _ _
    size := Table.size_insert_of_not_contains _ _ _ hfree
    pending := rfl
    processing := rfl
    streams := rfl
    pool := rfl }

/-- The id for a request is the one it asks for, without the blanks around it, or a new one if
nothing else is there. -/
theorem idFor_eq (d : Dispatcher) (m : Moment) (r : InferenceRequest) :
    d.idFor m r =
      if Text.trimmed (r.id.getD "") = "" then m.newId d.generated
      else Text.trimmed (r.id.getD "") := by
  unfold idFor InferenceRequest.requestedId
  cases r.id with
  | none => rfl
  | some wish =>
    by_cases hblank : Text.trimmed wish = ""
    · simp [hblank, Option.filter]
    · simp [hblank, Option.filter]

end Dispatcher

open Dispatcher in
/-- A request is admitted as a whole or not at all. At any moment of any run of an engine that
began empty, also between the two steps of an assignment, let the id be the one that is asked for,
without the blanks around it, or else a new one. Then the answer is the first of these that
applies: the id is a duplicate, if it has a live record or a stream; the request is rejected, if
the cache is at its bound; the queue is full, if the pending queue is at its bound; and otherwise
the request is admitted.

An admission that is refused leaves the engine as it was, although the record has been in the
cache when the queue turns out to be full. One that succeeds brings one record, pending and with
what was asked for, its id is the last to wait and did not wait before, and nothing else changes. -/
theorem admission_all_or_nothing (maxTasks maxPending maxProcessing maxWorkers : Nat)
    (acts : List Act) (m : Moment) (r : InferenceRequest) (owner : ConnectionId) :
    let d := (Dispatcher.create maxTasks maxPending maxProcessing maxWorkers).perform acts
    let wish := Text.trimmed (r.id.getD "")
    let id := if wish = "" then m.newId d.generated else wish
    let taken := (∃ t, d.cache.get? id = some t ∧ t.status.isTerminal = false) ∨
      ∃ s, d.streams.find? id = some s
    let answer := (d.admitInPlace m r owner).1
    let d' := (d.admitInPlace m r owner).2
    d.admitRequest m r owner = answer.map (·, d') ∧
    ((∃ j, answer = .error (.duplicate j)) ↔ taken) ∧
    ((∃ n, answer = .error (.rejected n)) ↔ ¬ taken ∧ maxTasks ≤ d.cache.size) ∧
    ((∃ n, answer = .error (.queueFull n)) ↔
      ¬ taken ∧ d.cache.size < maxTasks ∧ maxPending ≤ d.queue.pending.length) ∧
    ((∃ record, answer = .ok record) ↔
      ¬ taken ∧ d.cache.size < maxTasks ∧ d.queue.pending.length < maxPending) ∧
    (∀ e, answer = .error e →
      d' = d ∧ (e = .duplicate id ∨ e = .rejected maxTasks ∨ e = .queueFull maxPending)) ∧
    (∀ record, answer = .ok record →
      record = { id := id, owner := owner, payload := r.payload, priority := r.priority
                 createdAt := m.now } ∧
      record.status = .pending ∧ id ∉ d.queue.pending ∧ d.TakesIn record d') := by
  intro d wish id taken answer d'
  have hid : d.idFor m r = id := d.idFor_eq m r
  have hbounds : d.bounds = ⟨maxTasks, maxPending, maxProcessing⟩ := bounds_perform _ acts
  have hcapacity : d.cache.capacity = maxTasks := congrArg Bounds.tasks hbounds
  have hmax : d.queue.maxPending = maxPending := congrArg Bounds.pending hbounds
  have hkeyed : d.Keyed := ((Stamped.create ..).perform acts).keyed
  have hlined : Lined d _ :=
    (Lined.create maxTasks maxPending maxProcessing maxWorkers).perform acts
  -- every record there is has not ended
  have htaken : d.Taken id ↔ taken := by
    refine or_congr_left (exists_congr fun t => ?_)
    exact ⟨fun ht => ⟨ht, hkeyed.live id t ht⟩, And.left⟩
  have hanswers := d.answers_admitRequest m r owner
  have hplace := d.admitInPlace_eq m r owner
  generalize d.admitRequest m r owner = a at hanswers hplace ⊢
  have hanswer : answer = _ := congrArg Prod.fst hplace
  have hd' : d' = _ := congrArg Prod.snd hplace
  clear_value answer d'
  subst hanswer hd'
  cases hanswers with
  | duplicate ht =>
    have ht : taken := htaken.mp (hid ▸ ht)
    simp [Except.map, ht, hid]
  | rejected ht hfull =>
    have ht : ¬ taken := fun h => ht (hid ▸ htaken.mpr h)
    rw [hcapacity] at hfull
    simp [Except.map, ht, hfull, Nat.not_lt_of_le hfull, hcapacity]
  | queueFull ht hroom hfull =>
    have ht : ¬ taken := fun h => ht (hid ▸ htaken.mpr h)
    rw [hcapacity] at hroom
    rw [hmax] at hfull
    simp [Except.map, ht, hroom, hfull, Nat.not_le_of_lt hroom, Nat.not_lt_of_le hfull, hmax]
  | admitted ht hadmits =>
    have ht : ¬ taken := fun h => ht (hid ▸ htaken.mpr h)
    have hroom := hadmits.room
    have hqueue := hadmits.queueRoom
    rw [hcapacity] at hroom
    rw [hmax] at hqueue
    have hrecord := hadmits.record_eq
    rw [newRecord, hid] at hrecord
    have htakes := hrecord ▸ hadmits.takesIn
    -- who waits has a record
    have hnew : id ∉ d.queue.pending := fun hwaits => by
      obtain ⟨t, hget, -⟩ := hlined.mem_iff.mp hwaits
      exact ht (.inl ⟨t, hget, hkeyed.live id t hget⟩)
    simp [Except.map, ht, hroom, hqueue, Nat.not_le_of_lt hroom, Nat.not_le_of_lt hqueue, hnew,
      htakes, hrecord]

end PromptGateway
