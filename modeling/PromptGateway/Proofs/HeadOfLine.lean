import PromptGateway.Gateway
import PromptGateway.Proofs.Invariants
import PromptGateway.Proofs.Rotation
import PromptGateway.Proofs.Seniority

/-
  An assignment concerns the first in line, and nobody else.

  An assignment leaves in several places, and in some of them the task has been taken from the
  queue, its record has been changed, or a part of its line has been written. Wherever it leaves,
  the engine is in order.

    1. `Dispatches` says all that a task changes that is given to a worker, and `Refuses` all that
       one changes that cannot be. `HeadOnly` adds the ends at which nothing is changed, and says
       that there are no others: an id that waits has a pending record, so it is never passed over
       (`headOnly_assigns`).
    2. There is room in the queue of those that are processed, since that was asked before the
       line was written (`room_of_sent`).
    3. The two scans of the pool that come before an assignment agree with the one that chooses a
       worker (`hasAvailable_iff_select`), so that a task is failed for the lack of a worker only
       if none is connected (`connectedCount_of_unserved`).
-/

namespace PromptGateway

/-! ## The wording of a failed write -/

/-- A text that begins in another way is another text. -/
theorem ne_of_begins {m a b s : String} (hm : m = a ++ b) (h : ¬ a.toList <+: s.toList) :
    m ≠ s := by
  intro e
  exact h ⟨b.toList, by rw [← e, hm, String.toList_append]⟩

/-- No failed write is worded as the lack of a worker. -/
theorem SendError.message_ne_unserved (e : SendError) : e.message ≠ "no worker available" := by
  cases e with
  | unknownWorker index =>
    have hm : (unknownWorker index).message = "no worker with index " ++ toString index := rfl
    exact ne_of_begins hm (by decide)
  | notConnected index =>
    have hm : (notConnected index).message =
        "worker " ++ (toString index ++ " is not connected") := String.append_assoc
    exact ne_of_begins hm (by decide)
  | sendFailed index failure =>
    have hm : (sendFailed index failure).message =
        "failed to send to worker " ++ toString index ++ (": " ++ failure.message) :=
      String.append_assoc
    exact ne_of_begins (hm.trans String.append_assoc) (by decide)

/-! ## The scans of the pool -/

namespace WorkerPool

variable {p : WorkerPool}

/-- There is a worker to choose exactly when some worker is said to be available. -/
theorem hasAvailable_iff_select : p.hasAvailable = true ↔ p.select?.isSome = true := by
  rw [select?_isSome_iff, hasAvailable, List.any_eq_true]
  constructor
  · intro h
    obtain ⟨s, hs, hselectable⟩ := h
    obtain ⟨i, hi⟩ := List.mem_iff_getElem?.mp hs
    exact ⟨i, by rw [isSelectableAt, hi]; exact hselectable⟩
  · intro h
    obtain ⟨i, hi⟩ := h
    obtain ⟨s, hs, hconnected, havailable⟩ := isSelectableAt_iff.mp hi
    exact ⟨s, List.mem_of_getElem? hs, by simp [WorkerSlot.isSelectable, hconnected, havailable]⟩

end WorkerPool

namespace Dispatcher

variable {d d' : Dispatcher} {log : List Entry} {now : Millis}

/-! ## One assignment -/

/-- All that changes when a task is given to a worker. -/
structure Dispatches (d : Dispatcher) (now : Millis) (id : RequestId) (worker : Nat)
    (d' : Dispatcher) : Prop where
  pending : d.queue.pending = id :: d'.queue.pending
  once : id ∉ d'.queue.pending
  processing : d'.queue.processing = d.queue.processing ++ [id]
  task : ∃ r, d.cache.get? id = some r ∧ r.status = .pending ∧
    d'.cache.get? id = some (r.sent worker now) ∧
    ∃ pool, d.pool.select? = some (worker, pool) ∧
      pool.send worker (taskMessage r).encode = (.ok (), d'.pool)
  others : ∀ j, j ≠ id → d'.cache.get? j = d.cache.get? j
  streams : d'.streams = d.streams
  bounds : d'.bounds = d.bounds
  generated : d'.generated = d.generated

/-- All that changes when a task cannot be given to a worker. -/
structure Refuses (d : Dispatcher) (id : RequestId) (reason : String) (d' : Dispatcher) :
    Prop where
  pending : d.queue.pending = id :: d'.queue.pending
  once : id ∉ d'.queue.pending
  processing : d'.queue.processing = d.queue.processing.erase id
  task : ∃ r, d.cache.get? id = some r ∧ r.status = .pending ∧
    ((d.pool.select? = none ∧ d'.pool = d.pool ∧ reason = "no worker available") ∨
      ∃ worker pool e, d.pool.select? = some (worker, pool) ∧
        pool.send worker (taskMessage r).encode = (.error e, d'.pool) ∧ reason = e.message)
  failed : d'.Failed id reason
  others : ∀ j, j ≠ id → d.Spared d' j
  bounds : d'.bounds = d.bounds
  generated : d'.generated = d.generated

/-- An assignment that changes what there is of the first in line. Nothing changes when nobody
waits or no more can be processed. -/
def HeadOnly (d : Dispatcher) (now : Millis) : Assignment → Dispatcher → Prop
  | .saturated, d' => d.queue.isSaturated = true ∧ d' = d
  | .idle, d' => d.queue.pending = [] ∧ d' = d
  | .skipped _, _ => False
  | .assigned id worker, d' => d.Dispatches now id worker d'
  | .failed id reason, d' => d.Refuses id reason d'

/-- A task that is taken from the head of the queue and fails. -/
theorem refuses_ended (hu : d.Unfailed) (hl : Lined d log) {id : RequestId}
    {rest : List RequestId} {r : TaskRecord} {reason : String} {pool : WorkerPool}
    (hp : d.queue.pending = id :: rest) (hr : d.cache.get? id = some r)
    (hst : r.status = .pending)
    (hcause : (d.pool.select? = none ∧ pool = d.pool ∧ reason = "no worker available") ∨
      ∃ worker p e, d.pool.select? = some (worker, p) ∧
        p.send worker (taskMessage r).encode = (.error e, pool) ∧ reason = e.message) :
    d.Refuses id reason (((d.dequeued rest).ended id .failed reason).withPool pool) := by
  have honce : id ∉ rest := by
    have hnodup := hl.nodup
    rw [hp, List.nodup_cons] at hnodup
    exact hnodup.1
  have hpending : (((d.dequeued rest).ended id .failed reason).withPool pool).queue.pending =
      rest := by
    show ((d.dequeued rest).ended id .failed reason).queue.pending = rest
    rw [queue_ended]
    exact List.erase_of_not_mem honce
  have hget : ∀ j, ((d.dequeued rest).ended id .failed reason).cache.get? j =
      if j = id then none else d.cache.get? j := get?_ended (d.dequeued rest) id
  have hstreams : ∀ j, ((d.dequeued rest).ended id .failed reason).streams.find? j =
      if j = id then d.residue .failed reason j else d.streams.find? j :=
    streams_ended (d.dequeued rest) id
  exact {
    pending := by rw [hpending, hp]
    once := by rwa [hpending]
    processing := by
      show ((d.dequeued rest).ended id .failed reason).queue.processing = _
      rw [queue_ended]
      rfl
    task := ⟨r, hr, hst, hcause⟩
    failed := hu.failed hr ((hget id).trans (if_pos rfl)) ((hstreams id).trans (if_pos rfl))
    others := fun j hj => ⟨(hget j).trans (if_neg hj), (hstreams j).trans (if_neg hj)⟩
    bounds := bounds_ended ..
    generated := rfl }

theorem headOnly_assigns (hu : d.Unfailed) (hl : Lined d log) {outcome : Assignment}
    (h : d.Assigns now outcome d') : d.HeadOnly now outcome d' := by
  cases h with
  | saturated hsat => exact ⟨hsat, rfl⟩
  | idle hp => exact ⟨hp, rfl⟩
  | skipped hp hno =>
    obtain ⟨r, hr, hst⟩ := hl.mem_iff.mp (hp ▸ List.mem_cons_self)
    exact hno r hr hst
  | unserved hp hr hst hsel => exact refuses_ended hu hl hp hr hst (.inl ⟨hsel, rfl, rfl⟩)
  | undelivered hp hr hst hsel hsend =>
    exact refuses_ended hu hl hp hr hst (.inr ⟨_, _, _, hsel, hsend, rfl⟩)
  | @assigned id rest r worker pool pool' _ hp hr hst hsel hsend =>
    have honce := hl.nodup
    rw [hp, List.nodup_cons] at honce
    have hget := d.cache.get?_modify id fun _ => r.sent worker now
    exact {
      pending := hp
      once := honce.1
      processing := rfl
      task := ⟨r, hr, hst, (hget id).trans (by rw [if_pos rfl, hr]; rfl), pool, hsel, hsend⟩
      others := fun j hj => (hget j).trans (if_neg hj)
      streams := rfl
      bounds := rfl
      generated := rfl }

theorem assignNext_of_nobody (h : d.queue.pending = []) : (d.assignNext now).2 = d := by
  have hassigns := d.assigns_assignNext now
  generalize (d.assignNext now).1 = outcome at hassigns
  generalize (d.assignNext now).2 = d' at hassigns ⊢
  have hsome : ∀ {id rest}, d.queue.pending ≠ id :: rest := by simp [h]
  cases hassigns with
  | saturated _ => rfl
  | idle _ => rfl
  | skipped hp _ => exact absurd hp hsome
  | unserved hp _ _ _ => exact absurd hp hsome
  | undelivered hp _ _ _ _ => exact absurd hp hsome
  | assigned _ hp _ _ _ _ => exact absurd hp hsome

/-- When the line of a task has been written, its record is there and there is room for its id
among those that are processed. -/
theorem room_of_sent {id : RequestId} {worker : Nat}
    (h : (d.beginAssign now).1 = .sent id worker) :
    (d.beginAssign now).2.cache.contains id = true ∧
      ∃ q, (d.beginAssign now).2.queue.enqueueProcessing? id = some q := by
  have hbegins := d.begins_beginAssign now
  rw [h] at hbegins
  generalize (d.beginAssign now).2 = d' at hbegins ⊢
  cases hbegins with
  | @sent id rest r worker pool pool' hsat hp hr hst hsel hsend =>
    have hroom : d.queue.processing.length < d.queue.maxProcessing := by
      simpa [TaskQueue.isSaturated] using hsat
    constructor
    · rw [TaskCache.contains_iff]
      exact ⟨_, (TaskCache.get?_modify ..).trans (by rw [if_pos rfl, hr]; rfl)⟩
    · exact ⟨_, TaskQueue.enqueueProcessing?_eq_some_iff.mpr ⟨hroom, rfl⟩⟩

/-- In a run of whole acts an id that waits is not processed, and so its failure takes nothing
from those that are. -/
theorem Refuses.processing_eq {b : Bounds} {id : RequestId} {reason : String}
    (h : d.Refuses id reason d') (hlisted : Listed b d.cache d.queue) :
    id ∉ d.queue.processing ∧ d'.queue.processing = d.queue.processing := by
  obtain ⟨r, hr, hst, -⟩ := h.task
  have hnot : id ∉ d.queue.processing := by
    intro hid
    obtain ⟨s, hs, hprocessing⟩ := (hlisted.processing id).mp hid
    cases hr.symm.trans hs
    rw [hst] at hprocessing
    cases hprocessing
  exact ⟨hnot, h.processing.trans (List.erase_of_not_mem hnot)⟩

end Dispatcher

namespace Gateway

variable {g : Gateway} {now : Millis}

/-! ## One round of the assignment loop -/

/-- While workers are connected and none is available, nothing happens. -/
theorem assignmentTick_of_busy (hconnected : 0 < g.dispatcher.pool.connectedCount)
    (hbusy : g.dispatcher.pool.hasAvailable = false) : g.assignmentTick now = (false, g) := by
  have hwait : g.mustWait = true := by simp [mustWait, hconnected, hbusy]
  rw [assignmentTick, hwait, Bool.or_true, if_pos rfl]

/-- Otherwise the round is an assignment, also if nobody waits: that one would change nothing. -/
theorem assignmentTick_of_not_busy
    (h : ¬ (0 < g.dispatcher.pool.connectedCount ∧ g.dispatcher.pool.hasAvailable = false)) :
    (g.assignmentTick now).2 = { g with dispatcher := (g.dispatcher.assignNext now).2 } := by
  have hwait : g.mustWait = false := by simpa [mustWait] using h
  rw [assignmentTick, hwait, Bool.or_false]
  split
  · next hempty =>
    rw [Dispatcher.assignNext_of_nobody (List.isEmpty_iff.mp hempty)]
  · rfl

/-- A task is failed for the lack of a worker only if no worker is connected. -/
theorem connectedCount_of_unserved (hu : g.dispatcher.Unfailed) {log : List Entry}
    (hl : Lined g.dispatcher log) {id : RequestId} {r : TaskRecord}
    (hr : g.dispatcher.cache.get? id = some r)
    (h : (g.assignmentTick now).2.dispatcher.failure? id = some "no worker available") :
    g.dispatcher.pool.connectedCount = 0 := by
  -- there was no failure before
  have hnew : (g.assignmentTick now).2.dispatcher.streams.find? id ≠
      g.dispatcher.streams.find? id := by
    intro hsame
    rw [Dispatcher.failure?_congr hsame, hu id r hr] at h
    cases h
  rw [assignmentTick] at h hnew
  split at h
  · next hskip => exact absurd (by rw [if_pos hskip]) hnew
  · next hgo =>
    rw [if_neg hgo] at hnew
    have hhead := Dispatcher.headOnly_assigns hu hl (g.dispatcher.assigns_assignNext now)
    dsimp only at h hnew
    generalize g.dispatcher.assignNext now = x at h hnew hhead
    obtain ⟨outcome, d'⟩ := x
    cases outcome with
    | idle => exact absurd (congrArg (·.streams.find? id) hhead.2) hnew
    | saturated => exact absurd (congrArg (·.streams.find? id) hhead.2) hnew
    | skipped j => exact hhead.elim
    | assigned j worker => exact absurd (congrArg (·.find? id) hhead.streams) hnew
    | failed j reason =>
      by_cases hj : id = j
      · subst hj
        obtain ⟨s, hs, hfailure⟩ := Dispatcher.failure?_eq_some_iff.mp h
        have hreason : reason = "no worker available" :=
          Option.some.inj ((hhead.failed.passed s hs).1.symm.trans hfailure)
        obtain ⟨t, -, -, hcause⟩ := hhead.task
        rcases hcause with ⟨hnone, -, -⟩ | ⟨worker, pool, e, -, -, he⟩
        · have hbusy : g.dispatcher.pool.hasAvailable = false := by
            rw [Bool.eq_false_iff, ne_eq, WorkerPool.hasAvailable_iff_select, hnone]
            exact Bool.false_ne_true
          have hnobody : g.dispatcher.queue.isPendingEmpty = false ∧
              g.dispatcher.pool.connectedCount = 0 := by
            simpa [mustWait, hbusy] using hgo
          exact hnobody.2
        · exact absurd (he.symm.trans hreason) e.message_ne_unserved
      · exact absurd (hhead.others id hj).2 hnew

end Gateway

open Dispatcher in
/-- An assignment touches only the head of the queue. At any moment of any run of an engine that
began empty, also between the two steps of an assignment:

an assignment passes nothing over, and it changes nothing when nobody waits or no more tasks can
be processed. A task that is assigned is the first of those that wait and
becomes the last of those that are processed, with its record processing and given to the worker
that was chosen. A task that fails is the first of those that wait as well, and its record and
its id are gone and its stream has failed with the reason that is answered. Nothing else changes
of the records, the streams and the queues;

where a line has been written, its record is live and there is room for its id among those that
are processed;

and where no act of the run was half an assignment, a task that fails was not among those that
are processed, and they stay the same.

For a gateway with this engine, a round of the assignment loop ends a task with `no worker
available` only if no worker is connected. It does nothing at all while workers are connected and
none of them is available, and otherwise it is an assignment. -/
theorem assignment_touches_only_head (maxTasks maxPending maxProcessing maxWorkers : Nat)
    (acts : List Act) (now : Millis) :
    let d := (Dispatcher.create maxTasks maxPending maxProcessing maxWorkers).perform acts
    let x := d.assignNext now
    d.HeadOnly now x.1 x.2 ∧
    (∀ id worker, (d.beginAssign now).1 = .sent id worker →
      (d.beginAssign now).2.cache.contains id = true ∧
        ∃ q, (d.beginAssign now).2.queue.enqueueProcessing? id = some q) ∧
    ((∀ a ∈ acts, a.isWhole = true) → ∀ id reason, x.1 = .failed id reason →
      id ∉ d.queue.processing ∧ x.2.queue.processing = d.queue.processing) ∧
    ∀ g : Gateway,
      let g := { g with dispatcher := d }
      let y := g.assignmentTick now
      (∀ id r, d.cache.get? id = some r →
        y.2.dispatcher.failure? id = some "no worker available" → d.pool.connectedCount = 0) ∧
      (0 < d.pool.connectedCount ∧ d.pool.hasAvailable = false → y = (false, g)) ∧
      (¬ (0 < d.pool.connectedCount ∧ d.pool.hasAvailable = false) →
        y.2 = { g with dispatcher := x.2 }) := by
  intro d x
  have hunfailed : d.Unfailed :=
    (Unfailed.create maxTasks maxPending maxProcessing maxWorkers).perform acts
  have hlined : Lined d _ :=
    (Lined.create maxTasks maxPending maxProcessing maxWorkers).perform acts
  have hhead : d.HeadOnly now x.1 x.2 :=
    headOnly_assigns hunfailed hlined (d.assigns_assignNext now)
  refine ⟨hhead, fun id worker => room_of_sent, ?_, ?_⟩
  · intro hwhole id reason hfailed
    have hlisted : Listed _ d.cache d.queue := (Listed.create ..).perform hwhole
    rw [hfailed] at hhead
    exact Refuses.processing_eq hhead hlisted
  · intro g g y
    exact ⟨fun id r hr => Gateway.connectedCount_of_unserved (g := g) hunfailed hlined hr,
      fun hbusy => Gateway.assignmentTick_of_busy (g := g) hbusy.1 hbusy.2,
      fun hfree => Gateway.assignmentTick_of_not_busy (g := g) hfree⟩

end PromptGateway
