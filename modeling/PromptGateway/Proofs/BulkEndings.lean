import PromptGateway.Proofs.Invariants
import PromptGateway.Proofs.Progress
import PromptGateway.Proofs.Seniority
import Mathlib.Data.List.Perm.Basic

/-
  Many tasks that end at once hit their targets and nothing else, in any order.

  The records of a cache come in the order in which they were put there, and it should not
  matter: whoever keeps them under a hash goes through them in an order of its own. So what ends
  many tasks is written here for any order of the records (`cancelConnectionIn`,
  `failWorkerTasksIn`, `sweepTimeoutsIn`), and the calls themselves are these in the order of the
  cache.

    1. What is left when the tasks with some ids have been ended can be said without going
       through the ids (`entries_endAll`, `records_endAll`, and for streams and queues the lemmas
       beside `endAll`). So it depends on which ids they are and not on their order
       (`same_endAll`).
    2. The tasks that are counted are the records that are missing afterwards
       (`count_endEach`).
    3. `EndsExactly` is everything that changes, and `endsExactly_endEach` says so of any test
       that looks at a record and at its own stream.
    4. `bulk_endings_exact` is the state after any run, for each of the three calls.
-/

namespace PromptGateway

/-- A name that is taken out of a table where it stands leaves one entry less. -/
theorem Table.size_erase_of_find? {κ α : Type} [DecidableEq κ] {t : Table κ α} {k : κ} {a : α}
    (h : t.find? k = some a) : (t.erase k).size + 1 = t.size := by
  have hmem : k ∈ t.keys := (t.mem_keys_iff k).mpr ⟨a, h⟩
  have hnodup : t.keys.Nodup := t.nodup
  have herase : t.keys.filter (· ≠ k) = t.keys.erase k := by
    rw [hnodup.erase_eq_filter]
    exact List.filter_congr fun x _ => by simp [bne, beq_eq_decide]
  rw [size_eq_length_keys, size_eq_length_keys, keys_erase, herase, List.length_erase_of_mem hmem,
    Nat.sub_add_cancel (List.length_pos_of_mem hmem)]

/-- Two caches with the same entries in the same order are the same. -/
theorem TaskCache.eq_of_entries_eq {c c' : TaskCache} (hcapacity : c.capacity = c'.capacity)
    (hentries : c.tasks.entries = c'.tasks.entries) : c = c' := by
  obtain ⟨capacity, entries, nodup⟩ := c
  obtain ⟨capacity', entries', nodup'⟩ := c'
  cases hcapacity
  cases hentries
  rfl

theorem TaskCache.size_eq_length_records (c : TaskCache) : c.size = c.records.length := by
  simp [size, Table.size, records, Table.values]

namespace Dispatcher

variable {d d' : Dispatcher} {status : TaskStatus} {message : String} {now : Millis}

/-! ## Any order -/

/-- To cancel the tasks of a connection, with the records in a given order. -/
def cancelConnectionIn (d : Dispatcher) (order : List TaskRecord) (owner : ConnectionId)
    (now : Millis) : Nat × Dispatcher :=
  d.endEach (fun _ _ => true) .cancelled "client disconnected" now
    (order.filter (·.owner == owner))

/-- To fail the tasks of a worker, with the records in a given order. -/
def failWorkerTasksIn (d : Dispatcher) (order : List TaskRecord) (worker : Nat) (now : Millis) :
    Nat × Dispatcher :=
  d.endEach (fun d r => !d.streamFinished r.id) .failed s!"worker {worker} disconnected" now
    (order.filter (·.worker == some worker))

/-- To end the tasks that are overdue, with the records in a given order. -/
def sweepTimeoutsIn (d : Dispatcher) (order : List TaskRecord) (now : Millis) (timeoutMs : Nat)
    (clock : Millis) : Nat × Dispatcher :=
  d.endEach (fun d r => d.overdue now timeoutMs r) .timeout s!"no progress for {timeoutMs} ms" clock
    order

/-- Two engines that differ at most in the order in which their streams are stored. -/
structure Same (d d' : Dispatcher) : Prop where
  cache : d.cache = d'.cache
  queue : d.queue = d'.queue
  streams : ∀ id, d.streams.find? id = d'.streams.find? id
  pool : d.pool = d'.pool
  generated : d.generated = d'.generated

/-! ## What is left -/

theorem entries_endAll (d : Dispatcher) (ids : List RequestId) :
    (d.endAll status message ids).cache.tasks.entries =
      d.cache.tasks.entries.filter fun x => x.1 ∉ ids := by
  induction ids generalizing d with
  | nil => simp [endAll]
  | cons id ids ih =>
    rw [endAll, List.foldl_cons, ← endAll, ih, cache_ended]
    show (d.cache.tasks.entries.filter fun x => x.1 ≠ id).filter _ = _
    rw [List.filter_filter]
    refine List.filter_congr fun x _ => ?_
    by_cases hx : x.1 = id <;> simp [hx]

theorem frame_endAll (d : Dispatcher) (status : TaskStatus) (message : String)
    (ids : List RequestId) :
    (d.endAll status message ids).bounds = d.bounds ∧
      (d.endAll status message ids).pool = d.pool ∧
      (d.endAll status message ids).generated = d.generated := by
  induction ids generalizing d with
  | nil => exact ⟨rfl, rfl, rfl⟩
  | cons id ids ih =>
    obtain ⟨hbounds, hpool, hgenerated⟩ := ih (d.ended id status message)
    have hstep : (d.ended id status message).pool = d.pool ∧
        (d.ended id status message).generated = d.generated := by
      unfold ended
      split <;> exact ⟨rfl, rfl⟩
    exact ⟨hbounds.trans (bounds_ended ..), hpool.trans hstep.1, hgenerated.trans hstep.2⟩

/-- Whether the record of an id is among those that are hit. -/
def hits (d : Dispatcher) (hit : TaskRecord → Bool) (id : RequestId) : Bool :=
  (d.cache.get? id).any hit

theorem Keyed.mem_targets (h : d.Keyed) (hit : TaskRecord → Bool) (id : RequestId) :
    id ∈ (d.cache.records.filter hit).map (·.id) ↔ d.hits hit id = true := by
  rw [h.mem_filter, hits, Option.any_eq_true]

/-- Which tasks are ended decides what is left, and not their order. -/
theorem same_endAll (d : Dispatcher) {ids ids' : List RequestId} (hids : ids.Nodup)
    (hperm : ids'.Perm ids) :
    (d.endAll status message ids').Same (d.endAll status message ids) := by
  obtain ⟨hbounds, hpool, hgenerated⟩ := d.frame_endAll status message ids
  obtain ⟨hbounds', hpool', hgenerated'⟩ := d.frame_endAll status message ids'
  have hsame := hbounds'.trans hbounds.symm
  refine ⟨?_, ?_, fun id => ?_, hpool'.trans hpool.symm, hgenerated'.trans hgenerated.symm⟩
  · refine TaskCache.eq_of_entries_eq (congrArg Bounds.tasks hsame) ?_
    rw [entries_endAll, entries_endAll]
    exact List.filter_congr fun x _ => by simp only [hperm.mem_iff]
  · have hpending : (d.endAll status message ids').queue.pending =
        (d.endAll status message ids).queue.pending := by
      rw [pending_endAll, pending_endAll, hperm.diff_left]
    have hprocessing : (d.endAll status message ids').queue.processing =
        (d.endAll status message ids).queue.processing := by
      rw [processing_endAll, processing_endAll, hperm.diff_left]
    rw [TaskQueue.mk.injEq]
    exact ⟨congrArg Bounds.pending hsame, congrArg Bounds.processing hsame, hpending, hprocessing⟩
  · simp only [streams_endAll d hids, streams_endAll d (hperm.nodup_iff.mpr hids), hperm.mem_iff]

theorem records_endAll (hit : TaskRecord → Bool) {ids : List RequestId}
    (hids : ∀ id, id ∈ ids ↔ d.hits hit id = true) :
    (d.endAll status message ids).cache.records = d.cache.records.filter (!hit ·) := by
  unfold TaskCache.records Table.values
  rw [entries_endAll, List.filter_map]
  refine congrArg _ (List.filter_congr fun x hx => ?_)
  obtain ⟨id, r⟩ := x
  have hr : d.cache.get? id = some r := (d.cache.tasks.mem_entries_iff id r).mp hx
  simp [hids, hits, hr]

/-- A task that is counted is a record that is missing afterwards. -/
theorem count_endEach (d : Dispatcher) (q : Dispatcher → TaskRecord → Bool) (status : TaskStatus)
    (message : String) (now : Millis) (records : List TaskRecord) :
    (d.endEach q status message now records).1 +
      (d.endEach q status message now records).2.cache.size = d.cache.size := by
  unfold endEach
  refine List.foldlRecOn (motive := fun x : Nat × Dispatcher => x.1 + x.2.cache.size = d.cache.size)
    records _ (Nat.zero_add _) fun x hx r _ => ?_
  obtain ⟨n, d₁⟩ := x
  dsimp only at hx ⊢
  split
  · split
    · next d₂ he =>
      obtain ⟨⟨t, ht, -⟩, rfl⟩ := endTask?_eq_some_iff.mp he
      have hsize : (d₁.cache.remove r.id).size + 1 = d₁.cache.size := Table.size_erase_of_find? ht
      rw [cache_ended]
      omega
    · exact hx
  · exact hx

/-! ## Everything that changes -/

/-- All that happens when many tasks end at once: those whose records are hit are counted, their
records are gone, and so are their ids from the queues, and `left` is what there is of their
streams. All else is as it was, and where it was. -/
structure EndsExactly (d : Dispatcher) (hit : TaskRecord → Bool)
    (left : RequestId → Option TokenStream) (count : Nat) (d' : Dispatcher) : Prop where
  count_eq : count = (d.cache.records.filter hit).length
  records : d'.cache.records = d.cache.records.filter (!hit ·)
  get? : ∀ id, d'.cache.get? id = (d.cache.get? id).filter (!hit ·)
  streams : ∀ id, d'.streams.find? id = if d.hits hit id then left id else d.streams.find? id
  pending : d'.queue.pending = d.queue.pending.filter (!d.hits hit ·)
  processing : d.queue.processing.Nodup →
    d'.queue.processing = d.queue.processing.filter (!d.hits hit ·)
  bounds : d'.bounds = d.bounds
  pool : d'.pool = d.pool
  generated : d'.generated = d.generated

section

variable {q : Dispatcher → TaskRecord → Bool}

/-- A test of each record and its own stream ends the tasks that pass it in the beginning, in
whatever order the records come. -/
theorem endEach_order (h : d.Keyed) (hq : Local q)
    (hstatus : status.isTerminal = true ∧ status ≠ .completed) (message : String) (now : Millis)
    (p : TaskRecord → Bool) {order : List TaskRecord} (horder : order.Perm d.cache.records) :
    (d.endEach q status message now (order.filter p)).2 =
      d.endAll status message ((order.filter fun r => q d r && p r).map (·.id)) := by
  have hperm := horder.filter p
  have hroll : d.Roll (order.filter p) :=
    { found := fun r hr => (h.roll p).found r (hperm.mem_iff.mp hr)
      once := (hperm.map _).nodup_iff.mpr (h.roll p).once }
  have hlive : ∀ r ∈ order.filter p, r.status.isTerminal = false :=
    fun r hr => h.live r.id r (hroll.found r hr)
  rw [endEach_eq_endAll hq hstatus.1 hstatus.2 now hroll hlive, List.filter_filter]

theorem endsExactly_endAll (h : d.Keyed) (hpending : d.queue.pending.Nodup) (status : TaskStatus)
    (message : String) (hit : TaskRecord → Bool) {ids : List RequestId}
    (hids : ids = (d.cache.records.filter hit).map (·.id)) {count : Nat}
    (hcount : count + (d.endAll status message ids).cache.size = d.cache.size) :
    d.EndsExactly hit (d.residue status message) count (d.endAll status message ids) := by
  have hmem : ∀ id, id ∈ ids ↔ d.hits hit id = true := fun id => hids ▸ h.mem_targets hit id
  have honce : ids.Nodup := hids ▸ (h.roll hit).once
  have hrecords : (d.endAll status message ids).cache.records = d.cache.records.filter (!hit ·) :=
    records_endAll hit hmem
  -- every id stands in a queue once at most, so to take it out once is to take it out
  have hqueue : ∀ l : List RequestId, l.Nodup → l.diff ids = l.filter (!d.hits hit ·) := by
    intro l hl
    rw [hl.sdiff_eq_filter]
    refine List.filter_congr fun id _ => ?_
    cases hhit : d.hits hit id <;> simp [hmem, hhit]
  obtain ⟨hbounds, hpool, hgenerated⟩ := d.frame_endAll status message ids
  refine ⟨?_, hrecords, fun id => ?_, fun id => ?_, ?_, fun hprocessing => ?_, hbounds, hpool,
    hgenerated⟩
  · have hsplit := List.length_eq_length_filter_add (l := d.cache.records) hit
    rw [TaskCache.size_eq_length_records, TaskCache.size_eq_length_records, hrecords] at hcount
    omega
  · rw [get?_endAll]
    simp only [hmem, hits]
    cases d.cache.get? id with
    | none => rfl
    | some r => cases hhit : hit r <;> simp [hhit, Option.filter]
  · rw [streams_endAll d honce]
    simp only [hmem]
  · rw [pending_endAll, hqueue _ hpending]
  · rw [processing_endAll, hqueue _ hprocessing]

theorem endsExactly_endEach (h : d.Keyed) (hpending : d.queue.pending.Nodup) (hq : Local q)
    (hstatus : status.isTerminal = true ∧ status ≠ .completed) (message : String)
    (now : Millis) (p : TaskRecord → Bool) :
    d.EndsExactly (fun r => q d r && p r) (d.residue status message)
      (d.endEach q status message now (d.cache.records.filter p)).1
      (d.endEach q status message now (d.cache.records.filter p)).2 := by
  have hcount := d.count_endEach q status message now (d.cache.records.filter p)
  have hends := endEach_order h hq hstatus message now p (.refl _)
  rw [hends] at hcount ⊢
  exact endsExactly_endAll h hpending status message _ rfl hcount

/-- The order in which the records come makes no difference. -/
theorem same_endEach (h : d.Keyed) (hq : Local q)
    (hstatus : status.isTerminal = true ∧ status ≠ .completed) (message : String) (now : Millis)
    (p : TaskRecord → Bool) {order : List TaskRecord} (horder : order.Perm d.cache.records) :
    let x := d.endEach q status message now (d.cache.records.filter p)
    let y := d.endEach q status message now (order.filter p)
    y.1 = x.1 ∧ y.2.Same x.2 := by
  intro x y
  have hx : x.2 = _ := endEach_order h hq hstatus message now p (.refl _)
  have hy : y.2 = _ := endEach_order h hq hstatus message now p horder
  have hsame : y.2.Same x.2 := by
    rw [hx, hy]
    exact same_endAll d (h.roll _).once ((horder.filter _).map _)
  have hcount : x.1 + x.2.cache.size = d.cache.size := d.count_endEach ..
  have hcount' : y.1 + y.2.cache.size = d.cache.size := d.count_endEach ..
  rw [hsame.cache] at hcount'
  exact ⟨Nat.add_right_cancel (hcount'.trans hcount.symm), hsame⟩

end

/-- Where a request that is hit leaves a failure behind, it is the reason that is given. -/
theorem EndsExactly.failed {hit : TaskRecord → Bool} {reason : String} {count : Nat}
    (h : d.EndsExactly hit (fun id => some ((d.streamOf id).fail reason)) count d')
    (hunfailed : d.Unfailed) {id : RequestId} (hid : d.hits hit id = true) :
    d'.Failed id reason := by
  have hrecord := hid
  rw [hits, Option.any_eq_true] at hrecord
  obtain ⟨r, hr, hhit⟩ := hrecord
  refine hunfailed.failed hr ?_ ?_
  · rw [h.get?, hr]
    simp [Option.filter, hhit]
  · rw [h.streams, if_pos hid]

theorem local_unfinished : Local fun d r => !d.streamFinished r.id := by
  intro d d' r hs
  simp only [streamFinished_congr hs]

theorem local_overdue (now : Millis) (timeoutMs : Nat) :
    Local fun d r => d.overdue now timeoutMs r := by
  intro d d' r hs
  simp only [overdue, streamFinished_congr hs]

/-- A limit that no time can pass is as good as the longest time that there is. -/
theorem overdue_eq (d : Dispatcher) (now : Millis) (timeoutMs : Nat) (r : TaskRecord) :
    d.overdue now timeoutMs r =
      (decide ((timeoutMs : Int) < (r.idle now).toInt) && !d.streamFinished r.id) := by
  have hle : (r.idle now).toInt ≤ Int64.maxValue.toInt := Int64.toInt_le _
  rw [overdue]
  congr 1
  rw [decide_eq_decide]
  omega

end Dispatcher

open Dispatcher in
/-- Many tasks that end at once are exactly those that were meant, in whatever order their
records come. At any moment of any run of an engine that began empty:

when a connection is cancelled, the tasks that it owns end, and nothing is left of their streams;

when a worker is lost, the tasks end that it has been given and whose streams have not ended, and
a sweep ends those that have made no progress for longer than the limit and whose streams have not
ended; their streams are left with the reason, and hand out nothing else;

the tasks that end are counted, their records are gone and their ids are taken out of both
queues; every other record and stream, and the order of the other ids, are as before; and if the
records come in another order, the count and the engine that is left are the same.

For the queue of the processing ids this needs that an id is entered once at most. That is so
whenever every assignment is made as a whole. -/
theorem bulk_endings_exact (maxTasks maxPending maxProcessing maxWorkers : Nat)
    (acts : List Act) :
    let d := (Dispatcher.create maxTasks maxPending maxProcessing maxWorkers).perform acts
    ((∀ a ∈ acts, a.isWhole = true) → d.queue.processing.Nodup) ∧
    (∀ owner now,
      let x := d.cancelConnection owner now
      d.EndsExactly (fun r => r.owner == owner) (fun _ => none) x.1 x.2 ∧
      ∀ order, order.Perm d.cache.records →
        let y := d.cancelConnectionIn order owner now
        y.1 = x.1 ∧ y.2.Same x.2) ∧
    (∀ worker now,
      let reason := s!"worker {worker} disconnected"
      let hit := fun r : TaskRecord => !d.streamFinished r.id && r.worker == some worker
      let x := d.failWorkerTasks worker now
      d.EndsExactly hit (fun id => some ((d.streamOf id).fail reason)) x.1 x.2 ∧
      (∀ id, d.hits hit id = true → x.2.Failed id reason) ∧
      ∀ order, order.Perm d.cache.records →
        let y := d.failWorkerTasksIn order worker now
        y.1 = x.1 ∧ y.2.Same x.2) ∧
    (∀ now (timeoutMs : Nat) clock,
      let reason := s!"no progress for {timeoutMs} ms"
      let hit := fun r : TaskRecord =>
        decide ((timeoutMs : Int) < (r.idle now).toInt) && !d.streamFinished r.id
      let x := d.sweepTimeouts now timeoutMs clock
      d.EndsExactly hit (fun id => some ((d.streamOf id).fail reason)) x.1 x.2 ∧
      (∀ id, d.hits hit id = true → x.2.Failed id reason) ∧
      ∀ order, order.Perm d.cache.records →
        let y := d.sweepTimeoutsIn order now timeoutMs clock
        y.1 = x.1 ∧ y.2.Same x.2) := by
  intro d
  have hkeyed : d.Keyed := ((Stamped.create ..).perform acts).keyed
  have hlined : Lined d _ :=
    (Lined.create maxTasks maxPending maxProcessing maxWorkers).perform acts
  have hunfailed : d.Unfailed :=
    (Unfailed.create maxTasks maxPending maxProcessing maxWorkers).perform acts
  have hany : Local fun _ _ => true := fun _ _ _ _ => rfl
  have hcancelled : TaskStatus.cancelled.isTerminal = true ∧ TaskStatus.cancelled ≠ .completed := by
    decide
  have hfailed : TaskStatus.failed.isTerminal = true ∧ TaskStatus.failed ≠ .completed := by decide
  have htimeout : TaskStatus.timeout.isTerminal = true ∧ TaskStatus.timeout ≠ .completed := by
    decide
  refine ⟨fun hacts => ?_, fun owner now => ⟨?_, fun order horder => ?_⟩, fun worker now => ?_,
    fun now timeoutMs clock => ?_⟩
  · have hlisted := (Listed.create maxTasks maxPending maxProcessing maxWorkers).perform hacts
    exact hlisted.processing_nodup
  · exact endsExactly_endEach hkeyed hlined.nodup hany hcancelled _ now _
  · exact same_endEach hkeyed hany hcancelled _ now _ horder
  · intro reason hit x
    have hexactly : d.EndsExactly hit (fun id => some ((d.streamOf id).fail reason)) x.1 x.2 :=
      endsExactly_endEach hkeyed hlined.nodup local_unfinished hfailed reason now _
    exact ⟨hexactly, fun id hid => hexactly.failed hunfailed hid, fun order horder =>
      same_endEach hkeyed local_unfinished hfailed reason now _ horder⟩
  · intro reason hit x
    have hlocal := local_overdue now timeoutMs
    have hhit : (fun r => d.overdue now timeoutMs r && true) = hit := by
      funext r
      rw [Bool.and_true, overdue_eq]
    have hexactly : d.EndsExactly hit (fun id => some ((d.streamOf id).fail reason)) x.1 x.2 := by
      have hends :=
        endsExactly_endEach hkeyed hlined.nodup hlocal htimeout reason clock fun _ => true
      rw [hhit, List.filter_true] at hends
      exact hends
    refine ⟨hexactly, fun id hid => hexactly.failed hunfailed hid, fun order horder => ?_⟩
    have hsame := same_endEach hkeyed hlocal htimeout reason clock (fun _ => true) horder
    rw [List.filter_true, List.filter_true] at hsame
    exact hsame

end PromptGateway
