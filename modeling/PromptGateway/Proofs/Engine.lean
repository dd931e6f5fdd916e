import PromptGateway.Dispatcher

/-
  What each operation of the dispatch engine can come to.

  An operation leaves in several places, and after each of them something else has
  changed. For each operation one relation lists these endings, with what holds
  where it is reached and the engine that is left, and one theorem says that the
  operation ends in one of them. Everything that is proved of runs goes through
  these relations and does not open the operations again.

    1. `Admits`: a request that is admitted (`admits_of_admitRequest`).
    2. `Begins` and `Assigns`: the first step of an assignment (`begins_beginAssign`), and a
       whole one (`assigns_assignNext`).
    3. `Hears`: one line of a worker (`hears_heard`), whichever worker it comes from
       (`ingest_eq_heard`).
    4. `Draws`: one part of an answer (`draws_nextFragment`).
    5. `endTask?_eq_some_iff` and `endEach_qualified`: the endings of one task and of
       many.
-/

namespace PromptGateway

namespace TaskRecord

/-- A record when its task has been chosen for a worker. -/
def chosen (r : TaskRecord) (now : Millis) : TaskRecord :=
  { r with status := .assigning, assignedAt := now, lastProgressAt := now }

/-- A record when the line of its task has been sent. -/
def sent (r : TaskRecord) (worker : Nat) (now : Millis) : TaskRecord :=
  { r with status := .processing, worker := some worker, assignedAt := now, lastProgressAt := now }

/-- A record when a worker has answered. -/
def progressed (now : Millis) (r : TaskRecord) : TaskRecord :=
  { r with
    lastProgressAt := now
    status := if r.status = .assigning then .processing else r.status }

end TaskRecord

/-- The fragment that a response carries: its token, or else its result. -/
def TokenResponse.fragment? (r : TokenResponse) : Option String := r.token.or r.result

/-- A stream after a response: the fragment at its end, and its end if this was the last. -/
def TokenStream.absorb (s : TokenStream) (r : TokenResponse) : TokenStream :=
  let s := match r.fragment? with
    | some f => (s.append f).2
    | none => s
  if r.finished then s.finish else s

namespace Dispatcher

/-- The engine with another pool. -/
def withPool (d : Dispatcher) (p : WorkerPool) : Dispatcher := { d with pool := p }

/-- The engine without a task that has ended. -/
def ended (d : Dispatcher) (id : RequestId) (status : TaskStatus) (message : String) : Dispatcher :=
  if status = .cancelled then (d.release id).clearStream id
  else (d.release id).setStream id ((d.streamOf id).fail message)

/-- The engine after a worker has answered for a task. -/
def progress (d : Dispatcher) (id : RequestId) (now : Millis) : Dispatcher :=
  { d with cache := d.cache.modify id (TaskRecord.progressed now) }

/-- The engine with a response in the stream it is for. A response that carries
nothing makes no stream. -/
def absorb (d : Dispatcher) (r : TokenResponse) : Dispatcher :=
  if r.fragment? = none ∧ r.finished = false then d
  else d.setStream r.id ((d.streamOf r.id).absorb r)

@[simp] theorem cache_absorb (d : Dispatcher) (r : TokenResponse) : (d.absorb r).cache = d.cache := by
  unfold absorb; split <;> rfl

@[simp] theorem queue_absorb (d : Dispatcher) (r : TokenResponse) : (d.absorb r).queue = d.queue := by
  unfold absorb; split <;> rfl

@[simp] theorem pool_absorb (d : Dispatcher) (r : TokenResponse) : (d.absorb r).pool = d.pool := by
  unfold absorb; split <;> rfl

/-- The record of a request that is admitted. -/
def newRecord (d : Dispatcher) (m : Moment) (r : InferenceRequest) (owner : ConnectionId) :
    TaskRecord :=
  { id := d.idFor m r, owner := owner, payload := r.payload, priority := r.priority
    createdAt := m.now }

/-! ## Admission -/

/-- A request that is admitted. -/
structure Admits (d : Dispatcher) (m : Moment) (r : InferenceRequest) (owner : ConnectionId)
    (record : TaskRecord) (d' : Dispatcher) : Prop where
  record_eq : record = d.newRecord m r owner
  unread : d.streams.find? record.id = none
  fresh : d.cache.get? record.id = none
  room : d.cache.size < d.cache.capacity
  queueRoom : d.queue.pending.length < d.queue.maxPending
  engine_eq : ∃ generated, d' = { d with
    cache := { d.cache with tasks := d.cache.tasks.insert record.id record }
    queue := { d.queue with pending := d.queue.pending ++ [record.id] }
    generated := generated }

theorem admits_of_admitRequest {d d' : Dispatcher} {m : Moment} {r : InferenceRequest}
    {owner : ConnectionId} {record : TaskRecord}
    (h : d.admitRequest m r owner = .ok (record, d')) : d.Admits m r owner record d' := by
  simp only [admitRequest] at h
  split at h
  · cases h
  · next hs =>
    split at h
    · cases h
    · next cache hc =>
      split at h
      · cases h
      · next queue hq =>
        obtain ⟨hfresh, hroom, rfl⟩ := TaskCache.insertNew_eq_ok hc
        obtain ⟨hqueue, rfl⟩ := TaskQueue.enqueuePending?_eq_some_iff.mp hq
        simp only [Bool.not_eq_true, Table.contains_eq_false_iff] at hs
        cases h
        exact ⟨rfl, hs, hfresh, hroom, hqueue, _, rfl⟩

/-! ## Ending a task -/

theorem endTask?_eq_some_iff {d d' : Dispatcher} {id : RequestId} {status : TaskStatus}
    {message : String} {now : Millis} :
    d.endTask? id status message now = some d' ↔
      (∃ r, d.cache.get? id = some r ∧ r.status.canMove status = true) ∧
        d' = d.ended id status message := by
  unfold endTask?
  constructor
  · intro h
    split at h
    · cases h
    · next r ht =>
      obtain ⟨s, hs, hm, -⟩ := TaskCache.transition?_eq_some_iff.mp ht
      cases h
      exact ⟨⟨s, hs, (TaskRecord.move?_eq_some_iff.mp hm).1⟩, rfl⟩
  · rintro ⟨⟨r, hr, hm⟩, rfl⟩
    have ht : d.cache.transition? id status now =
        some (({ r with status := status }).stamp now,
          d.cache.modify id fun _ => ({ r with status := status }).stamp now) :=
      TaskCache.transition?_eq_some_iff.mpr
        ⟨r, hr, TaskRecord.move?_eq_some_iff.mpr ⟨hm, rfl⟩, rfl⟩
    rw [ht]
    rfl

@[simp] theorem cache_ended (d : Dispatcher) (id : RequestId) (status : TaskStatus)
    (message : String) : (d.ended id status message).cache = d.cache.remove id := by
  unfold ended; split <;> rfl

@[simp] theorem queue_ended (d : Dispatcher) (id : RequestId) (status : TaskStatus)
    (message : String) :
    (d.ended id status message).queue = (d.queue.removePending id).removeProcessing id := by
  unfold ended; split <;> rfl

theorem finishDelivery_eq (d : Dispatcher) (id : RequestId) (now : Millis) :
    d.finishDelivery id now = (d.release id).clearStream id := by
  have hcache : (d.cache.updateStatus id .completed now).remove id = d.cache.remove id := by
    unfold TaskCache.updateStatus
    split
    · next ht =>
      obtain ⟨_, _, _, rfl⟩ := TaskCache.transition?_eq_some_iff.mp ht
      exact TaskCache.remove_modify _ _ _
    · rfl
  simp only [finishDelivery, release, clearStream, hcache]

/-- The engine after the turn of one record: its task is ended if it qualifies. -/
def endIf (q : Dispatcher → TaskRecord → Bool) (status : TaskStatus) (message : String)
    (now : Millis) (d : Dispatcher) (r : TaskRecord) : Dispatcher :=
  if q d r then (d.endTask? r.id status message now).getD d else d

/-- To end many tasks is to give each record its turn; the count is not looked at. -/
theorem endEach_eq (d : Dispatcher) (q : Dispatcher → TaskRecord → Bool) (status : TaskStatus)
    (message : String) (now : Millis) (records : List TaskRecord) :
    (d.endEach q status message now records).2 = records.foldl (endIf q status message now) d := by
  unfold endEach
  generalize 0 = n
  induction records generalizing n d with
  | nil => rfl
  | cons r records ih =>
    rw [List.foldl_cons, List.foldl_cons, endIf]
    cases hq : q d r with
    | false => simpa only [hq, Bool.false_eq_true, if_false] using ih d n
    | true =>
      cases he : d.endTask? r.id status message now with
      | none => simpa only [hq, he, if_true, Option.getD_none] using ih d n
      | some d' => simpa only [hq, he, if_true, Option.getD_some] using ih d' (n + 1)

theorem endIf_cases (q : Dispatcher → TaskRecord → Bool) (status : TaskStatus) (message : String)
    (now : Millis) (d : Dispatcher) (r : TaskRecord) :
    d.endIf q status message now r = d ∨
      (q d r = true ∧
        d.endTask? r.id status message now = some (d.endIf q status message now r)) := by
  unfold endIf
  split
  · next hq =>
    cases he : d.endTask? r.id status message now with
    | none => exact .inl rfl
    | some d' => exact .inr ⟨hq, rfl⟩
  · exact .inl rfl

/-- What every ending of a record that qualifies keeps, the endings of many keep. -/
theorem endEach_qualified {P : Dispatcher → Prop} {q : Dispatcher → TaskRecord → Bool}
    {status : TaskStatus} {message : String} {now : Millis}
    (step : ∀ d d' r, P d → q d r = true → d.endTask? r.id status message now = some d' → P d')
    {d : Dispatcher} (records : List TaskRecord) (h : P d) :
    P (d.endEach q status message now records).2 := by
  rw [endEach_eq]
  refine List.foldlRecOn records _ h fun d hd r _ => ?_
  rcases endIf_cases q status message now d r with hsame | ⟨hq, he⟩
  · rw [hsame]
    exact hd
  · exact step d _ r hd hq he

theorem endEach_induction {P : Dispatcher → Prop} {q : Dispatcher → TaskRecord → Bool}
    {status : TaskStatus} {message : String} {now : Millis}
    (step : ∀ d d' id, P d → d.endTask? id status message now = some d' → P d')
    {d : Dispatcher} (records : List TaskRecord) (h : P d) :
    P (d.endEach q status message now records).2 :=
  endEach_qualified (fun d d' r hd _ he => step d d' r.id hd he) records h

/-! ## Assignment -/

/-- The engine with the first pending request taken out of the queue. -/
def dequeued (d : Dispatcher) (rest : List RequestId) : Dispatcher :=
  { d with queue := { d.queue with pending := rest } }

/-- Everything one assignment can come to. -/
inductive Assigns (d : Dispatcher) (now : Millis) : Assignment → Dispatcher → Prop where
  | saturated : d.queue.isSaturated = true → Assigns d now .saturated d
  | idle : d.queue.pending = [] → Assigns d now .idle d
  | skipped {id rest} :
      d.queue.pending = id :: rest →
      (∀ r, d.cache.get? id = some r → r.status ≠ .pending) →
      Assigns d now (.skipped id) (d.dequeued rest)
  | unserved {id rest r} :
      d.queue.pending = id :: rest → d.cache.get? id = some r → r.status = .pending →
      d.pool.select? = none →
      Assigns d now (.failed id "no worker available")
        ((d.dequeued rest).ended id .failed "no worker available")
  | undelivered {id rest r worker pool e pool'} :
      d.queue.pending = id :: rest → d.cache.get? id = some r → r.status = .pending →
      d.pool.select? = some (worker, pool) →
      pool.send worker (taskMessage r).encode = (.error e, pool') →
      Assigns d now (.failed id e.message)
        (((d.dequeued rest).ended id .failed e.message).withPool pool')
  | assigned {id rest r worker pool pool'} :
      d.queue.isSaturated = false →
      d.queue.pending = id :: rest → d.cache.get? id = some r → r.status = .pending →
      d.pool.select? = some (worker, pool) →
      pool.send worker (taskMessage r).encode = (.ok (), pool') →
      Assigns d now (.assigned id worker)
        { d with
          cache := d.cache.modify id fun _ => r.sent worker now
          queue := { d.queue with pending := rest, processing := d.queue.processing ++ [id] }
          pool := pool' }

/-- A record is chosen exactly when it waits. -/
theorem transition?_assigning {c c' : TaskCache} {id : RequestId} {now : Millis} {r : TaskRecord}
    (h : c.transition? id .assigning now = some (r, c')) :
    ∃ s, c.get? id = some s ∧ s.status = .pending ∧ r = s.chosen now ∧
      c' = c.modify id fun _ => s.chosen now := by
  obtain ⟨s, hs, hm, rfl⟩ := TaskCache.transition?_eq_some_iff.mp h
  obtain ⟨hmove, rfl⟩ := TaskRecord.move?_eq_some_iff.mp hm
  have hp : s.status = .pending := by
    cases hst : s.status <;> simp [hst, TaskStatus.canMove, TaskStatus.isTerminal] at hmove ⊢
  exact ⟨s, hs, hp, rfl, rfl⟩

/-- A task that has been chosen can be failed, whatever was noted in its record. -/
theorem failAssign_chosen (d : Dispatcher) (now : Millis) {id : RequestId} {s : TaskRecord}
    {f : TaskRecord → TaskRecord} (hs : d.cache.get? id = some s) (hf : (f s).status = .assigning)
    (reason : String) (p : WorkerPool) :
    ({ d with cache := d.cache.modify id f, pool := p } : Dispatcher).failAssign id reason now =
      (.done (.failed id reason), (d.ended id .failed reason).withPool p) := by
  have hget : (d.cache.modify id f).get? id = some (f s) := by
    rw [TaskCache.get?_modify, if_pos rfl, hs]; rfl
  have he : ({ d with cache := d.cache.modify id f, pool := p } : Dispatcher).endTask? id .failed
      reason now =
        some (({ d with cache := d.cache.modify id f, pool := p } : Dispatcher).ended id .failed
          reason) :=
    endTask?_eq_some_iff.mpr ⟨⟨f s, hget, by rw [hf]; rfl⟩, rfl⟩
  rw [failAssign, he]
  simp only [Option.getD_some, ended, release, setStream, streamOf, withPool,
    TaskCache.remove_modify, reduceCtorEq, if_false]

/-- Everything the first step of an assignment can come to. -/
inductive Begins (d : Dispatcher) (now : Millis) : AssignStep → Dispatcher → Prop where
  | saturated : d.queue.isSaturated = true → Begins d now (.done .saturated) d
  | idle : d.queue.isSaturated = false → d.queue.pending = [] → Begins d now (.done .idle) d
  | skipped {id rest} :
      d.queue.isSaturated = false → d.queue.pending = id :: rest →
      (∀ r, d.cache.get? id = some r → r.status ≠ .pending) →
      Begins d now (.done (.skipped id)) (d.dequeued rest)
  | unserved {id rest r} :
      d.queue.isSaturated = false →
      d.queue.pending = id :: rest → d.cache.get? id = some r → r.status = .pending →
      d.pool.select? = none →
      Begins d now (.done (.failed id "no worker available"))
        ((d.dequeued rest).ended id .failed "no worker available")
  | undelivered {id rest r worker pool e pool'} :
      d.queue.isSaturated = false →
      d.queue.pending = id :: rest → d.cache.get? id = some r → r.status = .pending →
      d.pool.select? = some (worker, pool) →
      pool.send worker (taskMessage r).encode = (.error e, pool') →
      Begins d now (.done (.failed id e.message))
        (((d.dequeued rest).ended id .failed e.message).withPool pool')
  | sent {id rest r worker pool pool'} :
      d.queue.isSaturated = false →
      d.queue.pending = id :: rest → d.cache.get? id = some r → r.status = .pending →
      d.pool.select? = some (worker, pool) →
      pool.send worker (taskMessage r).encode = (.ok (), pool') →
      Begins d now (.sent id worker)
        { d.dequeued rest with
          cache := d.cache.modify id fun _ => { r.chosen now with worker := some worker }
          pool := pool' }

theorem begins_beginAssign (d : Dispatcher) (now : Millis) :
    d.Begins now (d.beginAssign now).1 (d.beginAssign now).2 := by
  unfold beginAssign
  cases hsat : d.queue.isSaturated with
  | true => exact .saturated hsat
  | false =>
    simp only [Bool.false_eq_true, if_false]
    cases hdq : d.queue.dequeuePending? with
    | none =>
      refine .idle hsat ?_
      unfold TaskQueue.dequeuePending? at hdq
      split at hdq
      · assumption
      · cases hdq
    | some x =>
      obtain ⟨id, queue⟩ := x
      obtain ⟨hpending, hqueue⟩ := TaskQueue.dequeuePending?_eq_some_iff.mp hdq
      generalize queue.pending = rest at hpending hqueue
      subst hqueue
      dsimp only
      cases ht : d.cache.transition? id .assigning now with
      | none =>
        refine .skipped hsat hpending ?_
        intro r hr hp
        have : d.cache.transition? id .assigning now =
            some (r.chosen now, d.cache.modify id fun _ => r.chosen now) :=
          TaskCache.transition?_eq_some_iff.mpr
            ⟨r, hr, TaskRecord.move?_eq_some_iff.mpr ⟨by rw [hp]; rfl, rfl⟩, rfl⟩
        rw [ht] at this
        cases this
      | some x =>
        obtain ⟨record, cache⟩ := x
        obtain ⟨s, hs, hp, rfl, rfl⟩ := transition?_assigning ht
        dsimp only
        cases hsel : d.pool.select? with
        | none =>
          have hf := failAssign_chosen (d.dequeued rest) now
            (f := fun _ => s.chosen now) hs rfl "no worker available" d.pool
          simp only [dequeued] at hf
          simp only [hf]
          exact .unserved hsat hpending hs hp hsel
        | some x =>
          obtain ⟨worker, pool⟩ := x
          simp only [TaskCache.modify_modify]
          cases hsend : pool.send worker (taskMessage (s.chosen now)).encode with
          | mk sent pool' =>
            cases sent with
            | error e =>
              have hf := failAssign_chosen (d.dequeued rest) now
                (f := fun _ => { s.chosen now with worker := some worker }) hs rfl e.message pool'
              simp only [dequeued] at hf
              simp only [hf]
              exact .undelivered hsat hpending hs hp hsel hsend
            | ok _ => exact .sent (r := s) hsat hpending hs hp hsel hsend

theorem cache_commitAssign (d : Dispatcher) (id : RequestId) :
    (d.commitAssign id).cache = d.cache.modify id fun r =>
      if r.status = .assigning then { r with status := .processing } else r := by
  simp only [commitAssign]
  split
  · split <;> rfl
  · rfl

/-- A task whose line has just been sent is entered as processing. -/
theorem commitAssign_sent (d : Dispatcher) {id : RequestId} {rest : List RequestId}
    {r : TaskRecord} (hr : d.cache.get? id = some r) (hsat : d.queue.isSaturated = false)
    (worker : Nat) (now : Millis) (pool : WorkerPool) :
    ({ d.dequeued rest with
        cache := d.cache.modify id fun _ => { r.chosen now with worker := some worker }
        pool := pool } : Dispatcher).commitAssign id =
      { d with
        cache := d.cache.modify id fun _ => r.sent worker now
        queue := { d.queue with pending := rest, processing := d.queue.processing ++ [id] }
        pool := pool } := by
  have hroom : d.queue.processing.length < d.queue.maxProcessing := by
    simpa [TaskQueue.isSaturated] using hsat
  have hlive : (d.cache.modify id fun _ => { r.chosen now with worker := some worker }).contains id =
      true := by
    rw [TaskCache.contains_iff]
    exact ⟨_, by rw [TaskCache.get?_modify, if_pos rfl, hr]; rfl⟩
  have hq : ({ d.queue with pending := rest } : TaskQueue).enqueueProcessing? id =
      some { d.queue with pending := rest, processing := d.queue.processing ++ [id] } :=
    TaskQueue.enqueueProcessing?_eq_some_iff.mpr ⟨hroom, rfl⟩
  simp only [commitAssign, dequeued, hlive, if_true, hq, TaskCache.modify_modify]
  rfl

theorem assigns_assignNext (d : Dispatcher) (now : Millis) :
    d.Assigns now (d.assignNext now).1 (d.assignNext now).2 := by
  have hb := d.begins_beginAssign now
  unfold assignNext
  generalize d.beginAssign now = x at hb ⊢
  obtain ⟨step, d'⟩ := x
  dsimp only at hb ⊢
  cases hb with
  | saturated hsat => exact .saturated hsat
  | idle _ hp => exact .idle hp
  | skipped _ hp hno => exact .skipped hp hno
  | unserved _ hp hr hst hsel => exact .unserved hp hr hst hsel
  | undelivered _ hp hr hst hsel hsend => exact .undelivered hp hr hst hsel hsend
  | sent hsat hp hr hst hsel hsend =>
    dsimp only
    rw [commitAssign_sent d hr hsat]
    exact .assigned hsat hp hr hst hsel hsend

/-! ## Answers of workers -/

/-- Everything a line of a worker can come to, by what the line says. -/
inductive Hears (d : Dispatcher) (now : Millis) :
    Except DecodeError WireMessage → IngestOutcome → Dispatcher → Prop where
  | undecodable {e} : Hears d now (.error e) .decodeFailed d
  /-- A response for a request that is not in flight. -/
  | orphan {r : TokenResponse} :
      d.cache.get? r.id = none → Hears d now (.ok (.response r)) (.orphaned r.id) d
  /-- A response after the end of its stream. -/
  | late {r : TokenResponse} {t} :
      d.cache.get? r.id = some t → d.streamFinished r.id = true →
      Hears d now (.ok (.response r)) .ignored (d.progress r.id now)
  | more {r : TokenResponse} {t} :
      d.cache.get? r.id = some t → d.streamFinished r.id = false → r.finished = false →
      Hears d now (.ok (.response r)) (.appended r.id) ((d.progress r.id now).absorb r)
  | last {r : TokenResponse} {t} :
      d.cache.get? r.id = some t → d.streamFinished r.id = false → r.finished = true →
      Hears d now (.ok (.response r)) (.finished r.id) ((d.progress r.id now).absorb r)
  | failed {e : ErrorReport} {t} :
      e.id ≠ "" → d.cache.get? e.id = some t → t.status.canMove .failed = true →
      Hears d now (.ok (.error e)) (.failed e.id) (d.ended e.id .failed e.message)
  /-- A failure of a request that is not in flight. -/
  | stray {e : ErrorReport} :
      e.id ≠ "" → (∀ t, d.cache.get? e.id = some t → t.status.canMove .failed = false) →
      Hears d now (.ok (.error e)) (.orphaned e.id) d
  | unnamed {e : ErrorReport} : e.id = "" → Hears d now (.ok (.error e)) .ignored d
  | status {s} : Hears d now (.ok (.status s)) .statusUpdated d
  | heartbeat : Hears d now (.ok .heartbeat) .heartbeat d
  | request {r} : Hears d now (.ok (.request r)) .ignored d
  | task {t} : Hears d now (.ok (.task t)) .ignored d

theorem modify_progressed {c : TaskCache} {id : RequestId} {now : Millis} {t : TaskRecord}
    (hc : c.get? id = some t) (hst : t.status ≠ .assigning) :
    (c.modify id fun t => { t with lastProgressAt := now }) =
      c.modify id (TaskRecord.progressed now) := by
  refine TaskCache.modify_congr _ _ fun r hr => ?_
  cases hc.symm.trans hr
  simp [TaskRecord.progressed, hst]

/-- A response moves a task whose line has just been sent on to processing. -/
theorem updateStatus_progressed {c : TaskCache} {id : RequestId} {now : Millis} {t : TaskRecord}
    (hc : c.get? id = some t) (hst : t.status = .assigning) :
    (c.modify id fun t => { t with lastProgressAt := now }).updateStatus id .processing now =
      c.modify id (TaskRecord.progressed now) := by
  have hget : (c.modify id fun t => { t with lastProgressAt := now }).get? id =
      some { t with lastProgressAt := now } := by
    rw [TaskCache.get?_modify, if_pos rfl, hc]; rfl
  have hmove : ({ t with lastProgressAt := now } : TaskRecord).move? .processing now =
      some { t with lastProgressAt := now, status := .processing } :=
    TaskRecord.move?_eq_some_iff.mpr ⟨by simp only [hst]; rfl, rfl⟩
  have ht := TaskCache.transition?_eq_some_iff.mpr ⟨_, hget, hmove, rfl⟩
  simp only [TaskCache.updateStatus, ht, TaskCache.modify_modify]
  refine TaskCache.modify_congr _ _ fun r hr => ?_
  cases hc.symm.trans hr
  simp [TaskRecord.progressed, hst]

/-- A response for a request in flight: its task has made progress, and unless the
stream has ended the response goes into it. -/
theorem ingestResponse_eq {d : Dispatcher} {now : Millis} {r : TokenResponse} {t : TaskRecord}
    (hg : d.cache.get? r.id = some t) :
    d.ingestResponse now r =
      if d.streamFinished r.id then (.ignored, d.progress r.id now)
      else if r.finished then (.finished r.id, (d.progress r.id now).absorb r)
      else (.appended r.id, (d.progress r.id now).absorb r) := by
  have hcache : (if t.status = .assigning then
        (d.cache.modify r.id fun t => { t with lastProgressAt := now }).updateStatus r.id
          .processing now
      else d.cache.modify r.id fun t => { t with lastProgressAt := now }) =
      d.cache.modify r.id (TaskRecord.progressed now) := by
    split
    · next hst => exact updateStatus_progressed hg hst
    · next hst => exact modify_progressed hg hst
  simp only [ingestResponse, hg, TaskCache.get?_modify, if_true, Option.map_some, hcache]
  change (if d.streamFinished r.id then (IngestOutcome.ignored, d.progress r.id now) else _) = _
  split
  · rfl
  -- the fragment and the end that come in one response are one change of the stream
  cases hf : r.token.or r.result with
  | none =>
    cases hr : r.finished <;>
      simp [absorb, TokenStream.absorb, TokenResponse.fragment?, hf, hr, finishStream, progress]
  | some f =>
    cases hr : r.finished <;>
      simp [absorb, TokenStream.absorb, TokenResponse.fragment?, hf, hr, finishStream, progress,
        addToken, setStream, streamOf, Table.find?_insert, Table.insert_insert]

theorem hears_ingestResponse (d : Dispatcher) (now : Millis) (r : TokenResponse) :
    d.Hears now (.ok (.response r)) (d.ingestResponse now r).1 (d.ingestResponse now r).2 := by
  cases hg : d.cache.get? r.id with
  | none => simpa only [ingestResponse, hg] using Hears.orphan hg
  | some t =>
    rw [ingestResponse_eq hg]
    cases hfin : d.streamFinished r.id with
    | true => exact .late hg hfin
    | false =>
      cases hr : r.finished with
      | false => exact .more hg hfin hr
      | true => exact .last hg hfin hr

theorem hears_ingestError (d : Dispatcher) (now : Millis) (e : ErrorReport) :
    d.Hears now (.ok (.error e)) (d.ingestError now e).1 (d.ingestError now e).2 := by
  unfold ingestError
  split
  · next h => exact .unnamed h
  · next h =>
    cases he : d.endTask? e.id .failed e.message now with
    | some d' =>
      obtain ⟨⟨t, ht, hm⟩, rfl⟩ := endTask?_eq_some_iff.mp he
      exact .failed h ht hm
    | none =>
      refine .stray h fun t ht => ?_
      cases hm : t.status.canMove .failed with
      | false => rfl
      | true => rw [endTask?_eq_some_iff.mpr ⟨⟨t, ht, hm⟩, rfl⟩] at he; cases he

theorem ingestResponse_withPool (d : Dispatcher) (p : WorkerPool) (now : Millis)
    (r : TokenResponse) :
    (d.withPool p).ingestResponse now r =
      ((d.ingestResponse now r).1, (d.ingestResponse now r).2.withPool p) := by
  have habsorb : ∀ d : Dispatcher, (d.withPool p).absorb r = (d.absorb r).withPool p := by
    intro d
    unfold absorb
    split <;> rfl
  cases hg : d.cache.get? r.id with
  | none =>
    have hg' : (d.withPool p).cache.get? r.id = none := hg
    simp only [ingestResponse, hg, hg']
  | some t =>
    rw [ingestResponse_eq hg, ingestResponse_eq (d := d.withPool p) hg]
    change (if d.streamFinished r.id then _ else _) = _
    split
    · rfl
    · have hprogress : (d.withPool p).progress r.id now = (d.progress r.id now).withPool p := rfl
      rw [hprogress, habsorb]
      split <;> rfl

theorem ingestError_withPool (d : Dispatcher) (p : WorkerPool) (now : Millis) (e : ErrorReport) :
    (d.withPool p).ingestError now e =
      ((d.ingestError now e).1, (d.ingestError now e).2.withPool p) := by
  unfold ingestError
  split
  · rfl
  · have hcache : (d.withPool p).cache = d.cache := rfl
    have hend : (d.withPool p).endTask? e.id .failed e.message now =
        (d.endTask? e.id .failed e.message now).map (·.withPool p) := by
      unfold endTask?
      rw [hcache]
      cases d.cache.transition? e.id .failed now <;> rfl
    rw [hend]
    cases d.endTask? e.id .failed e.message now <;> rfl

/-- What a line does, but for what the pool notes of its worker. -/
def heard (d : Dispatcher) (now : Millis) :
    Except DecodeError WireMessage → IngestOutcome × Dispatcher
  | .error _ => (.decodeFailed, d)
  | .ok (.response r) => d.ingestResponse now r
  | .ok (.error e) => d.ingestError now e
  | .ok (.status _) => (.statusUpdated, d)
  | .ok .heartbeat => (.heartbeat, d)
  | .ok (.request _) | .ok (.task _) => (.ignored, d)

/-- Whatever worker a line comes from, it is heard alike. -/
theorem ingest_eq_heard (d : Dispatcher) (now : Millis) (worker : Nat) (line : String) :
    ∃ p, d.ingest now worker line =
      ((d.heard now (WireMessage.decode line)).1,
        (d.heard now (WireMessage.decode line)).2.withPool p) := by
  unfold ingest
  cases WireMessage.decode line with
  | error e => exact ⟨d.pool, rfl⟩
  | ok message =>
    cases message with
    | response r => exact ⟨_, ingestResponse_withPool d _ now r⟩
    | error e => exact ⟨_, ingestError_withPool d _ now e⟩
    | status s => exact ⟨_, rfl⟩
    | heartbeat => exact ⟨_, rfl⟩
    | request r => exact ⟨_, rfl⟩
    | task t => exact ⟨_, rfl⟩

theorem hears_heard (d : Dispatcher) (now : Millis) (message : Except DecodeError WireMessage) :
    d.Hears now message (d.heard now message).1 (d.heard now message).2 := by
  cases message with
  | error e => exact .undecodable
  | ok message =>
    cases message with
    | response r => exact hears_ingestResponse d now r
    | error e => exact hears_ingestError d now e
    | status s => exact .status
    | heartbeat => exact .heartbeat
    | request r => exact .request
    | task t => exact .task

/-! ## Delivery -/

/-- Everything a client can find when it asks for the next part of an answer. -/
inductive Draws (d : Dispatcher) (id : RequestId) : Drain → Dispatcher → Prop where
  /-- The request has neither a stream nor a record. -/
  | untracked : d.streams.find? id = none → d.cache.get? id = none →
      Draws d id (.failed "request is no longer tracked") d
  | unanswered {r} : d.streams.find? id = none → d.cache.get? id = some r → Draws d id .nothing d
  | failed {s reason} : d.streams.find? id = some s → s.failure = some reason →
      Draws d id (.failed reason) (d.clearStream id)
  | fragment {s f} : d.streams.find? id = some s → s.failure = none →
      s.fragments[s.cursor]? = some f →
      Draws d id (.fragment f)
        { d.setStream id { s with cursor := s.cursor + 1 } with
          cache := d.cache.modify id fun r => { r with delivered := r.delivered + 1 } }
  | finished {s} : d.streams.find? id = some s → s.failure = none → s.finished = true →
      s.cursor = s.fragments.length → Draws d id .finished d
  | unread {s} : d.streams.find? id = some s → s.failure = none →
      s.fragments.length ≤ s.cursor → s.isDrained = false → Draws d id .nothing d

theorem draws_nextFragment (d : Dispatcher) (id : RequestId) :
    d.Draws id (d.nextFragment id).1 (d.nextFragment id).2 := by
  unfold nextFragment
  cases hs : d.streams.find? id with
  | none =>
    cases hg : d.cache.get? id with
    | none =>
      have hc : d.cache.contains id = false := (d.cache.tasks.contains_eq_false_iff id).mpr hg
      simp only [hc, Bool.false_eq_true, if_false]
      exact .untracked hs hg
    | some r =>
      have hc : d.cache.contains id = true := (TaskCache.contains_iff _ _).mpr ⟨r, hg⟩
      simp only [hc, if_true]
      exact .unanswered hs hg
  | some s =>
    cases hf : s.failure with
    | some reason => simpa only [hf] using Draws.failed hs hf
    | none =>
      simp only [hf]
      cases hn : s.fragments[s.cursor]? with
      | some f =>
        simp only [TokenStream.nextUnread, hn, Option.map_some]
        exact .fragment hs hf hn
      | none =>
        have hlen : s.fragments.length ≤ s.cursor := List.getElem?_eq_none_iff.mp hn
        simp only [TokenStream.nextUnread, hn, Option.map_none]
        cases hd : s.isDrained with
        | true =>
          have hd' : s.finished = true ∧ s.cursor = s.fragments.length := by
            simpa [TokenStream.isDrained] using hd
          exact .finished hs hf hd'.1 hd'.2
        | false => exact .unread hs hf hlen hd

variable {d d' : Dispatcher} {id : RequestId}

/-- An answer that hands nothing out leaves the engine as it is. -/
theorem Draws.eq_of_nothing (h : d.Draws id .nothing d') : d' = d := by
  cases h <;> rfl

theorem Draws.eq_of_finished (h : d.Draws id .finished d') : d' = d := by
  cases h
  rfl

end Dispatcher

end PromptGateway
