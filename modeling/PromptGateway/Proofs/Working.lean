import PromptGateway.Proofs.Custody
import PromptGateway.Proofs.Accounts
import PromptGateway.Proofs.Attempts

/-
  Tasks at work.

  A task is at work if a worker has been given it and its answer has not ended. Only an
  assignment puts a task to work, and no call gives one to another worker or changes its
  line: `Narrows` is what every other call does, those of the workers' side
  (`narrows_ingest`, `narrows_endEach`) and those of a client (`narrows_receive`,
  `narrows_deliver`, `narrows_left`). An assignment puts one task to work
  (`working_assigns`), and when the tasks of a worker have been failed none of them is left
  (`worker_ne_of_working`).

  Two of the clients' calls take a stream away. They leave the tasks at work alone because
  of what is known of the standings: a failure is told of a request without a record only,
  and a client that leaves has had its tasks cancelled.
-/

namespace PromptGateway

namespace Dispatcher

variable {d d' d'' : Dispatcher}

/-! ## Tasks at work -/

/-- A task that a worker has been given and whose answer has not ended. -/
structure Working (d : Dispatcher) (id : RequestId) (r : TaskRecord) : Prop where
  found : d.cache.get? id = some r
  processing : r.status = .processing
  unfinished : d.streamFinished id = false

/-- No task is at work that was not, and each has the worker and the line it had. -/
def Narrows (d d' : Dispatcher) : Prop :=
  ∀ id r', d'.Working id r' → ∃ r, d.Working id r ∧ r'.worker = r.worker ∧
    taskMessage r' = taskMessage r

theorem streamFinished_congr {id : RequestId} (h : d'.streams.find? id = d.streams.find? id) :
    d'.streamFinished id = d.streamFinished id := by
  rw [streamFinished, streamFinished, h]

theorem streamFinished_clearStream (id j : RequestId) :
    (d.clearStream id).streamFinished j = if j = id then false else d.streamFinished j := by
  unfold streamFinished
  rw [show (d.clearStream id).streams = d.streams.erase id from rfl, Table.find?_erase]
  by_cases hj : j = id
  · simp only [if_pos hj]
  · simp only [if_neg hj]

theorem streamFinished_setStream (id : RequestId) (s : TokenStream) (j : RequestId) :
    (d.setStream id s).streamFinished j = if j = id then s.finished else d.streamFinished j := by
  unfold streamFinished
  rw [show (d.setStream id s).streams = d.streams.insert id s from rfl, Table.find?_insert]
  by_cases hj : j = id
  · simp only [if_pos hj]
  · simp only [if_neg hj]

theorem streamFinished_ended_of_ne {id j : RequestId} (hj : j ≠ id) (status : TaskStatus)
    (message : String) : (d.ended id status message).streamFinished j = d.streamFinished j := by
  unfold ended
  split
  · rw [streamFinished_clearStream, if_neg hj]
    rfl
  · rw [streamFinished_setStream, if_neg hj]
    rfl

namespace Narrows

theorem of_eq (hc : d'.cache = d.cache) (hs : d'.streams = d.streams) : Narrows d d' :=
  fun id r hr => ⟨r, ⟨hc ▸ hr.found, hr.processing,
    (streamFinished_congr (by rw [hs])).symm.trans hr.unfinished⟩, rfl, rfl⟩

theorem refl : Narrows d d := of_eq rfl rfl

theorem trans (h : Narrows d d') (h' : Narrows d' d'') : Narrows d d'' := by
  intro id r'' hr''
  obtain ⟨r', hr', hw', hm'⟩ := h' id r'' hr''
  obtain ⟨r, hr, hw, hm⟩ := h id r' hr'
  exact ⟨r, hr, hw'.trans hw, hm'.trans hm⟩

/-- A record changes in place, but for what matters here. -/
theorem of_modify {id : RequestId} {f : TaskRecord → TaskRecord}
    (hc : d'.cache = d.cache.modify id f)
    (hf : ∀ r, d.cache.get? id = some r → (f r).status = r.status ∧ (f r).worker = r.worker ∧
      taskMessage (f r) = taskMessage r)
    (hs : ∀ j, d'.streamFinished j = d.streamFinished j) : Narrows d d' := by
  intro j r' hr'
  have hfound := hr'.found
  have hopen := (hs j).symm.trans hr'.unfinished
  rw [hc, TaskCache.get?_modify] at hfound
  split at hfound
  · next hj =>
    subst hj
    obtain ⟨r, hr, rfl⟩ := Option.map_eq_some_iff.mp hfound
    obtain ⟨hst, hw, hm⟩ := hf r hr
    exact ⟨r, ⟨hr, hst.symm.trans hr'.processing, hopen⟩, hw, hm⟩
  · exact ⟨r', ⟨hfound, hr'.processing, hopen⟩, rfl, rfl⟩

/-- A record is taken out, and its stream may change. -/
theorem of_remove {id : RequestId} (hc : d'.cache = d.cache.remove id)
    (hs : ∀ j, j ≠ id → d'.streamFinished j = d.streamFinished j) : Narrows d d' := by
  intro j r' hr'
  have hfound := hr'.found
  rw [hc, TaskCache.get?_remove] at hfound
  split at hfound
  · cases hfound
  · next hj =>
    exact ⟨r', ⟨hfound, hr'.processing, (hs j hj).symm.trans hr'.unfinished⟩, rfl, rfl⟩

end Narrows

theorem narrows_ended (id : RequestId) (status : TaskStatus) (message : String) :
    d.Narrows (d.ended id status message) :=
  .of_remove (cache_ended ..) fun _ hj => streamFinished_ended_of_ne hj _ _

theorem narrows_endEach {q : Dispatcher → TaskRecord → Bool} {status : TaskStatus}
    {message : String} {now : Millis} (records : List TaskRecord) :
    d.Narrows (d.endEach q status message now records).2 := by
  refine endEach_induction (P := fun d' => d.Narrows d') (fun d₁ d₂ id h he => ?_) records .refl
  obtain ⟨-, rfl⟩ := endTask?_eq_some_iff.mp he
  exact h.trans (narrows_ended _ _ _)

theorem narrows_finishDelivery (id : RequestId) (now : Millis) :
    d.Narrows (d.finishDelivery id now) := by
  rw [finishDelivery_eq]
  refine @Narrows.of_remove _ _ id rfl fun j hj => ?_
  rw [streamFinished_clearStream, if_neg hj]
  rfl

/-- A stream of a request that has no record may go. -/
theorem narrows_clearStream {id : RequestId} (h : d.cache.get? id = none) :
    d.Narrows (d.clearStream id) := by
  intro j r' hr'
  have hj : j ≠ id := by
    rintro rfl
    have hfound : d.cache.get? j = some r' := hr'.found
    rw [h] at hfound
    cases hfound
  have hopen := hr'.unfinished
  rw [streamFinished_clearStream, if_neg hj] at hopen
  exact ⟨r', ⟨hr'.found, hr'.processing, hopen⟩, rfl, rfl⟩

theorem narrows_absorb {r : TokenResponse} (hr : d.streamFinished r.id = false) :
    d.Narrows (d.absorb r) := by
  intro j r' hr'
  refine ⟨r', ⟨d.cache_absorb r ▸ hr'.found, hr'.processing, ?_⟩, rfl, rfl⟩
  by_cases hj : j = r.id
  · rw [hj, hr]
  · rw [← hr'.unfinished]
    refine (streamFinished_congr ?_).symm
    rw [find?_absorb, if_neg hj]

theorem narrows_progress {b : Bounds} (h : Listed b d.cache d.queue) (id : RequestId)
    (now : Millis) : d.Narrows (d.progress id now) := by
  refine .of_modify (f := TaskRecord.progressed now) rfl (fun r hr => ⟨?_, rfl, rfl⟩) fun _ => rfl
  rcases h.live id r hr with hst | hst <;> simp [TaskRecord.progressed, hst]

theorem narrows_hears {b : Bounds} (h : Listed b d.cache d.queue) {now : Millis}
    {message : Except DecodeError WireMessage} {o : IngestOutcome}
    (hh : d.Hears now message o d') : d.Narrows d' := by
  cases hh with
  | late _ _ => exact narrows_progress h _ now
  | more _ hopen _ => exact (narrows_progress h _ now).trans (narrows_absorb hopen)
  | last _ hopen _ => exact (narrows_progress h _ now).trans (narrows_absorb hopen)
  | failed _ _ _ => exact narrows_ended _ _ _
  | undecodable => exact .refl
  | orphan _ => exact .refl
  | stray _ _ => exact .refl
  | unnamed _ => exact .refl
  | status => exact .refl
  | heartbeat => exact .refl
  | request => exact .refl
  | task => exact .refl

theorem narrows_ingest {b : Bounds} (h : Listed b d.cache d.queue) (now : Millis) (worker : Nat)
    (line : String) : d.Narrows (d.ingest now worker line).2 := by
  obtain ⟨p, hp⟩ := d.ingest_eq_heard now worker line
  have hheard := narrows_hears h (d.hears_heard now (WireMessage.decode line))
  rw [hp]
  exact hheard.trans (.of_eq rfl rfl)

/-- A failure is told to nobody whose request is still in flight, so no stream goes under a
task at work. -/
theorem narrows_draws {id : RequestId} {o : Drain} (h : d.standing id ≠ .torn)
    (hd : d.Draws id o d') : d.Narrows d' := by
  cases hd with
  | @fragment s f hs _ _ =>
    refine @Narrows.of_modify _ _ id (fun r => { r with delivered := r.delivered + 1 }) rfl
      (fun _ _ => ⟨rfl, rfl, rfl⟩) fun j => ?_
    show (d.setStream id { s with cursor := s.cursor + 1 }).streamFinished j = _
    rw [streamFinished_setStream]
    split
    · next hj =>
      subst hj
      rw [streamFinished, hs]
    · rfl
  | failed hs hf =>
    exact narrows_clearStream (get?_of_failure h hs hf)
  | untracked _ _ => exact .refl
  | unanswered _ _ => exact .refl
  | finished _ _ _ _ => exact .refl
  | unread _ _ _ _ => exact .refl

theorem narrows_admits {m : Moment} {r : InferenceRequest} {owner : ConnectionId}
    {record : TaskRecord} (h : d.Admits m r owner record d') : d.Narrows d' := by
  obtain ⟨generated, rfl⟩ := h.engine_eq
  intro j r' hr'
  have hfound : Table.find? (d.cache.tasks.insert record.id record) j = some r' := hr'.found
  rw [Table.find?_insert] at hfound
  split at hfound
  · cases hfound
    have hst := hr'.processing
    rw [h.record_eq] at hst
    cases hst
  · exact ⟨r', ⟨hfound, hr'.processing, hr'.unfinished⟩, rfl, rfl⟩

/-- An assignment puts one task to work, that of the request that it says. -/
theorem working_assigns {now : Millis} {o : Assignment} (ha : d.Assigns now o d')
    {id : RequestId} {r' : TaskRecord} (hr' : d'.Working id r') :
    (∃ r, d.Working id r ∧ r'.worker = r.worker ∧ taskMessage r' = taskMessage r) ∨
      ∃ worker, o = .assigned id worker ∧ r'.worker = some worker ∧
        ∃ r, d.cache.get? id = some r ∧ taskMessage r' = taskMessage r := by
  cases ha with
  | saturated _ => exact .inl ⟨r', hr', rfl, rfl⟩
  | idle _ => exact .inl ⟨r', hr', rfl, rfl⟩
  | @skipped _ rest _ _ =>
    have h : d.Narrows (d.dequeued rest) := .of_eq rfl rfl
    exact .inl (h id r' hr')
  | @unserved i rest _ _ _ _ _ =>
    have h : d.Narrows (d.dequeued rest) := .of_eq rfl rfl
    exact .inl (h.trans (narrows_ended i .failed "no worker available") id r' hr')
  | @undelivered i rest _ _ _ e pool _ _ _ _ _ =>
    have h : d.Narrows (d.dequeued rest) := .of_eq rfl rfl
    have h' : ((d.dequeued rest).ended i .failed e.message).Narrows
        (((d.dequeued rest).ended i .failed e.message).withPool pool) := .of_eq rfl rfl
    exact .inl ((h.trans (narrows_ended i .failed e.message)).trans h' id r' hr')
  | @assigned i _ r worker _ _ _ _ hr _ _ _ =>
    have hfound : (d.cache.modify i fun _ => r.sent worker now).get? id = some r' := hr'.found
    rw [TaskCache.get?_modify] at hfound
    split at hfound
    · next hid =>
      subst hid
      rw [hr] at hfound
      cases hfound
      exact .inr ⟨worker, rfl, rfl, r, hr, rfl⟩
    · exact .inl ⟨r', ⟨hfound, hr'.processing, hr'.unfinished⟩, rfl, rfl⟩

/-! ## Tasks that have ended -/

/-- There is no record of a request, or its stream has ended. -/
def Settled (d : Dispatcher) (id : RequestId) : Prop :=
  d.cache.get? id = none ∨ d.streamFinished id = true

theorem Working.not_settled {id : RequestId} {r : TaskRecord} (h : d.Working id r) :
    ¬ d.Settled id := by
  rintro (hnone | hfin)
  · cases hnone.symm.trans h.found
  · cases hfin.symm.trans h.unfinished

theorem settled_ended (id : RequestId) (status : TaskStatus) (message : String) :
    (d.ended id status message).Settled id := by
  left
  rw [cache_ended, TaskCache.get?_remove, if_pos rfl]

theorem Settled.ended {id : RequestId} (h : d.Settled id) (j : RequestId) (status : TaskStatus)
    (message : String) : (d.ended j status message).Settled id := by
  by_cases hj : id = j
  · subst hj
    exact settled_ended id status message
  · rcases h with hnone | hfin
    · left
      rw [cache_ended, TaskCache.get?_remove, if_neg hj, hnone]
    · right
      rw [streamFinished_ended_of_ne hj, hfin]

/-- A task that is failed unless its stream has ended is settled in either case. -/
theorem settled_endIf {b : Bounds} (h : Listed b d.cache d.queue) (message : String) (now : Millis)
    (r : TaskRecord) :
    (d.endIf (fun d r => !d.streamFinished r.id) .failed message now r).Settled r.id := by
  cases hfin : d.streamFinished r.id with
  | true =>
    rw [endIf, if_neg (by simp [hfin])]
    exact .inr hfin
  | false =>
    rw [endIf, if_pos (by simp [hfin])]
    cases he : d.endTask? r.id .failed message now with
    | some d' =>
      obtain ⟨-, rfl⟩ := endTask?_eq_some_iff.mp he
      exact settled_ended r.id .failed message
    | none =>
      left
      cases hget : d.cache.get? r.id with
      | none => exact hget
      | some t =>
        -- whatever is tracked may fail
        have hmove : t.status.canMove .failed = true := by
          rcases h.live r.id t hget with hst | hst <;> rw [hst] <;> rfl
        rw [endTask?_eq_some_iff.mpr ⟨⟨t, hget, hmove⟩, rfl⟩] at he
        cases he

/-- To fail tasks leaves none of them at work. -/
theorem settled_endEach {b : Bounds} (h : Listed b d.cache d.queue) {message : String}
    {now : Millis} (records : List TaskRecord) :
    ∀ r ∈ records,
      (d.endEach (fun d r => !d.streamFinished r.id) .failed message now records).2.Settled r.id := by
  rw [endEach_eq]
  induction records generalizing d with
  | nil => exact fun _ hr => absurd hr List.not_mem_nil
  | cons s records ih =>
    intro r hr
    rw [List.foldl_cons]
    rcases List.mem_cons.mp hr with rfl | hr
    · -- what is settled stays settled
      rw [← endEach_eq]
      refine endEach_induction (P := fun d' => d'.Settled r.id) (fun _ _ _ hd he => ?_) _
        (settled_endIf h message now r)
      obtain ⟨-, rfl⟩ := endTask?_eq_some_iff.mp he
      exact hd.ended _ _ _
    · apply ih _ r hr
      rcases endIf_cases (fun d r => !d.streamFinished r.id) .failed message now d s with
        hsame | ⟨-, he⟩
      · rw [hsame]
        exact h
      · exact h.endTask? he

/-- No task of a worker is at work when its tasks have been failed. -/
theorem worker_ne_of_working {b : Bounds} (h : Listed b d.cache d.queue) {worker : Nat}
    {now : Millis} {id : RequestId} {r' : TaskRecord}
    (hr' : (d.failWorkerTasks worker now).2.Working id r') : r'.worker ≠ some worker := by
  intro hw
  obtain ⟨r, hr, hworker, -⟩ := narrows_endEach _ id r' hr'
  have hmem : r ∈ d.cache.givenTo worker := by
    rw [TaskCache.givenTo, List.mem_filter]
    exact ⟨(TaskCache.mem_records_iff _ _).mpr ⟨id, hr.found⟩, by rw [← hworker, hw]; exact beq_self_eq_true _⟩
  have hsettled : (d.failWorkerTasks worker now).2.Settled r.id := settled_endEach h _ r hmem
  rw [h.own_id id r hr.found] at hsettled
  exact hr'.not_settled hsettled

/-! ## The calls of a client -/

/-- The stores agree, and no request has both a record and a failed stream. -/
structure Sound (d : Dispatcher) : Prop where
  listed : ∃ b, Listed b d.cache d.queue
  whole : ∀ id, d.standing id ≠ .torn

theorem Sound.draws (h : d.Sound) {id : RequestId} {o : Drain} (hd : d.Draws id o d') :
    d'.Sound := by
  obtain ⟨b, hb⟩ := h.listed
  refine ⟨⟨b, hb.draws hd⟩, fun j => ?_⟩
  cases o with
  | fragment f =>
    rw [standing_fragment hd]
    exact h.whole j
  | failed reason =>
    rw [standing_failed hd (h.whole id)]
    split
    · exact Standing.noConfusion
    · exact h.whole j
  | finished =>
    rw [hd.eq_of_finished]
    exact h.whole j
  | nothing =>
    rw [hd.eq_of_nothing]
    exact h.whole j

theorem Sound.finishDelivery (h : d.Sound) (id : RequestId) (now : Millis) :
    (d.finishDelivery id now).Sound := by
  obtain ⟨b, hb⟩ := h.listed
  refine ⟨⟨b, hb.apply (.finishDelivery id now)⟩, fun j => ?_⟩
  rw [standing_finishDelivery]
  split
  · exact Standing.noConfusion
  · exact h.whole j

/-- What a client takes of its answers puts no task to work, and asks nothing of a
worker. -/
theorem narrows_deliver (h : d.Sound) (c : Client) (cap : Nat) (now : Millis) :
    d.Narrows (c.deliver d cap now).2.2 ∧ (c.deliver d cap now).2.2.pool = d.pool := by
  have key : (c.deliver d cap now).2.2.Sound ∧ d.Narrows (c.deliver d cap now).2.2 ∧
      (c.deliver d cap now).2.2.pool = d.pool := by
    refine c.deliver_induction (P := fun d' => d'.Sound ∧ d.Narrows d' ∧ d'.pool = d.pool)
      (fun w _ d' h' => ?_) (fun w _ d' now h' => ?_) cap now ⟨h, .refl, rfl⟩
    · obtain ⟨hsound, hn, hp⟩ := h'
      have hd := d'.draws_nextFragment w.id
      exact ⟨hsound.draws hd, hn.trans (narrows_draws (hsound.whole w.id) hd),
        (pool_draws hd).trans hp⟩
    · obtain ⟨hsound, hn, hp⟩ := h'
      refine ⟨hsound.finishDelivery w.id now, hn.trans (narrows_finishDelivery w.id now), ?_⟩
      rw [finishDelivery_eq]
      exact hp
  exact key.2

theorem narrows_receive (c : Client) (m : Moment) (owner : ConnectionId) :
    d.Narrows (c.receive d m owner).2.2 ∧ (c.receive d m owner).2.2.pool = d.pool := by
  refine c.receive_induction (P := fun _ d' => d.Narrows d' ∧ d'.pool = d.pool)
    (fun _ d' m r o record d'' h ha => ?_) m owner ⟨.refl, rfl⟩
  have hadmits := admits_of_admitRequest ha
  refine ⟨h.1.trans (narrows_admits hadmits), ?_⟩
  obtain ⟨generated, rfl⟩ := hadmits.engine_eq
  exact h.2

theorem narrows_clearStreams (ids : List RequestId) (h : ∀ id ∈ ids, d.cache.get? id = none) :
    d.Narrows (ids.foldl clearStream d) ∧ (ids.foldl clearStream d).pool = d.pool := by
  induction ids generalizing d with
  | nil => exact ⟨.refl, rfl⟩
  | cons id ids ih =>
    obtain ⟨hn, hp⟩ := ih (d := d.clearStream id) fun j hj => h j (List.mem_cons_of_mem _ hj)
    exact ⟨(narrows_clearStream (h id List.mem_cons_self)).trans hn, hp⟩

theorem narrows_left {ws : ConnectionId → List WaitingRequest} (h : Exchange.Held ⟨d, ws⟩)
    (o : ConnectionId) (now : Millis) :
    d.Narrows (Exchange.left d o now (ws o)) ∧
      (Exchange.left d o now (ws o)).pool = d.pool := by
  have hgone : ∀ id ∈ (ws o).map (·.id), (d.cancelConnection o now).2.cache.get? id = none :=
    fun id hid => Option.map_eq_none_iff.mp (h.holder?_cancelConnection o now id hid)
  obtain ⟨hn, hp⟩ := narrows_clearStreams _ hgone
  rw [Exchange.left_eq]
  exact ⟨(narrows_endEach _).trans hn, hp.trans (pool_endEach _)⟩

end Dispatcher

end PromptGateway
