import PromptGateway.Proofs.Stores

/-
  Where a request stands with the dispatch engine.

  A request has a record, a stream, both or neither, and its stream may have failed.
  `Dispatcher.standing` reads one of four cases off these: it is live for a client,
  it has failed and the client has yet to be told, there is nothing of it, or what
  there is does not belong together. Each operation is described by what it does to the
  standings:

    1. A call from the side of the workers leaves a standing as it is or makes a live
       request a failed one (`declines_applyBackend`).
    2. An admission makes one request live (`standing_admits`).
    3. A fragment changes no standing (`standing_fragment`); to close out an answer or
       to be told of a failure leaves nothing (`standing_finishDelivery`,
       `standing_failed`).
    4. A client that leaves takes what it owns with it (`standing_cancelConnection`,
       `standing_clearStreams`).
-/

namespace PromptGateway

/-- Where a request stands. -/
inductive Standing where
  /-- There is nothing of it. -/
  | absent
  /-- It has a record, and its stream has not failed. -/
  | live (owner : ConnectionId) (stream : Bool)
  /-- It has ended, and its client has yet to be told why. -/
  | failed
  /-- It has a record beside a failed stream, or an open stream and no record. -/
  | torn
  deriving DecidableEq, Repr

namespace Standing

/-- What the side of the workers can do to a standing. -/
inductive Declines : Standing → Standing → Prop where
  | same {a} : Declines a a
  | failed {o s} : Declines (.live o s) .failed

theorem Declines.of_eq {a b : Standing} (h : b = a) : Declines a b := h ▸ .same

theorem Declines.trans {a b c : Standing} (h : Declines a b) (h' : Declines b c) :
    Declines a c := by
  cases h with
  | same => exact h'
  | failed =>
    cases h'
    exact .failed

theorem Declines.ne_torn {a b : Standing} (h : Declines a b) (ha : a ≠ .torn) : b ≠ .torn := by
  cases h with
  | same => exact ha
  | failed => exact Standing.noConfusion

theorem Declines.absent_iff {a b : Standing} (h : Declines a b) : b = .absent ↔ a = .absent := by
  cases h with
  | same => exact Iff.rfl
  | failed => exact ⟨Standing.noConfusion, Standing.noConfusion⟩

/-- Whatever comes of a request of a client, it stays one of that client. -/
theorem Declines.of_live_or_failed {a b : Standing} (h : Declines a b) {o : ConnectionId}
    {s : Bool} (ha : a = .live o s ∨ a = .failed) : b = .live o s ∨ b = .failed := by
  cases h with
  | same => exact ha
  | failed => exact .inr rfl

/-- What there is of a request: whose record it has and for which kind of answer, and
whether its stream has failed. -/
def of : Option (ConnectionId × Bool) → Option Bool → Standing
  | none, none => absent
  | some (o, s), none => live o s
  | some (o, s), some false => live o s
  | some _, some true => torn
  | none, some false => torn
  | none, some true => failed

/-- What is left when everything that is live for a client has been cancelled. -/
def without (o : ConnectionId) : Standing → Standing
  | live o' s => if o' = o then absent else live o' s
  | a => a

end Standing

/-- Whom a record is for, and for which kind of answer. -/
def TaskRecord.holder (r : TaskRecord) : ConnectionId × Bool := (r.owner, r.payload.stream)

namespace Dispatcher

/-- Whom a request is for, as long as it has a record. -/
def holder? (d : Dispatcher) (id : RequestId) : Option (ConnectionId × Bool) :=
  (d.cache.get? id).map TaskRecord.holder

/-- Whether the stream of a request has failed, if it has one. -/
def broken? (d : Dispatcher) (id : RequestId) : Option Bool :=
  (d.streams.find? id).map (·.failure.isSome)

/-- Where a request stands with the engine. -/
def standing (d : Dispatcher) (id : RequestId) : Standing := .of (d.holder? id) (d.broken? id)

variable {d d' : Dispatcher} {id : RequestId}

theorem standing_congr (hh : d'.holder? id = d.holder? id) (hb : d'.broken? id = d.broken? id) :
    d'.standing id = d.standing id := by
  rw [standing, standing, hh, hb]

theorem standing_eq_absent_iff :
    d.standing id = .absent ↔ d.cache.get? id = none ∧ d.streams.find? id = none := by
  unfold standing holder? broken?
  cases d.cache.get? id <;> rcases d.streams.find? id with _ | ⟨_, _, _, _ | _⟩ <;>
    simp [Standing.of]

theorem standing_eq_live_iff {o : ConnectionId} {s : Bool} :
    d.standing id = .live o s ↔
      (∃ r, d.cache.get? id = some r ∧ r.owner = o ∧ r.payload.stream = s) ∧
        ∀ t, d.streams.find? id = some t → t.failure = none := by
  unfold standing holder? broken?
  cases d.cache.get? id <;> rcases d.streams.find? id with _ | ⟨_, _, _, _ | _⟩ <;>
    simp [Standing.of, TaskRecord.holder]

theorem standing_eq_failed_iff :
    d.standing id = .failed ↔
      d.cache.get? id = none ∧ ∃ t reason, d.streams.find? id = some t ∧ t.failure = some reason := by
  unfold standing holder? broken?
  cases d.cache.get? id <;> rcases d.streams.find? id with _ | ⟨_, _, _, _ | _⟩ <;>
    simp [Standing.of]

theorem standing_of_get? {r : TaskRecord} (hr : d.cache.get? id = some r)
    (hd : d.standing id ≠ .torn) : d.standing id = .live r.owner r.payload.stream := by
  revert hd
  unfold standing holder? broken?
  rw [hr]
  rcases d.streams.find? id with _ | ⟨_, _, _, _ | _⟩
  · exact fun _ => rfl
  · exact fun _ => rfl
  · exact fun hd => absurd rfl hd

/-- A request whose stream has failed is not in flight any more. -/
theorem get?_of_failure {s : TokenStream} {reason : String} (hd : d.standing id ≠ .torn)
    (hs : d.streams.find? id = some s) (hf : s.failure = some reason) : d.cache.get? id = none := by
  cases hr : d.cache.get? id with
  | none => rfl
  | some r =>
    have hnone := (standing_eq_live_iff.mp (standing_of_get? hr hd)).2 s hs
    rw [hf] at hnone
    cases hnone

/-! ## The parts of an engine -/

theorem holder?_of_modify {f : TaskRecord → TaskRecord} (hc : d'.cache = d.cache.modify id f)
    (hf : ∀ r, d.cache.get? id = some r → (f r).holder = r.holder) (j : RequestId) :
    d'.holder? j = d.holder? j := by
  rw [holder?, holder?, hc, TaskCache.get?_modify]
  split
  · next hj =>
    subst hj
    cases hr : d.cache.get? j with
    | none => rfl
    | some r => exact congrArg some (hf r hr)
  · rfl

theorem holder?_remove (c : TaskCache) (id j : RequestId) :
    ((c.remove id).get? j).map TaskRecord.holder =
      if j = id then none else (c.get? j).map TaskRecord.holder := by
  rw [TaskCache.get?_remove]
  split <;> rfl

theorem broken?_setStream (s : TokenStream) (j : RequestId) :
    (d.setStream id s).broken? j = if j = id then some s.failure.isSome else d.broken? j := by
  change ((d.streams.insert id s).find? j).map _ = _
  rw [Table.find?_insert]
  split <;> rfl

theorem broken?_clearStream (j : RequestId) :
    (d.clearStream id).broken? j = if j = id then none else d.broken? j := by
  change ((d.streams.erase id).find? j).map _ = _
  rw [Table.find?_erase]
  split <;> rfl

/-- A stream may be put in place of another that has not failed either. -/
theorem standing_setStream {r : TaskRecord} (hr : d.cache.get? id = some r) {s : TokenStream}
    (hs : s.failure = (d.streamOf id).failure) (j : RequestId) :
    (d.setStream id s).standing j = d.standing j := by
  by_cases hj : j = id
  · subst hj
    have hb : (d.setStream j s).broken? j = some (d.streamOf j).failure.isSome := by
      rw [broken?_setStream, if_pos rfl, hs]
    have hh : (d.setStream j s).holder? j = some r.holder := congrArg (Option.map _) hr
    have hh' : d.holder? j = some r.holder := congrArg (Option.map _) hr
    rw [standing, standing, hb, hh, hh']
    unfold broken? streamOf
    rcases d.streams.find? j with _ | ⟨_, _, _, _ | _⟩ <;> rfl
  · refine standing_congr rfl ?_
    rw [broken?_setStream, if_neg hj]

theorem failure_absorb (s : TokenStream) (r : TokenResponse) :
    (s.absorb r).failure = s.failure := by
  have happend : ∀ f, (s.append f).2.failure = s.failure := by
    intro f
    unfold TokenStream.append
    split <;> rfl
  unfold TokenStream.absorb TokenStream.finish
  cases r.fragment? with
  | none => cases r.finished <;> rfl
  | some f => cases r.finished <;> exact happend f

/-! ## Calls from the side of the workers -/

theorem standing_ended {status : TaskStatus} (hst : status ≠ .cancelled) (message : String)
    (j : RequestId) :
    (d.ended id status message).standing j = if j = id then .failed else d.standing j := by
  have hh : (d.ended id status message).holder? j = if j = id then none else d.holder? j := by
    rw [holder?, cache_ended]
    exact holder?_remove _ _ _
  have hb : (d.ended id status message).broken? j = if j = id then some true else d.broken? j := by
    rw [ended, if_neg hst]
    exact broken?_setStream _ _
  rw [standing, hh, hb]
  split <;> rfl

theorem standing_cancelled (message : String) (j : RequestId) :
    (d.ended id .cancelled message).standing j = if j = id then .absent else d.standing j := by
  have hh : (d.ended id .cancelled message).holder? j = if j = id then none else d.holder? j := by
    rw [holder?, cache_ended]
    exact holder?_remove _ _ _
  have hb : (d.ended id .cancelled message).broken? j = if j = id then none else d.broken? j :=
    broken?_clearStream _
  rw [standing, hh, hb]
  split <;> rfl

theorem standing_progress (now : Millis) (j : RequestId) :
    (d.progress id now).standing j = d.standing j :=
  standing_congr (holder?_of_modify (f := TaskRecord.progressed now) rfl (fun _ _ => rfl) j) rfl

theorem standing_absorb {r : TokenResponse} {t : TaskRecord} (ht : d.cache.get? r.id = some t)
    (j : RequestId) : (d.absorb r).standing j = d.standing j := by
  unfold absorb
  split
  · rfl
  · exact standing_setStream ht (failure_absorb _ _) j

theorem standing_assigns {now : Millis} {o : Assignment} (ha : d.Assigns now o d')
    (hd : ∀ j, d.standing j ≠ .torn) (j : RequestId) :
    (d.standing j).Declines (d'.standing j) := by
  -- a task that could not be given to a worker has failed
  have fails : ∀ {id rest r} (reason : String) (p : WorkerPool), d.cache.get? id = some r →
      (d.standing j).Declines ((((d.dequeued rest).ended id .failed reason).withPool p).standing j) := by
    intro id rest r reason p hr
    change (d.standing j).Declines (((d.dequeued rest).ended id .failed reason).standing j)
    rw [standing_ended (by decide)]
    split
    · next hj =>
      subst hj
      rw [standing_of_get? hr (hd j)]
      exact .failed
    · exact .same
  cases ha with
  | saturated _ => exact .same
  | idle _ => exact .same
  | skipped _ _ => exact .same
  | unserved _ hr _ _ => exact fails _ d.pool hr
  | undelivered _ hr _ _ _ => exact fails _ _ hr
  | @assigned id rest r worker pool pool' _ _ hr _ _ _ =>
    have hholder : ∀ s, d.cache.get? id = some s → (r.sent worker now).holder = s.holder := by
      intro s hs
      cases hr.symm.trans hs
      rfl
    exact .of_eq (standing_congr (holder?_of_modify (f := fun _ => r.sent worker now) rfl hholder j)
      rfl)

/-- Of what the workers' side does, a client only ever sees that a live request fails. -/
theorem declines_applyBackend (hd : ∀ j, d.standing j ≠ .torn) (call : BackendCall)
    (j : RequestId) : (d.standing j).Declines ((d.applyBackend call).standing j) := by
  refine applyBackend_induction (P := fun d' => ∀ j, (d.standing j).Declines (d'.standing j)) call
    ?pool ?ended ?progress ?absorb ?assigns (fun _ => .same) j
  case pool => exact fun d' p h => h
  case ended =>
    intro d' id status message r h hr hm hst j
    refine (h j).trans ?_
    rw [standing_ended hst]
    split
    · next hj =>
      subst hj
      rw [standing_of_get? hr ((h j).ne_torn (hd j))]
      exact .failed
    · exact .same
  case progress =>
    intro d' id now r h hr j
    rw [standing_progress]
    exact h j
  case absorb =>
    intro d' r t h ht hfin j
    rw [standing_absorb ht]
    exact h j
  case assigns =>
    intro d' now o d'' h ha j
    exact (h j).trans (standing_assigns ha (fun j => (h j).ne_torn (hd j)) j)

/-! ## Calls from the side of the clients -/

theorem standing_admits {m : Moment} {r : InferenceRequest} {o : ConnectionId} {record : TaskRecord}
    (h : d.Admits m r o record d') (j : RequestId) :
    d'.standing j = if j = record.id then .live o record.payload.stream else d.standing j := by
  obtain ⟨generated, rfl⟩ := h.engine_eq
  have hh : ((d.cache.tasks.insert record.id record).find? j).map TaskRecord.holder =
      if j = record.id then some (o, record.payload.stream) else d.holder? j := by
    rw [Table.find?_insert]
    split
    · rw [h.record_eq]
      rfl
    · rfl
  change Standing.of (((d.cache.tasks.insert record.id record).find? j).map _) (d.broken? j) = _
  rw [hh]
  split
  · next hj =>
    rw [hj, broken?, h.unread]
    rfl
  · rfl

theorem Admits.absent {m : Moment} {r : InferenceRequest} {o : ConnectionId} {record : TaskRecord}
    (h : d.Admits m r o record d') : d.standing record.id = .absent :=
  standing_eq_absent_iff.mpr ⟨h.fresh, h.unread⟩

theorem standing_fragment {f : String} (h : d.Draws id (.fragment f) d') (j : RequestId) :
    d'.standing j = d.standing j := by
  cases h with
  | @fragment s _ hs hf hn =>
    refine standing_congr (holder?_of_modify
      (f := fun r => { r with delivered := r.delivered + 1 }) rfl (fun _ _ => rfl) j) ?_
    change (d.setStream id { s with cursor := s.cursor + 1 }).broken? j = _
    rw [broken?_setStream]
    split
    · next hj =>
      rw [hj, broken?, hs]
      rfl
    · rfl

theorem standing_finishDelivery (now : Millis) (j : RequestId) :
    (d.finishDelivery id now).standing j = if j = id then .absent else d.standing j := by
  rw [finishDelivery_eq]
  have hh : ((d.release id).clearStream id).holder? j = if j = id then none else d.holder? j :=
    holder?_remove _ _ _
  have hb : ((d.release id).clearStream id).broken? j = if j = id then none else d.broken? j :=
    broken?_clearStream _
  rw [standing, hh, hb]
  split <;> rfl

theorem standing_clearStream (h : d.holder? id = none) (j : RequestId) :
    (d.clearStream id).standing j = if j = id then .absent else d.standing j := by
  rw [standing, broken?_clearStream]
  change Standing.of (d.holder? j) _ = _
  split
  · next hj =>
    rw [hj, h]
    rfl
  · rfl

/-- A request that has failed is over when its client has been told. -/
theorem standing_failed {reason : String} (h : d.Draws id (.failed reason) d')
    (hd : d.standing id ≠ .torn) (j : RequestId) :
    d'.standing j = if j = id then .absent else d.standing j := by
  cases h with
  | untracked hs hc =>
    split
    · next hj => exact hj ▸ standing_eq_absent_iff.mpr ⟨hc, hs⟩
    · rfl
  | failed hs hf =>
    refine standing_clearStream ?_ j
    rw [holder?, get?_of_failure hd hs hf]
    rfl

/-! ## A client that leaves -/

/-- The engine without a task whose client is gone. -/
def cancelTask (d : Dispatcher) (now : Millis) (id : RequestId) : Dispatcher :=
  (d.endTask? id .cancelled "client disconnected" now).getD d

theorem cancelTask_of_none (h : d.cache.get? id = none) (now : Millis) :
    d.cancelTask now id = d := by
  have he : d.endTask? id .cancelled "client disconnected" now = none := by
    cases he : d.endTask? id .cancelled "client disconnected" now with
    | none => rfl
    | some d' =>
      obtain ⟨⟨r, hr, -⟩, -⟩ := endTask?_eq_some_iff.mp he
      cases h.symm.trans hr
  rw [cancelTask, he]
  rfl

theorem cancelTask_of_some {r : TaskRecord} (hr : d.cache.get? id = some r)
    (hmove : r.status.canMove .cancelled = true) (now : Millis) :
    d.cancelTask now id = d.ended id .cancelled "client disconnected" := by
  have he : d.endTask? id .cancelled "client disconnected" now =
      some (d.ended id .cancelled "client disconnected") :=
    endTask?_eq_some_iff.mpr ⟨⟨r, hr, hmove⟩, rfl⟩
  rw [cancelTask, he]
  rfl

theorem get?_cancelTask (hmove : ∀ r, d.cache.get? id = some r → r.status.canMove .cancelled = true)
    (now : Millis) (j : RequestId) :
    (d.cancelTask now id).cache.get? j = if j = id then none else d.cache.get? j := by
  cases hr : d.cache.get? id with
  | none =>
    rw [cancelTask_of_none hr]
    split
    · next hj => rw [hj, hr]
    · rfl
  | some r => rw [cancelTask_of_some hr (hmove r hr), cache_ended, TaskCache.get?_remove]

theorem standing_cancelTask
    (hmove : ∀ r, d.cache.get? id = some r → r.status.canMove .cancelled = true)
    (hid : d.cache.get? id = none → d.standing id = .absent) (now : Millis) (j : RequestId) :
    (d.cancelTask now id).standing j = if j = id then .absent else d.standing j := by
  cases hr : d.cache.get? id with
  | none =>
    rw [cancelTask_of_none hr]
    split
    · next hj => rw [hj, hid hr]
    · rfl
  | some r => rw [cancelTask_of_some hr (hmove r hr), standing_cancelled]

/-- To cancel the tasks of a connection is to cancel one after the other. -/
theorem cancelConnection_eq (d : Dispatcher) (owner : ConnectionId) (now : Millis) :
    (d.cancelConnection owner now).2 =
      ((d.cache.ownedBy owner).map (·.id)).foldl (cancelTask · now) d := by
  rw [cancelConnection, endEach_eq, List.foldl_map]
  rfl

/-- Requests that are live, or of which there is nothing, leave nothing when they are
cancelled. -/
theorem standing_cancelEach (now : Millis) (ids : List RequestId)
    (hmove : ∀ j r, d.cache.get? j = some r → r.status.canMove .cancelled = true)
    (hids : ∀ id ∈ ids, d.cache.get? id = none → d.standing id = .absent) (j : RequestId) :
    (ids.foldl (cancelTask · now) d).standing j =
      if j ∈ ids then .absent else d.standing j := by
  induction ids generalizing d with
  | nil => rfl
  | cons id ids ih =>
    have hst := standing_cancelTask (hmove id) (hids id List.mem_cons_self) now
    have hget := get?_cancelTask (hmove id) now
    rw [List.foldl_cons, ih, hst]
    · by_cases hj : j = id
      · simp [hj]
      · simp [hj]
    · intro i r hi
      rw [hget] at hi
      split at hi
      · cases hi
      · exact hmove i r hi
    · intro i hi hnone
      rw [hst]
      rw [hget] at hnone
      split
      · rfl
      · next hne =>
        rw [if_neg hne] at hnone
        exact hids i (List.mem_cons_of_mem _ hi) hnone

/-- A connection that is cancelled takes everything it owns with it. -/
theorem standing_cancelConnection {b : Bounds} (h : Listed b d.cache d.queue) (o : ConnectionId)
    (now : Millis) (hd : ∀ j, d.standing j ≠ .torn) (j : RequestId) :
    (d.cancelConnection o now).2.standing j = (d.standing j).without o := by
  have hmem : ∀ id, id ∈ (d.cache.ownedBy o).map (·.id) ↔
      ∃ r, d.cache.get? id = some r ∧ r.owner = o := by
    intro id
    simp only [TaskCache.ownedBy, List.mem_map, List.mem_filter, TaskCache.mem_records_iff,
      beq_iff_eq]
    constructor
    · rintro ⟨r, ⟨⟨i, hi⟩, howner⟩, rfl⟩
      exact ⟨r, (h.own_id i r hi).symm ▸ hi, howner⟩
    · rintro ⟨r, hr, howner⟩
      exact ⟨r, ⟨⟨id, hr⟩, howner⟩, h.own_id id r hr⟩
  rw [cancelConnection_eq, standing_cancelEach]
  · split
    · next hj =>
      obtain ⟨r, hr, howner⟩ := (hmem j).mp hj
      rw [standing_of_get? hr (hd j), howner, Standing.without, if_pos rfl]
    · next hj =>
      cases hs : d.standing j with
      | live o' s =>
        rw [Standing.without, if_neg]
        rintro rfl
        obtain ⟨⟨r, hr, howner, -⟩, -⟩ := standing_eq_live_iff.mp hs
        exact hj ((hmem j).mpr ⟨r, hr, howner⟩)
      | absent => rfl
      | failed => rfl
      | torn => rfl
  · intro j r hr
    rcases h.live j r hr with hst | hst <;> rw [hst] <;> rfl
  · intro id hid hnone
    obtain ⟨r, hr, -⟩ := (hmem id).mp hid
    cases hnone.symm.trans hr

theorem standing_clearStreams (ids : List RequestId) (hids : ∀ id ∈ ids, d.holder? id = none)
    (j : RequestId) :
    (ids.foldl clearStream d).standing j = if j ∈ ids then .absent else d.standing j := by
  induction ids generalizing d with
  | nil => rfl
  | cons id ids ih =>
    have hid : d.holder? id = none := hids id List.mem_cons_self
    have hrest : ∀ i ∈ ids, (d.clearStream id).holder? i = none :=
      fun i hi => hids i (List.mem_cons_of_mem _ hi)
    rw [List.foldl_cons, ih hrest, standing_clearStream hid]
    by_cases hj : j = id
    · simp [hj]
    · simp [hj]

end Dispatcher

end PromptGateway
