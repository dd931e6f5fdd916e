import PromptGateway.Proofs.Calls

/-
  The cache and the two queues say the same.

  A record lives in the cache, and its id stands in one of the two queues; the three
  are changed one after the other, and nothing in their types holds them together.
  `Listed` says that they agree: a record is stored under its own id and is pending
  or processing, each queue lists exactly the ids of the records with its status,
  and none of the three has outgrown its bound.

    1. Each way in which the three change together keeps `Listed`: a record taken in
       (`Listed.insert`), taken out (`Listed.remove`), changed in place
       (`Listed.modify`), and moved from one queue to the other (`Listed.dispatch`).
    2. So every call keeps it (`Listed.apply`).
    3. `stores_agree` is the state after any run of an engine that began empty.

  An assignment that fails takes its id out of the pending queue and then out of
  both queues again. That this is one removal (`dequeue_release`) needs that an id
  is pending only once.
-/

namespace PromptGateway

/-- How many records and ids an engine may hold. -/
structure Bounds where
  tasks : Nat
  pending : Nat
  processing : Nat

/-- The cache and the queues agree, within their bounds. -/
structure Listed (b : Bounds) (c : TaskCache) (q : TaskQueue) : Prop where
  own_id : ∀ id r, c.get? id = some r → r.id = id
  live : ∀ id r, c.get? id = some r → r.status = .pending ∨ r.status = .processing
  pending : ∀ id, id ∈ q.pending ↔ ∃ r, c.get? id = some r ∧ r.status = .pending
  processing : ∀ id, id ∈ q.processing ↔ ∃ r, c.get? id = some r ∧ r.status = .processing
  pending_nodup : q.pending.Nodup
  processing_nodup : q.processing.Nodup
  bounds : c.capacity = b.tasks ∧ q.maxPending = b.pending ∧ q.maxProcessing = b.processing
  tasks_le : c.size ≤ c.capacity
  pending_le : q.pending.length ≤ q.maxPending
  processing_le : q.processing.length ≤ q.maxProcessing

namespace Listed

variable {b : Bounds} {c : TaskCache} {q : TaskQueue}

/-! ## Changes of all three stores -/

/-- A record changes in place, but for its id and its status. -/
theorem modify (h : Listed b c q) {id : RequestId} {f : TaskRecord → TaskRecord}
    (hid : ∀ r, (f r).id = r.id)
    (hst : ∀ r, c.get? id = some r → (f r).status = r.status) : Listed b (c.modify id f) q := by
  -- a record found after the change comes from one found before it
  have back : ∀ j r, (c.modify id f).get? j = some r →
      ∃ s, c.get? j = some s ∧ r.id = s.id ∧ r.status = s.status := by
    intro j r hr
    rw [TaskCache.get?_modify] at hr
    split at hr
    · next hj =>
      subst hj
      obtain ⟨s, hs, rfl⟩ := Option.map_eq_some_iff.mp hr
      exact ⟨s, hs, hid s, hst s hs⟩
    · exact ⟨r, hr, rfl, rfl⟩
  have there : ∀ j s, c.get? j = some s →
      ∃ r, (c.modify id f).get? j = some r ∧ r.status = s.status := by
    intro j s hs
    rw [TaskCache.get?_modify]
    split
    · next hj =>
      subst hj
      exact ⟨f s, by rw [hs]; rfl, hst s hs⟩
    · exact ⟨s, hs, rfl⟩
  have same : ∀ st j, (∃ r, c.get? j = some r ∧ r.status = st) ↔
      ∃ r, (c.modify id f).get? j = some r ∧ r.status = st := by
    intro st j
    constructor
    · rintro ⟨s, hs, hst⟩
      obtain ⟨r, hr, hrs⟩ := there j s hs
      exact ⟨r, hr, hrs.trans hst⟩
    · rintro ⟨r, hr, hst⟩
      obtain ⟨s, hs, -, hrs⟩ := back j r hr
      exact ⟨s, hs, hrs.symm.trans hst⟩
  refine { h with own_id := ?_, live := ?_, pending := ?_, processing := ?_, tasks_le := ?_ }
  · intro j r hr
    obtain ⟨s, hs, hrid, -⟩ := back j r hr
    rw [hrid, h.own_id j s hs]
  · intro j r hr
    obtain ⟨s, hs, -, hrs⟩ := back j r hr
    rw [hrs]
    exact h.live j s hs
  · exact fun j => (h.pending j).trans (same _ j)
  · exact fun j => (h.processing j).trans (same _ j)
  · rw [TaskCache.size_modify]
    exact h.tasks_le

theorem remove (h : Listed b c q) (id : RequestId) :
    Listed b (c.remove id) ((q.removePending id).removeProcessing id) := by
  have there : ∀ st j, (j ≠ id ∧ ∃ r, c.get? j = some r ∧ r.status = st) ↔
      ∃ r, (c.remove id).get? j = some r ∧ r.status = st := by
    intro st j
    rw [TaskCache.get?_remove]
    by_cases hj : j = id
    · simp [hj]
    · simp [hj]
  have left : ∀ j r, (c.remove id).get? j = some r → c.get? j = some r := by
    intro j r hr
    rw [TaskCache.get?_remove] at hr
    split at hr
    · cases hr
    · exact hr
  refine ⟨fun j r hr => h.own_id j r (left j r hr), fun j r hr => h.live j r (left j r hr), ?_, ?_,
    h.pending_nodup.erase id, h.processing_nodup.erase id, h.bounds, ?_, ?_, ?_⟩
  · intro j
    calc j ∈ q.pending.erase id ↔ j ≠ id ∧ j ∈ q.pending := h.pending_nodup.mem_erase_iff
      _ ↔ j ≠ id ∧ ∃ r, c.get? j = some r ∧ r.status = .pending := and_congr_right' (h.pending j)
      _ ↔ _ := there .pending j
  · intro j
    calc j ∈ q.processing.erase id ↔ j ≠ id ∧ j ∈ q.processing := h.processing_nodup.mem_erase_iff
      _ ↔ j ≠ id ∧ ∃ r, c.get? j = some r ∧ r.status = .processing :=
        and_congr_right' (h.processing j)
      _ ↔ _ := there .processing j
  · exact Nat.le_trans (TaskCache.size_remove_le c id) h.tasks_le
  · exact Nat.le_trans List.length_erase_le h.pending_le
  · exact Nat.le_trans List.length_erase_le h.processing_le

theorem insert (h : Listed b c q) {r : TaskRecord} (hfresh : c.get? r.id = none)
    (hst : r.status = .pending) (hroom : c.size < c.capacity)
    (hqueue : q.pending.length < q.maxPending) :
    Listed b { c with tasks := c.tasks.insert r.id r }
      { q with pending := q.pending ++ [r.id] } := by
  have hget : ∀ j, TaskCache.get? { c with tasks := c.tasks.insert r.id r } j =
      if j = r.id then some r else c.get? j := fun j => Table.find?_insert _ _ _ _
  have hnew : r.id ∉ q.pending := by
    intro hm
    obtain ⟨s, hs, -⟩ := (h.pending r.id).mp hm
    rw [hfresh] at hs
    cases hs
  refine ⟨?_, ?_, ?_, ?_, ?_, h.processing_nodup, h.bounds, ?_, ?_, h.processing_le⟩
  · intro j s hs
    rw [hget] at hs
    split at hs
    · next hj => cases hs; exact hj.symm
    · exact h.own_id j s hs
  · intro j s hs
    rw [hget] at hs
    split at hs
    · cases hs; exact .inl hst
    · exact h.live j s hs
  · intro j
    rw [hget, List.mem_append, List.mem_singleton, h.pending j]
    by_cases hj : j = r.id
    · simp [hj, hst]
    · simp [hj]
  · intro j
    rw [hget, h.processing j]
    by_cases hj : j = r.id
    · simp [hj, hst, hfresh]
    · simp [hj]
  · rw [List.nodup_append]
    refine ⟨h.pending_nodup, by simp, ?_⟩
    intro x hx y hy e
    rw [List.mem_singleton] at hy
    exact hnew (by rw [← hy, ← e]; exact hx)
  · have hs := Table.size_insert_of_not_contains c.tasks r.id r
      ((c.tasks.contains_eq_false_iff r.id).mpr hfresh)
    change (c.tasks.insert r.id r).size ≤ c.capacity
    rw [hs]
    exact hroom
  · rw [List.length_append]
    exact hqueue

/-- The first pending request goes over to the processing queue. -/
theorem dispatch (h : Listed b c q) {id : RequestId} {rest : List RequestId} {r : TaskRecord}
    (hp : q.pending = id :: rest) (hr : c.get? id = some r) (hst : r.status = .pending)
    (hroom : q.processing.length < q.maxProcessing) (worker : Nat) (now : Millis) :
    Listed b (c.modify id fun _ => r.sent worker now)
      { q with pending := rest, processing := q.processing ++ [id] } := by
  have hget : ∀ j, (c.modify id fun _ => r.sent worker now).get? j =
      if j = id then some (r.sent worker now) else c.get? j := by
    intro j
    rw [TaskCache.get?_modify, hr]
    rfl
  have hnodup := h.pending_nodup
  rw [hp, List.nodup_cons] at hnodup
  have hnew : id ∉ q.processing := by
    intro hm
    obtain ⟨s, hs, hss⟩ := (h.processing id).mp hm
    rw [hr] at hs
    cases hs
    rw [hst] at hss
    cases hss
  refine ⟨?_, ?_, ?_, ?_, hnodup.2, ?_, h.bounds, ?_, ?_, ?_⟩
  · intro j s hs
    rw [hget] at hs
    split at hs
    · next hj => cases hs; exact (h.own_id id r hr).trans hj.symm
    · exact h.own_id j s hs
  · intro j s hs
    rw [hget] at hs
    split at hs
    · cases hs; exact .inr rfl
    · exact h.live j s hs
  · intro j
    have hj := h.pending j
    rw [hp, List.mem_cons] at hj
    rw [hget]
    by_cases e : j = id
    · subst e
      simpa [TaskRecord.sent] using hnodup.1
    · simpa [e] using hj
  · intro j
    rw [hget, List.mem_append, List.mem_singleton, h.processing j]
    by_cases e : j = id
    · simp [e, TaskRecord.sent]
    · simp [e]
  · rw [List.nodup_append]
    refine ⟨h.processing_nodup, by simp, ?_⟩
    intro x hx y hy e
    rw [List.mem_singleton] at hy
    exact hnew (by rw [← hy, ← e]; exact hx)
  · rw [TaskCache.size_modify]
    exact h.tasks_le
  · have := h.pending_le
    rw [hp, List.length_cons] at this
    exact Nat.le_of_succ_le this
  · rw [List.length_append]
    exact hroom

/-- To take the first pending id out twice is to take it out once. -/
theorem dequeue_release (h : Listed b c q) {id : RequestId} {rest : List RequestId}
    (hp : q.pending = id :: rest) :
    ({ q with pending := rest } : TaskQueue).removePending id = q.removePending id := by
  have hnodup := h.pending_nodup
  rw [hp, List.nodup_cons] at hnodup
  simp only [TaskQueue.removePending, hp, List.erase_cons_head, List.erase_of_not_mem hnodup.1]

theorem head_pending (h : Listed b c q) {id : RequestId} {rest : List RequestId}
    (hp : q.pending = id :: rest) : ∃ r, c.get? id = some r ∧ r.status = .pending :=
  (h.pending id).mp (by rw [hp]; exact List.mem_cons_self)

/-! ## Calls -/

variable {d : Dispatcher}

theorem dequeued_ended (h : Listed b d.cache d.queue) {id : RequestId} {rest : List RequestId}
    (hp : d.queue.pending = id :: rest) (reason : String) :
    Listed b ((d.dequeued rest).ended id .failed reason).cache
      ((d.dequeued rest).ended id .failed reason).queue := by
  rw [Dispatcher.cache_ended, Dispatcher.queue_ended]
  change Listed b (d.cache.remove id)
    ((({ d.queue with pending := rest } : TaskQueue).removePending id).removeProcessing id)
  rw [h.dequeue_release hp]
  exact h.remove id

theorem assigns (h : Listed b d.cache d.queue) {now : Millis} {o : Assignment} {d' : Dispatcher}
    (ha : d.Assigns now o d') : Listed b d'.cache d'.queue := by
  cases ha with
  | saturated _ => exact h
  | idle _ => exact h
  | skipped hp hno =>
    obtain ⟨r, hr, hst⟩ := h.head_pending hp
    exact absurd hst (hno r hr)
  | unserved hp _ _ _ => exact h.dequeued_ended hp _
  | @undelivered _ _ _ _ _ e _ hp _ _ _ _ => exact h.dequeued_ended hp e.message
  | assigned hsat hp hr hst _ _ =>
    refine h.dispatch hp hr hst ?_ _ _
    simpa [TaskQueue.isSaturated] using hsat

theorem applyBackend (h : Listed b d.cache d.queue) (call : BackendCall) :
    Listed b (d.applyBackend call).cache (d.applyBackend call).queue := by
  refine Dispatcher.applyBackend_induction (P := fun d => Listed b d.cache d.queue) call
    ?pool ?ended ?progress ?absorb ?assigns h
  case pool => exact fun d p h => h
  case ended =>
    intro d id status message r h _ _ _
    simpa using h.remove id
  case progress =>
    intro d id now r h hr
    refine h.modify (fun _ => rfl) fun s hs => ?_
    -- between calls no record is being assigned
    rcases h.live id s hs with hst | hst <;> simp [TaskRecord.progressed, hst]
  case absorb =>
    intro d r t h _ _
    unfold Dispatcher.absorb
    split
    · exact h
    · exact h
  case assigns => exact fun d now o d' h ha => h.assigns ha

theorem draws (h : Listed b d.cache d.queue) {id : RequestId} {o : Drain} {d' : Dispatcher}
    (hd : d.Draws id o d') : Listed b d'.cache d'.queue := by
  cases hd with
  | fragment _ _ _ => exact h.modify (fun _ => rfl) fun _ _ => rfl
  | untracked _ _ => exact h
  | unanswered _ _ => exact h
  | failed _ _ => exact h
  | finished _ _ _ _ => exact h
  | unread _ _ _ _ => exact h

theorem endTask? (h : Listed b d.cache d.queue) {id : RequestId} {status : TaskStatus}
    {message : String} {now : Millis} {d' : Dispatcher}
    (he : d.endTask? id status message now = some d') : Listed b d'.cache d'.queue := by
  obtain ⟨-, rfl⟩ := Dispatcher.endTask?_eq_some_iff.mp he
  simpa using h.remove id

theorem apply (h : Listed b d.cache d.queue) (call : Call) :
    Listed b (d.apply call).cache (d.apply call).queue := by
  cases call with
  | backend call => exact h.applyBackend call
  | submit m r owner =>
    simp only [Dispatcher.apply]
    split
    · next ha =>
      have ha := Dispatcher.admits_of_admitRequest ha
      obtain ⟨generated, rfl⟩ := ha.engine_eq
      exact h.insert ha.fresh (by rw [ha.record_eq]; rfl) ha.room ha.queueRoom
    · exact h
  | nextFragment id => exact h.draws (d.draws_nextFragment id)
  | finishDelivery id now =>
    simp only [Dispatcher.apply, Dispatcher.finishDelivery_eq]
    exact h.remove id
  | cancelConnection owner now =>
    exact Dispatcher.endEach_induction (P := fun d => Listed b d.cache d.queue)
      (fun _ _ _ hd he => hd.endTask? he) _ h

theorem create (maxTasks maxPending maxProcessing maxWorkers : Nat) :
    let d := Dispatcher.create maxTasks maxPending maxProcessing maxWorkers
    Listed ⟨maxTasks, maxPending, maxProcessing⟩ d.cache d.queue := by
  constructor <;> simp [Dispatcher.create, TaskCache.get?, TaskCache.size]

/-- The ids of the two queues together are the ids of the cache. -/
theorem partition (h : Listed b c q) : (q.pending ++ q.processing).Perm c.tasks.keys := by
  have hdisjoint : ∀ x ∈ q.pending, ∀ y ∈ q.processing, x ≠ y := by
    rintro x hx _ hy rfl
    obtain ⟨r, hr, hst⟩ := (h.pending x).mp hx
    obtain ⟨s, hs, hss⟩ := (h.processing x).mp hy
    rw [hr] at hs
    cases hs
    rw [hst] at hss
    cases hss
  refine (List.perm_ext_iff_of_nodup
    (List.nodup_append.mpr ⟨h.pending_nodup, h.processing_nodup, hdisjoint⟩) c.tasks.nodup).mpr ?_
  intro id
  rw [List.mem_append, h.pending, h.processing]
  change _ ↔ id ∈ c.tasks.keys
  rw [Table.mem_keys_iff]
  constructor
  · rintro (⟨r, hr, -⟩ | ⟨r, hr, -⟩) <;> exact ⟨r, hr⟩
  · rintro ⟨r, hr⟩
    exact (h.live id r hr).imp (fun hst => ⟨r, hr, hst⟩) fun hst => ⟨r, hr, hst⟩

end Listed

/-! ## Runs -/

/-- After any run of an engine that began empty, whatever its bounds: every record is
stored under its own id and is pending or processing, each queue lists exactly the
ids of the records with its status and each of them once, so that the two queues
divide the cache between them, and none of the three is over its bound. -/
theorem stores_agree (maxTasks maxPending maxProcessing maxWorkers : Nat) (calls : List Call) :
    let d := (Dispatcher.create maxTasks maxPending maxProcessing maxWorkers).run calls
    (∀ id r, d.cache.get? id = some r →
      r.id = id ∧ (r.status = .pending ∨ r.status = .processing)) ∧
    (∀ id, id ∈ d.queue.pending ↔ ∃ r, d.cache.get? id = some r ∧ r.status = .pending) ∧
    (∀ id, id ∈ d.queue.processing ↔ ∃ r, d.cache.get? id = some r ∧ r.status = .processing) ∧
    d.queue.pending.Nodup ∧ d.queue.processing.Nodup ∧
    (d.queue.pending ++ d.queue.processing).Perm d.cache.tasks.keys ∧
    d.cache.size ≤ maxTasks ∧ d.queue.pending.length ≤ maxPending ∧
    d.queue.processing.length ≤ maxProcessing := by
  intro d
  have h : Listed ⟨maxTasks, maxPending, maxProcessing⟩ d.cache d.queue :=
    Dispatcher.run_induction (P := fun d => Listed _ d.cache d.queue)
      (fun _ call h => h.apply call) calls (Listed.create _ _ _ _)
  obtain ⟨htasks, hpending, hprocessing⟩ := h.bounds
  refine ⟨fun id r hr => ⟨h.own_id id r hr, h.live id r hr⟩, h.pending, h.processing,
    h.pending_nodup, h.processing_nodup, h.partition, ?_, ?_, ?_⟩
  · exact Nat.le_trans h.tasks_le (Nat.le_of_eq htasks)
  · exact Nat.le_trans h.pending_le (Nat.le_of_eq hpending)
  · exact Nat.le_trans h.processing_le (Nat.le_of_eq hprocessing)

end PromptGateway
