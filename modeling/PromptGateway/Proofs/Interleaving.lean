import PromptGateway.Proofs.Stores
import Mathlib.Data.List.Induction

/-
  Assignments that are interrupted.

  An assignment is made of two steps, and nothing holds the engine in between: once the
  line of a task has been sent, any other call may come before the task is entered as
  processing. Meanwhile its id stands in neither queue, whatever becomes of its record.

    1. Between the two steps cache and queues agree but for the id that is under way
       (`Halfway`): it has a record and no place in a queue, or it is gone, or it has
       been admitted again and waits. Each other call keeps this (`Halfway.apply`).
    2. The second step restores the agreement, unless the id waits (`Halfway.enter`). Then
       the id is listed as processing while its record is pending
       (`Halfway.not_entered`).
    3. `interleaved_assignments`: in a run, whenever no assignment is between its steps,
       the processing queue lists the processing tasks, exactly if no second step finds
       its id waiting.
-/

namespace PromptGateway

/-- Whether a call gives a task to a worker. -/
def Call.isAssign : Call → Bool
  | .backend (.assign _) => true
  | _ => false

/-- What happens to the engine, one thing at a time: the first step of an assignment, its second
step, or any other call. -/
inductive Move where
  | send (now : Millis)
  | enter
  | call (c : Call) (h : c.isAssign = false)

/-- The engine, and the id whose assignment is between its two steps. -/
structure Midway where
  engine : Dispatcher
  sent : Option RequestId := none

namespace Midway

/-- The engine after one move. While an assignment is between its steps no other one begins. -/
def step (s : Midway) : Move → Midway
  | .call c _ => { s with engine := s.engine.apply c }
  | .send now =>
    match s.sent with
    | some _ => s
    | none =>
      match s.engine.beginAssign now with
      | (.done _, d) => ⟨d, none⟩
      | (.sent id _, d) => ⟨d, some id⟩
  | .enter =>
    match s.sent with
    | none => s
    | some id => ⟨s.engine.commitAssign id, none⟩

/-- The engine after some moves. -/
def run (s : Midway) (moves : List Move) : Midway := moves.foldl step s

end Midway

namespace Dispatcher

/-- The processing queue lists the tasks that are processing, each once. -/
structure Entered (d : Dispatcher) : Prop where
  nodup : d.queue.processing.Nodup
  mem_iff : ∀ id, id ∈ d.queue.processing ↔
    ∃ r, d.cache.get? id = some r ∧ r.status = .processing

/-- An id has a record that waits for a worker. -/
def Waits (d : Dispatcher) (id : RequestId) : Prop :=
  ∃ r, d.cache.get? id = some r ∧ r.status = .pending

end Dispatcher

/-! ## Between the two steps -/

/-- The cache and the queues agree, but for an id that has been sent and is not entered: it is
gone or waits anew, or it has a record and no place in the queues. There is room for it among
the processing ids. -/
inductive Halfway (b : Bounds) (p : RequestId) (c : TaskCache) (q : TaskQueue) : Prop where
  | gone : Listed b c q → (∀ r, c.get? p = some r → r.status = .pending) →
      q.processing.length < q.maxProcessing → Halfway b p c q
  | live {r} : Listed b (c.remove p) q → c.size ≤ c.capacity → c.get? p = some r → r.id = p →
      (r.status = .assigning ∨ r.status = .processing) →
      q.processing.length < q.maxProcessing → Halfway b p c q

namespace Listed

variable {b : Bounds} {c c' : TaskCache} {q : TaskQueue} {p : RequestId}

/-- What the cache answers decides whether it agrees with the queues. -/
theorem congr (h : Listed b c q) (hget : ∀ j, c'.get? j = c.get? j)
    (hcapacity : c'.capacity = c.capacity) (hsize : c'.size ≤ c'.capacity) : Listed b c' q where
  own_id := fun id r hr => h.own_id id r ((hget id).symm.trans hr)
  live := fun id r hr => h.live id r ((hget id).symm.trans hr)
  pending := fun id => by rw [hget id]; exact h.pending id
  processing := fun id => by rw [hget id]; exact h.processing id
  pending_nodup := h.pending_nodup
  processing_nodup := h.processing_nodup
  bounds := by rw [hcapacity]; exact h.bounds
  tasks_le := hsize
  pending_le := h.pending_le
  processing_le := h.processing_le

theorem not_mem_pending (h : Listed b (c.remove p) q) : p ∉ q.pending := by
  rw [h.pending, TaskCache.get?_remove, if_pos rfl]
  rintro ⟨r, hr, -⟩
  cases hr

theorem not_mem_processing (h : Listed b (c.remove p) q) : p ∉ q.processing := by
  rw [h.processing, TaskCache.get?_remove, if_pos rfl]
  rintro ⟨r, hr, -⟩
  cases hr

/-- A task that has no place in the queues is entered as processing. -/
theorem enter (h : Listed b (c.remove p) q) {r : TaskRecord} {f : TaskRecord → TaskRecord}
    (hr : c.get? p = some r) (hid : (f r).id = p) (hst : (f r).status = .processing)
    (hsize : c.size ≤ c.capacity) (hroom : q.processing.length < q.maxProcessing) :
    Listed b (c.modify p f) { q with processing := q.processing ++ [p] } := by
  have hget : ∀ j, (c.modify p f).get? j = if j = p then some (f r) else (c.remove p).get? j := by
    intro j
    rw [TaskCache.get?_modify, TaskCache.get?_remove, hr]
    split <;> rfl
  refine ⟨?_, ?_, ?_, ?_, h.pending_nodup, ?_, h.bounds, ?_, h.pending_le, ?_⟩
  · intro j s hs
    rw [hget] at hs
    split at hs
    · next hj => cases hs; exact hid.trans hj.symm
    · exact h.own_id j s hs
  · intro j s hs
    rw [hget] at hs
    split at hs
    · cases hs; exact .inr hst
    · exact h.live j s hs
  · intro j
    rw [hget]
    by_cases hj : j = p
    · simpa [hj, hst] using h.not_mem_pending
    · simpa [hj] using h.pending j
  · intro j
    rw [hget, List.mem_append, List.mem_singleton]
    by_cases hj : j = p
    · simp [hj, hst]
    · simpa [hj] using h.processing j
  · rw [List.nodup_append]
    refine ⟨h.processing_nodup, by simp, ?_⟩
    intro x hx y hy e
    rw [List.mem_singleton] at hy
    exact h.not_mem_processing (by rw [← hy, ← e]; exact hx)
  · rw [TaskCache.size_modify]
    exact hsize
  · rw [List.length_append]
    exact hroom

/-- The processing queue lists the processing tasks. -/
theorem entered {d : Dispatcher} (h : Listed b d.cache d.queue) : d.Entered :=
  ⟨h.processing_nodup, h.processing⟩

end Listed

namespace Halfway

variable {b : Bounds} {c : TaskCache} {q : TaskQueue} {p : RequestId}

theorem room (h : Halfway b p c q) : q.processing.length < q.maxProcessing := by
  cases h <;> assumption

/-- A record changes in place, but for its id. Its status may go on from assigning to
processing. -/
theorem modify (h : Halfway b p c q) {id : RequestId} {f : TaskRecord → TaskRecord}
    (hid : ∀ r, (f r).id = r.id)
    (hst : ∀ r, (f r).status = r.status ∨ r.status = .assigning ∧ (f r).status = .processing) :
    Halfway b p (c.modify id f) q := by
  -- a record that agrees with the queues is not being assigned
  have hlisted : ∀ c', Listed b c' q → Listed b (c'.modify id f) q := by
    intro c' hc
    refine hc.modify hid fun r hr => ?_
    rcases hst r with hsame | ⟨hassigning, -⟩
    · exact hsame
    · rcases hc.live id r hr with hpending | hprocessing <;> simp_all
  cases h with
  | gone hc hp hroom =>
    refine .gone (hlisted c hc) (fun r hr => ?_) hroom
    rw [TaskCache.get?_modify] at hr
    split at hr
    · next hj =>
      subst hj
      obtain ⟨s, hs, rfl⟩ := Option.map_eq_some_iff.mp hr
      have hpending := hp s hs
      rcases hst s with hsame | ⟨hassigning, -⟩ <;> simp_all
    · exact hp r hr
  | @live r hc hsize hr hrid hrst hroom =>
    by_cases hj : p = id
    · subst hj
      have hget : (c.modify p f).get? p = some (f r) := by
        rw [TaskCache.get?_modify, if_pos rfl, hr]
        rfl
      have hfst : (f r).status = .assigning ∨ (f r).status = .processing := by
        rcases hst r with hsame | ⟨-, hnext⟩
        · rwa [hsame]
        · exact .inr hnext
      refine .live ?_ ?_ hget ((hid r).trans hrid) hfst hroom
      · rw [TaskCache.remove_modify]
        exact hc
      · rw [TaskCache.size_modify]
        exact hsize
    · have hget : (c.modify id f).get? p = some r := by
        rw [TaskCache.get?_modify, if_neg hj, hr]
      refine .live ((hlisted _ hc).congr (fun j => ?_) rfl ?_) ?_ hget hrid hrst hroom
      · simp only [TaskCache.get?_modify, TaskCache.get?_remove]
        by_cases hjp : j = p
        · simp [hjp, hj]
        · simp [hjp, Ne.symm hj]
      · refine Nat.le_trans (TaskCache.size_remove_le _ _) ?_
        rw [TaskCache.size_modify]
        exact hsize
      · rw [TaskCache.size_modify]
        exact hsize

theorem remove (h : Halfway b p c q) (id : RequestId) :
    Halfway b p (c.remove id) ((q.removePending id).removeProcessing id) := by
  have hroom : ((q.removePending id).removeProcessing id).processing.length <
      ((q.removePending id).removeProcessing id).maxProcessing :=
    Nat.lt_of_le_of_lt List.length_erase_le h.room
  cases h with
  | gone hc hp _ =>
    refine .gone (hc.remove id) (fun r hr => ?_) hroom
    rw [TaskCache.get?_remove] at hr
    split at hr
    · cases hr
    · exact hp r hr
  | @live r hc hsize hr hrid hrst _ =>
    by_cases hj : p = id
    · subst hj
      have hq : (q.removePending p).removeProcessing p = q := by
        simp only [TaskQueue.removePending, TaskQueue.removeProcessing,
          List.erase_of_not_mem hc.not_mem_pending, List.erase_of_not_mem hc.not_mem_processing]
      rw [hq] at hroom ⊢
      refine .gone hc (fun r hr => ?_) hroom
      rw [TaskCache.get?_remove, if_pos rfl] at hr
      cases hr
    · have hget : (c.remove id).get? p = some r := by
        rw [TaskCache.get?_remove, if_neg hj, hr]
      have hsize' : (c.remove id).size ≤ c.capacity :=
        Nat.le_trans (TaskCache.size_remove_le c id) hsize
      refine .live ((hc.remove id).congr (fun j => ?_) rfl ?_) hsize' hget hrid hrst hroom
      · simp only [TaskCache.get?_remove]
        split <;> split <;> rfl
      · exact Nat.le_trans (TaskCache.size_remove_le _ _) hsize'

theorem insert (h : Halfway b p c q) {r : TaskRecord} (hfresh : c.get? r.id = none)
    (hst : r.status = .pending) (hroom : c.size < c.capacity)
    (hqueue : q.pending.length < q.maxPending) :
    Halfway b p { c with tasks := c.tasks.insert r.id r }
      { q with pending := q.pending ++ [r.id] } := by
  have hget : ∀ j, TaskCache.get? { c with tasks := c.tasks.insert r.id r } j =
      if j = r.id then some r else c.get? j := fun j => Table.find?_insert _ _ _ _
  cases h with
  | gone hc hp hprocessing =>
    refine .gone (hc.insert hfresh hst hroom hqueue) (fun s hs => ?_) hprocessing
    rw [hget] at hs
    split at hs
    · cases hs; exact hst
    · exact hp s hs
  | @live s hc hsize hs hsid hsst hprocessing =>
    have hne : p ≠ r.id := by
      rintro rfl
      rw [hs] at hfresh
      cases hfresh
    have hsize' : (c.tasks.insert r.id r).size ≤ c.capacity := by
      rw [Table.size_insert_of_not_contains _ _ _ ((c.tasks.contains_eq_false_iff r.id).mpr hfresh)]
      exact hroom
    have hinsert := hc.insert (r := r) (by rw [TaskCache.get?_remove, if_neg hne.symm, hfresh]) hst
      (Nat.lt_of_le_of_lt (TaskCache.size_remove_le c p) hroom) hqueue
    refine .live (hinsert.congr (fun j => ?_) rfl ?_) hsize' ?_ hsid hsst hprocessing
    · have hget' : TaskCache.get? { c.remove p with tasks := (c.remove p).tasks.insert r.id r } j =
          if j = r.id then some r else (c.remove p).get? j := Table.find?_insert _ _ _ _
      rw [hget', TaskCache.get?_remove, TaskCache.get?_remove, hget]
      by_cases hj : j = p
      · simp [hj, hne]
      · simp [hj]
    · exact Nat.le_trans (TaskCache.size_remove_le _ p) hsize'
    · rw [hget, if_neg hne, hs]

/-! ## Calls -/

variable {d : Dispatcher}

theorem ended (h : Halfway b p d.cache d.queue) (id : RequestId) (status : TaskStatus)
    (message : String) :
    Halfway b p (d.ended id status message).cache (d.ended id status message).queue := by
  simpa using h.remove id

theorem endEach (h : Halfway b p d.cache d.queue) (qualifies : Dispatcher → TaskRecord → Bool)
    (status : TaskStatus) (message : String) (now : Millis) (records : List TaskRecord) :
    Halfway b p (d.endEach qualifies status message now records).2.cache
      (d.endEach qualifies status message now records).2.queue := by
  refine Dispatcher.endEach_induction (P := fun d => Halfway b p d.cache d.queue) ?_ records h
  intro d d' id hd he
  obtain ⟨-, rfl⟩ := Dispatcher.endTask?_eq_some_iff.mp he
  exact hd.ended id status message

theorem applyBackend (h : Halfway b p d.cache d.queue) {call : BackendCall}
    (hcall : ∀ now, call ≠ .assign now) :
    Halfway b p (d.applyBackend call).cache (d.applyBackend call).queue := by
  refine Dispatcher.applyBackend_unassigned (P := fun d => Halfway b p d.cache d.queue) hcall
    ?pool ?ended ?progress ?absorb h
  case pool => exact fun d p h => h
  case ended => exact fun d id status message r h _ _ _ => h.ended id status message
  case progress =>
    intro d id now r h _
    refine h.modify (fun _ => rfl) fun s => ?_
    by_cases hst : s.status = .assigning <;> simp [TaskRecord.progressed, hst]
  case absorb =>
    intro d r t h _ _
    unfold Dispatcher.absorb
    split <;> exact h

theorem draws (h : Halfway b p d.cache d.queue) {id : RequestId} {o : Drain} {d' : Dispatcher}
    (hd : d.Draws id o d') : Halfway b p d'.cache d'.queue := by
  cases hd with
  | fragment _ _ _ => exact h.modify (fun _ => rfl) fun _ => .inl rfl
  | untracked _ _ => exact h
  | unanswered _ _ => exact h
  | failed _ _ => exact h
  | finished _ _ _ _ => exact h
  | unread _ _ _ _ => exact h

/-- Whatever is called between the two steps, if it is no assignment. -/
theorem apply (h : Halfway b p d.cache d.queue) {call : Call} (hcall : call.isAssign = false) :
    Halfway b p (d.apply call).cache (d.apply call).queue := by
  cases call with
  | backend call =>
    refine h.applyBackend fun now he => ?_
    subst he
    cases hcall
  | submit m r owner =>
    simp only [Dispatcher.apply]
    split
    · next ha =>
      have ha := Dispatcher.admits_of_admitRequest ha
      obtain ⟨generated, rfl⟩ := ha.engine_eq
      exact h.insert ha.fresh (by rw [ha.record_eq]; rfl) ha.room ha.queueRoom
    · exact h
  | nextFragment id => exact h.draws (d.draws_nextFragment id)
  | finishDelivery id now =>
    simp only [Dispatcher.apply, Dispatcher.finishDelivery_eq]
    exact h.remove id
  | cancelConnection owner now => exact h.endEach _ _ _ _ _

/-! ## The two steps -/

/-- The first step, when it has sent a task. -/
theorem of_sent (h : Listed b d.cache d.queue) {now : Millis} {id : RequestId} {worker : Nat}
    {d' : Dispatcher} (hb : d.Begins now (.sent id worker) d') :
    Halfway b id d'.cache d'.queue := by
  cases hb with
  | @sent _ rest r _ pool pool' hsat hp hr hst _ _ =>
    have hroom : d.queue.processing.length < d.queue.maxProcessing := by
      simpa [TaskQueue.isSaturated] using hsat
    have hnodup := h.pending_nodup
    have hprocessing : id ∉ d.queue.processing := by
      rw [h.processing]
      rintro ⟨s, hs, hss⟩
      rw [hr] at hs
      cases hs
      rw [hst] at hss
      cases hss
    have hq : (d.queue.removePending id).removeProcessing id =
        { d.queue with pending := rest } := by
      simp only [TaskQueue.removePending, TaskQueue.removeProcessing, hp, List.erase_cons_head,
        List.erase_of_not_mem hprocessing]
    have hremoved := h.remove id
    rw [hq] at hremoved
    refine .live (r := { r.chosen now with worker := some worker }) ?_ ?_ ?_ (h.own_id id r hr)
      (.inl rfl) hroom
    · dsimp only
      rw [TaskCache.remove_modify]
      exact hremoved
    · dsimp only
      rw [TaskCache.size_modify]
      exact h.tasks_le
    · dsimp only
      rw [TaskCache.get?_modify, if_pos rfl, hr]
      rfl

/-- The first step, when the assignment is over with it. -/
theorem of_done (h : Listed b d.cache d.queue) {now : Millis} {result : Assignment}
    {d' : Dispatcher} (hb : d.Begins now (.done result) d') : Listed b d'.cache d'.queue := by
  cases hb with
  | saturated _ => exact h
  | idle _ _ => exact h
  | skipped _ hp hno =>
    obtain ⟨r, hr, hst⟩ := h.head_pending hp
    exact absurd hst (hno r hr)
  | unserved _ hp _ _ _ => exact h.dequeued_ended hp _
  | @undelivered _ _ _ _ _ e _ _ hp _ _ _ _ => exact h.dequeued_ended hp e.message

/-- The second step puts an id that has a record at the end of the processing queue. -/
theorem queue_commitAssign (h : Halfway b p d.cache d.queue) {r : TaskRecord}
    (hr : d.cache.get? p = some r) :
    (d.commitAssign p).queue = { d.queue with processing := d.queue.processing ++ [p] } := by
  have hlive : d.cache.contains p = true := (TaskCache.contains_iff _ _).mpr ⟨r, hr⟩
  have henqueue : d.queue.enqueueProcessing? p =
      some { d.queue with processing := d.queue.processing ++ [p] } :=
    TaskQueue.enqueueProcessing?_eq_some_iff.mpr ⟨h.room, rfl⟩
  simp only [Dispatcher.commitAssign, hlive, henqueue, if_true]

/-- The second step restores the agreement, unless its id waits. -/
theorem enter (h : Halfway b p d.cache d.queue) (hw : ¬ d.Waits p) :
    Listed b (d.commitAssign p).cache (d.commitAssign p).queue := by
  cases hr : d.cache.get? p with
  | none =>
    have hgone : d.cache.contains p = false := (d.cache.tasks.contains_eq_false_iff p).mpr hr
    have hqueue : (d.commitAssign p).queue = d.queue := by
      simp [Dispatcher.commitAssign, hgone]
    rw [hqueue, Dispatcher.cache_commitAssign]
    cases h with
    | gone hc _ _ =>
      refine hc.modify (fun r => by split <;> rfl) fun r hr' => ?_
      rw [hr] at hr'
      cases hr'
    | live _ _ hr' _ _ _ =>
      rw [hr] at hr'
      cases hr'
  | some r =>
    rw [h.queue_commitAssign hr, Dispatcher.cache_commitAssign]
    cases h with
    | gone _ hp _ => exact absurd ⟨r, hr, hp r hr⟩ hw
    | live hc hsize hr' hid hst hroom =>
      rw [hr] at hr'
      cases hr'
      refine hc.enter hr ?_ ?_ hsize hroom
      · split <;> exact hid
      · rcases hst with hst | hst <;> simp [hst]

/-- A second step that finds its id waiting lists it as processing all the same. -/
theorem enter_waiting (h : Halfway b p d.cache d.queue) (hw : d.Waits p) :
    p ∈ (d.commitAssign p).queue.pending ∧ p ∈ (d.commitAssign p).queue.processing ∧
      (d.commitAssign p).Waits p := by
  obtain ⟨r, hr, hst⟩ := hw
  have hget : (d.commitAssign p).cache.get? p = some r := by
    rw [Dispatcher.cache_commitAssign, TaskCache.get?_modify, if_pos rfl, hr, Option.map_some, hst]
    rfl
  rw [h.queue_commitAssign hr]
  refine ⟨?_, List.mem_append_right _ (List.mem_singleton_self p), r, hget, hst⟩
  cases h with
  | gone hc _ _ => exact (hc.pending p).mpr ⟨r, hr, hst⟩
  | live _ _ hr' _ hst' _ =>
    rw [hr] at hr'
    cases hr'
    rw [hst] at hst'
    rcases hst' with hst' | hst' <;> cases hst'

end Halfway

/-! ## Waiting anew -/

namespace Dispatcher

variable {d : Dispatcher} {p : RequestId}

theorem not_waits_modify {c : TaskCache} {id : RequestId} {f : TaskRecord → TaskRecord}
    (h : ∀ r, c.get? p = some r → r.status ≠ .pending)
    (hst : ∀ r, (f r).status = .pending → r.status = .pending) :
    ∀ r, (c.modify id f).get? p = some r → r.status ≠ .pending := by
  intro r hr
  rw [TaskCache.get?_modify] at hr
  split at hr
  · next hj =>
    subst hj
    obtain ⟨s, hs, rfl⟩ := Option.map_eq_some_iff.mp hr
    exact fun hpending => h s hs (hst s hpending)
  · exact h r hr

theorem not_waits_iff : ¬ d.Waits p ↔ ∀ r, d.cache.get? p = some r → r.status ≠ .pending := by
  simp [Waits]

theorem not_waits_of_remove {d' : Dispatcher} {id : RequestId}
    (hcache : d'.cache = d.cache.remove id) (h : ¬ d.Waits p) : ¬ d'.Waits p := by
  rintro ⟨r, hr, hst⟩
  rw [hcache, TaskCache.get?_remove] at hr
  split at hr
  · cases hr
  · exact h ⟨r, hr, hst⟩

/-- No call makes an id wait, but the admission of a request under it. -/
theorem not_waits_apply (h : ¬ d.Waits p) {call : Call} (hcall : call.isAssign = false)
    (hadmitted : ∀ m r owner record d', call = .submit m r owner →
      d.admitRequest m r owner = .ok (record, d') → record.id ≠ p) : ¬ (d.apply call).Waits p := by
  cases call with
  | backend call =>
    refine applyBackend_unassigned (P := fun d => ¬ d.Waits p) ?_ ?pool ?ended ?progress ?absorb h
    · rintro now rfl
      cases hcall
    case pool => exact fun d p h => h
    case ended =>
      exact fun d id status message r h _ _ _ => not_waits_of_remove (cache_ended ..) h
    case progress =>
      intro d id now r h _
      rw [not_waits_iff] at h ⊢
      refine not_waits_modify h fun s => ?_
      by_cases hst : s.status = .assigning <;> simp [TaskRecord.progressed, hst]
    case absorb =>
      intro d r t h _ _
      unfold Dispatcher.absorb
      split <;> exact h
  | submit m r owner =>
    simp only [Dispatcher.apply]
    split
    · next record d' ha =>
      have hne := hadmitted m r owner record d' rfl ha
      obtain ⟨generated, rfl⟩ := (admits_of_admitRequest ha).engine_eq
      rintro ⟨s, hs, hst⟩
      have hget : (d.cache.tasks.insert record.id record).find? p = some s := hs
      rw [Table.find?_insert, if_neg hne.symm] at hget
      exact h ⟨s, hget, hst⟩
    · exact h
  | nextFragment id =>
    have hd := d.draws_nextFragment id
    show ¬ (d.nextFragment id).2.Waits p
    generalize (d.nextFragment id).1 = o at hd
    generalize (d.nextFragment id).2 = d' at hd ⊢
    cases hd with
    | fragment _ _ _ =>
      rw [not_waits_iff] at h ⊢
      exact not_waits_modify h fun _ hst => hst
    | untracked _ _ => exact h
    | unanswered _ _ => exact h
    | failed _ _ => exact h
    | finished _ _ _ _ => exact h
    | unread _ _ _ _ => exact h
  | finishDelivery id now =>
    simp only [Dispatcher.apply, finishDelivery_eq]
    exact not_waits_of_remove rfl h
  | cancelConnection owner now =>
    refine endEach_induction (P := fun d => ¬ d.Waits p) (fun d d' id hd he => ?_) _ h
    obtain ⟨-, rfl⟩ := endTask?_eq_some_iff.mp he
    exact not_waits_of_remove (cache_ended ..) hd

/-- A task that has just been sent does not wait. -/
theorem not_waits_of_sent {now : Millis} {worker : Nat} {d' : Dispatcher}
    (hb : d.Begins now (.sent p worker) d') : ¬ d'.Waits p := by
  cases hb with
  | sent _ _ hr _ _ _ =>
    rintro ⟨s, hs, hst⟩
    dsimp only at hs
    rw [TaskCache.get?_modify, if_pos rfl, hr] at hs
    cases hs
    cases hst

end Dispatcher

/-! ## Runs -/

namespace Midway

variable {b : Bounds} {s : Midway}

/-- The cache and the queues agree, as far as an assignment between its steps lets them. -/
def Agrees (b : Bounds) (s : Midway) : Prop :=
  match s.sent with
  | none => Listed b s.engine.cache s.engine.queue
  | some p => Halfway b p s.engine.cache s.engine.queue

/-- No second step in a run finds its id waiting. -/
def Undisturbed (s : Midway) (moves : List Move) : Prop :=
  ∀ before after id, moves = before ++ .enter :: after → (s.run before).sent = some id →
    ¬ (s.run before).engine.Waits id

/-- A move admits a request under the id whose assignment is between its steps. -/
def Readmits (s : Midway) (m : Move) : Prop :=
  ∃ moment r owner record d' h, m = .call (.submit moment r owner) h ∧
    s.engine.admitRequest moment r owner = .ok (record, d') ∧ s.sent = some record.id

/-- The id that is under way does not wait, unless it is admitted again. -/
theorem not_waits_step (h : ∀ id, s.sent = some id → ¬ s.engine.Waits id) {m : Move}
    (hm : ¬ s.Readmits m) : ∀ id, (s.step m).sent = some id → ¬ (s.step m).engine.Waits id := by
  obtain ⟨d, sent⟩ := s
  intro id hid
  cases m with
  | call c hc =>
    refine Dispatcher.not_waits_apply (h id hid) hc fun moment r owner record d' he ha hrecord => ?_
    subst he
    exact hm ⟨moment, r, owner, record, d', hc, rfl, ha, by rw [hrecord]; exact hid⟩
  | enter => cases sent <;> cases hid
  | send now =>
    cases sent with
    | some p => exact h id hid
    | none =>
      have hb := d.begins_beginAssign now
      simp only [Midway.step] at hid ⊢
      rcases hstep : d.beginAssign now with ⟨result | ⟨p, worker⟩, d'⟩ <;>
        rw [hstep] at hid hb
      · cases hid
      · cases hid
        exact Dispatcher.not_waits_of_sent hb

theorem not_waits_run (h : ∀ id, s.sent = some id → ¬ s.engine.Waits id) {moves : List Move}
    (hm : ∀ before after m, moves = before ++ m :: after → ¬ (s.run before).Readmits m) :
    ∀ id, (s.run moves).sent = some id → ¬ (s.run moves).engine.Waits id := by
  induction moves generalizing s with
  | nil => exact h
  | cons m moves ih =>
    refine ih (not_waits_step h (hm [] moves m rfl)) fun before after m' hsplit => ?_
    exact hm (m :: before) after m' (by rw [hsplit]; rfl)

theorem Agrees.step (h : s.Agrees b) {m : Move}
    (hm : m = .enter → ∀ id, s.sent = some id → ¬ s.engine.Waits id) : (s.step m).Agrees b := by
  obtain ⟨d, sent⟩ := s
  cases sent with
  | none =>
    cases m with
    | enter => exact h
    | call c hc => exact Listed.apply h c
    | send now =>
      have hb := d.begins_beginAssign now
      simp only [Midway.step]
      rcases hstep : d.beginAssign now with ⟨result | ⟨id, worker⟩, d'⟩
      · rw [hstep] at hb
        exact Halfway.of_done h hb
      · rw [hstep] at hb
        exact Halfway.of_sent h hb
  | some id =>
    cases m with
    | enter => exact Halfway.enter h (hm rfl id rfl)
    | call c hc => exact Halfway.apply h hc
    | send now => exact h

theorem Agrees.listed (h : s.Agrees b) (hs : s.sent = none) :
    Listed b s.engine.cache s.engine.queue := by
  obtain ⟨d, sent⟩ := s
  cases hs
  exact h

theorem Agrees.halfway (h : s.Agrees b) {id : RequestId} (hs : s.sent = some id) :
    Halfway b id s.engine.cache s.engine.queue := by
  obtain ⟨d, sent⟩ := s
  cases hs
  exact h

theorem sent_enter (s : Midway) : (s.step .enter).sent = none := by
  obtain ⟨d, _ | id⟩ := s <;> rfl

theorem engine_enter {id : RequestId} (hs : s.sent = some id) :
    (s.step .enter).engine = s.engine.commitAssign id := by
  obtain ⟨d, sent⟩ := s
  cases hs
  rfl

theorem Agrees.run (h : s.Agrees b) {moves : List Move} (hm : s.Undisturbed moves) :
    (s.run moves).Agrees b := by
  induction moves generalizing s with
  | nil => exact h
  | cons m moves ih =>
    refine ih (h.step ?_) ?_
    · rintro rfl id hid
      exact hm [] moves id rfl hid
    · intro before after id hsplit hid
      exact hm (m :: before) after id (by rw [hsplit]; rfl) hid

theorem run_concat (s : Midway) (moves : List Move) (m : Move) :
    s.run (moves ++ [m]) = (s.run moves).step m := by
  rw [run, List.foldl_append]
  rfl

theorem undisturbed_nil (s : Midway) : s.Undisturbed [] := by
  intro before after id hsplit
  cases before <;> cases hsplit

theorem Undisturbed.left {moves before after : List Move} (h : s.Undisturbed moves)
    (hsplit : moves = before ++ after) : s.Undisturbed before := by
  intro b a id hb
  exact h b (a ++ after) id (by rw [hsplit, hb, List.append_assoc]; rfl)

theorem Undisturbed.concat {moves : List Move} (h : s.Undisturbed moves) {m : Move}
    (hm : m = .enter → ∀ id, (s.run moves).sent = some id → ¬ (s.run moves).engine.Waits id) :
    s.Undisturbed (moves ++ [m]) := by
  intro before after id hsplit hid
  rcases List.eq_nil_or_concat after with rfl | ⟨after, last, rfl⟩
  · obtain ⟨rfl, hlast⟩ := List.append_inj' hsplit rfl
    exact hm (List.singleton_inj.mp hlast) id hid
  · rw [List.concat_eq_append, ← List.cons_append, ← List.append_assoc] at hsplit
    exact h before after id (List.append_inj' hsplit rfl).1 hid

/-- A second step that finds its id waiting leaves the processing queue wrong. -/
theorem Agrees.not_entered (h : s.Agrees b) {id : RequestId} (hid : s.sent = some id)
    (hw : s.engine.Waits id) : ¬ (s.step .enter).engine.Entered := by
  rw [engine_enter hid]
  intro hentered
  obtain ⟨-, hmem, r, hr, hst⟩ := (h.halfway hid).enter_waiting hw
  obtain ⟨r', hr', hst'⟩ := (hentered.mem_iff id).mp hmem
  cases hr.symm.trans hr'
  rw [hst] at hst'
  cases hst'

end Midway

/-- What comes between the two steps of an assignment. For every run of an engine that began
empty, with any calls between the steps, whenever no assignment is between its steps the
processing queue lists exactly the processing tasks, each once, if and only if no second step
finds its id waiting. Only when the id is admitted again between the steps can it wait by then.
As long as no second step finds its id waiting, cache and queues agree altogether; the first one
that does leaves the id in both queues, and waiting. -/
theorem interleaved_assignments (maxTasks maxPending maxProcessing maxWorkers : Nat)
    (moves : List Move) :
    let start : Midway := ⟨Dispatcher.create maxTasks maxPending maxProcessing maxWorkers, none⟩
    ((∀ before after, moves = before ++ after → (start.run before).sent = none →
        (start.run before).engine.Entered) ↔ start.Undisturbed moves) ∧
    ((∀ before after m, moves = before ++ m :: after → ¬ (start.run before).Readmits m) →
      start.Undisturbed moves) ∧
    (start.Undisturbed moves → (start.run moves).sent = none →
      Listed ⟨maxTasks, maxPending, maxProcessing⟩ (start.run moves).engine.cache
        (start.run moves).engine.queue) ∧
    (∀ before after id, moves = before ++ .enter :: after → start.Undisturbed before →
      (start.run before).sent = some id → (start.run before).engine.Waits id →
      id ∈ (start.run (before ++ [.enter])).engine.queue.pending ∧
        id ∈ (start.run (before ++ [.enter])).engine.queue.processing ∧
        (start.run (before ++ [.enter])).engine.Waits id) := by
  intro start
  have hstart : start.Agrees ⟨maxTasks, maxPending, maxProcessing⟩ := Listed.create _ _ _ _
  have hagrees : ∀ moves, start.Undisturbed moves →
      (start.run moves).Agrees ⟨maxTasks, maxPending, maxProcessing⟩ := fun _ h => hstart.run h
  refine ⟨⟨fun hentered => ?_, fun hmoves before after hsplit hsent => ?_⟩, fun hnew => ?_,
    fun hmoves hsent => (hagrees moves hmoves).listed hsent, ?_⟩
  · -- step by step, since only before the first disturbance the second step has room
    have hprefix : ∀ before after, moves = before ++ after → start.Undisturbed before := by
      intro before
      induction before using List.reverseRecOn with
      | nil => exact fun _ _ => Midway.undisturbed_nil start
      | append_singleton before m ih =>
        intro after hsplit
        have hbefore := ih (m :: after) (by rw [hsplit, List.append_assoc]; rfl)
        refine hbefore.concat ?_
        rintro rfl id hid hw
        refine (hagrees before hbefore).not_entered hid hw ?_
        rw [← Midway.run_concat]
        refine hentered (before ++ [.enter]) after hsplit ?_
        rw [Midway.run_concat]
        exact Midway.sent_enter _
    exact hprefix moves [] (List.append_nil _).symm
  · exact ((hagrees before (hmoves.left hsplit)).listed hsent).entered
  · intro before after id hsplit
    refine Midway.not_waits_run (by rintro _ ⟨⟩) (fun b a m hb => ?_) id
    exact hnew b (a ++ .enter :: after) m (by rw [hsplit, hb, List.append_assoc]; rfl)
  · intro before after id _ hbefore hid hw
    rw [Midway.run_concat]
    have hh := (hagrees before hbefore).halfway hid
    rw [Midway.engine_enter hid]
    exact hh.enter_waiting hw

/-- A client asks for `p` and leaves while its line is being written; another client asks for
`p` before the second step comes. -/
def readmittedMoves : List Move :=
  let ask (owner : ConnectionId) : Move :=
    .call (.submit { now := 0, newId := fun _ => "" } { id := some "p" } owner) rfl
  let workers : WorkerPool :=
    { maxWorkers := 1
      slots := [{ address := "a", link := 0, lastSeen := 0 }]
      links := [.fresh] }
  [.call (.backend (.pool workers)) rfl, ask 1, .send 0, .call (.cancelConnection 1 0) rfl, ask 2,
    .enter, .send 0, .enter, .call (.cancelConnection 2 0) rfl]

set_option maxRecDepth 100000 in
/-- The id is processing while its task waits, then it is processing twice, and in the end one of
the two places stays taken although no task is left. -/
theorem readmitted_id_keeps_place :
    let start : Midway := ⟨Dispatcher.create 8 8 2 1, none⟩
    let after (n : Nat) : Dispatcher := (start.run (readmittedMoves.take n)).engine
    let tasks (d : Dispatcher) : List (RequestId × ConnectionId × TaskStatus) :=
      d.cache.records.map fun r => (r.id, r.owner, r.status)
    (∀ n ∈ [6, 8, 9], (start.run (readmittedMoves.take n)).sent = none) ∧
    (tasks (after 6) = [("p", 2, .pending)] ∧ (after 6).queue.pending = ["p"] ∧
      (after 6).queue.processing = ["p"]) ∧
    (tasks (after 8) = [("p", 2, .processing)] ∧ (after 8).queue.processing = ["p", "p"]) ∧
    (tasks (after 9) = [] ∧ (after 9).queue.processing = ["p"]) := by
  decide +kernel

end PromptGateway
