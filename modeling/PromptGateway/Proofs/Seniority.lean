import PromptGateway.Proofs.Dispatch
import PromptGateway.Proofs.Interleaving
import Mathlib.Data.List.Nodup

/-
  Who was admitted first is sent first.

  The pending queue holds ids, and an id can leave it from the middle and come back at the
  end under another request. Its order is therefore told by the diary of the run and not by
  the queue alone. `requests` is the list of all admissions in the diary, without those whose
  id was admitted again later; what has become of them since is not looked at.

    1. `requests_admitted`: a request that is admitted comes last. A request that was admitted
       before another one stands before it (`sublist_requests`).
    2. `Lined`: the pending queue is that list, less the requests that wait no longer. Whatever
       happens to a queue that is lined up, as long as only requests leave it that wait no
       longer, it stays so (`Lined.thins`), and no act does anything else but an admission
       (`Lined.act`).
    3. `first_come_first_dispatched`: a line that is written is that of the first request that
       still waits.
-/

namespace PromptGateway

/-! ## The order of admission -/

/-- Whether an entry admits a request under an id. -/
def Entry.admits (id : RequestId) : Entry → Bool
  | admitted r => r.id == id
  | written _ => false

/-- The requests of a diary in the order of their admission, without those whose id was
admitted again later. -/
def requests : List Entry → List TaskRecord
  | [] => []
  | .admitted r :: log => if log.any (Entry.admits r.id) then requests log else r :: requests log
  | .written _ :: log => requests log

theorem requests_admitted (log : List Entry) (r : TaskRecord) :
    requests (log ++ [.admitted r]) = (requests log).filter (·.id != r.id) ++ [r] := by
  induction log with
  | nil => rfl
  | cons e log ih =>
    cases e with
    | written a => exact ih
    | admitted s =>
      have hany : (log ++ [Entry.admitted r]).any (Entry.admits s.id) =
          (log.any (Entry.admits s.id) || r.id == s.id) := by
        simp [Entry.admits]
      rw [List.cons_append, requests, requests, hany, ih]
      by_cases hid : r.id = s.id
      · cases log.any (Entry.admits s.id) <;> simp [hid]
      · cases log.any (Entry.admits s.id) <;> simp [hid, Ne.symm hid]

theorem requests_written (log : List Entry) (a : Attempt) :
    requests (log ++ [.written a]) = requests log := by
  induction log with
  | nil => rfl
  | cons e log ih => cases e <;> simp [requests, Entry.admits, ih]

theorem nodup_requests (log : List Entry) : ((requests log).map (·.id)).Nodup := by
  -- what is in the list was admitted, so its id is not that of a request before it
  have hadmits : ∀ log r, r ∈ requests log → log.any (Entry.admits r.id) = true := by
    intro log
    induction log with
    | nil => simp [requests]
    | cons e log ih =>
      intro r hr
      cases e with
      | written a => simpa [Entry.admits] using ih r hr
      | admitted s =>
        rw [requests] at hr
        split at hr
        · rw [List.any_cons, ih r hr, Bool.or_true]
        · rcases List.mem_cons.mp hr with rfl | hr
          · simp [Entry.admits]
          · rw [List.any_cons, ih r hr, Bool.or_true]
  induction log with
  | nil => exact List.nodup_nil
  | cons e log ih =>
    cases e with
    | written a => exact ih
    | admitted s =>
      rw [requests]
      split
      · exact ih
      · next hnew =>
        refine List.nodup_cons.mpr ⟨fun hs => ?_, ih⟩
        obtain ⟨r, hr, hid⟩ := List.mem_map.mp hs
        have hlater := hadmits log r hr
        rw [hid] at hlater
        exact hnew hlater

theorem requests_suffix (front back : List Entry) : requests back <:+ requests (front ++ back) := by
  induction front with
  | nil => exact List.suffix_refl _
  | cons e front ih =>
    refine ih.trans ?_
    cases e with
    | written a => exact List.suffix_refl _
    | admitted r =>
      rw [List.cons_append, requests]
      split
      · exact List.suffix_refl _
      · exact List.suffix_cons _ _

/-- Of two requests whose ids have not been admitted again, the one that was admitted first
stands first. -/
theorem sublist_requests {front mid back : List Entry} {a b : TaskRecord}
    (ha : ∀ e ∈ mid ++ .admitted b :: back, e.admits a.id = false)
    (hb : ∀ e ∈ back, e.admits b.id = false) :
    List.Sublist [a, b] (requests (front ++ .admitted a :: (mid ++ .admitted b :: back))) := by
  have hback : requests (.admitted b :: back) = b :: requests back := by
    rw [requests, if_neg]
    simpa only [List.any_eq_true, not_exists, not_and, Bool.not_eq_true] using hb
  have hmid : requests (.admitted a :: (mid ++ .admitted b :: back)) =
      a :: requests (mid ++ .admitted b :: back) := by
    rw [requests, if_neg]
    simpa only [List.any_eq_true, not_exists, not_and, Bool.not_eq_true] using ha
  refine List.Sublist.trans ?_ (requests_suffix front _).sublist
  rw [hmid]
  refine List.Sublist.cons_cons a (List.Sublist.trans ?_ (requests_suffix mid _).sublist)
  rw [hback]
  exact List.Sublist.cons_cons b (List.nil_sublist _)

/-! ## Who waits -/

namespace Dispatcher

variable {d d' : Dispatcher} {id j : RequestId}

/-- Whether an id has a record that waits for a worker. -/
def isWaiting (d : Dispatcher) (id : RequestId) : Bool :=
  (d.cache.get? id).any (·.status == .pending)

theorem isWaiting_iff : d.isWaiting id = true ↔ d.Waits id := by
  simp [isWaiting, Waits, Option.any_eq_true]

theorem waits_of_cache_eq (h : d'.cache = d.cache) (hw : d.Waits j) : d'.Waits j := by
  rwa [Waits, h]

theorem waits_modify {f : TaskRecord → TaskRecord} (hc : d'.cache = d.cache.modify id f)
    (hf : ∀ r, d.cache.get? id = some r → r.status = .pending → (f r).status = .pending)
    (hw : d.Waits j) : d'.Waits j := by
  obtain ⟨r, hr, hst⟩ := hw
  rw [Waits, hc]
  by_cases hj : j = id
  · subst hj
    exact ⟨f r, by rw [TaskCache.get?_modify, if_pos rfl, hr]; rfl, hf r hr hst⟩
  · exact ⟨r, by rw [TaskCache.get?_modify, if_neg hj, hr], hst⟩

theorem waits_remove (hc : d'.cache = d.cache.remove id) :
    d'.Waits j ↔ j ≠ id ∧ d.Waits j := by
  rw [Waits, hc, TaskCache.get?_remove]
  by_cases hj : j = id <;> simp [hj, Waits]

theorem Retains.waits (h : d.Retains d') (hw : d'.Waits j) : d.Waits j := by
  obtain ⟨r', hr', hst⟩ := hw
  obtain ⟨r, hr, -, hback⟩ := h j r' hr'
  exact ⟨r, hr, hback hst⟩

theorem pending_commitAssign (d : Dispatcher) (id : RequestId) :
    (d.commitAssign id).queue.pending = d.queue.pending := by
  simp only [commitAssign]
  split
  · split
    · next hq => rw [(TaskQueue.enqueueProcessing?_eq_some_iff.mp hq).2]
    · rfl
  · rfl

theorem waits_commitAssign (d : Dispatcher) (id : RequestId) (hw : d.Waits j) :
    (d.commitAssign id).Waits j :=
  waits_modify (cache_commitAssign d id) (fun r _ hst => by simp [hst]) hw

end Dispatcher

/-! ## The queue -/

/-- The pending queue lists the requests of a diary that still wait, in the order of their
admission, and whatever is in the cache is one of the requests. -/
structure Lined (d : Dispatcher) (log : List Entry) : Prop where
  pending : d.queue.pending = ((requests log).filter fun r => d.isWaiting r.id).map (·.id)
  known : ∀ id r', d.cache.get? id = some r' → ∃ r ∈ requests log, r.id = id ∧
    Dispatcher.taskMessage r' = Dispatcher.taskMessage r

namespace Lined

variable {d d' : Dispatcher} {log : List Entry} {id : RequestId}

theorem nodup (h : Lined d log) : d.queue.pending.Nodup := by
  rw [h.pending]
  exact (nodup_requests log).sublist (List.filter_sublist.map _)

theorem mem_iff (h : Lined d log) : id ∈ d.queue.pending ↔ d.Waits id := by
  rw [h.pending, List.mem_map]
  constructor
  · rintro ⟨r, hr, rfl⟩
    exact Dispatcher.isWaiting_iff.mp (List.mem_filter.mp hr).2
  · intro hw
    have hwaiting := Dispatcher.isWaiting_iff.mpr hw
    obtain ⟨r', hr', -⟩ := hw
    obtain ⟨r, hr, rfl, -⟩ := h.known _ r' hr'
    exact ⟨r, List.mem_filter.mpr ⟨hr, hwaiting⟩, rfl⟩

/-- Only requests that wait no longer leave the queue. -/
theorem thins (h : Lined d log) (hr : d.Retains d')
    (hq : d'.queue.pending = d.queue.pending.filter d'.isWaiting) : Lined d' log where
  pending := by
    rw [hq, h.pending, List.filter_map, List.filter_filter]
    refine congrArg _ (List.filter_congr fun r _ => ?_)
    -- who waits has waited before
    cases hw : d'.isWaiting r.id with
    | false => simp [hw]
    | true =>
      have hbefore := hr.waits (Dispatcher.isWaiting_iff.mp hw)
      simp [hw, Dispatcher.isWaiting_iff.mpr hbefore]
  known := fun id r'' hr'' => by
    obtain ⟨r', hr', hm, -⟩ := hr id r'' hr''
    obtain ⟨r, hmem, hid, hm'⟩ := h.known id r' hr'
    exact ⟨r, hmem, hid, hm.trans hm'⟩

theorem same (h : Lined d log) (hr : d.Retains d') (hq : d'.queue.pending = d.queue.pending)
    (hw : ∀ j, d.Waits j → d'.Waits j) : Lined d' log := by
  refine h.thins hr ?_
  rw [hq, eq_comm, List.filter_eq_self]
  exact fun j hj => Dispatcher.isWaiting_iff.mpr (hw j (h.mem_iff.mp hj))

theorem leaves (h : Lined d log) (id : RequestId) (hr : d.Retains d')
    (hq : d'.queue.pending = d.queue.pending.erase id) (hid : ¬ d'.Waits id)
    (hw : ∀ j, j ≠ id → d.Waits j → d'.Waits j) : Lined d' log := by
  refine h.thins hr ?_
  rw [hq, h.nodup.erase_eq_filter]
  refine List.filter_congr fun j hj => ?_
  rw [Bool.eq_iff_iff, Dispatcher.isWaiting_iff, bne_iff_ne]
  refine ⟨fun hne => hw j hne (h.mem_iff.mp hj), ?_⟩
  rintro hj' rfl
  exact hid hj'

theorem removed (h : Lined d log) (id : RequestId) (hr : d.Retains d')
    (hc : d'.cache = d.cache.remove id) (hq : d'.queue.pending = d.queue.pending.erase id) :
    Lined d' log := by
  have hw := fun j => Dispatcher.waits_remove (j := j) hc
  exact h.leaves id hr hq (fun hid => ((hw id).mp hid).1 rfl) fun j hne hj => (hw j).mpr ⟨hne, hj⟩

theorem ended (h : Lined d log) (id : RequestId) (status : TaskStatus) (message : String) :
    Lined (d.ended id status message) log :=
  h.removed id (Dispatcher.retains_ended id status message) (d.cache_ended ..)
    (by rw [Dispatcher.queue_ended]; rfl)

theorem endEach (h : Lined d log) (qualifies : Dispatcher → TaskRecord → Bool)
    (status : TaskStatus) (message : String) (now : Millis) (records : List TaskRecord) :
    Lined (d.endEach qualifies status message now records).2 log := by
  refine Dispatcher.endEach_induction (P := fun d => Lined d log) ?_ records h
  intro d d' id hd he
  obtain ⟨-, rfl⟩ := Dispatcher.endTask?_eq_some_iff.mp he
  exact hd.ended id status message

theorem applyBackend (h : Lined d log) (call : BackendCall)
    (hcall : ∀ now, call ≠ .assign now) : Lined (d.applyBackend call) log := by
  refine Dispatcher.applyBackend_unassigned (P := fun d => Lined d log) hcall
    ?pool ?ended ?progress ?absorb h
  case pool =>
    exact fun d p h => h.same (.of_cache_eq rfl) rfl fun _ => Dispatcher.waits_of_cache_eq rfl
  case ended => exact fun d id status message _ h _ _ _ => h.ended id status message
  case progress =>
    intro d id now r h _
    have hpending : ∀ r : TaskRecord, r.status = .pending →
        (r.progressed now).status = .pending := fun r hst => by
      simp [TaskRecord.progressed, hst]
    refine h.same (Dispatcher.retains_progress id now) rfl fun j => ?_
    exact Dispatcher.waits_modify rfl fun r _ => hpending r
  case absorb =>
    exact fun d r t h _ _ => h.same (.of_cache_eq (d.cache_absorb r))
      (by rw [Dispatcher.queue_absorb]) fun _ => Dispatcher.waits_of_cache_eq (d.cache_absorb r)

theorem begins (h : Lined d log) {now : Millis} {step : AssignStep} (hb : d.Begins now step d') :
    Lined d' log := by
  -- to take the first id out of the queue and its request out of both stores
  have dropped : ∀ {id rest}, d.queue.pending = id :: rest → ∀ message,
      Lined ((d.dequeued rest).ended id .failed message) log := by
    intro id rest hp message
    have hnodup := h.nodup
    rw [hp, List.nodup_cons] at hnodup
    refine h.removed id (.of_remove (Dispatcher.cache_ended ..)) (Dispatcher.cache_ended ..) ?_
    rw [Dispatcher.queue_ended, hp, List.erase_cons_head]
    exact List.erase_of_not_mem hnodup.1
  have hretains := Dispatcher.retains_begins hb
  cases hb with
  | saturated _ => exact h
  | idle _ _ => exact h
  | skipped _ hp hno =>
    obtain ⟨r, hr, hst⟩ := h.mem_iff.mp (hp ▸ List.mem_cons_self)
    exact absurd hst (hno r hr)
  | unserved _ hp _ _ _ => exact dropped hp _
  | @undelivered _ _ _ _ _ e pool' _ hp _ _ _ _ =>
    exact (dropped hp e.message).applyBackend (.pool pool') (by simp)
  | @sent id rest _ _ _ _ hsat hp hr hst hsel hsend =>
    refine h.leaves id hretains ?_ ?_ ?_
    · rw [hp, List.erase_cons_head]
      rfl
    · exact Dispatcher.not_waits_of_sent (.sent hsat hp hr hst hsel hsend)
    · rintro j hne ⟨s, hs, hpending⟩
      exact ⟨s, by rw [← hs]; exact (TaskCache.get?_modify ..).trans (if_neg hne), hpending⟩

theorem admits (h : Lined d log) {m : Moment} {r : InferenceRequest} {owner : ConnectionId}
    {record : TaskRecord} (ha : d.Admits m r owner record d') :
    Lined d' (log ++ [.admitted record]) := by
  have hstatus : record.status = .pending := by
    rw [ha.record_eq]
    rfl
  have hget : ∀ j, d'.cache.get? j = if j = record.id then some record else d.cache.get? j := by
    obtain ⟨generated, rfl⟩ := ha.engine_eq
    exact fun j => Table.find?_insert ..
  have hqueue : d'.queue.pending = d.queue.pending ++ [record.id] := by
    obtain ⟨generated, rfl⟩ := ha.engine_eq
    rfl
  constructor
  · -- the new one waits, and the others wait as they did
    have hlast : d'.isWaiting record.id = true := by
      simp [Dispatcher.isWaiting, hget, hstatus]
    have hothers : ∀ s : TaskRecord,
        (d'.isWaiting s.id && s.id != record.id) = d.isWaiting s.id := by
      intro s
      by_cases hid : s.id = record.id
      · simp [hid, Dispatcher.isWaiting, ha.fresh]
      · simp [hid, Dispatcher.isWaiting, hget]
    rw [hqueue, h.pending, requests_admitted, List.filter_append, List.filter_filter,
      List.map_append]
    simp [hothers, hlast]
  · intro id r' hr'
    rw [requests_admitted]
    rw [hget] at hr'
    split at hr'
    · next hid =>
      cases hr'
      exact ⟨record, by simp, hid.symm, rfl⟩
    · next hid =>
      obtain ⟨s, hs, hsid, hm⟩ := h.known id r' hr'
      refine ⟨s, List.mem_append_left _ (List.mem_filter.mpr ⟨hs, ?_⟩), hsid, hm⟩
      simpa [hsid] using hid

/-- A write changes nothing about who was admitted when. -/
theorem written (h : Lined d log) (a : Attempt) : Lined d (log ++ [.written a]) := by
  have hsame := requests_written log a
  exact ⟨hsame ▸ h.pending, hsame ▸ h.known⟩

theorem beginAssign (h : Lined d log) (now : Millis) :
    Lined (d.beginAssign now).2 (log ++ d.entries (.beginAssign now)) := by
  have hbegun := h.begins (d.begins_beginAssign now)
  rw [Dispatcher.entries]
  cases d.attempt? with
  | none => rwa [Option.toList_none, List.map_nil, List.append_nil]
  | some a => exact hbegun.written a

theorem commitAssign (h : Lined d log) (id : RequestId) : Lined (d.commitAssign id) log :=
  h.same (Dispatcher.retains_commitAssign d id) (d.pending_commitAssign id) fun _ =>
    d.waits_commitAssign id

theorem draws (h : Lined d log) {id : RequestId} {o : Drain} (hd : d.Draws id o d') :
    Lined d' log := by
  have hretains := Dispatcher.retains_draws hd
  cases hd with
  | fragment _ _ _ => exact h.same hretains rfl fun _ => Dispatcher.waits_modify rfl fun _ _ hst => hst
  | failed _ _ => exact h.same hretains rfl fun _ => Dispatcher.waits_of_cache_eq rfl
  | untracked _ _ => exact h
  | unanswered _ _ => exact h
  | finished _ _ _ _ => exact h
  | unread _ _ _ _ => exact h

theorem act (h : Lined d log) (act : Act) : Lined (d.act act) (log ++ d.entries act) := by
  have quiet : ∀ {d'}, Lined d' log → Lined d' (log ++ []) := fun hd => by rwa [List.append_nil]
  have hretains := @Dispatcher.retains_act d act
  cases act with
  | submit m r owner =>
    simp only [Dispatcher.act, Dispatcher.entries]
    split
    · next ha => exact h.admits (Dispatcher.admits_of_admitRequest ha)
    · exact quiet h
  | assign now =>
    have hbegun := h.beginAssign now
    simp only [Dispatcher.act]
    rcases d.assignNext_eq now with he | ⟨id, he⟩
    · rwa [he]
    · rw [he]
      exact hbegun.commitAssign id
  | beginAssign now => exact h.beginAssign now
  | commitAssign id => exact quiet (h.commitAssign id)
  | hear now worker line => exact quiet (h.applyBackend (.hear now worker line) (by simp))
  | failWorker worker now => exact quiet (h.applyBackend (.failWorker worker now) (by simp))
  | sweep now timeoutMs clock => exact quiet (h.applyBackend (.sweep now timeoutMs clock) (by simp))
  | nextFragment id => exact quiet (h.draws (d.draws_nextFragment id))
  | finishDelivery id now =>
    refine quiet (h.removed id (hretains (by simp)) ?_ ?_) <;>
      rw [Dispatcher.act, Dispatcher.finishDelivery_eq] <;> rfl
  | cancelConnection owner now => exact quiet (h.endEach _ _ _ _ _)
  | clearStream id =>
    exact quiet (h.same (hretains (by simp)) rfl fun _ => Dispatcher.waits_of_cache_eq rfl)
  | pool call =>
    exact quiet (h.same (hretains (by simp)) rfl fun _ => Dispatcher.waits_of_cache_eq rfl)

theorem perform (h : Lined d log) (acts : List Act) :
    Lined (d.perform acts) (log ++ d.diary acts) := by
  induction acts generalizing d log with
  | nil => rwa [Dispatcher.diary, journal, List.append_nil]
  | cons act acts ih =>
    rw [Dispatcher.diary, journal, ← List.append_assoc]
    exact ih (h.act act)

theorem create (maxTasks maxPending maxProcessing maxWorkers : Nat) :
    Lined (Dispatcher.create maxTasks maxPending maxProcessing maxWorkers) [] :=
  ⟨rfl, fun _ _ h => nomatch h⟩

/-- Of the requests that wait the first is written, and with its own line. -/
theorem first (h : Lined d log) {w : Attempt} (hw : d.attempt? = some w) :
    ∃ r later, ((requests log).filter fun r => d.isWaiting r.id) = r :: later ∧ w.id = r.id ∧
      w.line = (Dispatcher.taskMessage r).encode := by
  obtain ⟨-, rest, r', -, hp, hr', -, -, hline, -⟩ := Dispatcher.attempt?_eq_some_iff.mp hw
  rw [h.pending] at hp
  obtain ⟨r, later, hfirst, hid, -⟩ := List.map_eq_cons_iff.mp hp
  obtain ⟨s, hs, hsid, hm⟩ := h.known w.id r' hr'
  -- the list of requests has only one under the id
  have hmem : r ∈ requests log := by
    have := hfirst ▸ List.mem_cons_self (a := r) (l := later)
    exact (List.mem_filter.mp this).1
  have hsame : s = r := List.inj_on_of_nodup_map (nodup_requests log) hs hmem (hsid.trans hid.symm)
  exact ⟨r, later, hfirst, hid.symm, by rw [hline, hm, hsame]⟩

/-- While a request waits that was admitted before another one, the other is not the first in
the queue. -/
theorem ne_head (h : Lined d log) {a b : TaskRecord} (hab : List.Sublist [a, b] (requests log))
    (ha : d.Waits a.id) {rest : List RequestId} (hp : d.queue.pending = id :: rest) : id ≠ b.id := by
  rintro rfl
  have hb : d.Waits b.id := h.mem_iff.mp (hp ▸ List.mem_cons_self)
  have hqueue : List.Sublist [a.id, b.id] d.queue.pending := by
    have hfilter := (hab.filter fun r => d.isWaiting r.id).map (·.id)
    rw [h.pending]
    simpa [Dispatcher.isWaiting_iff.mpr ha, Dispatcher.isWaiting_iff.mpr hb] using hfilter
  have hnodup := h.nodup
  rw [hp] at hqueue hnodup
  exact (List.nodup_cons.mp hnodup).1 (hqueue.tail.subset (List.mem_singleton_self _))

end Lined

/-- An entry that tells of a write stands for what the next assignment would write. -/
theorem Dispatcher.attempt?_of_written {d : Dispatcher} {act : Act} {w : Attempt}
    (h : .written w ∈ d.entries act) : d.attempt? = some w := by
  cases act with
  | submit m r owner =>
    simp only [entries] at h
    split at h <;> simp at h
  | assign now => simpa [entries] using h
  | beginAssign now => simpa [entries] using h
  | _ => cases h

/-- First come, first dispatched. At any moment of any run of an engine that began empty, with
whatever is admitted, assigned, answered, failed, swept, delivered and cancelled in whichever
order, and also between the two steps of an assignment:

the pending queue is the list of the requests that still wait, in the order of their admission,
and every record that is pending is that of a request in this list, which it agrees with;

whatever line the next act writes to a worker is that of the first request in this list;

and so it is no line of a request `b` as long as a request `a` still waits that was admitted
before it, where neither id has been admitted again since. -/
theorem first_come_first_dispatched (maxTasks maxPending maxProcessing maxWorkers : Nat)
    (acts : List Act) :
    let start := Dispatcher.create maxTasks maxPending maxProcessing maxWorkers
    let d := start.perform acts
    let log := start.diary acts
    (d.queue.pending = ((requests log).filter fun r => d.isWaiting r.id).map (·.id) ∧
      ∀ id r', d.cache.get? id = some r' → r'.status = .pending → id ∈ d.queue.pending ∧
        ∃ r ∈ requests log, r.id = id ∧ Dispatcher.taskMessage r' = Dispatcher.taskMessage r) ∧
    (∀ act w, .written w ∈ d.entries act →
      ∃ r later, ((requests log).filter fun r => d.isWaiting r.id) = r :: later ∧ w.id = r.id ∧
        w.line = (Dispatcher.taskMessage r).encode) ∧
    (∀ act w, .written w ∈ d.entries act → ∀ front mid back a b,
      log = front ++ .admitted a :: (mid ++ .admitted b :: back) →
      (∀ e ∈ mid ++ .admitted b :: back, e.admits a.id = false) →
      (∀ e ∈ back, e.admits b.id = false) →
      d.Waits a.id → w.id ≠ b.id) := by
  intro start d log
  have h : Lined d log := (Lined.create ..).perform acts
  refine ⟨⟨h.pending, fun id r' hr' hst => ⟨h.mem_iff.mpr ⟨r', hr', hst⟩, h.known id r' hr'⟩⟩,
    fun act w hw => h.first (Dispatcher.attempt?_of_written hw), ?_⟩
  intro act w hw front mid back a b hlog ha hb hwaits
  obtain ⟨-, rest, r, pool, hp, -⟩ :=
    Dispatcher.attempt?_eq_some_iff.mp (Dispatcher.attempt?_of_written hw)
  exact h.ne_head (hlog ▸ sublist_requests ha hb) hwaits hp

end PromptGateway
