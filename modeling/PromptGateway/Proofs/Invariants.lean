import PromptGateway.Proofs.Dispatch
import PromptGateway.Proofs.Pairing

/-
  What the acts on an engine keep.

  An act is anything that can happen to an engine, one thing at a time, and the two steps of an
  assignment are acts of their own. Three things are kept:

    1. the bounds of the stores (`bounds_perform`);
    2. that no failure is left in the stream of a request that has a record
       (`Unfailed.perform`), so that the reason for which a task ends is the first one and is
       the one that its client is told;
    3. that the cache and the two queues agree, unless an assignment is made in two steps
       (`Listed.perform`).

  The first two hold between the steps of an assignment as well, and the third does not: an id
  that is admitted anew between the two steps is entered in both queues.
-/

namespace PromptGateway

/-- Whether an act is more than one step of an assignment. -/
def Act.isWhole : Act → Bool
  | .beginAssign _ | .commitAssign _ => false
  | .submit _ _ _ | .assign _ | .hear _ _ _ | .failWorker _ _ | .sweep _ _ _ | .nextFragment _
  | .finishDelivery _ _ | .cancelConnection _ _ | .clearStream _ | .pool _ => true

namespace Dispatcher

variable {d d' : Dispatcher}

/-! ## Bounds -/

/-- The bounds of an engine. -/
def bounds (d : Dispatcher) : Bounds :=
  ⟨d.cache.capacity, d.queue.maxPending, d.queue.maxProcessing⟩

theorem bounds_ended (d : Dispatcher) (id : RequestId) (status : TaskStatus) (message : String) :
    (d.ended id status message).bounds = d.bounds := by
  rw [bounds, cache_ended, queue_ended]
  rfl

theorem bounds_endEach {q : Dispatcher → TaskRecord → Bool} {status : TaskStatus}
    {message : String} {now : Millis} (records : List TaskRecord) :
    (d.endEach q status message now records).2.bounds = d.bounds := by
  refine endEach_induction (P := fun d' => d'.bounds = d.bounds) (fun d₁ d₂ id h he => ?_) _ rfl
  obtain ⟨-, rfl⟩ := endTask?_eq_some_iff.mp he
  rw [bounds_ended, h]

theorem bounds_begins {now : Millis} {step : AssignStep} (h : d.Begins now step d') :
    d'.bounds = d.bounds := by
  cases h with
  | saturated _ => rfl
  | idle _ _ => rfl
  | skipped _ _ _ => rfl
  | unserved _ _ _ _ _ => exact bounds_ended ..
  | @undelivered id rest _ _ _ e _ _ _ _ _ _ _ =>
    exact (d.dequeued rest).bounds_ended id _ e.message
  | sent _ _ _ _ _ _ => rfl

theorem bounds_commitAssign (d : Dispatcher) (id : RequestId) :
    (d.commitAssign id).bounds = d.bounds := by
  simp only [commitAssign]
  split
  · split
    · next hq =>
      obtain ⟨-, rfl⟩ := TaskQueue.enqueueProcessing?_eq_some_iff.mp hq
      rfl
    · rfl
  · rfl

theorem bounds_hears {now : Millis} {message : Except DecodeError WireMessage} {o : IngestOutcome}
    (h : d.Hears now message o d') : d'.bounds = d.bounds := by
  have habsorb : ∀ (d : Dispatcher) r, (d.absorb r).bounds = d.bounds := by
    intro d r
    rw [bounds, cache_absorb, queue_absorb]
    rfl
  cases h with
  | more _ _ _ => exact habsorb ..
  | last _ _ _ => exact habsorb ..
  | failed _ _ _ => exact bounds_ended ..
  | _ => rfl

theorem bounds_draws {id : RequestId} {o : Drain} (h : d.Draws id o d') : d'.bounds = d.bounds := by
  cases h <;> rfl

/-- No act changes the bounds of an engine. -/
theorem bounds_act (d : Dispatcher) (a : Act) : (d.act a).bounds = d.bounds := by
  cases a with
  | submit m r owner =>
    simp only [act]
    split
    · next ha =>
      obtain ⟨generated, rfl⟩ := (admits_of_admitRequest ha).engine_eq
      rfl
    · rfl
  | assign now =>
    have hbegins := bounds_begins (d.begins_beginAssign now)
    simp only [act]
    rcases d.assignNext_eq now with he | ⟨id, he⟩
    · rw [he, hbegins]
    · rw [he, bounds_commitAssign, hbegins]
  | beginAssign now => exact bounds_begins (d.begins_beginAssign now)
  | commitAssign id => exact bounds_commitAssign d id
  | hear now worker line =>
    obtain ⟨p, hp⟩ := d.ingest_eq_heard now worker line
    simp only [act, hp]
    exact (bounds_hears (d.hears_heard now (WireMessage.decode line)) :)
  | failWorker worker now => exact bounds_endEach _
  | sweep now timeoutMs clock => exact bounds_endEach _
  | nextFragment id => exact bounds_draws (d.draws_nextFragment id)
  | finishDelivery id now =>
    rw [act, finishDelivery_eq]
    rfl
  | cancelConnection owner now => exact bounds_endEach _
  | clearStream id => rfl
  | pool call => rfl

theorem bounds_perform (d : Dispatcher) (acts : List Act) : (d.perform acts).bounds = d.bounds := by
  induction acts generalizing d with
  | nil => rfl
  | cons a acts ih => exact (ih (d.act a)).trans (d.bounds_act a)

/-! ## Failures -/

theorem streams_commitAssign (d : Dispatcher) (id : RequestId) :
    (d.commitAssign id).streams = d.streams := by
  simp only [commitAssign]
  split
  · split <;> rfl
  · rfl

/-- No failure is left in the stream of a request that has a record. -/
def Unfailed (d : Dispatcher) : Prop :=
  ∀ id r, d.cache.get? id = some r → d.failure? id = none

namespace Unfailed

theorem create (maxTasks maxPending maxProcessing maxWorkers : Nat) :
    (Dispatcher.create maxTasks maxPending maxProcessing maxWorkers).Unfailed :=
  fun _ _ h => nomatch h

/-- Every record was there before, and no stream fails whose record stays. -/
theorem keep (h : d.Unfailed)
    (hback : ∀ id r', d'.cache.get? id = some r' → ∃ r, d.cache.get? id = some r)
    (hstreams : ∀ id, d.failure? id = none → d'.failure? id = none) : d'.Unfailed := by
  intro id r' hr'
  obtain ⟨r, hr⟩ := hback id r' hr'
  exact hstreams id (h id r hr)

theorem modify (h : d.Unfailed) {id : RequestId} {f : TaskRecord → TaskRecord}
    (hcache : d'.cache = d.cache.modify id f)
    (hstreams : ∀ j, d.failure? j = none → d'.failure? j = none) : d'.Unfailed := by
  refine h.keep (fun j r' hr' => ?_) hstreams
  rw [hcache, TaskCache.get?_modify] at hr'
  split at hr'
  · next hj =>
    obtain ⟨r, hr, -⟩ := Option.map_eq_some_iff.mp hr'
    exact ⟨r, hj ▸ hr⟩
  · exact ⟨r', hr'⟩

theorem clearStream (h : d.Unfailed) (id : RequestId) : (d.clearStream id).Unfailed := by
  refine h.keep (fun _ r hr => ⟨r, hr⟩) fun j hj => ?_
  show ((d.streams.erase id).find? j).bind (·.failure) = none
  rw [Table.find?_erase]
  split
  · rfl
  · exact hj

theorem ended (h : d.Unfailed) (id : RequestId) (status : TaskStatus) (message : String) :
    (d.ended id status message).Unfailed := by
  intro j r hr
  rw [get?_ended] at hr
  split at hr
  · cases hr
  · next hj =>
    rw [failure?_congr ((streams_ended d id j).trans (if_neg hj))]
    exact h j r hr

theorem endEach (h : d.Unfailed) {q : Dispatcher → TaskRecord → Bool} {status : TaskStatus}
    {message : String} {now : Millis} (records : List TaskRecord) :
    (d.endEach q status message now records).2.Unfailed := by
  refine endEach_induction (P := Unfailed) (fun d₁ d₂ id h₁ he => ?_) _ h
  obtain ⟨-, rfl⟩ := endTask?_eq_some_iff.mp he
  exact h₁.ended id status message

theorem admits (h : d.Unfailed) {m : Moment} {r : InferenceRequest} {owner : ConnectionId}
    {record : TaskRecord} (ha : d.Admits m r owner record d') : d'.Unfailed := by
  obtain ⟨generated, rfl⟩ := ha.engine_eq
  intro j r' hr'
  change (d.cache.tasks.insert record.id record).find? j = some r' at hr'
  rw [Table.find?_insert] at hr'
  change d.failure? j = none
  split at hr'
  · next hj =>
    rw [failure?, hj, ha.unread]
    rfl
  · exact h j r' hr'

theorem begins (h : d.Unfailed) {now : Millis} {step : AssignStep} (hb : d.Begins now step d') :
    d'.Unfailed := by
  have hdequeued : ∀ rest, (d.dequeued rest).Unfailed := fun _ => h
  cases hb with
  | saturated _ => exact h
  | idle _ _ => exact h
  | skipped _ _ _ => exact h
  | @unserved id rest _ _ _ _ _ _ => exact (hdequeued rest).ended id .failed _
  | @undelivered id rest _ _ _ e _ _ _ _ _ _ _ => exact (hdequeued rest).ended id .failed e.message
  | @sent id _ r worker _ _ _ _ _ _ _ _ =>
    exact @modify _ _ h id (fun _ => { r.chosen now with worker := some worker }) rfl fun _ hj => hj

theorem commitAssign (h : d.Unfailed) (id : RequestId) : (d.commitAssign id).Unfailed := by
  refine h.modify (cache_commitAssign d id) fun j hj => ?_
  rwa [failure?, streams_commitAssign]

theorem progress (h : d.Unfailed) (id : RequestId) (now : Millis) : (d.progress id now).Unfailed :=
  h.modify rfl fun _ hj => hj

theorem absorb (h : d.Unfailed) (r : TokenResponse) : (d.absorb r).Unfailed := by
  have habsorb : ∀ s : TokenStream, (s.absorb r).failure = s.failure := by
    intro s
    cases hf : r.fragment? <;> cases hr : r.finished <;> cases hs : s.finished <;>
      simp [TokenStream.absorb, hf, hr, TokenStream.append, TokenStream.finish, hs]
  refine h.keep (fun j r' hr' => ⟨r', by rwa [cache_absorb] at hr'⟩) fun j hj => ?_
  rw [failure?, find?_absorb]
  split
  · split
    · exact hj
    · rw [Option.bind_some, habsorb, streamOf]
      rw [failure?] at hj
      cases hs : d.streams.find? j with
      | none => rfl
      | some s => rwa [hs] at hj
  · exact hj

theorem hears (h : d.Unfailed) {now : Millis} {message : Except DecodeError WireMessage}
    {o : IngestOutcome} (hh : d.Hears now message o d') : d'.Unfailed := by
  cases hh with
  | late _ _ => exact h.progress _ now
  | more _ _ _ => exact (h.progress _ now).absorb _
  | last _ _ _ => exact (h.progress _ now).absorb _
  | failed _ _ _ => exact h.ended _ .failed _
  | _ => exact h

theorem draws (h : d.Unfailed) {id : RequestId} {o : Drain} (hd : d.Draws id o d') :
    d'.Unfailed := by
  cases hd with
  | untracked _ _ => exact h
  | unanswered _ _ => exact h
  | finished _ _ _ _ => exact h
  | unread _ _ _ _ => exact h
  | failed _ _ => exact h.clearStream id
  | @fragment s _ _ hfailure _ =>
    refine @modify _ _ h id (fun r => { r with delivered := r.delivered + 1 }) rfl fun j hj => ?_
    show ((d.streams.insert id { s with cursor := s.cursor + 1 }).find? j).bind (·.failure) = none
    rw [Table.find?_insert]
    split
    · exact hfailure
    · exact hj

theorem finishDelivery (h : d.Unfailed) (id : RequestId) (now : Millis) :
    (d.finishDelivery id now).Unfailed := by
  rw [finishDelivery_eq]
  have hrelease : (d.release id).Unfailed := by
    refine h.keep (fun j r hr => ⟨r, ?_⟩) fun _ hj => hj
    change (d.cache.remove id).get? j = some r at hr
    rw [TaskCache.get?_remove] at hr
    split at hr
    · cases hr
    · exact hr
  exact hrelease.clearStream id

theorem act (h : d.Unfailed) (a : Act) : (d.act a).Unfailed := by
  cases a with
  | submit m r owner =>
    simp only [Dispatcher.act]
    split
    · next ha => exact h.admits (admits_of_admitRequest ha)
    · exact h
  | assign now =>
    have hbegins := h.begins (d.begins_beginAssign now)
    simp only [Dispatcher.act]
    rcases d.assignNext_eq now with he | ⟨id, he⟩
    · rwa [he]
    · rw [he]
      exact hbegins.commitAssign id
  | beginAssign now => exact h.begins (d.begins_beginAssign now)
  | commitAssign id => exact h.commitAssign id
  | hear now worker line =>
    obtain ⟨p, hp⟩ := d.ingest_eq_heard now worker line
    simp only [Dispatcher.act, hp]
    exact (h.hears (d.hears_heard now (WireMessage.decode line)) :)
  | failWorker worker now => exact h.endEach _
  | sweep now timeoutMs clock => exact h.endEach _
  | nextFragment id => exact h.draws (d.draws_nextFragment id)
  | finishDelivery id now => exact h.finishDelivery id now
  | cancelConnection owner now => exact h.endEach _
  | clearStream id => exact h.clearStream id
  | pool call => exact h

theorem perform (h : d.Unfailed) (acts : List Act) : (d.perform acts).Unfailed := by
  induction acts generalizing d with
  | nil => exact h
  | cons a acts ih => exact ih (h.act a)

end Unfailed

/-- What is left of a request that has failed: no record, and a stream that has ended, hands out
no more fragments, and answers with the reason before it goes. -/
structure Failed (d : Dispatcher) (id : RequestId) (reason : String) : Prop where
  gone : d.cache.get? id = none
  finished : d.streamFinished id = true
  passed : ∀ s, d.streams.find? id = some s → s.failure = some reason ∧ s.nextUnread = none
  answer : d.nextFragment id = (.failed reason, d.clearStream id)

/-- A stream that fails beside its record fails with the given reason, since there was none
before. -/
theorem Unfailed.failed (h : d.Unfailed) {id : RequestId} {r : TaskRecord}
    (hr : d.cache.get? id = some r) {reason : String} (hgone : d'.cache.get? id = none)
    (hstream : d'.streams.find? id = some ((d.streamOf id).fail reason)) : d'.Failed id reason := by
  have hfirst : (d.streamOf id).failure = none := by
    have hnone := h id r hr
    rw [failure?] at hnone
    cases hs : d.streams.find? id with
    | none => rw [streamOf, hs]; rfl
    | some s => rwa [streamOf, hs, Option.getD_some, ← Option.bind_some s (·.failure), ← hs]
  have hreason : ((d.streamOf id).fail reason).failure = some reason := by
    rw [TokenStream.fail, hfirst]
    rfl
  refine ⟨hgone, ?_, fun s hs => ?_, ?_⟩
  · rw [streamFinished, hstream]
    rfl
  · cases hstream.symm.trans hs
    exact ⟨hreason, (TokenStream.nextUnread_eq_none_iff _).mpr (Nat.le_refl _)⟩
  · exact nextFragment_of_failure (failure?_eq_some_iff.mpr ⟨_, hstream, hreason⟩)

end Dispatcher

/-! ## Whole acts -/

theorem Listed.act {b : Bounds} {d : Dispatcher} (h : Listed b d.cache d.queue) {a : Act}
    (ha : a.isWhole = true) : Listed b (d.act a).cache (d.act a).queue := by
  cases a with
  | submit m r owner => exact h.apply (.submit m r owner)
  | assign now => exact h.applyBackend (.assign now)
  | beginAssign now => cases ha
  | commitAssign id => cases ha
  | hear now worker line => exact h.applyBackend (.hear now worker line)
  | failWorker worker now => exact h.applyBackend (.failWorker worker now)
  | sweep now timeoutMs clock => exact h.applyBackend (.sweep now timeoutMs clock)
  | nextFragment id => exact h.apply (.nextFragment id)
  | finishDelivery id now => exact h.apply (.finishDelivery id now)
  | cancelConnection owner now => exact h.apply (.cancelConnection owner now)
  | clearStream id => exact h
  | pool call => exact h

theorem Listed.perform {b : Bounds} {d : Dispatcher} (h : Listed b d.cache d.queue)
    {acts : List Act} (hacts : ∀ a ∈ acts, a.isWhole = true) :
    Listed b (d.perform acts).cache (d.perform acts).queue := by
  induction acts generalizing d with
  | nil => exact h
  | cons a acts ih =>
    exact ih (h.act (hacts a List.mem_cons_self)) fun x hx => hacts x (List.mem_cons_of_mem a hx)

end PromptGateway
