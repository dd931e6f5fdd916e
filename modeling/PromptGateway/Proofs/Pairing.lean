import PromptGateway.Proofs.Endings
import PromptGateway.Proofs.Stores
import Mathlib.Logic.Basic

/-
  Records and streams belong together.

  The stream of a request is made when the first answer comes or when the request fails, and
  the count of what has been handed out is kept twice, as the cursor of the stream and in the
  record. Nothing in their types holds the two together. A dealing is a call of the engine as
  its users make it: an answer is closed out in the moment in which it is found to have ended.

    1. `Paired` lists what there can be of one request: nothing, a record alone, a record with
       a stream that has not failed, or a stream that has failed. Every dealing keeps this
       (`Pairs.deal`).
    2. What a dealing does to requests that have a record leaves all others alone
       (`Leaves`). A request that has failed has none, so its failure stays until it is told.
    3. `failure_deal` is the account of the failures of one request over one dealing, and
       `failure_dealt` that of a run.
    4. `records_match_streams` collects what follows for a run.
-/

namespace PromptGateway

/-- A call of the engine, as its users make it. -/
inductive Dealing where
  | backend (call : BackendCall)
  | submit (m : Moment) (r : InferenceRequest) (owner : ConnectionId)
  /-- The next part of an answer is asked for, and no more is done. -/
  | draw (id : RequestId)
  /-- The next part of an answer is asked for, and the answer is closed out if it has ended. -/
  | close (id : RequestId) (now : Millis)
  | cancel (owner : ConnectionId) (now : Millis)

/-- The request that is asked for. -/
def Dealing.asks? : Dealing → Option RequestId
  | draw id | close id _ => some id
  | backend _ | submit _ _ _ | cancel _ _ => none

namespace Dispatcher

/-- The engine after a dealing. -/
def deal (d : Dispatcher) : Dealing → Dispatcher
  | .backend call => d.applyBackend call
  | .submit m r owner => d.apply (.submit m r owner)
  | .draw id => (d.nextFragment id).2
  | .close id now =>
    let (answer, d) := d.nextFragment id
    if answer = .finished then d.finishDelivery id now else d
  | .cancel owner now => (d.cancelConnection owner now).2

/-- The engine after a list of dealings. -/
def dealt (d : Dispatcher) (dealings : List Dealing) : Dispatcher := dealings.foldl deal d

/-- What every dealing keeps, every run keeps. -/
theorem dealt_induction {P : Dispatcher → Prop} (step : ∀ d x, P d → P (d.deal x))
    {d : Dispatcher} (dealings : List Dealing) (h : P d) : P (d.dealt dealings) := by
  induction dealings generalizing d with
  | nil => exact h
  | cons x dealings ih => exact ih (step d x h)

/-- What is done when an answer may be closed out. -/
theorem deal_close (d : Dispatcher) (id : RequestId) (now : Millis) :
    (d.nextFragment id).1 = .finished ∧ d.deal (.close id now) = d.finishDelivery id now ∨
      (d.nextFragment id).1 ≠ .finished ∧ d.deal (.close id now) = (d.nextFragment id).2 := by
  by_cases hfin : (d.nextFragment id).1 = .finished
  · have hd := d.draws_nextFragment id
    rw [hfin] at hd
    left
    simp only [deal, hfin, if_true, hd.eq_of_finished, true_and]
  · right
    simp only [deal, hfin, if_false, ne_eq, not_false_eq_true, true_and]

end Dispatcher

theorem Listed.deal {b : Bounds} {d : Dispatcher} (h : Listed b d.cache d.queue) (x : Dealing) :
    Listed b (d.deal x).cache (d.deal x).queue := by
  cases x with
  | backend call => exact h.applyBackend call
  | submit m r owner => exact h.apply (.submit m r owner)
  | draw id => exact h.draws (d.draws_nextFragment id)
  | close id now =>
    rcases d.deal_close id now with ⟨-, he⟩ | ⟨-, he⟩
    · rw [he]
      exact h.apply (.finishDelivery id now)
    · rw [he]
      exact h.draws (d.draws_nextFragment id)
  | cancel owner now => exact h.apply (.cancelConnection owner now)

/-! ## One request -/

/-- What there can be of a request. -/
inductive Paired : Option TaskRecord → Option TokenStream → Prop where
  | absent : Paired none none
  | unanswered {r} : r.delivered = 0 → Paired (some r) none
  | answered {r s} : s.failure = none → s.cursor ≤ s.fragments.length → r.delivered = s.cursor →
      Paired (some r) (some s)
  | failed {s reason} : s.failure = some reason → s.finished = true →
      s.cursor = s.fragments.length → Paired none (some s)

namespace Paired

variable {r r' : TaskRecord} {record : Option TaskRecord} {s : TokenStream}
  {stream : Option TokenStream}

theorem modify (h : Paired (some r) stream) (hr : r'.delivered = r.delivered) :
    Paired (some r') stream := by
  cases h with
  | unanswered hzero => exact .unanswered (hr.trans hzero)
  | answered hopen hle hcount => exact .answered hopen hle (hr.trans hcount)

theorem fail (h : Paired (some r) stream) (message : String) :
    Paired none (some ((stream.getD {}).fail message)) := by
  cases h with
  | unanswered _ => exact .failed rfl rfl rfl
  | answered _ _ _ => exact .failed rfl rfl rfl

theorem absorb (h : Paired (some r) stream) (hopen : ∀ s, stream = some s → s.finished = false)
    (response : TokenResponse) : Paired (some r) (some ((stream.getD {}).absorb response)) := by
  cases h with
  | unanswered hzero =>
    rw [Option.getD_none, TokenStream.absorb_eq rfl]
    exact .answered rfl (Nat.zero_le _) hzero
  | @answered _ s hfailure hle hcount =>
    rw [Option.getD_some, TokenStream.absorb_eq (hopen s rfl)]
    refine .answered hfailure ?_ hcount
    calc s.cursor ≤ s.fragments.length := hle
      _ ≤ (s.fragments ++ response.fragment?.toList).length := by simp

theorem draw (h : Paired record (some s)) (hfailure : s.failure = none) {f : String}
    (hf : s.fragments[s.cursor]? = some f) :
    Paired (record.map fun r => { r with delivered := r.delivered + 1 })
      (some { s with cursor := s.cursor + 1 }) := by
  have hlt : s.cursor < s.fragments.length := (List.getElem?_eq_some_iff.mp hf).1
  cases h with
  | answered _ _ hcount => exact .answered hfailure hlt (congrArg (· + 1) hcount)
  | failed hreason _ _ =>
    rw [hfailure] at hreason
    cases hreason

theorem record_of_failure (h : Paired record (some s)) {reason : String}
    (hs : s.failure = some reason) : record = none := by
  cases h with
  | answered hfailure _ _ =>
    rw [hs] at hfailure
    cases hfailure
  | failed _ _ _ => rfl

end Paired

namespace Dispatcher

/-- Of every request there is what there can be. -/
def Pairs (d : Dispatcher) : Prop := ∀ id, Paired (d.cache.get? id) (d.streams.find? id)

namespace Pairs

variable {d d' : Dispatcher}

theorem create (maxTasks maxPending maxProcessing maxWorkers : Nat) :
    (Dispatcher.create maxTasks maxPending maxProcessing maxWorkers).Pairs :=
  fun _ => .absent

theorem modify (h : d.Pairs) {id : RequestId} {f : TaskRecord → TaskRecord}
    (hc : d'.cache = d.cache.modify id f) (hs : d'.streams = d.streams)
    (hf : ∀ r, d.cache.get? id = some r → (f r).delivered = r.delivered) : d'.Pairs := by
  intro j
  have hj := h j
  rw [hc, hs, TaskCache.get?_modify]
  split
  · next hid =>
    subst hid
    cases hr : d.cache.get? j with
    | none => rwa [hr] at hj
    | some r =>
      rw [hr] at hj
      exact hj.modify (hf r hr)
  · exact hj

theorem ended (h : d.Pairs) {id : RequestId} {r : TaskRecord} (hr : d.cache.get? id = some r)
    (status : TaskStatus) (message : String) : (d.ended id status message).Pairs := by
  intro j
  rw [get?_ended, streams_ended]
  by_cases hj : j = id
  · subst hj
    rw [if_pos rfl, if_pos rfl]
    unfold residue
    split
    · exact .absent
    · have hid := h j
      rw [hr] at hid
      exact hid.fail message
  · rw [if_neg hj, if_neg hj]
    exact h j

theorem absorb (h : d.Pairs) {r : TokenResponse} {t : TaskRecord}
    (ht : d.cache.get? r.id = some t) (hopen : d.streamFinished r.id = false) :
    (d.absorb r).Pairs := by
  intro j
  rw [cache_absorb, find?_absorb]
  split
  · next hj =>
    subst hj
    split
    · exact h r.id
    · have hid := h r.id
      rw [ht] at hid ⊢
      refine hid.absorb (fun s hs => ?_) r
      rw [streamFinished, hs] at hopen
      exact hopen
  · exact h j

theorem assigns (h : d.Pairs) {now : Millis} {o : Assignment} (ha : d.Assigns now o d') :
    d'.Pairs := by
  cases ha with
  | saturated _ => exact h
  | idle _ => exact h
  | skipped _ _ => exact h
  | @unserved id rest r _ hr _ _ =>
    have hdequeued : (d.dequeued rest).Pairs := h
    exact hdequeued.ended hr .failed "no worker available"
  | @undelivered id rest r _ _ e _ _ hr _ _ _ =>
    have hdequeued : (d.dequeued rest).Pairs := h
    exact hdequeued.ended hr .failed e.message
  | @assigned id rest r worker _ _ _ _ hr _ _ _ =>
    refine @Pairs.modify _ _ h id (fun _ => r.sent worker now) rfl rfl ?_
    intro s hs
    cases hr.symm.trans hs
    rfl

theorem applyBackend (h : d.Pairs) (call : BackendCall) : (d.applyBackend call).Pairs := by
  refine applyBackend_induction (P := Pairs) call ?pool ?ended ?progress ?absorb ?assigns h
  case pool => exact fun _ _ h => h
  case ended => exact fun _ _ status message _ h hr _ _ => h.ended hr status message
  case progress => exact fun _ _ _ _ h _ => h.modify rfl rfl fun _ _ => rfl
  case absorb => exact fun _ _ _ h ht hopen => h.absorb ht hopen
  case assigns => exact fun _ _ _ _ h ha => h.assigns ha

theorem admits (h : d.Pairs) {m : Moment} {r : InferenceRequest} {owner : ConnectionId}
    {record : TaskRecord} (ha : d.Admits m r owner record d') : d'.Pairs := by
  obtain ⟨generated, rfl⟩ := ha.engine_eq
  intro j
  show Paired (Table.find? (d.cache.tasks.insert record.id record) j) (d.streams.find? j)
  rw [Table.find?_insert]
  split
  · next hj =>
    rw [hj, ha.unread]
    refine .unanswered ?_
    rw [ha.record_eq]
    rfl
  · exact h j

theorem draws (h : d.Pairs) {id : RequestId} {o : Drain} (hd : d.Draws id o d') : d'.Pairs := by
  cases hd with
  | untracked _ _ => exact h
  | unanswered _ _ => exact h
  | finished _ _ _ _ => exact h
  | unread _ _ _ _ => exact h
  | @failed s reason hs hfailure =>
    intro j
    show Paired (d.cache.get? j) ((d.streams.erase id).find? j)
    rw [Table.find?_erase]
    split
    · next hj =>
      have hid := h id
      rw [hs] at hid
      rw [hj, hid.record_of_failure hfailure]
      exact .absent
    · exact h j
  | @fragment s f hs hfailure hf =>
    intro j
    show Paired ((d.cache.modify id fun r => { r with delivered := r.delivered + 1 }).get? j)
      ((d.streams.insert id { s with cursor := s.cursor + 1 }).find? j)
    rw [TaskCache.get?_modify, Table.find?_insert]
    split
    · have hid := h id
      rw [hs] at hid
      exact hid.draw hfailure hf
    · exact h j

theorem finishDelivery (h : d.Pairs) (id : RequestId) (now : Millis) :
    (d.finishDelivery id now).Pairs := by
  intro j
  rw [finishDelivery_eq]
  show Paired ((d.cache.remove id).get? j) ((d.streams.erase id).find? j)
  rw [TaskCache.get?_remove, Table.find?_erase]
  split
  · exact .absent
  · exact h j

theorem cancelConnection (h : d.Pairs) (owner : ConnectionId) (now : Millis) :
    (d.cancelConnection owner now).2.Pairs := by
  apply endEach_induction (P := Pairs) _ _ h
  intro d₁ d₂ id h₁ he
  obtain ⟨⟨r, hr, -⟩, rfl⟩ := endTask?_eq_some_iff.mp he
  exact h₁.ended hr .cancelled _

theorem deal (h : d.Pairs) (x : Dealing) : (d.deal x).Pairs := by
  cases x with
  | backend call => exact h.applyBackend call
  | submit m r owner =>
    simp only [Dispatcher.deal, Dispatcher.apply]
    split
    · next ha => exact h.admits (admits_of_admitRequest ha)
    · exact h
  | draw id => exact h.draws (d.draws_nextFragment id)
  | close id now =>
    rcases d.deal_close id now with ⟨-, he⟩ | ⟨-, he⟩
    · rw [he]
      exact h.finishDelivery id now
    · rw [he]
      exact h.draws (d.draws_nextFragment id)
  | cancel owner now => exact h.cancelConnection owner now

end Pairs

/-! ## Requests without a record -/

/-- What has no record is as it was. -/
def Leaves (d d' : Dispatcher) : Prop :=
  ∀ id, d.cache.get? id = none → d'.cache.get? id = none ∧ d'.streams.find? id = d.streams.find? id

namespace Leaves

variable {d d' d'' : Dispatcher}

theorem refl : Leaves d d := fun _ hid => ⟨hid, rfl⟩

theorem trans (h : Leaves d d') (h' : Leaves d' d'') : Leaves d d'' := by
  intro id hid
  obtain ⟨hrecord, hstream⟩ := h id hid
  obtain ⟨hrecord', hstream'⟩ := h' id hrecord
  exact ⟨hrecord', hstream'.trans hstream⟩

theorem of_modify {id : RequestId} {f : TaskRecord → TaskRecord}
    (hc : d'.cache = d.cache.modify id f) (hs : d'.streams = d.streams) : Leaves d d' := by
  intro j hj
  rw [hc, hs, TaskCache.get?_modify]
  split
  · next hid => exact ⟨by rw [← hid, hj]; rfl, rfl⟩
  · exact ⟨hj, rfl⟩

theorem ended {id : RequestId} {r : TaskRecord} (hr : d.cache.get? id = some r)
    (status : TaskStatus) (message : String) : Leaves d (d.ended id status message) := by
  intro j hj
  have hne : j ≠ id := by
    intro he
    rw [he, hr] at hj
    cases hj
  rw [get?_ended, streams_ended, if_neg hne, if_neg hne]
  exact ⟨hj, rfl⟩

theorem absorb {r : TokenResponse} {t : TaskRecord} (ht : d.cache.get? r.id = some t) :
    Leaves d (d.absorb r) := by
  intro j hj
  have hne : j ≠ r.id := by
    intro he
    rw [he, ht] at hj
    cases hj
  rw [cache_absorb, find?_absorb, if_neg hne]
  exact ⟨hj, rfl⟩

theorem assigns {now : Millis} {o : Assignment} (ha : d.Assigns now o d') : Leaves d d' := by
  have dequeued : ∀ rest, Leaves d (d.dequeued rest) := fun _ _ hid => ⟨hid, rfl⟩
  cases ha with
  | saturated _ => exact refl
  | idle _ => exact refl
  | skipped _ _ => exact dequeued _
  | @unserved id rest r _ hr _ _ =>
    exact (dequeued rest).trans (.ended (d := d.dequeued rest) hr .failed _)
  | @undelivered id rest r _ _ e _ _ hr _ _ _ =>
    exact (dequeued rest).trans (.ended (d := d.dequeued rest) hr .failed e.message)
  | assigned _ _ _ _ _ _ => exact of_modify rfl rfl

theorem applyBackend (d : Dispatcher) (call : BackendCall) : Leaves d (d.applyBackend call) := by
  refine applyBackend_induction (P := fun d' => Leaves d d') call ?pool ?ended ?progress ?absorb
    ?assigns refl
  case pool => exact fun _ _ h => h
  case ended => exact fun _ _ status message _ h hr _ _ => h.trans (.ended hr status message)
  case progress => exact fun _ _ _ _ h _ => h.trans (of_modify rfl rfl)
  case absorb => exact fun _ _ _ h ht _ => h.trans (.absorb ht)
  case assigns => exact fun _ _ _ _ h ha => h.trans (.assigns ha)

theorem cancelConnection (d : Dispatcher) (owner : ConnectionId) (now : Millis) :
    Leaves d (d.cancelConnection owner now).2 := by
  apply endEach_induction (P := fun d' => Leaves d d') _ _ refl
  intro d₁ d₂ id h he
  obtain ⟨⟨r, hr, -⟩, rfl⟩ := endTask?_eq_some_iff.mp he
  exact h.trans (.ended hr .cancelled _)

end Leaves

/-! ## Failures -/

/-- The failure of a request that has yet to be told. -/
def failure? (d : Dispatcher) (id : RequestId) : Option String :=
  (d.streams.find? id).bind (·.failure)

/-- The failure of a request that a dealing leaves behind, where there was none. -/
def left (id : RequestId) (d : Dispatcher) (x : Dealing) : List String :=
  if (d.failure? id).isSome then [] else ((d.deal x).failure? id).toList

/-- The failure of a request that is answered from its stream in a dealing. -/
def told (id : RequestId) (d : Dispatcher) (x : Dealing) : List String :=
  if x.asks? = some id ∧ d.streams.contains id then
    match (d.nextFragment id).1 with
    | .failed reason => [reason]
    | _ => []
  else []

variable {d d' : Dispatcher} {id : RequestId} {reason : String}

theorem failure?_eq_some_iff :
    d.failure? id = some reason ↔
      ∃ s, d.streams.find? id = some s ∧ s.failure = some reason :=
  Option.bind_eq_some_iff

theorem failure?_congr (h : d'.streams.find? id = d.streams.find? id) :
    d'.failure? id = d.failure? id := by
  rw [failure?, failure?, h]

theorem Pairs.get?_of_failure (h : d.Pairs) (hf : d.failure? id = some reason) :
    d.cache.get? id = none := by
  obtain ⟨s, hs, hfailure⟩ := failure?_eq_some_iff.mp hf
  have hid := h id
  rw [hs] at hid
  exact hid.record_of_failure hfailure

theorem Leaves.failure? (h : Leaves d d') (hpairs : d.Pairs) (hf : d.failure? id = some reason) :
    d'.failure? id = some reason := by
  rw [failure?_congr (h id (hpairs.get?_of_failure hf)).2, hf]

/-- A failure is the next answer for its request, and then it is gone. -/
theorem nextFragment_of_failure (hf : d.failure? id = some reason) :
    d.nextFragment id = (.failed reason, d.clearStream id) := by
  obtain ⟨s, hs, hfailure⟩ := failure?_eq_some_iff.mp hf
  simp only [nextFragment, hs, hfailure]

theorem failure?_clearStream (d : Dispatcher) (id : RequestId) :
    (d.clearStream id).failure? id = none := by
  have hgone : (d.clearStream id).streams.find? id = none := by
    show (d.streams.erase id).find? id = none
    rw [Table.find?_erase, if_pos rfl]
  rw [failure?, hgone]
  rfl

/-- A request is answered as failed because its stream says so, or because nothing is known
of it. -/
theorem nextFragment_failed (h : (d.nextFragment id).1 = .failed reason) :
    d.failure? id = some reason ∨
      d.streams.find? id = none ∧ d.cache.get? id = none ∧
        reason = "request is no longer tracked" := by
  have hd := d.draws_nextFragment id
  rw [h] at hd
  generalize (d.nextFragment id).2 = d' at hd
  cases hd with
  | untracked hs hr => exact .inr ⟨hs, hr, rfl⟩
  | failed hs hfailure => exact .inl (failure?_eq_some_iff.mpr ⟨_, hs, hfailure⟩)

theorem told_of_none (hf : d.failure? id = none) (x : Dealing) : d.told id x = [] := by
  unfold told
  split
  · next hasks =>
    cases hn : (d.nextFragment id).1 with
    | failed reason =>
      rcases nextFragment_failed hn with hreason | ⟨hs, -, -⟩
      · rw [hf] at hreason
        cases hreason
      · have hcontains := hasks.2
        rw [Table.contains, hs] at hcontains
        cases hcontains
    | fragment f => rfl
    | finished => rfl
    | nothing => rfl
  · rfl

theorem told_of_failure (hf : d.failure? id = some reason) (x : Dealing) :
    d.told id x = if x.asks? = some id then [reason] else [] := by
  have hcontains : d.streams.contains id = true := by
    obtain ⟨s, hs, -⟩ := failure?_eq_some_iff.mp hf
    rw [Table.contains, hs]
    rfl
  simp only [told, nextFragment_of_failure hf, hcontains, and_true]

/-- A failure that is asked for is gone. -/
theorem failure?_deal_of_asked (hf : d.failure? id = some reason) {x : Dealing}
    (hasks : x.asks? = some id) : (d.deal x).failure? id = none := by
  cases x with
  | draw j =>
    cases hasks
    rw [deal, nextFragment_of_failure hf]
    exact failure?_clearStream d id
  | close j now =>
    cases hasks
    have hanswer : (d.nextFragment id).1 ≠ .finished := by
      rw [nextFragment_of_failure hf]
      exact Drain.noConfusion
    rcases d.deal_close id now with ⟨hfin, -⟩ | ⟨-, he⟩
    · exact absurd hfin hanswer
    · rw [he, nextFragment_of_failure hf]
      exact failure?_clearStream d id
  | backend call => cases hasks
  | submit m r owner => cases hasks
  | cancel owner now => cases hasks

/-- A failure that is not asked for stays. -/
theorem failure?_deal_of_not_asked (h : d.Pairs) (hf : d.failure? id = some reason) {x : Dealing}
    (hasks : x.asks? ≠ some id) : (d.deal x).failure? id = some reason := by
  cases x with
  | backend call => exact (Leaves.applyBackend d call).failure? h hf
  | cancel owner now => exact (Leaves.cancelConnection d owner now).failure? h hf
  | submit m r owner =>
    simp only [deal, apply]
    split
    · next ha =>
      obtain ⟨generated, rfl⟩ := (admits_of_admitRequest ha).engine_eq
      exact hf
    · exact hf
  | draw j =>
    have hne : id ≠ j := fun he => hasks (congrArg some he.symm)
    rw [deal, failure?_congr ((d.draws_nextFragment j).streams_of_ne hne), hf]
  | close j now =>
    have hne : id ≠ j := fun he => hasks (congrArg some he.symm)
    rcases d.deal_close j now with ⟨-, he⟩ | ⟨-, he⟩
    · rw [he, failure?_congr (d.streams_finishDelivery now hne), hf]
    · rw [he, failure?_congr ((d.draws_nextFragment j).streams_of_ne hne), hf]

/-- The account of the failures of a request over one dealing. -/
theorem failure_deal (h : d.Pairs) (id : RequestId) (x : Dealing) :
    (d.failure? id).toList ++ d.left id x =
      d.told id x ++ ((d.deal x).failure? id).toList := by
  cases hf : d.failure? id with
  | none =>
    rw [told_of_none hf]
    simp [left, hf]
  | some reason =>
    rw [told_of_failure hf]
    by_cases hasks : x.asks? = some id
    · simp [left, hf, hasks, failure?_deal_of_asked hf hasks]
    · simp [left, hf, hasks, failure?_deal_of_not_asked h hf hasks]

/-- The account of the failures of a request over a run. -/
theorem failure_dealt (h : d.Pairs) (id : RequestId) (dealings : List Dealing) :
    (d.failure? id).toList ++ journal deal (left id) d dealings =
      journal deal (told id) d dealings ++ ((d.dealt dealings).failure? id).toList := by
  induction dealings generalizing d with
  | nil => simp [journal, dealt]
  | cons x dealings ih =>
    rw [journal, journal]
    calc (d.failure? id).toList ++ (d.left id x ++ journal deal (left id) (d.deal x) dealings)
        = (d.told id x ++ ((d.deal x).failure? id).toList) ++
            journal deal (left id) (d.deal x) dealings := by
          rw [← List.append_assoc, failure_deal h]
      _ = d.told id x ++ (journal deal (told id) (d.deal x) dealings ++
            (((d.deal x).dealt dealings).failure? id).toList) := by
          rw [List.append_assoc, ih (h.deal x)]
      _ = d.told id x ++ journal deal (told id) (d.deal x) dealings ++
            ((d.dealt (x :: dealings)).failure? id).toList := by
          rw [← List.append_assoc]
          rfl

/-! ## Runs -/

/-- The stream of a request in flight: it has not failed, and as much of it has been read as
has been handed out according to the record. -/
structure Flowing (d : Dispatcher) (id : RequestId) (s : TokenStream) : Prop where
  live : ∃ r, d.cache.get? id = some r ∧ r.status.isTerminal = false ∧ r.delivered = s.cursor
  failure : s.failure = none
  read_le : s.cursor ≤ s.fragments.length

/-- The stream of a request that has failed: it has ended with a failure, and what had not been
read is passed over. -/
structure Broken (d : Dispatcher) (id : RequestId) (s : TokenStream) : Prop where
  gone : d.cache.get? id = none
  failure : ∃ reason, s.failure = some reason
  ended : s.finished = true
  passed : s.cursor = s.fragments.length

theorem insertNew_duplicate {c : TaskCache} {r : TaskRecord}
    (h : c.insertNew r = .error (.duplicate id)) : id = r.id ∧ c.contains r.id = true := by
  unfold TaskCache.insertNew at h
  split at h
  · next hc =>
    cases h
    exact ⟨rfl, hc⟩
  · split at h
    · cases h
    · cases h

/-- An id is refused as a duplicate as long as there is a stream or a record of it. -/
theorem admitRequest_duplicate_iff {m : Moment} {r : InferenceRequest} {owner : ConnectionId} :
    d.admitRequest m r owner = .error (.duplicate id) ↔
      id = d.idFor m r ∧ (d.streams.contains id = true ∨ d.cache.contains id = true) := by
  constructor
  · intro h
    simp only [admitRequest] at h
    split at h
    · next hs =>
      cases h
      exact ⟨rfl, .inl hs⟩
    · split at h
      · next e he =>
        cases h
        obtain ⟨rfl, hc⟩ := insertNew_duplicate he
        exact ⟨rfl, .inr hc⟩
      · split at h
        · cases h
        · cases h
  · intro h
    obtain ⟨rfl, htaken⟩ := h
    cases hs : d.streams.contains (d.idFor m r) with
    | true => simp [admitRequest, hs]
    | false =>
      rw [hs] at htaken
      have hc : d.cache.contains (d.idFor m r) = true := by simpa using htaken
      simp [admitRequest, hs, TaskCache.insertNew, hc]

theorem Pairs.flowing_or_broken (h : d.Pairs) {b : Bounds} (hb : Listed b d.cache d.queue)
    {s : TokenStream} (hs : d.streams.find? id = some s) :
    Xor (d.Flowing id s) (d.Broken id s) := by
  have hid := h id
  rw [hs] at hid
  generalize hr : d.cache.get? id = record at hid
  cases hid with
  | @answered r _ hfailure hle hcount =>
    left
    constructor
    · exact ⟨⟨r, hr, (keyed_of_listed hb).live id r hr, hcount⟩, hfailure, hle⟩
    · intro hbroken
      rw [hbroken.gone] at hr
      cases hr
  | failed hfailure hfinished hcursor =>
    right
    constructor
    · exact ⟨hr, ⟨_, hfailure⟩, hfinished, hcursor⟩
    · intro hflowing
      obtain ⟨r, hlive, -⟩ := hflowing.live
      rw [hr] at hlive
      cases hlive

theorem Pairs.delivered_eq_zero (h : d.Pairs) {r : TaskRecord} (hr : d.cache.get? id = some r)
    (hs : d.streams.find? id = none) : r.delivered = 0 := by
  have hid := h id
  rw [hr, hs] at hid
  cases hid with
  | unanswered hzero => exact hzero

/-- There is a stream or a record of a request as long as it is in flight or its failure has
yet to be told. -/
theorem Pairs.taken_iff (h : d.Pairs) (id : RequestId) :
    d.streams.contains id = true ∨ d.cache.contains id = true ↔
      (∃ r, d.cache.get? id = some r) ∨ ∃ reason, d.failure? id = some reason := by
  have hstream : d.streams.contains id = true ↔ ∃ s, d.streams.find? id = some s :=
    Option.isSome_iff_exists
  rw [hstream, TaskCache.contains_iff]
  constructor
  · intro htaken
    rcases htaken with ⟨s, hs⟩ | hr
    · have hid := h id
      rw [hs] at hid
      generalize hr : d.cache.get? id = record at hid
      cases hid with
      | @answered r _ _ _ _ => exact .inl ⟨r, rfl⟩
      | failed hfailure _ _ => exact .inr ⟨_, failure?_eq_some_iff.mpr ⟨s, hs, hfailure⟩⟩
    · exact .inl hr
  · intro htaken
    rcases htaken with hr | ⟨reason, hf⟩
    · exact .inr hr
    · obtain ⟨s, hs, -⟩ := failure?_eq_some_iff.mp hf
      exact .inl ⟨s, hs⟩

end Dispatcher

/-- Records and streams belong together. After any list of dealings with an engine that began
empty:

every stream is in exactly one of two cases. Either its request is in flight, it has not failed,
and what has been read of it is what has been handed out according to the record; or its request
has no record, it has ended with a failure, and what had not been read is passed over;

nothing has been handed out of a request in flight that has no stream;

an id is refused as a duplicate exactly as long as it is in flight or its failure has yet to be
told;

as long as a failure of a request is there, it is what the next question is answered with, and
the stream is gone then;

a request is answered as failed only if it has no record, and what is answered is the failure
of its stream, which is gone then, unless nothing is known of the request;

and every failure that was left of a request has been told once, in order, but for the one that
has yet to be told. -/
theorem records_match_streams (maxTasks maxPending maxProcessing maxWorkers : Nat)
    (dealings : List Dealing) :
    let start := Dispatcher.create maxTasks maxPending maxProcessing maxWorkers
    let d := start.dealt dealings
    (∀ id s, d.streams.find? id = some s → Xor (d.Flowing id s) (d.Broken id s)) ∧
    (∀ id r, d.cache.get? id = some r → d.streams.find? id = none → r.delivered = 0) ∧
    (∀ m r owner id, d.admitRequest m r owner = .error (.duplicate id) ↔
      id = d.idFor m r ∧
        ((∃ t, d.cache.get? id = some t) ∨ ∃ reason, d.failure? id = some reason)) ∧
    (∀ id reason, d.failure? id = some reason →
      d.nextFragment id = (.failed reason, d.clearStream id) ∧
        (d.clearStream id).failure? id = none) ∧
    (∀ id reason, (d.nextFragment id).1 = .failed reason →
      d.cache.get? id = none ∧
        (d.failure? id = some reason ∧ (d.nextFragment id).2.streams.find? id = none ∨
          d.streams.find? id = none ∧ reason = "request is no longer tracked")) ∧
    (∀ id, journal Dispatcher.deal (Dispatcher.left id) start dealings =
      journal Dispatcher.deal (Dispatcher.told id) start dealings ++ (d.failure? id).toList) := by
  intro start d
  have hstart : start.Pairs := Dispatcher.Pairs.create _ _ _ _
  have h : d.Pairs := Dispatcher.dealt_induction (fun _ x h => h.deal x) dealings hstart
  have hlisted : Listed ⟨maxTasks, maxPending, maxProcessing⟩ d.cache d.queue :=
    Dispatcher.dealt_induction (P := fun d => Listed _ d.cache d.queue) (fun _ x h => h.deal x)
      dealings (Listed.create ..)
  refine ⟨fun id s hs => h.flowing_or_broken hlisted hs,
    fun id r hr hs => h.delivered_eq_zero hr hs, ?_, ?_, ?_, ?_⟩
  · intro m r owner id
    rw [Dispatcher.admitRequest_duplicate_iff, h.taken_iff]
  · intro id reason hf
    exact ⟨Dispatcher.nextFragment_of_failure hf, d.failure?_clearStream id⟩
  · intro id reason hn
    rcases Dispatcher.nextFragment_failed hn with hf | ⟨hs, hr, hreason⟩
    · refine ⟨h.get?_of_failure hf, .inl ⟨hf, ?_⟩⟩
      rw [Dispatcher.nextFragment_of_failure hf]
      show (d.streams.erase id).find? id = none
      rw [Table.find?_erase, if_pos rfl]
    · exact ⟨hr, .inr ⟨hs, hreason⟩⟩
  · intro id
    have hfailures := Dispatcher.failure_dealt hstart id dealings
    have hnone : start.failure? id = none := rfl
    rwa [hnone, Option.toList_none, List.nil_append] at hfailures

end PromptGateway
