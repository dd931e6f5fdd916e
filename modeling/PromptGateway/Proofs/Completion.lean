import PromptGateway.Proofs.Delivery

/-
  What can still happen to an answer that is complete.

  The answer to a request is complete when its last response has been taken in; from then on
  it has only to be handed out. Responses that come late, the loss of its worker and the
  sweep for time-outs all look whether a stream has ended and leave it alone. Two things do
  not look: the report of a failure by a worker, and an assignment that fails, if the answer
  came before the assignment. Either refuses the request, and the failure takes the place of
  whatever has not been handed out.

    1. What a call from the side of the workers does to a stream that has ended is to fail it
       if the call refuses its request, and nothing else (`find?_applyBackend`).
    2. As long as the client is not served and does not leave, no event does more
       (`Complete.apply`).
    3. `complete_answer_kept`: after any further run the answer is handed out as it was, or
       its first refusal. `report_replaces_answer` is a run in which it is a refusal.
-/

namespace PromptGateway

namespace TokenStream

/-- A stream after some refusals, each with its request. Those of others are nothing to it. -/
def refuse (id : RequestId) (s : TokenStream) (refusals : List (RequestId × String)) :
    TokenStream :=
  refusals.foldl (fun s q => if q.1 = id then s.fail q.2 else s) s

variable {id : RequestId} {s : TokenStream} {refusals : List (RequestId × String)}

theorem refuse_append (more : List (RequestId × String)) :
    s.refuse id (refusals ++ more) = (s.refuse id refusals).refuse id more :=
  List.foldl_append

theorem finished_refuse (h : s.finished = true) : (s.refuse id refusals).finished = true := by
  refine List.foldlRecOn refusals _ (motive := fun s : TokenStream => s.finished = true) h ?_
  intro s hs q _
  split
  · rfl
  · exact hs

theorem refuse_of_ne (h : ∀ q ∈ refusals, q.1 ≠ id) : s.refuse id refusals = s := by
  induction refusals with
  | nil => rfl
  | cons q refusals ih =>
    rw [refuse, List.foldl_cons, if_neg (h q List.mem_cons_self)]
    exact ih fun q hq => h q (List.mem_cons_of_mem _ hq)

/-- Only the first failure of a stream is kept. -/
theorem failure_refuse_of_failed {reason : String} (h : s.failure = some reason) :
    (s.refuse id refusals).failure = some reason := by
  refine List.foldlRecOn refusals _ (motive := fun s : TokenStream => s.failure = some reason) h ?_
  intro s hs q _
  split
  · rw [fail, hs]
    rfl
  · exact hs

theorem failure_refuse (h : s.failure = none) {q : RequestId × String}
    (hq : refusals.find? (·.1 == id) = some q) : (s.refuse id refusals).failure = some q.2 := by
  induction refusals with
  | nil => cases hq
  | cons p refusals ih =>
    rw [List.find?_cons] at hq
    rw [refuse, List.foldl_cons]
    by_cases hp : p.1 = id
    · rw [if_pos hp]
      rw [beq_iff_eq.mpr hp] at hq
      cases hq
      refine failure_refuse_of_failed ?_
      rw [fail, h]
      rfl
    · rw [if_neg hp]
      rw [beq_eq_false_iff_ne.mpr hp] at hq
      exact ih hq

end TokenStream

/-! ## Refusals -/

/-- The request that an assignment refuses, and why. -/
def Assignment.refusal? : Assignment → Option (RequestId × String)
  | failed id reason => some (id, reason)
  | idle | saturated | skipped _ | assigned _ _ => none

/-- The request that a line of a worker refuses, and why: the report of a failure that was
taken in. -/
def IngestOutcome.refusal? : Except DecodeError WireMessage → IngestOutcome →
    Option (RequestId × String)
  | .ok (.error e), failed id => some (id, e.message)
  | _, _ => none

namespace Dispatcher

/-- The request that a call from the side of the workers refuses, and why. -/
def refusal? (d : Dispatcher) : BackendCall → Option (RequestId × String)
  | .assign now => (d.assignNext now).1.refusal?
  | .hear now worker line => (d.ingest now worker line).1.refusal? (WireMessage.decode line)
  | .failWorker _ _ | .sweep _ _ _ | .pool _ => none

/-- The refusals of a list of calls. -/
def refusals (d : Dispatcher) (calls : List BackendCall) : List (RequestId × String) :=
  journal applyBackend (fun d call => (d.refusal? call).toList) d calls

variable {d d' : Dispatcher} {id : RequestId} {s : TokenStream}

/-- A stream that has not ended is another one. -/
theorem ne_of_open (hs : d.streams.find? id = some s) (hfin : s.finished = true) {j : RequestId}
    (hopen : d.streamFinished j = false) : id ≠ j := by
  rintro rfl
  have : d.streamFinished id = s.finished := by rw [streamFinished, hs]
  rw [this, hfin] at hopen
  cases hopen

/-- The stream of a task that ends without being cancelled is refused. -/
theorem find?_ended_refuse (hs : d.streams.find? id = some s) {status : TaskStatus}
    (hst : status ≠ .cancelled) (i : RequestId) (message : String) :
    (d.ended i status message).streams.find? id = some (s.refuse id [(i, message)]) := by
  rw [find?_ended hst]
  by_cases hi : id = i
  · subst hi
    simp [TokenStream.refuse, streamOf, hs]
  · simp [TokenStream.refuse, hi, Ne.symm hi, hs]

theorem find?_assigns {now : Millis} {o : Assignment} (ha : d.Assigns now o d')
    (hs : d.streams.find? id = some s) :
    d'.streams.find? id = some (s.refuse id o.refusal?.toList) := by
  cases ha with
  | @unserved i rest _ _ _ _ _ =>
    have hdequeued : (d.dequeued rest).streams.find? id = some s := hs
    exact find?_ended_refuse hdequeued (by decide) i _
  | @undelivered i rest _ _ _ e _ _ _ _ _ _ =>
    have hdequeued : (d.dequeued rest).streams.find? id = some s := hs
    exact find?_ended_refuse hdequeued (by decide) i e.message
  | saturated _ => exact hs
  | idle _ => exact hs
  | skipped _ _ => exact hs
  | assigned _ _ _ _ _ _ => exact hs

/-- A response does nothing to a stream that has ended, and a report of a failure refuses
its request. -/
theorem find?_hears {now : Millis} {message : Except DecodeError WireMessage} {o : IngestOutcome}
    (hh : d.Hears now message o d') (hs : d.streams.find? id = some s) (hfin : s.finished = true) :
    d'.streams.find? id = some (s.refuse id (o.refusal? message).toList) := by
  have absorbed : ∀ {r : TokenResponse}, d.streamFinished r.id = false →
      ((d.progress r.id now).absorb r).streams.find? id = some s := by
    intro r hopen
    rw [find?_absorb, if_neg (ne_of_open hs hfin hopen)]
    exact hs
  cases hh with
  | more _ hopen _ => exact absorbed hopen
  | last _ hopen _ => exact absorbed hopen
  | failed _ _ _ => exact find?_ended_refuse hs (by decide) _ _
  | late _ _ => exact hs
  | undecodable => exact hs
  | orphan _ => exact hs
  | stray _ _ => exact hs
  | unnamed _ => exact hs
  | status => exact hs
  | heartbeat => exact hs
  | request => exact hs
  | task => exact hs

/-- Whoever ends tasks only as long as their streams have not ended leaves a stream that has
ended alone. -/
theorem find?_endEach {q : Dispatcher → TaskRecord → Bool}
    (hq : ∀ d r, q d r = true → d.streamFinished r.id = false) {status : TaskStatus}
    (hst : status ≠ .cancelled) {message : String} {now : Millis} (records : List TaskRecord)
    (hs : d.streams.find? id = some s) (hfin : s.finished = true) :
    (d.endEach q status message now records).2.streams.find? id = some s := by
  refine endEach_qualified (P := fun d => d.streams.find? id = some s) ?_ records hs
  intro d₁ d₂ r hs₁ hqualifies he
  obtain ⟨-, rfl⟩ := endTask?_eq_some_iff.mp he
  rw [find?_ended hst, if_neg (ne_of_open hs₁ hfin (hq d₁ r hqualifies)), hs₁]

theorem find?_applyBackend (hs : d.streams.find? id = some s) (hfin : s.finished = true)
    (call : BackendCall) :
    (d.applyBackend call).streams.find? id = some (s.refuse id (d.refusal? call).toList) := by
  cases call with
  | assign now => exact find?_assigns (d.assigns_assignNext now) hs
  | hear now worker line =>
    obtain ⟨p, hp⟩ := d.ingest_eq_heard now worker line
    have hh := find?_hears (d.hears_heard now (WireMessage.decode line)) hs hfin
    rw [applyBackend, refusal?, hp]
    exact hh
  | failWorker worker now =>
    refine find?_endEach (fun d r hq => ?_) (by decide) _ hs hfin
    exact (Bool.not_eq_true' _).mp hq
  | sweep now timeoutMs clock =>
    refine find?_endEach (fun d r hq => ?_) (by decide) _ hs hfin
    exact (Bool.not_eq_true' _).mp (Bool.and_eq_true_iff.mp hq).2
  | pool p => exact hs

theorem find?_runBackend (hs : d.streams.find? id = some s) (hfin : s.finished = true)
    (calls : List BackendCall) :
    (d.runBackend calls).streams.find? id = some (s.refuse id (d.refusals calls)) := by
  induction calls generalizing d s with
  | nil => exact hs
  | cons call calls ih =>
    rw [refusals, journal, TokenStream.refuse_append]
    exact ih (find?_applyBackend hs hfin call) (TokenStream.finished_refuse hfin)

/-! ## The calls of other clients -/

theorem streams_deliver (d : Dispatcher) {c : Client} (hid : ∀ w ∈ c.waiting, w.id ≠ id) (cap : Nat)
    (now : Millis) : (c.deliver d cap now).2.2.streams.find? id = d.streams.find? id := by
  refine c.deliver_induction (P := fun d' => d'.streams.find? id = d.streams.find? id)
    (fun w hw d' h => ?_) (fun w hw d' now h => ?_) cap now rfl
  · rw [(d'.draws_nextFragment w.id).streams_of_ne (Ne.symm (hid w hw)), h]
  · rw [d'.streams_finishDelivery now (Ne.symm (hid w hw)), h]

/-- An admission changes no stream, and its client waits for one request more. -/
theorem streams_receive (d : Dispatcher) (c : Client) (m : Moment) (owner : ConnectionId) :
    c.waiting <+: (c.receive d m owner).2.1.waiting ∧
      (c.receive d m owner).2.2.streams = d.streams := by
  refine c.receive_induction (P := fun ws d' => c.waiting <+: ws ∧ d'.streams = d.streams)
    (fun ws d' m r o record d'' h ha => ?_) m owner ⟨List.prefix_rfl, rfl⟩
  obtain ⟨generated, rfl⟩ := (admits_of_admitRequest ha).engine_eq
  exact ⟨h.1.trans (List.prefix_append ..), h.2⟩

/-! ## Handing out -/

/-- What a client finds when it asks some times for the next part of an answer. -/
def answers (id : RequestId) : Nat → Dispatcher → List Drain
  | 0, _ => []
  | n + 1, d => (d.nextFragment id).1 :: answers id n (d.nextFragment id).2

theorem nextFragment_of_unread {f : String} (hs : d.streams.find? id = some s)
    (hfailure : s.failure = none) (hf : s.fragments[s.cursor]? = some f) :
    ∃ d', d.nextFragment id = (.fragment f, d') ∧
      d'.streams.find? id = some { s with cursor := s.cursor + 1 } := by
  refine ⟨{ d.setStream id { s with cursor := s.cursor + 1 } with
    cache := d.cache.modify id fun r => { r with delivered := r.delivered + 1 } }, ?_, ?_⟩
  · simp [nextFragment, hs, hfailure, TokenStream.nextUnread, hf, setStream]
  · show (d.streams.insert id _).find? id = _
    rw [Table.find?_insert, if_pos rfl]

theorem nextFragment_of_drained (hs : d.streams.find? id = some s) (hfailure : s.failure = none)
    (hfin : s.finished = true) (hcursor : s.cursor = s.fragments.length) :
    d.nextFragment id = (.finished, d) := by
  simp [nextFragment, hs, hfailure, TokenStream.nextUnread, TokenStream.isDrained, hfin, hcursor]

/-- The first of what is unread is the next fragment, and the others are unread after it. -/
theorem unread_cons {f : String} {rest : List String}
    (hunread : s.fragments.drop s.cursor = f :: rest) :
    s.fragments[s.cursor]? = some f ∧ s.cursor + 1 ≤ s.fragments.length ∧
      s.fragments.drop (s.cursor + 1) = rest := by
  have hlt : s.cursor < s.fragments.length := by
    by_contra h
    rw [List.drop_eq_nil_iff.mpr (Nat.le_of_not_lt h)] at hunread
    cases hunread
  rw [List.drop_eq_getElem_cons hlt, List.cons.injEq] at hunread
  exact ⟨hunread.1 ▸ List.getElem?_eq_getElem hlt, hlt, hunread.2⟩

/-- A complete answer is handed out fragment by fragment, and then its end. -/
theorem answers_of_finished (hs : d.streams.find? id = some s) (hfailure : s.failure = none)
    (hfin : s.finished = true) (hle : s.cursor ≤ s.fragments.length) :
    d.answers id ((s.fragments.drop s.cursor).length + 1) =
      (s.fragments.drop s.cursor).map Drain.fragment ++ [Drain.finished] := by
  -- each answer reads one fragment off, so the induction is on what is unread
  generalize hunread : s.fragments.drop s.cursor = unread
  induction unread generalizing d s with
  | nil =>
    have hcursor : s.cursor = s.fragments.length :=
      Nat.le_antisymm hle (List.drop_eq_nil_iff.mp hunread)
    rw [List.length_nil, answers, nextFragment_of_drained hs hfailure hfin hcursor]
    rfl
  | cons f unread ih =>
    obtain ⟨hf, hnext, hrest⟩ := unread_cons hunread
    obtain ⟨d', hn, hstream⟩ := nextFragment_of_unread hs hfailure hf
    rw [List.length_cons, answers, hn]
    exact congrArg (_ :: ·) (ih hstream hfailure hfin hnext hrest)

end Dispatcher

/-! ## Runs -/

/-- The client that an event hands answers to, or drops. -/
def Event.serves? : Event → Option ConnectionId
  | deliver o _ _ | disconnect o _ => some o
  | accept _ | link _ _ | receive _ _ | flush _ | assignmentTick _ | deliveryTick _ | backend _ => none

namespace Frontend

/-- The refusals of an event. -/
def refusals (f : Frontend) : Event → List (RequestId × String)
  | .assignmentTick now => f.gateway.dispatcher.refusals (f.gateway.assignmentCalls now)
  | .deliveryTick now => f.gateway.dispatcher.refusals (f.gateway.deliveryCalls now)
  | .backend call => (f.gateway.dispatcher.refusal? call).toList
  | .accept _ | .link _ _ | .receive _ _ | .deliver _ _ _ | .flush _ | .disconnect _ _ => []

/-- The refusals of a list of events. -/
def runRefusals (f : Frontend) (events : List Event) : List (RequestId × String) :=
  journal apply refusals f events

/-- A client waits for a request whose stream has ended. -/
structure Complete (f : Frontend) (o : ConnectionId) (w : WaitingRequest) (s : TokenStream) :
    Prop where
  held : f.exchange.Held
  waiting : w ∈ waitingIn f.clients o
  stream : f.gateway.dispatcher.streams.find? w.id = some s
  finished : s.finished = true

/-- What a client waits for it goes on waiting for, unless it is served or leaves. -/
theorem waitingIn_apply (f : Frontend) {e : Event} {o : ConnectionId} (he : e.serves? ≠ some o) :
    waitingIn f.clients o <+: waitingIn (f.apply e).clients o := by
  -- the list of one client is put in place of what it was
  have replaced : ∀ {o' : ConnectionId} {c c' : Client}, f.clients.find? o' = some c →
      (o' = o → c.waiting <+: c'.waiting) →
      waitingIn f.clients o <+: waitingIn (f.clients.modify o' fun _ => c') o := by
    intro o' c c' hc hc'
    rw [waitingIn_modify hc, Function.update_apply]
    split
    · next ho =>
      subst ho
      rw [waitingIn_of_find? hc]
      exact hc' rfl
    · exact List.prefix_rfl
  cases e with
  | accept link =>
    have hsame : waitingIn (f.accept link).2.clients = waitingIn f.clients :=
      congrArg Exchange.waiting (f.exchange_accept link)
    exact ⟨[], by rw [List.append_nil]; exact congrFun hsame.symm o⟩
  | link o' change =>
    simp only [apply]
    cases hc : f.clients.find? o' with
    | none => exact List.prefix_rfl
    | some c => exact replaced hc fun _ => List.prefix_rfl
  | receive o' m =>
    simp only [apply, receiveFrom]
    cases hc : f.clients.find? o' with
    | none => exact List.prefix_rfl
    | some c =>
      exact replaced hc fun _ => (f.gateway.dispatcher.streams_receive c m o').1
  | deliver o' cap now =>
    simp only [apply]
    cases hc : f.clients.find? o' with
    | none => exact List.prefix_rfl
    | some c => exact replaced hc fun ho => absurd (congrArg some ho) he
  | flush o' =>
    simp only [apply]
    cases hc : f.clients.find? o' with
    | none => exact List.prefix_rfl
    | some c =>
      have hsame : c.flush.2.waiting = c.waiting := waiting_flush c
      exact replaced hc fun _ => ⟨[], by rw [List.append_nil, hsame]⟩
  | disconnect o' now =>
    have ho : o ≠ o' := fun ho => he (congrArg some ho.symm)
    simp only [apply, disconnect]
    cases hc : f.clients.find? o' with
    | none => exact List.prefix_rfl
    | some c =>
      have hsame : waitingIn (f.clients.erase o') o = waitingIn f.clients o := by
        rw [waitingIn_erase, Function.update_of_ne ho]
      exact ⟨[], by rw [List.append_nil]; exact hsame.symm⟩
  | assignmentTick now => exact List.prefix_rfl
  | deliveryTick now => exact List.prefix_rfl
  | backend call => exact List.prefix_rfl

/-- What an event does to a stream that has ended is to fail it if its request is refused,
and nothing else, unless its client is served or leaves. -/
theorem Complete.apply {f : Frontend} {o : ConnectionId} {w : WaitingRequest} {s : TokenStream}
    (h : f.Complete o w s) {e : Event} (he : e.serves? ≠ some o) :
    (f.apply e).Complete o w (s.refuse w.id (f.refusals e)) := by
  refine ⟨h.held.steps (f.steps_apply e), (f.waitingIn_apply he).subset h.waiting, ?_,
    TokenStream.finished_refuse h.finished⟩
  -- nobody else waits for the request
  have hothers : ∀ {o' c}, f.clients.find? o' = some c → o' ≠ o → ∀ v ∈ c.waiting, v.id ≠ w.id := by
    intro o' c hc ho v hv
    rw [← waitingIn_of_find? hc] at hv
    exact Exchange.Held.id_ne h.held ho hv h.waiting
  cases e with
  | accept link =>
    have hsame : (f.accept link).2.gateway.dispatcher = f.gateway.dispatcher :=
      congrArg Exchange.engine (f.exchange_accept link)
    show (f.accept link).2.gateway.dispatcher.streams.find? w.id = some s
    rw [hsame, h.stream]
  | link o' change =>
    simp only [Frontend.apply]
    split <;> exact h.stream
  | flush o' =>
    simp only [Frontend.apply]
    split <;> exact h.stream
  | receive o' m =>
    simp only [Frontend.apply, receiveFrom]
    cases hc : f.clients.find? o' with
    | none => exact h.stream
    | some c =>
      show (c.receive f.gateway.dispatcher m o').2.2.streams.find? w.id = some s
      rw [(f.gateway.dispatcher.streams_receive c m o').2, h.stream]
  | deliver o' cap now =>
    simp only [Frontend.apply]
    cases hc : f.clients.find? o' with
    | none => exact h.stream
    | some c =>
      have ho : o' ≠ o := fun ho => he (congrArg some ho)
      show (c.deliver f.gateway.dispatcher cap now).2.2.streams.find? w.id = some s
      rw [f.gateway.dispatcher.streams_deliver (hothers hc ho), h.stream]
  | disconnect o' now =>
    simp only [Frontend.apply, disconnect]
    cases hc : f.clients.find? o' with
    | none => exact h.stream
    | some c =>
      have ho : o ≠ o' := fun ho => he (congrArg some ho.symm)
      have hleft := Exchange.Held.streams_left h.held ho h.waiting now
      rw [waitingIn_of_find? hc] at hleft
      exact hleft.trans h.stream
  | assignmentTick now =>
    simp only [Frontend.apply, Gateway.assignmentTick_eq]
    exact Dispatcher.find?_runBackend h.stream h.finished _
  | deliveryTick now =>
    simp only [Frontend.apply, Gateway.deliveryTick_eq]
    exact Dispatcher.find?_runBackend h.stream h.finished _
  | backend call => exact Dispatcher.find?_applyBackend h.stream h.finished call

theorem Complete.run {f : Frontend} {o : ConnectionId} {w : WaitingRequest} {s : TokenStream}
    (h : f.Complete o w s) (events : List Event) (he : ∀ e ∈ events, e.serves? ≠ some o) :
    (f.run events).Complete o w (s.refuse w.id (f.runRefusals events)) := by
  induction events generalizing f s with
  | nil => exact h
  | cons e events ih =>
    rw [runRefusals, journal, TokenStream.refuse_append]
    exact ih (h.apply (he e List.mem_cons_self)) fun e' he' => he e' (List.mem_cons_of_mem _ he')

end Frontend

namespace Frontend.Complete

variable {f : Frontend} {o : ConnectionId} {w : WaitingRequest} {s : TokenStream}

/-- A complete answer that has not failed is that of a live request. -/
theorem live (h : f.Complete o w s) (hfailure : s.failure = none) :
    ∃ r, f.gateway.dispatcher.cache.get? w.id = some r ∧ r.owner = o := by
  rcases h.held.kept o w.ticket (List.mem_map_of_mem h.waiting) with hk | hk
  · obtain ⟨⟨r, hr, ho, -⟩, -⟩ := Dispatcher.standing_eq_live_iff.mp hk
    exact ⟨r, hr, ho⟩
  · obtain ⟨-, t, reason, ht, hreason⟩ := Dispatcher.standing_eq_failed_iff.mp hk
    cases h.stream.symm.trans ht
    rw [hfailure] at hreason
    cases hreason

theorem gone (h : f.Complete o w s) {reason : String} (hfailure : s.failure = some reason) :
    f.gateway.dispatcher.cache.get? w.id = none ∧
      (f.gateway.dispatcher.nextFragment w.id).1 = .failed reason := by
  constructor
  · rcases h.held.kept o w.ticket (List.mem_map_of_mem h.waiting) with hk | hk
    · have hnone := (Dispatcher.standing_eq_live_iff.mp hk).2 s h.stream
      rw [hfailure] at hnone
      cases hnone
    · exact (Dispatcher.standing_eq_failed_iff.mp hk).1
  · rw [Dispatcher.nextFragment, h.stream]
    simp only [hfailure]

end Frontend.Complete

/-- A complete answer is handed out as it was, unless its request is refused. Take any state
that a gateway can reach, in which the stream of a live request has ended and has not failed,
and any further run in which its client is not served and does not leave: responses, reports,
losses of workers, sweeps, ticks and everything that other clients do, in any order.

If no assignment of the request has failed and no report of its failure was taken in
meanwhile, it is still live for its client, its stream is the very same, and what is asked for
are the fragments that were unread, in order, and then the end.

Otherwise there is no record of it any more, and what is asked for is the reason of the first
refusal, whatever was unread. -/
theorem complete_answer_kept {settings : Settings} {firstId : Nat} {f : Frontend}
    (hf : (Frontend.create (Gateway.create settings) firstId).Reaches f) {id : RequestId}
    {r : TaskRecord} {s : TokenStream} (hr : f.gateway.dispatcher.cache.get? id = some r)
    (hs : f.gateway.dispatcher.streams.find? id = some s) (hfin : s.finished = true)
    (hfailure : s.failure = none) {later : List Event}
    (hlater : ∀ e ∈ later, e.serves? ≠ some r.owner) :
    let d := (f.run later).gateway.dispatcher
    ((∀ q ∈ f.runRefusals later, q.1 ≠ id) →
      (∃ r', d.cache.get? id = some r' ∧ r'.owner = r.owner) ∧ d.streams.find? id = some s ∧
      d.answers id ((s.fragments.drop s.cursor).length + 1) =
        (s.fragments.drop s.cursor).map Drain.fragment ++ [Drain.finished]) ∧
    ∀ q, (f.runRefusals later).find? (·.1 == id) = some q →
      d.cache.get? id = none ∧ (d.nextFragment id).1 = .failed q.2 := by
  intro d
  obtain ⟨log, haccounted⟩ : ∃ log, Exchange.Accounted log f.exchange := by
    obtain ⟨events, rfl⟩ := hf
    exact ⟨_, (Frontend.accounted_create settings firstId).steps (Frontend.steps_run _ events)⟩
  have hheld := haccounted.held
  -- the owner of the record waits for it
  have hlive := Dispatcher.standing_of_get? hr (hheld.whole id)
  have hpresent : f.gateway.dispatcher.standing id ≠ .absent := by
    rw [hlive]
    exact Standing.noConfusion
  obtain ⟨o, w, hw, rfl, hst⟩ := Frontend.exists_waiting hheld hpresent
  obtain rfl : r.owner = o := by
    rw [hlive] at hst
    rcases hst with hst | hst
    · exact (Standing.live.inj hst).1
    · cases hst
  have hcomplete : f.Complete r.owner w s := ⟨hheld, hw, hs, hfin⟩
  -- no more was read than there is, which the engine alone does not know
  have hle : s.cursor ≤ s.fragments.length := by
    obtain ⟨a, n, -, -, hunderway⟩ := haccounted.waiting r.owner w hw
    obtain ⟨hfragments, -, hcursor⟩ := hunderway.buffered s hs hfailure
    rw [hfragments, hcursor]
    exact hunderway.read_le
  have hafter := hcomplete.run later hlater
  refine ⟨fun hnone => ?_, fun q hq => hafter.gone (TokenStream.failure_refuse hfailure hq)⟩
  rw [TokenStream.refuse_of_ne hnone] at hafter
  exact ⟨hafter.live hfailure, hafter.stream,
    Dispatcher.answers_of_finished hafter.stream hfailure hfin hle⟩

/-- A client asks for `p`, and worker 0 is given it and answers. -/
def answeredRun : List Event :=
  let ask : Link :=
    { Link.fresh with
      inbound := Bytes.ofString "\x7b\"type\":\"request\",\"id\":\"p\",\"stream\":true\x7d\n" }
  let workers : WorkerPool :=
    { maxWorkers := 1
      slots := [{ address := "a", link := 0, lastSeen := 0 }]
      links := [.fresh] }
  [.backend (.pool workers), .accept ask, .receive 3 { now := 0, newId := fun _ => "" },
    .assignmentTick 0,
    .backend (.hear 0 0
      "\x7b\"type\":\"response\",\"id\":\"p\",\"token\":\"whole\",\"finished\":true\x7d")]

set_option maxRecDepth 100000 in
/-- Another response, the loss of the worker and a sweep leave the answer alone. -/
theorem complete_answer_kept_after_loss :
    let f := (Frontend.create (Gateway.create {}) 3).run answeredRun
    let later : List Event :=
      [.backend (.hear 1 0 "\x7b\"type\":\"response\",\"id\":\"p\",\"token\":\"late\"\x7d"),
        .backend (.failWorker 0 2), .backend (.sweep 900 10 3), .deliveryTick 4]
    (∃ r s, f.gateway.dispatcher.cache.get? "p" = some r ∧
      f.gateway.dispatcher.streams.find? "p" = some s ∧ s.finished = true ∧ s.failure = none ∧
      ∀ e ∈ later, e.serves? ≠ some r.owner) ∧
    (∀ q ∈ f.runRefusals later, q.1 ≠ "p") ∧
    (f.run later).gateway.dispatcher.answers "p" 2 = [.fragment "whole", .finished] := by
  intro f later
  have hf : (Frontend.create (Gateway.create {}) 3).Reaches f := ⟨answeredRun, rfl⟩
  have hs : f.gateway.dispatcher.streams.find? "p" =
      some { fragments := ["whole"], finished := true } := by decide +kernel
  have hr : f.gateway.dispatcher.cache.get? "p" =
      some ((f.gateway.dispatcher.cache.get? "p").get (by decide +kernel)) := Option.some_get _ |>.symm
  have hlater : ∀ e ∈ later,
      e.serves? ≠ some ((f.gateway.dispatcher.cache.get? "p").get (by decide +kernel)).owner := by
    decide +kernel
  have hnone : ∀ q ∈ f.runRefusals later, q.1 ≠ "p" := by decide +kernel
  exact ⟨⟨_, _, hr, hs, rfl, rfl, hlater⟩, hnone,
    ((complete_answer_kept hf hr hs rfl rfl hlater).1 hnone).2.2⟩

set_option maxRecDepth 100000 in
/-- A report of a failure that comes after the end takes the place of the answer. -/
theorem report_replaces_answer :
    let f := (Frontend.create (Gateway.create {}) 3).run answeredRun
    let report : BackendCall :=
      .hear 1 0 "\x7b\"type\":\"error\",\"id\":\"p\",\"message\":\"boom\"\x7d"
    (f.gateway.dispatcher.cache.contains "p" = true ∧ f.gateway.dispatcher.streams.find? "p" =
      some { fragments := ["whole"], finished := true }) ∧
    (f.apply (.backend report)).gateway.dispatcher.answers "p" 2 =
      [.failed "boom", .failed "request is no longer tracked"] := by
  decide +kernel

end PromptGateway
