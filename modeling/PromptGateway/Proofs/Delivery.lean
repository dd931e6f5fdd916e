import PromptGateway.Proofs.Accounts
import PromptGateway.Proofs.Custody

/-
  What a client is sent is exactly what the workers answered.

  `Accounted` is what keeps a log and the exchange together: whatever a client waits
  for is underway, as the log accounts for it, and every account is exact. A step
  looks at one request (`Held.cases_replace`), and to the others nothing happens.

    1. `Accounted.step`: every step keeps it, with what is noted of the step.
    2. `delivery_exact`: so at every moment of every run each account is exact, and
       what is noted as queued is what the outboxes of the clients have received.
-/

namespace PromptGateway

namespace Exchange

open Function (update)

/-- A log accounts for a request that a client waits for. -/
def Accounts (log : List Observation) (d : Dispatcher) (o : ConnectionId) (w : WaitingRequest) :
    Prop :=
  ∃ a n, account w.id log = some a ∧ a.owner = o ∧ a.Underway n w (d.streams.find? w.id)

/-- A log accounts for everything that happens in an exchange. -/
structure Accounted (log : List Observation) (x : Exchange) : Prop where
  held : x.Held
  waiting : ∀ o, ∀ w ∈ x.waiting o, Accounts log x.engine o w
  settled : ∀ id a, account id log = some a → a.Exact id
  known : ∀ e ∈ log, account e.id log ≠ none

/-- Who waits for what, when the list of one client has changed in one place. -/
theorem Held.cases_replace {d : Dispatcher} {ws : ConnectionId → List WaitingRequest}
    (h : Held ⟨d, ws⟩) {o : ConnectionId} {before after : List WaitingRequest} {w : WaitingRequest}
    (hw : ws o = before ++ w :: after) {new : List WaitingRequest} {o' : ConnectionId}
    {v : WaitingRequest} (hv : v ∈ update ws o (before ++ new ++ after) o') :
    (o' = o ∧ v ∈ new) ∨ (v ∈ ws o' ∧ v.id ≠ w.id) := by
  have hmem : w ∈ ws o := by rw [hw]; simp
  rw [Function.update_apply] at hv
  split at hv
  · next ho =>
    subst ho
    have hnodup := h.once o'
    rw [tickets_split hw, List.map_append, List.map_cons, List.nodup_middle, List.nodup_cons,
      ← List.map_append, ← List.map_append] at hnodup
    have hothers : v ∈ before ++ after → v ∈ ws o' ∧ v.id ≠ w.id := by
      intro hv
      refine ⟨?_, fun hid => hnodup.1 ?_⟩
      · rw [hw]
        rcases List.mem_append.mp hv with hv | hv
        · exact List.mem_append_left _ hv
        · exact List.mem_append_right _ (List.mem_cons_of_mem _ hv)
      · exact List.mem_map.mpr ⟨v.ticket, List.mem_map_of_mem hv, hid⟩
    rcases List.mem_append.mp hv with hv | hv
    · rcases List.mem_append.mp hv with hv | hv
      · exact .inr (hothers (List.mem_append_left _ hv))
      · exact .inl ⟨rfl, hv⟩
    · exact .inr (hothers (List.mem_append_right _ hv))
  · next ho =>
    exact .inr ⟨hv, h.id_ne ho hv hmem⟩

/-- What other clients wait for is not touched when a client leaves. -/
theorem Held.streams_left {d : Dispatcher} {ws : ConnectionId → List WaitingRequest}
    (h : Held ⟨d, ws⟩) {o o' : ConnectionId} (ho : o' ≠ o) {w : WaitingRequest} (hw : w ∈ ws o')
    (now : Millis) : (left d o now (ws o)).streams.find? w.id = d.streams.find? w.id := by
  -- what is cancelled belongs to the client that leaves, and so does what it waits for
  have howned : ∀ r ∈ d.cache.ownedBy o, w.id ≠ r.id := by
    obtain ⟨b, hb⟩ := h.listed
    intro r hr hwr
    obtain ⟨hr, howner⟩ := List.mem_filter.mp hr
    obtain ⟨i, hi⟩ := (TaskCache.mem_records_iff _ _).mp hr
    have hlive := Dispatcher.standing_of_get? hi (h.whole i)
    rw [← hb.own_id i r hi, ← hwr, beq_iff_eq.mp howner] at hlive
    rcases h.kept o' w.ticket (List.mem_map_of_mem hw) with hk | hk
    · exact ho (Standing.live.inj (hk.symm.trans hlive)).1
    · cases hlive.symm.trans hk
  have hwaited : ∀ v ∈ ws o, w.id ≠ v.id := fun v hv => h.id_ne ho hw hv
  exact (Dispatcher.streams_clearStreams (ws o) _ hwaited).trans
    (d.streams_cancelConnection o now howned)

namespace Accounted

variable {log l : List Observation} {x y : Exchange}

/-- Somebody waits for every request that has a record. -/
theorem of_get? (h : Accounted log x) {id : RequestId} {t : TaskRecord}
    (ht : x.engine.cache.get? id = some t) : ∃ o, ∃ w ∈ x.waiting o, w.id = id := by
  have hpresent : x.engine.standing id ≠ .absent := by
    intro ha
    rw [(Dispatcher.standing_eq_absent_iff.mp ha).1] at ht
    cases ht
  obtain ⟨o, ho⟩ := h.held.awaited id hpresent
  obtain ⟨e, he, rfl⟩ := List.mem_map.mp ho
  obtain ⟨w, hw, rfl⟩ := List.mem_map.mp he
  exact ⟨o, w, hw, rfl⟩

/-- What is to be shown of a step: the requests that are still waited for are underway, and
the accounts of the others exact. -/
theorem next (h : Accounted log x) (hheld : y.Held)
    (hwaiting : ∀ o, ∀ w ∈ y.waiting o, Accounts (log ++ l) y.engine o w)
    (hsettled : ∀ id a, (∀ o, ∀ w ∈ y.waiting o, w.id ≠ id) → account id (log ++ l) = some a →
      a.Exact id)
    (hknown : ∀ e ∈ l, account e.id (log ++ l) ≠ none) : Accounted (log ++ l) y where
  held := hheld
  waiting := hwaiting
  settled := by
    intro id a ha
    by_cases hw : ∃ o, ∃ w ∈ y.waiting o, w.id = id
    · obtain ⟨o, w, hw, rfl⟩ := hw
      obtain ⟨b, n, hb, -, hunderway⟩ := hwaiting o w hw
      rw [ha] at hb
      cases hb
      exact hunderway.exact
    · exact hsettled id a (fun o w hm hid => hw ⟨o, w, hm, hid⟩) ha
  known := by
    intro e he
    rcases List.mem_append.mp he with he | he
    · exact account_append_ne_none (h.known e he) l
    · exact hknown e he

/-- A request to which nothing happens stays underway. -/
theorem keep (h : Accounted log x) {o : ConnectionId} {w : WaitingRequest} (hw : w ∈ x.waiting o)
    (hl : ∀ e ∈ l, e.id ≠ w.id) {d : Dispatcher}
    (hs : d.streams.find? w.id = x.engine.streams.find? w.id) : Accounts (log ++ l) d o w := by
  rw [Accounts, account_append_of_ne hl, hs]
  exact h.waiting o w hw

theorem backend {d : Dispatcher} {ws : ConnectionId → List WaitingRequest}
    (h : Accounted log ⟨d, ws⟩) (call : BackendCall) :
    Accounted (log ++ d.noted call) ⟨d.applyBackend call, ws⟩ := by
  refine h.next (h.held.step (.backend call)) ?_ ?_ ?_
  · intro o w hw
    obtain ⟨a, n, ha, ho, hunderway⟩ := h.waiting o w hw
    have hevolves := d.evolves_applyBackend call w.id
    show Accounts (log ++ d.noted call) (d.applyBackend call) o w
    unfold Accounts
    generalize d.noted call = l at hevolves ⊢
    generalize (d.applyBackend call).streams.find? w.id = s at hevolves ⊢
    cases hevolves with
    | same hl => exact ⟨a, n, by rw [account_append_of_ne hl, ha], ho, hunderway⟩
    | fails hl hs => exact ⟨a, n, by rw [account_append_of_ne hl, ha], ho, hunderway.fail hs⟩
    | @hears r t hid ht hfin =>
      refine ⟨a.hear r.fragment? r.finished, n, ?_, ho, hunderway.hear ?_⟩
      · rw [account_append, ha]
        exact if_pos rfl
      · intro s hs
        simpa only [Dispatcher.streamFinished, show d.streams.find? w.id = some s from hs] using hfin
  · intro id a hnot ha
    -- nothing is taken in for a request that nobody waits for
    have hevolves := d.evolves_applyBackend call id
    generalize d.noted call = l at hevolves ha
    generalize (d.applyBackend call).streams.find? id = s at hevolves
    cases hevolves with
    | same hl => exact h.settled id a (account_append_of_ne hl log ▸ ha)
    | fails hl _ => exact h.settled id a (account_append_of_ne hl log ▸ ha)
    | hears _ ht _ =>
      obtain ⟨o, w, hw, hid⟩ := h.of_get? ht
      exact absurd hid (hnot o w hw)
  · intro e he
    have hevolves := d.evolves_applyBackend call e.id
    generalize d.noted call = l at hevolves he ⊢
    generalize (d.applyBackend call).streams.find? e.id = s at hevolves
    cases hevolves with
    | same hl => exact absurd rfl (hl e he)
    | fails hl _ => exact absurd rfl (hl e he)
    | hears _ ht _ =>
      obtain ⟨o, w, hw, hid⟩ := h.of_get? ht
      obtain ⟨a, n, ha, -⟩ := h.waiting o w hw
      refine account_append_ne_none ?_ _
      rw [← hid, ha]
      exact Option.some_ne_none a

theorem submit {d d' : Dispatcher} {ws : ConnectionId → List WaitingRequest}
    (h : Accounted log ⟨d, ws⟩) {m : Moment} {r : InferenceRequest} {o : ConnectionId}
    {record : TaskRecord} (ha : d.admitRequest m r o = .ok (record, d')) :
    Accounted (log ++ [.admitted o record.id record.payload.stream])
      ⟨d', update ws o (ws o ++ [{ id := record.id, stream := record.payload.stream }])⟩ := by
  have hadmits := Dispatcher.admits_of_admitRequest ha
  have hstreams : d'.streams = d.streams := by
    obtain ⟨generated, rfl⟩ := hadmits.engine_eq
    rfl
  have hnew : account record.id (log ++ [.admitted o record.id record.payload.stream]) =
      some { owner := o, stream := record.payload.stream } := by
    rw [account_append]
    exact if_pos rfl
  have hother : ∀ {id}, id ≠ record.id →
      ∀ e ∈ [Observation.admitted o record.id record.payload.stream], e.id ≠ id := by
    intro id hid e he
    rw [List.mem_singleton.mp he]
    exact fun e => hid e.symm
  refine h.next (h.held.step (.admitted ha)) ?_ ?_ ?_
  · intro o' w hw
    have hold : w ∈ ws o' →
        Accounts (log ++ [.admitted o record.id record.payload.stream]) d' o' w := by
      intro hw
      -- there was nothing of the new id, so nobody waits for it yet
      have hne : w.id ≠ record.id := by
        intro hid
        refine h.held.present (List.mem_map_of_mem hw) ?_
        show d.standing w.id = .absent
        rw [hid]
        exact hadmits.absent
      exact h.keep hw (hother hne) (congrArg (Table.find? · w.id) hstreams)
    rw [show (Exchange.mk d' _).waiting o' = _ from Function.update_apply _ _ _ _] at hw
    split at hw
    · next ho =>
      subst ho
      rcases List.mem_append.mp hw with hw | hw
      · exact hold hw
      · rw [List.mem_singleton.mp hw, Accounts, hstreams, hadmits.unread]
        exact ⟨_, 0, hnew, rfl, rfl, Nat.le_refl _, by simp [Account.tokens], fun _ => rfl,
          fun _ => ⟨rfl, rfl⟩, nofun⟩
    · exact hold hw
  · intro id a hnot ha
    have hid : id ≠ record.id := by
      refine fun hid => hnot o { id := record.id, stream := record.payload.stream } ?_ hid.symm
      show _ ∈ update ws o _ o
      rw [Function.update_self]
      exact List.mem_append_right _ (List.mem_singleton_self _)
    rw [account_append_of_ne (hother hid)] at ha
    exact h.settled id a ha
  · intro e he
    rw [List.mem_singleton.mp he]
    exact ne_of_eq_of_ne hnew (Option.some_ne_none _)

theorem fragment {d d' : Dispatcher} {ws : ConnectionId → List WaitingRequest}
    (h : Accounted log ⟨d, ws⟩) {o : ConnectionId} {before after : List WaitingRequest}
    {w : WaitingRequest} {f : String} (hw : ws o = before ++ w :: after)
    (hn : d.nextFragment w.id = (.fragment f, d')) :
    Accounted (log ++ (w.reply f).map (.queued o w.id))
      ⟨d', update ws o (before ++ w.gather f :: after)⟩ := by
  have hdraws := d.draws_nextFragment w.id
  rw [hn] at hdraws
  obtain ⟨a, n, ha, rfl, hunderway⟩ := h.waiting o w (show w ∈ ws o by rw [hw]; simp)
  have hlog : ∀ e ∈ (w.reply f).map (Observation.queued a.owner w.id), e.id = w.id := by
    intro e he
    obtain ⟨_, -, rfl⟩ := List.mem_map.mp he
    rfl
  have hother : ∀ {id}, id ≠ w.id → ∀ e ∈ (w.reply f).map (Observation.queued a.owner w.id), e.id ≠ id :=
    fun hid e he hr => hid (hr.symm.trans (hlog e he))
  have hgather : (w.gather f).id = w.id := w.id_gather f
  obtain ⟨s, hs, hfailure, hf, hstreams⟩ := hdraws.streams_fragment
  rw [show (Exchange.mk d ws).engine.streams.find? w.id = _ from hs] at hunderway
  obtain ⟨hnoted, hdrawn⟩ := hunderway.draw hfailure hf
  rw [← ha, ← account_append] at hnoted
  refine h.next (h.held.step (.fragment hw hn)) ?_ ?_ ?_
  · intro o v hv
    have hv : v ∈ update ws a.owner (before ++ [w.gather f] ++ after) o := by
      simpa only [List.append_assoc, List.singleton_append] using hv
    rcases h.held.cases_replace hw hv with ⟨ho, hthis⟩ | ⟨hold, hne⟩
    · rw [List.mem_singleton.mp hthis]
      refine ⟨{ a with messages := a.messages ++ (w.reply f).map (a.owner, ·) }, n + 1,
        hgather.symm ▸ hnoted, ho.symm, ?_⟩
      rw [hgather, hstreams, if_pos rfl]
      exact hdrawn
    · refine h.keep hold (hother hne) ?_
      exact (hstreams v.id).trans (if_neg hne)
  · intro id b hnot hb
    have hid : id ≠ w.id := by
      refine fun hid => hnot a.owner (w.gather f) ?_ (hgather.trans hid.symm)
      show _ ∈ update ws a.owner _ a.owner
      rw [Function.update_self]
      simp
    rw [account_append_of_ne (hother hid)] at hb
    exact h.settled id b hb
  · intro e he
    rw [hlog e he, hnoted]
    exact Option.some_ne_none _

/-- The last message about a request, after which its client does not wait for it. -/
theorem last {d d' : Dispatcher} {ws : ConnectionId → List WaitingRequest}
    (h : Accounted log ⟨d, ws⟩) {o : ConnectionId} {before after : List WaitingRequest}
    {w : WaitingRequest} (hw : ws o = before ++ w :: after) {message : WireMessage}
    (hheld : Held ⟨d', update ws o (before ++ after)⟩)
    (hexact : ∀ (a : Account) n, a.owner = o → a.Underway n w (d.streams.find? w.id) →
      (a.send o message).Exact w.id)
    (hstreams : ∀ j, j ≠ w.id → d'.streams.find? j = d.streams.find? j) :
    Accounted (log ++ [.queued o w.id message]) ⟨d', update ws o (before ++ after)⟩ := by
  obtain ⟨a, n, ha, ho, hunderway⟩ := h.waiting o w (show w ∈ ws o by rw [hw]; simp)
  have hother : ∀ {id}, id ≠ w.id → ∀ e ∈ [Observation.queued o w.id message], e.id ≠ id := by
    intro id hid e he
    rw [List.mem_singleton.mp he]
    exact fun e => hid e.symm
  have hnoted : account w.id (log ++ [.queued o w.id message]) = some (a.send o message) := by
    rw [account_append, ha]
    exact if_pos rfl
  refine h.next hheld ?_ ?_ ?_
  · intro o' v hv
    have hv : v ∈ update ws o (before ++ [] ++ after) o' := by
      simpa only [List.append_nil] using hv
    rcases h.held.cases_replace hw hv with ⟨-, hthis⟩ | ⟨hold, hne⟩
    · exact absurd hthis List.not_mem_nil
    · exact h.keep hold (hother hne) (hstreams v.id hne)
  · intro id b _ hb
    by_cases hid : id = w.id
    · rw [hid, hnoted] at hb
      cases hb
      exact hid ▸ hexact a n ho hunderway
    · rw [account_append_of_ne (hother hid)] at hb
      exact h.settled id b hb
  · intro e he
    rw [List.mem_singleton.mp he]
    exact ne_of_eq_of_ne hnoted (Option.some_ne_none _)

theorem leave {d : Dispatcher} {ws : ConnectionId → List WaitingRequest}
    (h : Accounted log ⟨d, ws⟩) (o : ConnectionId) (now : Millis) :
    Accounted (log ++ []) ⟨left d o now (ws o), update ws o []⟩ := by
  refine h.next (h.held.leave o now) ?_ ?_ (fun _ he => absurd he List.not_mem_nil)
  · intro o' w hw
    rw [show (Exchange.mk _ (update ws o [])).waiting o' = _ from Function.update_apply _ _ _ _] at hw
    split at hw
    · exact absurd hw List.not_mem_nil
    · next ho =>
      exact h.keep hw (fun _ he => absurd he List.not_mem_nil) (h.held.streams_left ho hw now)
  · intro id a _ ha
    rw [List.append_nil] at ha
    exact h.settled id a ha

/-- Every step is accounted for by what is noted of it. -/
theorem step (h : Accounted log x) (hs : Step x l y) : Accounted (log ++ l) y := by
  cases hs with
  | backend call => exact h.backend call
  | admitted ha => exact h.submit ha
  | fragment hw hn => exact h.fragment hw hn
  | leave o now => exact h.leave o now
  | @finish d ws o before w after d' now hw hn =>
    have hdraws := d.draws_nextFragment w.id
    rw [hn] at hdraws
    have hheld := h.held.step (.finish now hw hn)
    cases hdraws with
    | finished hs hfailure hfinished hcursor =>
      refine h.last hw hheld ?_ fun j hj => d'.streams_finishDelivery now hj
      intro a n ho hunderway
      rw [hs] at hunderway
      exact ho ▸ hunderway.exact_finish hfailure hfinished hcursor
  | @fail d ws o before w after reason d' hw hn =>
    have hdraws := d.draws_nextFragment w.id
    rw [hn] at hdraws
    refine h.last hw (h.held.step (.fail hw hn)) ?_ fun j hj => hdraws.streams_of_ne hj
    intro a n ho hunderway
    exact ho ▸ hunderway.exact_fail reason

theorem steps (h : Accounted [] x) (hs : Steps x l y) : Accounted l y := by
  induction hs with
  | refl => exact h
  | snoc _ hstep ih => exact ih.step hstep

end Accounted

end Exchange

theorem Frontend.accounted_create (settings : Settings) (firstId : Nat) :
    Exchange.Accounted [] (create (Gateway.create settings) firstId).exchange :=
  ⟨held_run settings firstId [], fun _ _ h => absurd h List.not_mem_nil, nofun, nofun⟩

/-- Delivery is exact. Take any run of a gateway that began without clients, and what has
been noted of it at any moment, also in the middle of an event. Then the messages that
were queued for a request since it was admitted are for the client that it was admitted
for, and

if the request is streamed, they are its fragments from the first on, each once and in
the order in which they were taken in, and then at most one more message: the end of the
stream, if a last response was taken in and no fragment is missing, or a failure;

if it is not streamed, there is at most one message: all its fragments in one, again if a
last response was taken in, or a failure.

Nothing is noted of a request that was not admitted, and what is noted as queued in a
delivery is what the delivery puts into the outbox of the client. -/
theorem delivery_exact (settings : Settings) (firstId : Nat) (events : List Event) (k : Nat) :
    let start := Frontend.create (Gateway.create settings) firstId
    let seen := (start.runLog events).take k
    (∀ id a, account id seen = some a → a.Exact id) ∧
    (∀ e ∈ seen, account e.id seen ≠ none) ∧
    ∀ o c, (start.run events).clients.find? o = some c → ∀ cap now,
      (c.deliver (start.run events).gateway.dispatcher cap now).2.1.outbox =
        c.outbox ++ (((start.run events).log (.deliver o cap now)).filterMap
          Observation.message?).flatMap WireMessage.encode := by
  intro start seen
  obtain ⟨x, hx⟩ := (start.steps_run events).cut (List.take_prefix k _)
  have h := (Frontend.accounted_create settings firstId).steps hx
  refine ⟨h.settled, h.known, ?_⟩
  intro o c hc cap now
  simp only [Frontend.log, hc]
  exact c.outbox_deliver _ o cap now

end PromptGateway
