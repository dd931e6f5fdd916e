import PromptGateway.Proofs.Attribution
import PromptGateway.Proofs.Working

/-
  A request that is settled.

  A request is settled when there is no record of it or its stream has ended. Nothing brings
  a record but an admission, and a stream that has ended goes only with its record or after
  it: a client is told of a failure when the record is gone, and one that leaves has had its
  tasks cancelled. So a request stays settled until it is admitted again.

    1. Every call from the side of the workers leaves what is settled settled
       (`Settled.applyBackend`), and so does every step of the exchange that does not admit
       the request (`settled_step`).
    2. The last response of a request that is in flight settles it (`settled_of_last`).
    3. The loss of a worker is nothing to a request that is settled (`Settled.untouched`).
-/

namespace PromptGateway

namespace Dispatcher

variable {d d' : Dispatcher} {id : RequestId}

namespace Settled

/-- Records change in place, and no stream that has ended is opened. -/
theorem of_modify (h : d.Settled id) {j : RequestId} {f : TaskRecord → TaskRecord}
    (hc : d'.cache = d.cache.modify j f)
    (hs : d.streamFinished id = true → d'.streamFinished id = true) : d'.Settled id := by
  rcases h with hnone | hfin
  · left
    rw [hc, TaskCache.get?_modify]
    split
    · next hj => rw [← hj, hnone, Option.map_none]
    · exact hnone
  · exact .inr (hs hfin)

theorem dequeued (h : d.Settled id) (rest : List RequestId) : (d.dequeued rest).Settled id := h

theorem assigns (h : d.Settled id) {now : Millis} {o : Assignment} (ha : d.Assigns now o d') :
    d'.Settled id := by
  cases ha with
  | saturated _ => exact h
  | idle _ => exact h
  | @skipped _ rest _ _ => exact h.dequeued rest
  | @unserved i rest _ _ _ _ _ => exact (h.dequeued rest).ended i .failed _
  | @undelivered i rest _ _ _ e _ _ _ _ _ _ => exact (h.dequeued rest).ended i .failed e.message
  | @assigned _ _ _ _ _ _ _ _ _ _ _ => exact h.of_modify rfl fun hfin => hfin

theorem applyBackend (h : d.Settled id) (call : BackendCall) :
    (d.applyBackend call).Settled id := by
  refine applyBackend_induction (P := fun d => d.Settled id) call ?pool ?ended ?progress ?absorb
    ?assigns h
  case pool => exact fun _ _ h => h
  case ended => exact fun _ j status message _ h _ _ _ => h.ended j status message
  case progress => exact fun _ _ _ _ h _ => h.of_modify rfl fun hfin => hfin
  case assigns => exact fun _ _ _ _ h ha => h.assigns ha
  case absorb =>
    intro d r t h hr hopen
    have hne : id ≠ r.id := by
      rintro rfl
      rcases h with hnone | hfin
      · cases hnone.symm.trans hr
      · cases hfin.symm.trans hopen
    have hstream : (d.absorb r).streamFinished id = d.streamFinished id :=
      streamFinished_congr (by rw [find?_absorb, if_neg hne])
    rcases h with hnone | hfin
    · exact .inl (by rw [cache_absorb, hnone])
    · exact .inr (hstream.trans hfin)

/-- The stream of a request without a record may go. -/
theorem clearStream (h : d.Settled id) {j : RequestId} (hj : d.cache.get? j = none) :
    (d.clearStream j).Settled id := by
  by_cases hid : id = j
  · exact .inl (hid ▸ hj)
  · rcases h with hnone | hfin
    · exact .inl hnone
    · exact .inr (by rw [streamFinished_clearStream, if_neg hid, hfin])

theorem clearStreams (h : d.Settled id) {ids : List RequestId}
    (hids : ∀ j ∈ ids, d.cache.get? j = none) :
    (ids.foldl Dispatcher.clearStream d).Settled id := by
  induction ids generalizing d with
  | nil => exact h
  | cons j ids ih =>
    exact ih (h.clearStream (hids j List.mem_cons_self)) fun i hi =>
      hids i (List.mem_cons_of_mem _ hi)

theorem draws (h : d.Settled id) {j : RequestId} {o : Drain} (hj : d.standing j ≠ .torn)
    (hd : d.Draws j o d') : d'.Settled id := by
  cases hd with
  | @fragment s _ hs _ _ =>
    refine @of_modify _ _ id h j (fun r => { r with delivered := r.delivered + 1 }) rfl
      fun hfin => ?_
    show (d.setStream j { s with cursor := s.cursor + 1 }).streamFinished id = true
    rw [streamFinished_setStream]
    split
    · next hid =>
      subst hid
      rw [streamFinished, hs] at hfin
      exact hfin
    · exact hfin
  | failed hs hf =>
    exact h.clearStream (get?_of_failure hj hs hf)
  | untracked _ _ => exact h
  | unanswered _ _ => exact h
  | finished _ _ _ _ => exact h
  | unread _ _ _ _ => exact h

theorem finishDelivery (h : d.Settled id) (j : RequestId) (now : Millis) :
    (d.finishDelivery j now).Settled id := by
  have hcache : (d.finishDelivery j now).cache = d.cache.remove j := by
    rw [finishDelivery_eq]
    rfl
  by_cases hid : id = j
  · left
    rw [hcache, TaskCache.get?_remove, if_pos hid]
  · rcases h with hnone | hfin
    · left
      rw [hcache, TaskCache.get?_remove, if_neg hid, hnone]
    · right
      rw [finishDelivery_eq, streamFinished_clearStream, if_neg hid]
      exact hfin

theorem admits (h : d.Settled id) {m : Moment} {r : InferenceRequest} {owner : ConnectionId}
    {record : TaskRecord} (ha : d.Admits m r owner record d') (hne : record.id ≠ id) :
    d'.Settled id := by
  obtain ⟨generated, rfl⟩ := ha.engine_eq
  rcases h with hnone | hfin
  · left
    show Table.find? (d.cache.tasks.insert record.id record) id = none
    rw [Table.find?_insert, if_neg hne.symm]
    exact hnone
  · exact .inr hfin

theorem left (h : d.Settled id) {ws : ConnectionId → List WaitingRequest}
    (hheld : Exchange.Held ⟨d, ws⟩) (o : ConnectionId) (now : Millis) :
    (Exchange.left d o now (ws o)).Settled id := by
  have hcancelled : (d.cancelConnection o now).2.Settled id := by
    refine endEach_induction (P := fun d => d.Settled id) (fun d₁ d₂ j h₁ he => ?_) _ h
    obtain ⟨-, rfl⟩ := endTask?_eq_some_iff.mp he
    exact h₁.ended j _ _
  have hgone : ∀ j ∈ (ws o).map (·.id), (d.cancelConnection o now).2.cache.get? j = none :=
    fun j hj => Option.map_eq_none_iff.mp (hheld.holder?_cancelConnection o now j hj)
  rw [Exchange.left_eq]
  exact hcancelled.clearStreams hgone

end Settled

/-- The last response of a request that is in flight settles it. -/
theorem settled_of_last {line : String} {r : TokenResponse}
    (hline : WireMessage.decode line = .ok (.response r)) (hlast : r.finished = true)
    (hlive : d.cache.contains r.id = true) (now : Millis) (worker : Nat) :
    (d.ingest now worker line).2.Settled r.id := by
  obtain ⟨t, ht⟩ := (TaskCache.contains_iff _ _).mp hlive
  obtain ⟨p, hp⟩ := d.ingest_eq_heard now worker line
  have hh := d.hears_heard now (WireMessage.decode line)
  rw [hp]
  show (d.heard now (WireMessage.decode line)).2.Settled r.id
  generalize (d.heard now (WireMessage.decode line)).1 = o at hh
  generalize (d.heard now (WireMessage.decode line)).2 = d' at hh ⊢
  rw [hline] at hh
  cases hh with
  | orphan hnone => cases hnone.symm.trans ht
  | late _ hfin => exact .inr hfin
  | more _ _ hmore => cases hlast.symm.trans hmore
  | last _ _ _ =>
    right
    rw [absorb, if_neg (by simp [hlast]), streamFinished_setStream, if_pos rfl]
    simp only [TokenStream.absorb, hlast, if_true]
    rfl

/-- The loss of a worker is nothing to a request that is settled. -/
theorem Settled.untouched (h : d.Settled id) (worker : Nat) (now : Millis) :
    d.Untouched (d.failWorkerTasks worker now).2 id := by
  refine endEach_qualified (P := fun d' => d.Untouched d' id) (fun d₁ d₂ r h₁ hq he => ?_) _
    (.of_eq rfl rfl rfl)
  obtain ⟨⟨t, ht, -⟩, rfl⟩ := endTask?_eq_some_iff.mp he
  -- whose task ends has a record, and no stream that has ended
  have hne : id ≠ r.id := by
    rintro rfl
    rcases h with hnone | hfin
    · cases (h₁.record.trans hnone).symm.trans ht
    · rw [streamFinished_congr h₁.stream, hfin] at hq
      cases hq
  exact h₁.trans (d₁.untouched_ended hne (by decide) _)

end Dispatcher

namespace Exchange

variable {x y : Exchange} {l : List Observation} {id : RequestId}

theorem settled_step (hx : x.Held) (h : x.engine.Settled id) (hs : Step x l y)
    (hl : ∀ o stream, .admitted o id stream ∉ l) : y.engine.Settled id := by
  cases hs with
  | backend call => exact h.applyBackend call
  | @admitted d ws m r o record d' ha =>
    refine h.admits (Dispatcher.admits_of_admitRequest ha) fun he => hl o record.payload.stream ?_
    rw [he]
    exact List.mem_singleton_self _
  | @fragment d ws o before w after f d' hw hn =>
    have hd := d.draws_nextFragment w.id
    rw [hn] at hd
    exact h.draws (hx.whole w.id) hd
  | @finish d ws o before w after d' now hw hn =>
    have hd := d.draws_nextFragment w.id
    rw [hn] at hd
    exact (h.draws (hx.whole w.id) hd).finishDelivery w.id now
  | @fail d ws o before w after reason d' hw hn =>
    have hd := d.draws_nextFragment w.id
    rw [hn] at hd
    exact h.draws (hx.whole w.id) hd
  | leave o now => exact h.left hx o now

/-- A request stays settled until it is admitted again. -/
theorem settled_steps (hx : x.Held) (h : x.engine.Settled id) (hs : Steps x l y)
    (hl : ∀ o stream, .admitted o id stream ∉ l) : y.engine.Settled id := by
  induction hs with
  | refl => exact h
  | snoc hbefore hstep ih =>
    have hleft := ih fun o stream hm => hl o stream (List.mem_append_left _ hm)
    exact settled_step (hx.steps hbefore) hleft hstep fun o stream hm =>
      hl o stream (List.mem_append_right _ hm)

end Exchange

/-- A request that was in flight when its last response was heard is nothing to the loss of a
worker, as long as it is not admitted again. -/
theorem Frontend.untouched_after_last {f : Frontend} (hf : f.exchange.Held)
    {first middle : List Event} {t : Millis} {w : Nat} {line : String} {r : TokenResponse}
    (hline : WireMessage.decode line = .ok (.response r)) (hlast : r.finished = true)
    (hlive : (f.run first).gateway.dispatcher.cache.contains r.id = true)
    (hnew : ∀ o stream, .admitted o r.id stream ∉
      (f.run (first ++ [.backend (.hear t w line)])).runLog middle) (worker : Nat) (now : Millis) :
    let d := (f.run (first ++ .backend (.hear t w line) :: middle)).gateway.dispatcher
    d.Untouched (d.failWorkerTasks worker now).2 r.id := by
  intro d
  have hheard : (f.run (first ++ [.backend (.hear t w line)])).exchange.Held :=
    hf.steps (f.steps_run _)
  have hsettled :
      (f.run (first ++ [.backend (.hear t w line)])).exchange.engine.Settled r.id := by
    rw [run, List.foldl_append]
    exact Dispatcher.settled_of_last hline hlast hlive t w
  have hafter : ((f.run (first ++ [.backend (.hear t w line)])).run middle).exchange.engine.Settled
      r.id := Exchange.settled_steps hheard hsettled (steps_run _ middle) hnew
  have hsame : (f.run (first ++ [.backend (.hear t w line)])).run middle =
      f.run (first ++ .backend (.hear t w line) :: middle) := by
    simp only [run, List.foldl_append, List.foldl_cons, List.foldl_nil]
  rw [hsame] at hafter
  exact Dispatcher.Settled.untouched hafter worker now

end PromptGateway
