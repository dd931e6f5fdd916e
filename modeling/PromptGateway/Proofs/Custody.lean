import PromptGateway.Proofs.Connections
import PromptGateway.Proofs.Standing
import Mathlib.Data.List.Nodup

/-
  Every live piece of state belongs to one waiting client.

  The engine does not clear up by itself. A record and a stream go when the client
  that waits for them has had the answer, is told of a failure or leaves, and what a
  client waits for is only in its own list. `Held` is what keeps the two sides
  together: there is something of an id exactly as long as some client waits for it,
  no id is waited for twice, and a record is that of the client that waits.

    1. Three things can happen to the two sides: requests fail (`Held.decline`), a
       client begins to wait (`Held.submit`), or it stops to wait and takes with it what
       there is (`Held.drop`). Every step is one of these (`Held.step`).
    2. A delivery asks the engine for nothing that a client does not wait for
       (`steps_asked_deliver`).
    3. `custody`: for every run of a gateway, with what is known of the ids of its
       clients.
-/

namespace PromptGateway

/-- What a client waits for, without what has been gathered of it. -/
def WaitingRequest.ticket (w : WaitingRequest) : RequestId × Bool := (w.id, w.stream)

/-- The engine and what each client waits for belong together. -/
structure Held (d : Dispatcher) (t : ConnectionId → List (RequestId × Bool)) : Prop where
  listed : ∃ b, Listed b d.cache d.queue
  whole : ∀ id, d.standing id ≠ .torn
  awaited : ∀ id, d.standing id ≠ .absent → ∃ o, id ∈ (t o).map Prod.fst
  kept : ∀ o e, e ∈ t o → d.standing e.1 = .live o e.2 ∨ d.standing e.1 = .failed
  once : ∀ o, ((t o).map Prod.fst).Nodup
  apart : ∀ o o' id, id ∈ (t o).map Prod.fst → id ∈ (t o').map Prod.fst → o = o'

namespace Held

open Function (update)

variable {d d' : Dispatcher} {t : ConnectionId → List (RequestId × Bool)} {o : ConnectionId}

theorem present (h : Held d t) {e : RequestId × Bool} (he : e ∈ t o) : d.standing e.1 ≠ .absent := by
  rcases h.kept o e he with hs | hs <;> rw [hs] <;> exact Standing.noConfusion

theorem decline (h : Held d t) (hl : ∃ b, Listed b d'.cache d'.queue)
    (hs : ∀ j, (d.standing j).Declines (d'.standing j)) : Held d' t where
  listed := hl
  whole := fun j => (hs j).ne_torn (h.whole j)
  awaited := fun j hj => h.awaited j fun ha => hj ((hs j).absent_iff.mpr ha)
  kept := fun o e he => (hs e.1).of_live_or_failed (h.kept o e he)
  once := h.once
  apart := h.apart

/-- A client begins to wait for something there was nothing of. -/
theorem submit (h : Held d t) (hl : ∃ b, Listed b d'.cache d'.queue) {id : RequestId} {s : Bool}
    (ha : d.standing id = .absent)
    (hs : ∀ j, d'.standing j = if j = id then .live o s else d.standing j) :
    Held d' (update t o (t o ++ [(id, s)])) := by
  -- nobody waits for the id yet
  have hnew : ∀ o', id ∉ (t o').map Prod.fst := by
    intro o' hm
    obtain ⟨e, he, rfl⟩ := List.mem_map.mp hm
    exact h.present he ha
  have hmem : ∀ o' j, j ∈ (update t o (t o ++ [(id, s)]) o').map Prod.fst ↔
      j ∈ (t o').map Prod.fst ∨ (o' = o ∧ j = id) := by
    intro o' j
    rw [Function.update_apply]
    by_cases ho : o' = o
    · simp [ho]
    · simp [ho]
  refine ⟨hl, ?_, ?_, ?_, ?_, ?_⟩
  · intro j
    rw [hs]
    split
    · exact Standing.noConfusion
    · exact h.whole j
  · intro j hj
    by_cases hid : j = id
    · exact ⟨o, (hmem o j).mpr (.inr ⟨rfl, hid⟩)⟩
    · rw [hs, if_neg hid] at hj
      obtain ⟨o', ho'⟩ := h.awaited j hj
      exact ⟨o', (hmem o' j).mpr (.inl ho')⟩
  · intro o' e he
    rw [Function.update_apply] at he
    have hold : e ∈ t o' → d'.standing e.1 = .live o' e.2 ∨ d'.standing e.1 = .failed := by
      intro he
      have hne : e.1 ≠ id := fun hid => hnew o' (List.mem_map.mpr ⟨e, he, hid⟩)
      rw [hs, if_neg hne]
      exact h.kept o' e he
    split at he
    · next ho =>
      subst ho
      rcases List.mem_append.mp he with he | he
      · exact hold he
      · rw [List.mem_singleton.mp he, hs, if_pos rfl]
        exact .inl rfl
    · exact hold he
  · intro o'
    rw [Function.update_apply]
    split
    · next ho =>
      subst ho
      rw [List.map_append, List.nodup_append]
      refine ⟨h.once o', List.nodup_singleton _, ?_⟩
      intro j hj k hk e
      rw [List.map_cons, List.map_nil, List.mem_singleton] at hk
      rw [e, hk] at hj
      exact hnew o' hj
    · exact h.once o'
  · intro o₁ o₂ j h₁ h₂
    rcases (hmem o₁ j).mp h₁ with old₁ | ⟨ho₁, hj₁⟩
    · rcases (hmem o₂ j).mp h₂ with old₂ | ⟨ho₂, hj₂⟩
      · exact h.apart o₁ o₂ j old₁ old₂
      · exact absurd (hj₂ ▸ old₁) (hnew o₁)
    · rcases (hmem o₂ j).mp h₂ with old₂ | ⟨ho₂, -⟩
      · exact absurd (hj₁ ▸ old₂) (hnew o₂)
      · exact ho₁.trans ho₂.symm

/-- A client stops to wait for some of its requests, and nothing is left of these. -/
theorem drop (h : Held d t) (hl : ∃ b, Listed b d'.cache d'.queue) {kept : List (RequestId × Bool)}
    (hsub : kept.Sublist (t o))
    (hgone : ∀ j, j ∈ (t o).map Prod.fst → j ∉ kept.map Prod.fst → d'.standing j = .absent)
    (hrest : ∀ j, (j ∈ (t o).map Prod.fst → j ∈ kept.map Prod.fst) →
      d'.standing j = d.standing j) :
    Held d' (update t o kept) := by
  have hids : (kept.map Prod.fst).Sublist ((t o).map Prod.fst) := hsub.map _
  -- whoever still waits for an id waited for it before, and finds it as it was
  have hmem : ∀ o' j, j ∈ (update t o kept o').map Prod.fst →
      j ∈ (t o').map Prod.fst ∧ d'.standing j = d.standing j := by
    intro o' j hj
    rw [Function.update_apply] at hj
    split at hj
    · next ho =>
      subst ho
      exact ⟨hids.subset hj, hrest j fun _ => hj⟩
    · next ho => exact ⟨hj, hrest j fun hm => absurd (h.apart o' o j hj hm) ho⟩
  -- of an id there is now nothing, or what there was before
  have hsame : ∀ j, d'.standing j = .absent ∨ d'.standing j = d.standing j := by
    intro j
    by_cases hj : j ∈ (t o).map Prod.fst → j ∈ kept.map Prod.fst
    · exact .inr (hrest j hj)
    · rw [Classical.not_imp] at hj
      exact .inl (hgone j hj.1 hj.2)
  refine ⟨hl, ?_, ?_, ?_, ?_, ?_⟩
  · intro j
    rcases hsame j with hj | hj
    · rw [hj]
      exact Standing.noConfusion
    · rw [hj]
      exact h.whole j
  · intro j hj
    have hj' : d.standing j ≠ .absent := (hsame j).resolve_left hj ▸ hj
    obtain ⟨o', ho'⟩ := h.awaited j hj'
    refine ⟨o', ?_⟩
    rw [Function.update_apply]
    split
    · next ho =>
      subst ho
      exact Decidable.byContradiction fun hk => hj (hgone j ho' hk)
    · exact ho'
  · intro o' e he
    rw [(hmem o' e.1 (List.mem_map_of_mem he)).2]
    refine h.kept o' e ?_
    rw [Function.update_apply] at he
    split at he
    · next ho =>
      subst ho
      exact hsub.subset he
    · exact he
  · intro o'
    rw [Function.update_apply]
    split
    · exact hids.nodup (h.once o)
    · exact h.once o'
  · exact fun o₁ o₂ j h₁ h₂ => h.apart o₁ o₂ j (hmem o₁ j h₁).1 (hmem o₂ j h₂).1

theorem drop_one (h : Held d t) (hl : ∃ b, Listed b d'.cache d'.queue)
    {before after : List (RequestId × Bool)} {e : RequestId × Bool} (ht : t o = before ++ e :: after)
    (hs : ∀ j, d'.standing j = if j = e.1 then .absent else d.standing j) :
    Held d' (update t o (before ++ after)) := by
  have hnodup := h.once o
  rw [ht, List.map_append, List.map_cons, List.nodup_middle, List.nodup_cons] at hnodup
  refine h.drop hl ?_ ?_ ?_
  · rw [ht]
    exact (List.Sublist.refl before).append (List.sublist_cons_self e after)
  · intro j hj hk
    rw [hs, if_pos]
    rw [ht] at hj
    simp only [List.map_append, List.map_cons, List.mem_append, List.mem_cons, not_or] at hj hk
    exact (hj.resolve_left hk.1).resolve_right hk.2
  · intro j hj
    rw [hs, if_neg]
    rintro rfl
    refine hnodup.1 ?_
    rw [← List.map_append]
    exact hj (by simp [ht])

theorem create (maxTasks maxPending maxProcessing maxWorkers : Nat) :
    Held (Dispatcher.create maxTasks maxPending maxProcessing maxWorkers) fun _ => [] where
  listed := ⟨_, Listed.create _ _ _ _⟩
  whole := fun _ => Standing.noConfusion
  awaited := fun _ h => absurd rfl h
  kept := fun _ _ h => absurd h List.not_mem_nil
  once := fun _ => List.nodup_nil
  apart := fun _ _ _ h => absurd h List.not_mem_nil

end Held

namespace Exchange

open Function (update)

/-- The ids that each client waits for, and the kinds of answers. -/
def tickets (x : Exchange) : ConnectionId → List (RequestId × Bool) :=
  List.map WaitingRequest.ticket ∘ x.waiting

/-- An exchange in which the two sides belong together. -/
def Held (x : Exchange) : Prop := PromptGateway.Held x.engine x.tickets

theorem tickets_update (d d' : Dispatcher) (ws : ConnectionId → List WaitingRequest)
    (o : ConnectionId) (l : List WaitingRequest) :
    tickets ⟨d', update ws o l⟩ = update (tickets ⟨d, ws⟩) o (l.map WaitingRequest.ticket) :=
  Function.comp_update _ _ _ _

theorem tickets_split {d : Dispatcher} {ws : ConnectionId → List WaitingRequest}
    {o : ConnectionId} {before after : List WaitingRequest} {w : WaitingRequest}
    (hw : ws o = before ++ w :: after) :
    tickets ⟨d, ws⟩ o =
      before.map WaitingRequest.ticket ++ w.ticket :: after.map WaitingRequest.ticket := by
  show (ws o).map WaitingRequest.ticket = _
  rw [hw, List.map_append, List.map_cons]

theorem ticket_gather (w : WaitingRequest) (f : String) : (w.gather f).ticket = w.ticket := by
  unfold WaitingRequest.gather
  split <;> rfl

theorem ids_tickets (d : Dispatcher) (ws : ConnectionId → List WaitingRequest) (o : ConnectionId) :
    (tickets ⟨d, ws⟩ o).map Prod.fst = (ws o).map (·.id) := by
  rw [tickets, Function.comp_apply, List.map_map]
  rfl

/-- No two clients wait for the same request. -/
theorem Held.id_ne {d : Dispatcher} {ws : ConnectionId → List WaitingRequest} (h : Held ⟨d, ws⟩)
    {o o' : ConnectionId} (ho : o ≠ o') {v w : WaitingRequest} (hv : v ∈ ws o) (hw : w ∈ ws o') :
    v.id ≠ w.id := by
  have hmem : ∀ {o} {v : WaitingRequest}, v ∈ ws o → v.id ∈ (tickets ⟨d, ws⟩ o).map Prod.fst := by
    intro o v hv
    rw [ids_tickets]
    exact List.mem_map_of_mem hv
  intro hid
  apply ho
  exact h.apart o o' w.id (hid ▸ hmem hv) (hmem hw)

/-- When the tasks of a client have been cancelled, what is still there of a request it
waits for is a stream that has failed. -/
theorem Held.holder?_cancelConnection {d : Dispatcher} {ws : ConnectionId → List WaitingRequest}
    (h : Held ⟨d, ws⟩) (o : ConnectionId) (now : Millis) :
    ∀ id ∈ (ws o).map (·.id), (d.cancelConnection o now).2.holder? id = none := by
  obtain ⟨b, hb⟩ := h.listed
  have hcancelled := Dispatcher.standing_cancelConnection hb o now h.whole
  intro id hid
  rw [← ids_tickets d] at hid
  obtain ⟨e, he, rfl⟩ := List.mem_map.mp hid
  have hst := hcancelled e.1
  rcases h.kept o e he with hk | hk
  · rw [hk, Standing.without, if_pos rfl] at hst
    rw [Dispatcher.holder?, (Dispatcher.standing_eq_absent_iff.mp hst).1]
    rfl
  · rw [hk] at hst
    rw [Dispatcher.holder?, (Dispatcher.standing_eq_failed_iff.mp hst).1]
    rfl

theorem left_eq (d : Dispatcher) (o : ConnectionId) (now : Millis) (waiting : List WaitingRequest) :
    left d o now waiting =
      (waiting.map (·.id)).foldl Dispatcher.clearStream (d.cancelConnection o now).2 := by
  rw [List.foldl_map]
  rfl

/-- A client that leaves takes with it all that it waits for. -/
theorem Held.leave {d : Dispatcher} {ws : ConnectionId → List WaitingRequest}
    (h : Held ⟨d, ws⟩) (o : ConnectionId) (now : Millis) :
    Held ⟨left d o now (ws o), update ws o []⟩ := by
  obtain ⟨b, hb⟩ := h.listed
  have hcancelled := Dispatcher.standing_cancelConnection hb o now h.whole
  have hlisted : Listed b (d.cancelConnection o now).2.cache (d.cancelConnection o now).2.queue :=
    hb.apply (.cancelConnection o now)
  have hids := ids_tickets d ws o
  have hleft := left_eq d o now (ws o)
  have hwaited := h.holder?_cancelConnection o now
  have hst : ∀ j, (left d o now (ws o)).standing j =
      if j ∈ (ws o).map (·.id) then .absent else (d.standing j).without o := by
    intro j
    rw [hleft, Dispatcher.standing_clearStreams _ hwaited, hcancelled]
  have hcleared : ∀ (ids : List RequestId) (d : Dispatcher), Listed b d.cache d.queue →
      Listed b (ids.foldl Dispatcher.clearStream d).cache
        (ids.foldl Dispatcher.clearStream d).queue := by
    intro ids
    induction ids with
    | nil => exact fun _ h => h
    | cons id ids ih => exact fun d h => ih (d.clearStream id) h
  unfold Held
  rw [tickets_update d]
  refine PromptGateway.Held.drop h ⟨b, hleft ▸ hcleared _ _ hlisted⟩ (List.nil_sublist _) ?_ ?_
  · intro j hj _
    rw [hst, if_pos (hids ▸ hj)]
  · intro j hj
    have hnot : j ∉ (tickets ⟨d, ws⟩ o).map Prod.fst := fun hm => absurd (hj hm) List.not_mem_nil
    rw [hst, if_neg (hids ▸ hnot)]
    -- a request of another client
    cases hs : d.standing j with
    | live o' s =>
      rw [Standing.without, if_neg]
      rintro rfl
      obtain ⟨o'', hm⟩ := h.awaited j (by rw [hs]; exact Standing.noConfusion)
      obtain ⟨e, he, rfl⟩ := List.mem_map.mp hm
      rcases h.kept o'' e he with hk | hk
      · rw [hs] at hk
        cases hk
        exact hnot hm
      · rw [hs] at hk
        cases hk
    | absent => rfl
    | failed => rfl
    | torn => rfl

/-- Every step keeps the two sides together. -/
theorem Held.step {x y : Exchange} {l : List Observation} (h : Held x) (hs : Step x l y) :
    Held y := by
  obtain ⟨b, hb⟩ := h.listed
  cases hs with
  | backend call =>
    exact h.decline ⟨b, hb.applyBackend call⟩ (Dispatcher.declines_applyBackend h.whole call)
  | @admitted d ws m r o record d' ha =>
    have hlisted : Listed b d'.cache d'.queue := by
      have := hb.apply (.submit m r o)
      simpa only [Dispatcher.apply, ha] using this
    have ha := Dispatcher.admits_of_admitRequest ha
    unfold Held
    rw [tickets_update d, List.map_append]
    exact h.submit ⟨b, hlisted⟩ ha.absent (Dispatcher.standing_admits ha)
  | @fragment d ws o before w after f d' hw hn =>
    have hd := d.draws_nextFragment w.id
    rw [hn] at hd
    have hsame : before.map WaitingRequest.ticket ++ (w.gather f).ticket ::
        after.map WaitingRequest.ticket = tickets ⟨d, ws⟩ o := by
      rw [ticket_gather, tickets_split hw]
    unfold Held
    rw [tickets_update d, List.map_append, List.map_cons, hsame, Function.update_eq_self]
    exact h.decline ⟨b, hb.draws hd⟩ fun j => .of_eq (Dispatcher.standing_fragment hd j)
  | @finish d ws o before w after d' now hw hn =>
    have hd := d.draws_nextFragment w.id
    rw [hn] at hd
    cases hd with
    | finished _ _ _ _ =>
      unfold Held
      rw [tickets_update d', List.map_append]
      exact h.drop_one ⟨b, hb.apply (.finishDelivery w.id now)⟩ (tickets_split hw)
        (Dispatcher.standing_finishDelivery now)
  | @fail d ws o before w after reason d' hw hn =>
    have hd := d.draws_nextFragment w.id
    rw [hn] at hd
    unfold Held
    rw [tickets_update d, List.map_append]
    exact h.drop_one ⟨b, hb.draws hd⟩ (tickets_split hw)
      (Dispatcher.standing_failed hd (h.whole w.id))
  | leave o now => exact h.leave o now

theorem Held.steps {x y : Exchange} {l : List Observation} (h : Held x) (hs : Steps x l y) :
    Held y :=
  hs.induction (fun _ _ _ hy hstep => Held.step hy hstep) h

end Exchange

/-! ## What is asked for in a delivery -/

/-- The engines that are asked while parts of one answer are handed out. -/
def Dispatcher.asked (now : Millis) : Nat → WaitingRequest → Dispatcher →
    List (RequestId × Dispatcher)
  | 0, _, _ => []
  | cap + 1, w, d =>
    (w.id, d) :: match d.nextFragment w.id with
      | (.fragment f, d) => asked now cap (w.gather f) d
      | _ => []

/-- The engines that are asked in a delivery, and for which request. -/
def Client.asked (c : Client) (d : Dispatcher) (cap : Nat) (now : Millis) :
    List (RequestId × Dispatcher) :=
  journal (fun d w => (d.handOver now cap w).2) (fun d w => d.asked now cap w) d c.waiting

namespace Exchange

open Function (update)

/-- What the engine answers to a client that waits: it has something of the request, and
if it says that it has failed, then this is what its stream has kept. -/
theorem Held.asked {x : Exchange} (h : Held x) {o : ConnectionId} {w : WaitingRequest}
    (hw : w ∈ x.waiting o) :
    (x.engine.cache.contains w.id = true ∨ x.engine.streams.contains w.id = true) ∧
    ∀ reason, (x.engine.nextFragment w.id).1 = .failed reason →
      ∃ s, x.engine.streams.find? w.id = some s ∧ s.failure = some reason := by
  have hpresent : x.engine.standing w.id ≠ .absent :=
    h.present (e := w.ticket) (List.mem_map_of_mem hw)
  constructor
  · refine Decidable.byContradiction fun hno => hpresent ?_
    rw [not_or, Bool.not_eq_true, Bool.not_eq_true] at hno
    exact Dispatcher.standing_eq_absent_iff.mpr
      ⟨(Table.contains_eq_false_iff _ _).mp hno.1, (Table.contains_eq_false_iff _ _).mp hno.2⟩
  · intro reason hr
    have hd := x.engine.draws_nextFragment w.id
    rw [hr] at hd
    generalize (x.engine.nextFragment w.id).2 = d' at hd
    cases hd with
    | untracked hs hc => exact absurd (Dispatcher.standing_eq_absent_iff.mpr ⟨hc, hs⟩) hpresent
    | failed hs hf => exact ⟨_, hs, hf⟩

/-- Every engine that is asked is that of an exchange in which the client waits. -/
theorem steps_asked {now : Millis} {o : ConnectionId} {before after : List WaitingRequest}
    {cap : Nat} {w : WaitingRequest} {d : Dispatcher} {ws : ConnectionId → List WaitingRequest}
    (hw : ws o = before ++ w :: after) {q : RequestId × Dispatcher} (hq : q ∈ d.asked now cap w) :
    ∃ l ws' w', Steps ⟨d, ws⟩ l ⟨q.2, ws'⟩ ∧ w' ∈ ws' o ∧ w'.id = q.1 := by
  induction cap generalizing w d ws with
  | zero => exact absurd hq List.not_mem_nil
  | succ cap ih =>
    rw [Dispatcher.asked, List.mem_cons] at hq
    rcases hq with rfl | hq
    · exact ⟨[], ws, w, .refl, by rw [hw]; simp, rfl⟩
    · rcases hn : d.nextFragment w.id with ⟨answer, d₁⟩
      rw [hn] at hq
      cases answer with
      | fragment f =>
        have hws : update ws o (before ++ w.gather f :: after) o = before ++ w.gather f :: after :=
          Function.update_self ..
        obtain ⟨l, ws', w', hsteps, hw'⟩ := ih hws hq
        exact ⟨_, ws', w', (Step.fragment hw hn).steps.trans hsteps, hw'⟩
      | finished => exact absurd hq List.not_mem_nil
      | failed _ => exact absurd hq List.not_mem_nil
      | nothing => exact absurd hq List.not_mem_nil

theorem steps_asked_deliver {c : Client} {d : Dispatcher}
    {ws : ConnectionId → List WaitingRequest} {o : ConnectionId} (hws : ws o = c.waiting)
    {cap : Nat} {now : Millis} {q : RequestId × Dispatcher} (hq : q ∈ c.asked d cap now) :
    ∃ l ws' w', Steps ⟨d, ws⟩ l ⟨q.2, ws'⟩ ∧ w' ∈ ws' o ∧ w'.id = q.1 := by
  suffices key : ∀ (rest before : List WaitingRequest) (d : Dispatcher)
      (ws : ConnectionId → List WaitingRequest), ws o = before ++ rest →
      q ∈ journal (fun d w => (d.handOver now cap w).2) (fun d w => d.asked now cap w) d rest →
      ∃ l ws' w', Steps ⟨d, ws⟩ l ⟨q.2, ws'⟩ ∧ w' ∈ ws' o ∧ w'.id = q.1 from
    key c.waiting [] d ws hws hq
  intro rest
  induction rest with
  | nil => exact fun _ _ _ _ hq => absurd hq List.not_mem_nil
  | cons w rest ih =>
    intro before d ws hws hq
    rw [journal, List.mem_append] at hq
    rcases hq with hq | hq
    · exact steps_asked hws hq
    · have hhand := steps_handOver now o before rest cap w d ws hws
      obtain ⟨l, ws', w', hsteps, hw'⟩ := ih _ _ _ (Function.update_self ..) hq
      exact ⟨_, ws', w', hhand.trans hsteps, hw'⟩

end Exchange

/-! ## Runs -/

namespace Frontend

/-- Everything that is waited for, and who waits for it. -/
def mappings (f : Frontend) : List (ConnectionId × WaitingRequest) :=
  f.clients.entries.flatMap fun (o, c) => c.waiting.map (o, ·)

theorem mem_mappings {f : Frontend} {o : ConnectionId} {w : WaitingRequest} :
    (o, w) ∈ f.mappings ↔ w ∈ waitingIn f.clients o := by
  simp only [mappings, List.mem_flatMap, Prod.exists, List.mem_map, Prod.mk.injEq,
    Table.mem_entries_iff, mem_waitingIn]
  constructor
  · rintro ⟨_, c, hc, _, hw, rfl, rfl⟩
    exact ⟨c, hc, hw⟩
  · rintro ⟨c, hc, hw⟩
    exact ⟨o, c, hc, w, hw, rfl, rfl⟩

/-- No id is waited for twice in the whole system. -/
theorem nodup_mappings {f : Frontend} (h : f.exchange.Held) :
    (f.mappings.map (·.2.id)).Nodup := by
  rw [mappings, List.map_flatMap, List.nodup_flatMap]
  have hids : ∀ (o : ConnectionId) (c : Client),
      (c.waiting.map (o, ·)).map (·.2.id) = c.waiting.map (·.id) := by
    intro o c
    rw [List.map_map]
    rfl
  have htickets : ∀ o c, (o, c) ∈ f.clients.entries →
      (f.exchange.tickets o).map Prod.fst = c.waiting.map (·.id) := by
    intro o c hc
    show ((waitingIn f.clients o).map WaitingRequest.ticket).map Prod.fst = _
    rw [waitingIn_of_find? ((Table.mem_entries_iff _ _ _).mp hc), List.map_map]
    rfl
  constructor
  · rintro ⟨o, c⟩ hc
    dsimp only
    rw [hids, ← htickets o c hc]
    exact h.once o
  · refine (List.pairwise_map.mp f.clients.nodup).imp_of_mem ?_
    rintro ⟨o, c⟩ ⟨o', c'⟩ hc hc' hne
    simp only [Function.onFun, hids]
    rw [← htickets o c hc, ← htickets o' c' hc']
    intro id hid hid'
    exact hne (h.apart o o' id hid hid')

theorem filter_eq_singleton {α κ : Type} [DecidableEq κ] {key : α → κ} {l : List α}
    (hl : (l.map key).Nodup) {a : α} (ha : a ∈ l) : l.filter (key · == key a) = [a] := by
  induction l with
  | nil => exact absurd ha List.not_mem_nil
  | cons b l ih =>
    rw [List.map_cons, List.nodup_cons] at hl
    rcases List.mem_cons.mp ha with rfl | ha
    · have hrest : l.filter (key · == key a) = [] := by
        rw [List.filter_eq_nil_iff]
        intro b hb hkey
        exact hl.1 (beq_iff_eq.mp hkey ▸ List.mem_map_of_mem hb)
      rw [List.filter_cons, if_pos (beq_self_eq_true _), hrest]
    · have hne : ¬ (key b == key a) = true := by
        intro hkey
        exact hl.1 (beq_iff_eq.mp hkey ▸ List.mem_map_of_mem ha)
      rw [List.filter_cons, if_neg hne, ih hl.2 ha]

theorem filter_mappings {f : Frontend} (h : f.exchange.Held) {o : ConnectionId}
    {w : WaitingRequest} (hw : w ∈ waitingIn f.clients o) :
    f.mappings.filter (·.2.id == w.id) = [(o, w)] := by
  have hnodup := nodup_mappings h
  exact filter_eq_singleton hnodup (mem_mappings.mpr hw)

theorem mem_keys_of_waiting {f : Frontend} {o : ConnectionId} {w : WaitingRequest}
    (hw : w ∈ waitingIn f.clients o) : o ∈ f.clients.keys := by
  obtain ⟨c, hc, -⟩ := mem_waitingIn.mp hw
  exact (Table.mem_keys_iff _ _).mpr ⟨c, hc⟩

/-- Whatever there is of a request, somebody waits for it. -/
theorem exists_waiting {f : Frontend} (h : f.exchange.Held) {id : RequestId}
    (hid : f.gateway.dispatcher.standing id ≠ .absent) :
    ∃ o, ∃ w ∈ waitingIn f.clients o, w.id = id ∧
      (f.gateway.dispatcher.standing id = .live o w.stream ∨
        f.gateway.dispatcher.standing id = .failed) := by
  obtain ⟨o, ho⟩ := h.awaited id hid
  obtain ⟨e, he, rfl⟩ := List.mem_map.mp ho
  obtain ⟨w, hw, rfl⟩ := List.mem_map.mp he
  exact ⟨o, w, hw, rfl, h.kept o w.ticket he⟩

/-- A record is waited for by its owner, once in the whole system. -/
theorem mapping_of_get? {f : Frontend} (h : f.exchange.Held) {id : RequestId} {r : TaskRecord}
    (hr : f.gateway.dispatcher.cache.get? id = some r) :
    r.owner ∈ f.clients.keys ∧
      ∃ w, f.mappings.filter (·.2.id == id) = [(r.owner, w)] ∧ w.stream = r.payload.stream := by
  have hlive : f.gateway.dispatcher.standing id = .live r.owner r.payload.stream :=
    Dispatcher.standing_of_get? hr (h.whole id)
  have hpresent : f.gateway.dispatcher.standing id ≠ .absent := by
    rw [hlive]
    exact Standing.noConfusion
  obtain ⟨o, w, hw, rfl, hst⟩ := exists_waiting h hpresent
  rw [hlive] at hst
  obtain ⟨ho, hs⟩ : r.owner = o ∧ r.payload.stream = w.stream := by simpa using hst
  rw [ho]
  exact ⟨mem_keys_of_waiting hw, w, filter_mappings h hw, hs.symm⟩

/-- A stream is waited for once in the whole system. -/
theorem mapping_of_stream {f : Frontend} (h : f.exchange.Held) {id : RequestId} {s : TokenStream}
    (hs : f.gateway.dispatcher.streams.find? id = some s) :
    ∃ m, f.mappings.filter (·.2.id == id) = [m] := by
  have hpresent : f.gateway.dispatcher.standing id ≠ .absent := by
    intro ha
    rw [(Dispatcher.standing_eq_absent_iff.mp ha).2] at hs
    cases hs
  obtain ⟨o, w, hw, rfl, -⟩ := exists_waiting h hpresent
  exact ⟨(o, w), filter_mappings h hw⟩

/-- What is waited for is a request in flight or one that has failed. -/
theorem backed_of_mapping {f : Frontend} (h : f.exchange.Held) {o : ConnectionId}
    {w : WaitingRequest} (hw : (o, w) ∈ f.mappings) :
    (∃ r, f.gateway.dispatcher.cache.get? w.id = some r ∧ r.owner = o) ∨
      ∃ s reason, f.gateway.dispatcher.streams.find? w.id = some s ∧ s.failure = some reason := by
  have hk := h.kept o w.ticket (List.mem_map_of_mem (mem_mappings.mp hw))
  rcases hk with hk | hk
  · obtain ⟨⟨r, hr, howner, -⟩, -⟩ := Dispatcher.standing_eq_live_iff.mp hk
    exact .inl ⟨r, hr, howner⟩
  · exact .inr (Dispatcher.standing_eq_failed_iff.mp hk).2

/-- A delivery never asks for a request that the engine does not know. -/
theorem asked_of_held {f : Frontend} (h : f.exchange.Held) {o : ConnectionId} {c : Client}
    (hc : f.clients.find? o = some c) {cap : Nat} {now : Millis} {q : RequestId × Dispatcher}
    (hq : q ∈ c.asked f.gateway.dispatcher cap now) :
    (q.2.cache.contains q.1 = true ∨ q.2.streams.contains q.1 = true) ∧
      ∀ reason, (q.2.nextFragment q.1).1 = .failed reason →
        ∃ s, q.2.streams.find? q.1 = some s ∧ s.failure = some reason := by
  obtain ⟨l, ws, w, hsteps, hw, hid⟩ := Exchange.steps_asked_deliver (waitingIn_of_find? hc) hq
  have hasked := (Exchange.Held.steps h hsteps).asked hw
  rwa [hid] at hasked

theorem held_run (settings : Settings) (firstId : Nat) (events : List Event) :
    ((create (Gateway.create settings) firstId).run events).exchange.Held := by
  have hstart : (create (Gateway.create settings) firstId).exchange.Held := Held.create _ _ _ _
  exact hstart.steps (steps_run _ events)

end Frontend

/-- Every live piece of state belongs to exactly one waiting client. After any run of a
gateway that began without clients:

the ids of the clients are pairwise different, below the next id to be given out, and
there are no more of them than the settings allow; ids are given out in ascending order,
so never twice, and no client is registered under another;

every record is owned by a registered client, exactly one mapping in the whole system has
its id, and this is one of the owner's and of the same kind of answer; exactly one mapping
has the id of a stream; and every mapping has a record that its client owns or a stream
that has failed;

and whenever a delivery asks the engine for the next part of an answer, then the engine
has the record or the stream, and a failure that it answers is one the stream has kept. -/
theorem custody (settings : Settings) (firstId : Nat) (events : List Event) :
    let start := Frontend.create (Gateway.create settings) firstId
    let f := start.run events
    let d := f.gateway.dispatcher
    (f.clients.keys.Nodup ∧ (∀ o ∈ f.clients.keys, o.toNat < f.nextId) ∧
      f.clients.size ≤ settings.server.maxClients) ∧
    ((start.runIssued events).Pairwise (fun o o' => o.toNat < o'.toNat) ∧
      ∀ o ∈ f.clients.keys, o ∈ start.runIssued events) ∧
    (∀ id r, d.cache.get? id = some r → r.owner ∈ f.clients.keys ∧
      ∃ w, f.mappings.filter (·.2.id == id) = [(r.owner, w)] ∧ w.stream = r.payload.stream) ∧
    (∀ id s, d.streams.find? id = some s → ∃ m, f.mappings.filter (·.2.id == id) = [m]) ∧
    (∀ o w, (o, w) ∈ f.mappings →
      (∃ r, d.cache.get? w.id = some r ∧ r.owner = o) ∨
        ∃ s reason, d.streams.find? w.id = some s ∧ s.failure = some reason) ∧
    (∀ o c, f.clients.find? o = some c → ∀ cap now, ∀ q ∈ c.asked d cap now,
      (q.2.cache.contains q.1 = true ∨ q.2.streams.contains q.1 = true) ∧
      ∀ reason, (q.2.nextFragment q.1).1 = .failed reason →
        ∃ s, q.2.streams.find? q.1 = some s ∧ s.failure = some reason) := by
  intro start f d
  have h : f.exchange.Held := Frontend.held_run settings firstId events
  have hfollows := start.follows_run events
  have hregistered : ∀ o ∈ f.clients.keys, o ∈ start.runIssued events :=
    fun o ho => (hfollows.registered o ho).resolve_left List.not_mem_nil
  refine ⟨⟨f.clients.nodup, f.ids_lt, hfollows.bounded (Nat.zero_le _)⟩,
    ⟨hfollows.ascending, hregistered⟩, ?_, ?_, ?_, ?_⟩
  · exact fun id r hr => Frontend.mapping_of_get? h hr
  · exact fun id s hs => Frontend.mapping_of_stream h hs
  · exact fun o w hw => Frontend.backed_of_mapping h hw
  · exact fun o c hc cap now q hq => Frontend.asked_of_held h hc hq

end PromptGateway
