import PromptGateway.Proofs.Attempts
import PromptGateway.Proofs.Custody
import PromptGateway.Proofs.Endings

/-
  A client that leaves takes with it what is its own, and nothing else.

  What is its own can be in four places: the cache, the two queues and the streams. Its tasks
  are found by their owner and cancelled, and the streams of those that have failed already are
  found by what the client waits for. That the two together are complete, and that neither
  touches anything of another client, is not visible in the code that does it. It rests on
  `Exchange.Held`: a record is waited for by its owner and by nobody else.

    1. `Exchange.Held.mem_owned_iff`: the tasks of a client are those among what it waits for
       that have a record.
    2. `Exchange.Held.records_left`, `Exchange.Held.stream_left` and the two lemmas on the
       queues are the engine afterwards, store by store.
    3. `departing_client_leaves_nothing` is the same of a gateway after any run, and what is
       left when all clients have gone.
-/

namespace PromptGateway

namespace Table

variable {κ α : Type} [DecidableEq κ]

/-- A table that answers nothing is empty. -/
theorem size_eq_zero {t : Table κ α} (h : ∀ k, t.find? k = none) : t.size = 0 := by
  rw [size_eq_length_keys, List.length_eq_zero_iff, List.eq_nil_iff_forall_not_mem]
  intro k hk
  exact (t.find?_eq_none_iff k).mp (h k) hk

end Table

namespace Dispatcher

theorem clearStreams_eq (ids : List RequestId) (d : Dispatcher) :
    ∃ streams, ids.foldl clearStream d = { d with streams := streams } := by
  induction ids generalizing d with
  | nil => exact ⟨d.streams, rfl⟩
  | cons id ids ih =>
    obtain ⟨streams, hs⟩ := ih (d.clearStream id)
    exact ⟨streams, hs⟩

theorem find?_clearStreams (ids : List RequestId) (d : Dispatcher) (j : RequestId) :
    (ids.foldl clearStream d).streams.find? j = if j ∈ ids then none else d.streams.find? j := by
  induction ids generalizing d with
  | nil => rfl
  | cons id ids ih =>
    have hfirst : (d.clearStream id).streams.find? j =
        if j = id then none else d.streams.find? j := Table.find?_erase _ _ _
    rw [List.foldl_cons, ih, hfirst]
    by_cases hj : j = id
    · simp [hj]
    · simp [hj]

/-- There is nothing of a request in the four stores of the engine. -/
structure Forgets (d : Dispatcher) (id : RequestId) : Prop where
  record : d.cache.get? id = none
  pending : id ∉ d.queue.pending
  processing : id ∉ d.queue.processing
  stream : d.streams.find? id = none

/-- The four stores are empty. -/
structure Empty (d : Dispatcher) : Prop where
  cache : d.cache.size = 0
  pending : d.queue.pending = []
  processing : d.queue.processing = []
  streams : d.streams.size = 0

theorem empty_of_forgets {d : Dispatcher} (h : ∀ id, d.Forgets id) : d.Empty where
  cache := Table.size_eq_zero fun id => (h id).record
  pending := List.eq_nil_iff_forall_not_mem.mpr fun id => (h id).pending
  processing := List.eq_nil_iff_forall_not_mem.mpr fun id => (h id).processing
  streams := Table.size_eq_zero fun id => (h id).stream

theorem forgets_of_listed {d : Dispatcher} {b : Bounds} (h : Listed b d.cache d.queue)
    {id : RequestId} (hr : d.cache.get? id = none) (hs : d.streams.find? id = none) :
    d.Forgets id where
  record := hr
  pending := by
    rw [h.pending]
    intro hp
    obtain ⟨r, hfound, -⟩ := hp
    rw [hr] at hfound
    cases hfound
  processing := by
    rw [h.processing]
    intro hp
    obtain ⟨r, hfound, -⟩ := hp
    rw [hr] at hfound
    cases hfound
  stream := hs

end Dispatcher

namespace Exchange

variable {d : Dispatcher} {ws : ConnectionId → List WaitingRequest}

/-- The ids of the tasks that a client owns. -/
def owned (d : Dispatcher) (o : ConnectionId) : List RequestId :=
  (d.cache.ownedBy o).map (·.id)

theorem Held.keyed (h : Held ⟨d, ws⟩) : d.Keyed := by
  obtain ⟨b, hb⟩ := h.listed
  exact Dispatcher.keyed_of_listed hb

theorem Held.mem_owned (h : Held ⟨d, ws⟩) (o : ConnectionId) (id : RequestId) :
    id ∈ owned d o ↔ ∃ r, d.cache.get? id = some r ∧ r.owner = o := by
  rw [owned, TaskCache.ownedBy, h.keyed.mem_filter]
  simp only [beq_iff_eq]

/-- A client waits for a request that has a record exactly if the record is its own. -/
theorem Held.mem_waiting_iff (h : Held ⟨d, ws⟩) (o : ConnectionId) {id : RequestId}
    {r : TaskRecord} (hr : d.cache.get? id = some r) :
    id ∈ (ws o).map (·.id) ↔ r.owner = o := by
  have hlive : d.standing id = .live r.owner r.payload.stream :=
    Dispatcher.standing_of_get? hr (h.whole id)
  -- whoever waits for the request is the owner of its record
  have howner : ∀ o', id ∈ (tickets ⟨d, ws⟩ o').map Prod.fst → r.owner = o' := by
    intro o' hid
    obtain ⟨e, he, rfl⟩ := List.mem_map.mp hid
    have hk := h.kept o' e he
    rw [hlive] at hk
    have hsame : r.owner = o' ∧ r.payload.stream = e.2 := by simpa using hk
    exact hsame.1
  rw [← ids_tickets d]
  constructor
  · exact howner o
  · intro ho
    obtain ⟨o', ho'⟩ := h.awaited id (by rw [hlive]; exact Standing.noConfusion)
    rwa [← ho, howner o' ho']

/-- The tasks that a client owns are those among what it waits for that have a record. -/
theorem Held.mem_owned_iff (h : Held ⟨d, ws⟩) (o : ConnectionId) {id : RequestId} {r : TaskRecord}
    (hr : d.cache.get? id = some r) : id ∈ owned d o ↔ id ∈ (ws o).map (·.id) := by
  rw [h.mem_owned, h.mem_waiting_iff o hr, hr]
  simp

theorem left_eq_endAll (h : Held ⟨d, ws⟩) (o : ConnectionId) (now : Millis) :
    left d o now (ws o) = ((ws o).map (·.id)).foldl Dispatcher.clearStream
      (d.endAll .cancelled "client disconnected" (owned d o)) := by
  rw [left_eq, h.keyed.cancelConnection]
  rfl

/-- The records of the client go, and no others. -/
theorem Held.records_left (h : Held ⟨d, ws⟩) (o : ConnectionId) (now : Millis) (id : RequestId) :
    (left d o now (ws o)).cache.get? id = (d.cache.get? id).filter (·.owner != o) := by
  rw [left_eq_endAll h]
  obtain ⟨streams, hs⟩ := Dispatcher.clearStreams_eq ((ws o).map (·.id))
    (d.endAll .cancelled "client disconnected" (owned d o))
  rw [hs]
  show (d.endAll .cancelled "client disconnected" (owned d o)).cache.get? id = _
  rw [Dispatcher.get?_endAll]
  cases hr : d.cache.get? id with
  | none => simp
  | some r =>
    have hmem : id ∈ owned d o ↔ r.owner = o := by
      rw [h.mem_owned_iff o hr, h.mem_waiting_iff o hr]
    by_cases ho : r.owner = o
    · simp [hmem, ho, Option.filter]
    · simp [hmem, ho, Option.filter]

/-- The streams that the client waits for go, and no others. -/
theorem Held.stream_left (h : Held ⟨d, ws⟩) (o : ConnectionId) (now : Millis) (id : RequestId) :
    (left d o now (ws o)).streams.find? id =
      if id ∈ (ws o).map (·.id) then none else d.streams.find? id := by
  have hnodup : (owned d o).Nodup := (h.keyed.roll (·.owner == o)).once
  rw [left_eq_endAll h, Dispatcher.find?_clearStreams, Dispatcher.streams_endAll d hnodup]
  split
  · rfl
  · next hid =>
    have hmem : id ∉ owned d o := by
      intro hown
      obtain ⟨r, hr, -⟩ := (h.mem_owned o id).mp hown
      exact hid ((h.mem_owned_iff o hr).mp hown)
    rw [if_neg hmem]

/-- To take the tasks of a client out of a list of ids that have records is to take out what
the client waits for. -/
theorem Held.diff_owned (h : Held ⟨d, ws⟩) (o : ConnectionId) {ids : List RequestId}
    (hids : ids.Nodup) (hrecords : ∀ id ∈ ids, ∃ r, d.cache.get? id = some r) :
    ids.diff (owned d o) = ids.filter (· ∉ (ws o).map (·.id)) := by
  rw [List.Nodup.sdiff_eq_filter hids]
  apply List.filter_congr
  intro id hid
  obtain ⟨r, hr⟩ := hrecords id hid
  rw [decide_eq_decide, not_iff_not]
  exact h.mem_owned_iff o hr

theorem Held.queue_left (h : Held ⟨d, ws⟩) (o : ConnectionId) (now : Millis) :
    (left d o now (ws o)).queue.pending =
        d.queue.pending.filter (· ∉ (ws o).map (·.id)) ∧
      (left d o now (ws o)).queue.processing =
        d.queue.processing.filter (· ∉ (ws o).map (·.id)) := by
  obtain ⟨b, hb⟩ := h.listed
  obtain ⟨streams, hs⟩ := Dispatcher.clearStreams_eq ((ws o).map (·.id))
    (d.endAll .cancelled "client disconnected" (owned d o))
  rw [left_eq_endAll h, hs]
  constructor
  · show (d.endAll .cancelled "client disconnected" (owned d o)).queue.pending = _
    rw [Dispatcher.pending_endAll]
    apply h.diff_owned o hb.pending_nodup
    intro id hid
    obtain ⟨r, hr, -⟩ := (hb.pending id).mp hid
    exact ⟨r, hr⟩
  · show (d.endAll .cancelled "client disconnected" (owned d o)).queue.processing = _
    rw [Dispatcher.processing_endAll]
    apply h.diff_owned o hb.processing_nodup
    intro id hid
    obtain ⟨r, hr, -⟩ := (hb.processing id).mp hid
    exact ⟨r, hr⟩

/-- Of what the client waits for, nothing is left. -/
theorem Held.forgets_left (h : Held ⟨d, ws⟩) (o : ConnectionId) (now : Millis) {id : RequestId}
    (hid : id ∈ (ws o).map (·.id)) : (left d o now (ws o)).Forgets id := by
  obtain ⟨b, hb⟩ := (h.leave o now).listed
  have hrecord : (left d o now (ws o)).cache.get? id = none := by
    rw [h.records_left, Option.filter_eq_none_iff]
    intro r hr
    have howner : r.owner = o := (h.mem_waiting_iff o hr).mp hid
    simp [howner]
  have hstream : (left d o now (ws o)).streams.find? id = none := by
    rw [h.stream_left, if_pos hid]
  exact Dispatcher.forgets_of_listed hb hrecord hstream

/-- What the client does not wait for is as it was. -/
theorem Held.spared_left (h : Held ⟨d, ws⟩) (o : ConnectionId) (now : Millis) {id : RequestId}
    (hid : id ∉ (ws o).map (·.id)) : d.Spared (left d o now (ws o)) id := by
  constructor
  · rw [h.records_left]
    cases hr : d.cache.get? id with
    | none => rfl
    | some r =>
      have hne : r.owner ≠ o := by
        intro howner
        exact hid ((h.mem_waiting_iff o hr).mpr howner)
      simp [hne]
  · rw [h.stream_left, if_neg hid]

theorem pool_left (d : Dispatcher) (o : ConnectionId) (now : Millis)
    (waiting : List WaitingRequest) : (left d o now waiting).pool = d.pool := by
  rw [left_eq]
  obtain ⟨streams, hs⟩ := Dispatcher.clearStreams_eq (waiting.map (·.id))
    (d.cancelConnection o now).2
  rw [hs]
  exact Dispatcher.pool_endEach _

end Exchange

/-! ## Gateways -/

namespace Frontend

variable {f : Frontend}

theorem engine_disconnect {o : ConnectionId} {c : Client} (hc : f.clients.find? o = some c)
    (now : Millis) :
    (f.disconnect o now).gateway.dispatcher = Exchange.left f.gateway.dispatcher o now c.waiting := by
  unfold disconnect
  rw [hc]
  rfl

theorem find?_disconnect (f : Frontend) (o : ConnectionId) (now : Millis) (j : ConnectionId) :
    (f.disconnect o now).clients.find? j = if j = o then none else f.clients.find? j := by
  unfold disconnect
  split
  · next hc =>
    split
    · next hj => rw [hj, hc]
    · rfl
  · exact Table.find?_erase _ _ _

/-- When nobody is connected, nothing is left in the engine. -/
theorem empty_of_no_client (h : f.exchange.Held) (hf : ∀ o, f.clients.find? o = none) :
    f.gateway.dispatcher.Empty := by
  obtain ⟨b, hb⟩ := h.listed
  apply Dispatcher.empty_of_forgets
  intro id
  have habsent : f.gateway.dispatcher.standing id = .absent := by
    apply Decidable.byContradiction
    intro hne
    obtain ⟨o, w, hw, -⟩ := exists_waiting h hne
    obtain ⟨c, hc, -⟩ := mem_waitingIn.mp hw
    rw [hf o] at hc
    cases hc
  obtain ⟨hr, hs⟩ := Dispatcher.standing_eq_absent_iff.mp habsent
  exact Dispatcher.forgets_of_listed hb hr hs

/-- Clients that leave one after the other, each at some moment. -/
def departures (leaving : List (ConnectionId × Millis)) : List Event :=
  leaving.map fun (o, now) => .disconnect o now

theorem find?_departures (f : Frontend) (leaving : List (ConnectionId × Millis))
    (j : ConnectionId) :
    (f.run (departures leaving)).clients.find? j =
      if j ∈ leaving.map Prod.fst then none else f.clients.find? j := by
  induction leaving generalizing f with
  | nil => rfl
  | cons x leaving ih =>
    obtain ⟨o, now⟩ := x
    show ((f.disconnect o now).run (departures leaving)).clients.find? j = _
    rw [ih, find?_disconnect, List.map_cons]
    by_cases hj : j = o
    · simp [hj]
    · simp only [hj, if_false, List.mem_cons, false_or]

/-- When every client has left, nobody is connected and nothing is left in the engine. -/
theorem empty_departures (h : f.exchange.Held) {leaving : List (ConnectionId × Millis)}
    (hleaving : ∀ o ∈ f.clients.keys, o ∈ leaving.map Prod.fst) :
    (f.run (departures leaving)).clients.size = 0 ∧
      (f.run (departures leaving)).gateway.dispatcher.Empty := by
  have hnone : ∀ o, (f.run (departures leaving)).clients.find? o = none := by
    intro o
    rw [find?_departures]
    split
    · rfl
    · next ho =>
      rw [Table.find?_eq_none_iff]
      intro hkey
      exact ho (hleaving o hkey)
  have hheld : (f.run (departures leaving)).exchange.Held :=
    Exchange.Held.steps h (f.steps_run _)
  exact ⟨Table.size_eq_zero hnone, empty_of_no_client hheld hnone⟩

/-- At the shutdown the clients leave one after the other, all at one moment. -/
theorem disconnectAll_eq_departures (f : Frontend) (now : Millis) :
    f.disconnectAll now = f.run (departures (f.clients.keys.map (·, now))) := by
  simp only [disconnectAll, run, departures, List.map_map, List.foldl_map]
  rfl

end Frontend

/-- A client that leaves leaves nothing behind and disturbs nobody. In any state that a run of
a gateway comes to, and whatever the requests of the client have come to:

when it is dropped there is no record of which it is the owner, and of the requests it waited
for there is nothing in the cache, in the queues and among the streams;

every other client is as it was, with what it waits for and what has yet to be written to it,
and so are its records and its streams; what remains in the two queues remains in its order,
and no worker is asked for anything;

and when every client has been dropped, in whatever order, be it by the shutdown of the
gateway, then the cache, the queues and the streams are empty. -/
theorem departing_client_leaves_nothing (settings : Settings) (firstId : Nat)
    (events : List Event) :
    let f := (Frontend.create (Gateway.create settings) firstId).run events
    let d := f.gateway.dispatcher
    (∀ o c now, f.clients.find? o = some c →
      let f' := f.disconnect o now
      let d' := f'.gateway.dispatcher
      let ids := c.waiting.map (·.id)
      (∀ id r, d'.cache.get? id = some r → r.owner ≠ o) ∧
      (∀ id ∈ ids, d'.Forgets id) ∧
      f'.clients.find? o = none ∧
      (∀ o', o' ≠ o → f'.clients.find? o' = f.clients.find? o') ∧
      (∀ id r, d.cache.get? id = some r → r.owner ≠ o → d'.cache.get? id = some r) ∧
      (∀ o' c', o' ≠ o → f.clients.find? o' = some c' → ∀ w ∈ c'.waiting, d.Spared d' w.id) ∧
      d'.queue.pending = d.queue.pending.filter (· ∉ ids) ∧
      d'.queue.processing = d.queue.processing.filter (· ∉ ids) ∧
      d'.pool = d.pool) ∧
    (∀ leaving, (∀ o ∈ f.clients.keys, o ∈ leaving.map Prod.fst) →
      let f' := f.run (Frontend.departures leaving)
      f'.clients.size = 0 ∧ f'.gateway.dispatcher.Empty) ∧
    (∀ now, (f.disconnectAll now).clients.size = 0 ∧
      (f.disconnectAll now).gateway.dispatcher.Empty) := by
  intro f d
  have h : f.exchange.Held := Frontend.held_run settings firstId events
  refine ⟨?_, fun leaving hleaving => Frontend.empty_departures h hleaving, ?_⟩
  · intro o c now hc f' d' ids
    have hws : waitingIn f.clients o = c.waiting := Frontend.waitingIn_of_find? hc
    have hids : ids = (waitingIn f.clients o).map (·.id) := by rw [hws]
    have hd' : d' = Exchange.left d o now (waitingIn f.clients o) := by
      rw [hws]
      exact Frontend.engine_disconnect hc now
    rw [hd', hids]
    obtain ⟨hpending, hprocessing⟩ := h.queue_left o now
    refine ⟨?_, fun id hid => h.forgets_left o now hid, ?_, ?_, ?_, ?_, hpending, hprocessing,
      Exchange.pool_left ..⟩
    · intro id r hr
      rw [h.records_left, Option.filter_eq_some_iff] at hr
      simpa using hr.2
    · rw [f.find?_disconnect, if_pos rfl]
    · intro o' ho'
      rw [f.find?_disconnect, if_neg ho']
    · intro id r hr ho
      rw [h.records_left]
      show Option.filter _ (d.cache.get? id) = some r
      rw [hr]
      simp [ho]
    · intro o' c' ho' hc' w hw
      apply h.spared_left o now
      intro hid
      obtain ⟨v, hv, hvw⟩ := List.mem_map.mp hid
      exact h.id_ne ho' (mem_waitingIn.mpr ⟨c', hc', hw⟩) hv hvw.symm
  · intro now
    have hkeys : ∀ o ∈ f.clients.keys, o ∈ (f.clients.keys.map (·, now)).map Prod.fst := by
      intro o ho
      rw [List.map_map]
      simpa using ho
    rw [f.disconnectAll_eq_departures]
    exact Frontend.empty_departures h hkeys

end PromptGateway
