import PromptGateway.Proofs.Working
import PromptGateway.Proofs.Dispatch

/-
  No task is left with a worker that is gone.

  A worker can be lost while a line is written to it or while it is read from. The loss is
  put on a list, and only the next delivery tick fails the tasks of the workers on the list;
  in between the slot must not be given away. A task at work is attended if the slot of its
  worker still has the connection its line was written on, and the slot is connected or the
  loss is yet to be worked off.

    1. Whatever the pool does, it gives up no worker without notice (`WorkerPool.Minds`).
    2. An assignment puts one task to work, and this one has just been written
       (`Manned.assignNext`).
    3. A delivery tick takes the list of the lost and works it off. A worker is struck off
       when its tasks have been failed (`Manned.failWorkerTasks`), so in the end every task
       at work has a connected worker (`Manned.deliveryTick`).
    4. `never_stranded` is the state after any run.
-/

namespace PromptGateway

/-! ## Tasks that are attended -/

/-- The last write that was made for a request. -/
def lastWrite (id : RequestId) (log : List Attempt) : Option Attempt :=
  (log.filter (·.id == id)).getLast?

theorem lastWrite_append_of_ne {id : RequestId} {log more : List Attempt}
    (h : ∀ a ∈ more, a.id ≠ id) : lastWrite id (log ++ more) = lastWrite id log := by
  have hmore : more.filter (·.id == id) = [] := by
    rw [List.filter_eq_nil_iff]
    exact fun a ha => by simpa using h a ha
  rw [lastWrite, List.filter_append, hmore, List.append_nil]
  rfl

theorem lastWrite_concat (log : List Attempt) (a : Attempt) :
    lastWrite a.id (log ++ [a]) = some a := by
  simp [lastWrite, List.filter_append]

namespace WorkerPool

variable {p p' p'' : WorkerPool} {lost lost' lost'' : List Nat}

/-- A worker has the connection its task was written to, and it is connected or its loss
is yet to be worked off. -/
def Attends (p : WorkerPool) (lost : List Nat) (a : Attempt) : Prop :=
  ∃ s, p.slots[a.worker]? = some s ∧ s.link = a.link ∧ (s.connected = true ∨ a.worker ∈ lost)

/-- No worker is given up without notice. -/
def Minds (p : WorkerPool) (lost : List Nat) (p' : WorkerPool) (lost' : List Nat) : Prop :=
  ∀ a, p.Attends lost a → p'.Attends lost' a

theorem Minds.trans (h : Minds p lost p' lost') (h' : Minds p' lost' p'' lost'') :
    Minds p lost p'' lost'' :=
  fun a ha => h' a (h a ha)

/-- The slots are the same, and the losses that are yet to be worked off. -/
theorem Minds.of_slots (hs : p'.slots = p.slots) : Minds p lost p' lost := by
  rintro a ⟨s, hget, hlink, hc⟩
  exact ⟨s, by rw [hs, hget], hlink, hc⟩

theorem Reports.minds (h : Reports p p') : Minds p p.lost p' p'.lost := by
  rintro a ⟨s, hs, hlink, hc⟩
  obtain ⟨s', hs', hlink'⟩ := h.found hs
  refine ⟨s', hs', hlink'.trans hlink, ?_⟩
  rcases hc with hc | hlost
  · exact h.noted _ s s' hs hs' hc
  · exact .inr (h.lost _ hlost)

/-- A worker that is added takes a slot that nobody needs any more. -/
theorem Enlists.minds {index : Nat} (h : Enlists p index p') : Minds p p.lost p' p'.lost := by
  rintro a ⟨s, hs, hlink, hc⟩
  obtain ⟨new, -, hslots⟩ := h.slots
  have hne : a.worker ≠ index := by
    rintro rfl
    obtain ⟨hgone, hreported⟩ := h.free s hs
    -- a slot is taken over only when its worker is gone and the loss is worked off
    rcases hc with hc | hlost
    · rw [hgone] at hc
      cases hc
    · exact hreported hlost
  refine ⟨s, ?_, hlink, ?_⟩
  · rw [hslots, if_neg hne, hs]
  · rw [h.lost]
    exact hc

/-- A write leaves its worker with its connection, or reports the loss. -/
theorem Writes.minds {a : Attempt} (h : Writes p a p') : Minds p p.lost p' p'.lost := by
  obtain ⟨s, k, -, -, -, -, -, hreports⟩ := h.made
  have hwrote : Minds p p.lost (p.wrote a.link k a.line) p.lost := .of_slots rfl
  exact hwrote.trans hreports.minds

theorem Writes.attends {a : Attempt} (h : Writes p a p') : p'.Attends p'.lost a := by
  have hminds := h.minds
  obtain ⟨s, k, hs, hc, hlink, -, -, -⟩ := h.made
  exact hminds a ⟨s, hs, hlink, .inl hc⟩

end WorkerPool

/-- The worker of a task has the connection on which the whole line of the task was last
written, and it is connected or its loss is yet to be worked off. -/
structure Attended (p : WorkerPool) (lost : List Nat) (log : List Attempt) (id : RequestId)
    (r : TaskRecord) (a : Attempt) : Prop where
  last : lastWrite id log = some a
  worker : r.worker = some a.worker
  complete : a.complete = true
  line : a.line = (Dispatcher.taskMessage r).encode
  attends : p.Attends lost a

/-- Every task at work is attended. -/
def Manned (d : Dispatcher) (lost : List Nat) (log : List Attempt) : Prop :=
  ∀ id r, d.Working id r → ∃ a, Attended d.pool lost log id r a

namespace Manned

open Dispatcher

variable {d d' : Dispatcher} {lost lost' : List Nat} {log : List Attempt}

theorem narrows (h : Manned d lost log) (hn : d.Narrows d')
    (hp : d.pool.Minds lost d'.pool lost') : Manned d' lost' log := by
  intro id r' hr'
  obtain ⟨r, hr, hworker, hm⟩ := hn id r' hr'
  obtain ⟨a, ha⟩ := h id r hr
  exact ⟨a, ha.last, hworker.trans ha.worker, ha.complete, by rw [ha.line, hm], hp a ha.attends⟩

theorem samePool (h : Manned d lost log) (hn : d.Narrows d') (hp : d'.pool = d.pool) :
    Manned d' lost log :=
  h.narrows hn (.of_slots (by rw [hp]))

theorem mono (h : Manned d lost log) (hl : ∀ w ∈ lost, w ∈ lost') : Manned d lost' log := by
  refine h.narrows .refl ?_
  rintro a ⟨s, hs, hlink, hc⟩
  exact ⟨s, hs, hlink, hc.imp (fun h => h) (hl _)⟩

/-- An assignment: the task that is put to work has just been written. -/
theorem assignNext (h : Manned d d.pool.lost log) (now : Millis) :
    Manned (d.assignNext now).2 (d.assignNext now).2.pool.lost (log ++ d.attempt?.toList) := by
  have hpool : d.pool.Minds d.pool.lost (d.assignNext now).2.pool (d.assignNext now).2.pool.lost := by
    rw [pool_assignNext]
    rcases begins_pool (d.begins_beginAssign now) with ⟨-, hreports⟩ | ⟨a, -, hw⟩
    · exact hreports.minds
    · exact hw.minds
  intro id r' hr'
  rcases working_assigns (d.assigns_assignNext now) hr' with
    ⟨r, hr, hworker, hm⟩ | ⟨worker, ho, hworker, r, hr, hm⟩
  · -- what was written is the line of another task, for this one did not wait
    have hother : ∀ a ∈ d.attempt?.toList, a.id ≠ id := by
      rintro a ha rfl
      obtain ⟨-, -, s, -, -, hs, hst, -⟩ := attempt?_eq_some_iff.mp (Option.mem_toList.mp ha)
      cases hs.symm.trans hr.found
      rw [hr.processing] at hst
      cases hst
    obtain ⟨a, ha⟩ := h id r hr
    exact ⟨a, (lastWrite_append_of_ne hother).trans ha.last, hworker.trans ha.worker, ha.complete,
      by rw [ha.line, hm], hpool a ha.attends⟩
  · obtain ⟨a, hatt, rfl, rfl, hcomplete⟩ := assigned_iff.mp ho
    obtain ⟨-, -, s, -, -, hs, -, -, hline, -⟩ := attempt?_eq_some_iff.mp hatt
    cases hs.symm.trans hr
    have hattends : (d.assignNext now).2.pool.Attends (d.assignNext now).2.pool.lost a := by
      rw [pool_assignNext]
      rcases begins_pool (d.begins_beginAssign now) with ⟨hnone, -⟩ | ⟨b, hb, hw⟩
      · rw [hatt] at hnone
        cases hnone
      · cases hatt.symm.trans hb
        exact hw.attends
    refine ⟨a, ?_, hworker, hcomplete, by rw [hline, hm], hattends⟩
    rw [hatt]
    exact lastWrite_concat log a

/-! ## Delivery ticks -/

theorem ingestAll {b : Bounds} (hl : Listed b d.cache d.queue) (h : Manned d d.pool.lost log)
    (now : Millis) (lines : List (Nat × String)) :
    Listed b (Gateway.ingestAll d now lines).cache (Gateway.ingestAll d now lines).queue ∧
      Manned (Gateway.ingestAll d now lines) (Gateway.ingestAll d now lines).pool.lost log := by
  refine List.foldlRecOn lines _
    (motive := fun d => Listed b d.cache d.queue ∧ Manned d d.pool.lost log) ⟨hl, h⟩ ?_
  rintro d ⟨hl, h⟩ ⟨worker, line⟩ -
  exact ⟨hl.applyBackend (.hear now worker line),
    h.narrows (narrows_ingest hl now worker line) (reports_ingest now worker line).minds⟩

/-- A worker is struck off the list when its tasks have been failed. -/
theorem failWorkerTasks {b : Bounds} (hl : Listed b d.cache d.queue) {worker : Nat}
    (h : Manned d (worker :: lost) log) (now : Millis) :
    Manned (d.failWorkerTasks worker now).2 lost log := by
  have hkept : Manned (d.failWorkerTasks worker now).2 (worker :: lost) log :=
    h.samePool (narrows_endEach _) (pool_endEach _)
  intro id r hr
  obtain ⟨a, ha⟩ := hkept id r hr
  obtain ⟨s, hs, hlink, hc⟩ := ha.attends
  have hne : a.worker ≠ worker := by
    rintro rfl
    exact worker_ne_of_working hl hr ha.worker
  refine ⟨a, ha.last, ha.worker, ha.complete, ha.line, s, hs, hlink, hc.imp (fun h => h) ?_⟩
  exact fun hmem => (List.mem_cons.mp hmem).resolve_left hne

theorem failLost {b : Bounds} (hl : Listed b d.cache d.queue) (h : Manned d d.pool.lost log)
    (now : Millis) : Manned (Gateway.failLost d now) [] log := by
  have hdrained : Manned { d with pool := { d.pool with lost := [] } } d.pool.lost log :=
    h.narrows (.of_eq rfl rfl) (.of_slots rfl)
  unfold Gateway.failLost WorkerPool.drainDisconnected
  dsimp only
  -- by induction on the list that was taken, whatever stands in the pool's own list meanwhile
  generalize d.pool.lost = lost at hdrained ⊢
  have hlisted : Listed b ({ d with pool := { d.pool with lost := [] } } : Dispatcher).cache
      ({ d with pool := { d.pool with lost := [] } } : Dispatcher).queue := hl
  generalize ({ d with pool := { d.pool with lost := [] } } : Dispatcher) = d at hdrained hlisted ⊢
  induction lost generalizing d with
  | nil => exact hdrained
  | cons worker lost ih =>
    exact ih _ (failWorkerTasks hlisted hdrained now) (hlisted.applyBackend (.failWorker worker now))

theorem expire (h : Manned d lost log) (now : Millis) (limit : Option Nat) :
    Manned (Gateway.expire d now limit) lost log := by
  cases limit with
  | none => exact h
  | some timeoutMs => exact h.samePool (narrows_endEach _) (pool_endEach _)

/-- After a delivery tick no loss is left to be worked off. -/
theorem deliveryTick {g : Gateway} {b : Bounds}
    (hl : Listed b g.dispatcher.cache g.dispatcher.queue)
    (h : Manned g.dispatcher g.dispatcher.pool.lost log) (now : Millis) :
    Manned (g.deliveryTick now).2.dispatcher [] log := by
  have hpolled : Manned { g.dispatcher with pool := g.dispatcher.pool.pollAll.2 }
      g.dispatcher.pool.pollAll.2.lost log :=
    h.narrows (.of_eq rfl rfl) WorkerPool.reports_pollAll.minds
  obtain ⟨hl', h'⟩ := ingestAll (d := { g.dispatcher with pool := g.dispatcher.pool.pollAll.2 })
    hl hpolled now g.dispatcher.pool.pollAll.1
  exact (failLost hl' h' now).expire now _

end Manned

/-! ## Runs -/

/-- One thing that can happen while a gateway serves. It is an event, but for the pool of
workers, which is not exchanged: a worker is added to it, or something happens on one of its
connections. -/
inductive Turn where
  | accept (link : Link)
  | clientLink (o : ConnectionId) (change : Link → Link)
  | receive (o : ConnectionId) (m : Moment)
  | deliver (o : ConnectionId) (cap : Nat) (now : Millis)
  | flush (o : ConnectionId)
  | disconnect (o : ConnectionId) (now : Millis)
  | assignmentTick (now : Millis)
  | deliveryTick (now : Millis)
  | addWorker (network : Network) (now : Millis) (address : String)
  | workerLink (l : Nat) (change : Link → Link)

/-- Whether it is a client that does something. -/
def Turn.ofClient : Turn → Bool
  | accept _ | clientLink _ _ | receive _ _ | deliver _ _ _ | flush _ | disconnect _ _ => true
  | assignmentTick _ | deliveryTick _ | addWorker _ _ _ | workerLink _ _ => false

namespace Frontend

/-- The event that a turn is. -/
def event (f : Frontend) : Turn → Event
  | .accept link => .accept link
  | .clientLink o change => .link o change
  | .receive o m => .receive o m
  | .deliver o cap now => .deliver o cap now
  | .flush o => .flush o
  | .disconnect o now => .disconnect o now
  | .assignmentTick now => .assignmentTick now
  | .deliveryTick now => .deliveryTick now
  | .addWorker network now address =>
    .backend (.pool (f.gateway.dispatcher.pool.apply (.add network now address)))
  | .workerLink l change => .backend (.pool (f.gateway.dispatcher.pool.apply (.link l change)))

/-- The front end after a turn. -/
def turn (f : Frontend) (t : Turn) : Frontend := f.apply (f.event t)

/-- The writes of task lines in a turn. Only an assignment makes one. -/
def turnWrites (f : Frontend) : Turn → List Attempt
  | .assignmentTick now =>
    (f.gateway.assignmentCalls now).flatMap fun _ => f.gateway.dispatcher.attempt?.toList
  | .accept _ | .clientLink _ _ | .receive _ _ | .deliver _ _ _ | .flush _ | .disconnect _ _
  | .deliveryTick _ | .addWorker _ _ _ | .workerLink _ _ => []

/-- The front end after a list of turns. -/
def serve (f : Frontend) (turns : List Turn) : Frontend := turns.foldl turn f

/-- The writes of task lines in a list of turns. -/
def writes (f : Frontend) (turns : List Turn) : List Attempt := journal turn turnWrites f turns

/-- No task at work has been left to a worker that is gone. -/
def Staffed (f : Frontend) (log : List Attempt) : Prop :=
  Manned f.gateway.dispatcher f.gateway.dispatcher.pool.lost log

theorem held_turn {f : Frontend} (h : f.exchange.Held) (t : Turn) : (f.turn t).exchange.Held :=
  h.steps (f.steps_apply (f.event t))

/-- What clients do puts no task to work, and asks nothing of a worker. -/
theorem narrows_turn {f : Frontend} (hf : f.exchange.Held) {t : Turn} (ht : t.ofClient = true) :
    f.gateway.dispatcher.Narrows (f.turn t).gateway.dispatcher ∧
      (f.turn t).gateway.dispatcher.pool = f.gateway.dispatcher.pool := by
  have same : ∀ {f' : Frontend}, f'.gateway.dispatcher = f.gateway.dispatcher →
      f.gateway.dispatcher.Narrows f'.gateway.dispatcher ∧
        f'.gateway.dispatcher.pool = f.gateway.dispatcher.pool :=
    fun he => ⟨.of_eq (by rw [he]) (by rw [he]), by rw [he]⟩
  cases t with
  | accept link => exact same (congrArg Exchange.engine (f.exchange_accept link))
  | clientLink o change =>
    refine same ?_
    simp only [turn, event, apply]
    split <;> rfl
  | flush o =>
    refine same ?_
    simp only [turn, event, apply]
    split <;> rfl
  | receive o m =>
    simp only [turn, event, apply, receiveFrom]
    cases hc : f.clients.find? o with
    | none => exact same rfl
    | some c => exact Dispatcher.narrows_receive c m o
  | deliver o cap now =>
    simp only [turn, event, apply]
    cases hc : f.clients.find? o with
    | none => exact same rfl
    | some c => exact Dispatcher.narrows_deliver ⟨hf.listed, hf.whole⟩ c cap now
  | disconnect o now =>
    simp only [turn, event, apply, disconnect]
    cases hc : f.clients.find? o with
    | none => exact same rfl
    | some c =>
      have hleft := Dispatcher.narrows_left hf o now
      rwa [waitingIn_of_find? hc] at hleft
  | assignmentTick _ => cases ht
  | deliveryTick _ => cases ht
  | addWorker _ _ _ => cases ht
  | workerLink _ _ => cases ht

theorem Staffed.step {f : Frontend} {log : List Attempt} (hf : f.exchange.Held)
    (h : f.Staffed log) (t : Turn) : (f.turn t).Staffed (log ++ f.turnWrites t) := by
  obtain ⟨b, hb⟩ := hf.listed
  have client : t.ofClient = true → (f.turn t).Staffed (log ++ []) := by
    intro ht
    obtain ⟨hn, hp⟩ := narrows_turn hf ht
    rw [List.append_nil, Staffed, hp]
    exact h.samePool hn hp
  cases t with
  | accept _ => exact client rfl
  | clientLink _ _ => exact client rfl
  | flush _ => exact client rfl
  | receive _ _ => exact client rfl
  | deliver _ _ _ => exact client rfl
  | disconnect _ _ => exact client rfl
  | assignmentTick now =>
    simp only [turn, event, apply, turnWrites, Gateway.assignmentTick_eq]
    unfold Gateway.assignmentCalls
    split
    · rwa [List.flatMap_nil, List.append_nil]
    · rw [List.flatMap_singleton]
      exact Manned.assignNext h now
  | deliveryTick now =>
    rw [turnWrites, List.append_nil]
    exact (Manned.deliveryTick hb h now).mono fun _ hw => absurd hw List.not_mem_nil
  | addWorker network now address =>
    rw [turnWrites, List.append_nil]
    refine Manned.narrows h (.of_eq rfl rfl) ?_
    show f.gateway.dispatcher.pool.Minds f.gateway.dispatcher.pool.lost
      (f.gateway.dispatcher.pool.apply (.add network now address))
      (f.gateway.dispatcher.pool.apply (.add network now address)).lost
    simp only [WorkerPool.apply]
    split
    · next ha => exact (WorkerPool.enlists_addWorker ha).minds
    · exact WorkerPool.Reports.refl.minds
  | workerLink l change =>
    rw [turnWrites, List.append_nil]
    exact Manned.narrows h (.of_eq rfl rfl) (.of_slots rfl)

theorem Staffed.serve {f : Frontend} {log : List Attempt} (hf : f.exchange.Held)
    (h : f.Staffed log) (turns : List Turn) :
    (f.serve turns).exchange.Held ∧ (f.serve turns).Staffed (log ++ f.writes turns) := by
  induction turns generalizing f log with
  | nil => exact ⟨hf, by rwa [writes, journal, List.append_nil]⟩
  | cons t turns ih =>
    rw [writes, journal, ← List.append_assoc]
    exact ih (held_turn hf t) (h.step hf t)

end Frontend

/-- No task is left with a worker that is gone. After any run of a gateway that began without
clients and without workers, in which clients come and go, ask, are handed what there is and
are written to, the two loops tick, workers are added and anything may happen on any
connection, in any order:

every task that is being processed and whose stream has not ended was last written, as a
whole, on the connection that the slot of its worker still has; and this slot is connected,
or the loss of its worker is noted and not yet worked off;

and after a further delivery tick, at any time, the slot is connected. -/
theorem never_stranded (settings : Settings) (firstId : Nat) (turns : List Turn) :
    let start := Frontend.create (Gateway.create settings) firstId
    let g := (start.serve turns).gateway
    let log := start.writes turns
    (∀ id r, g.dispatcher.Working id r → ∃ w s a, r.worker = some w ∧
      g.dispatcher.pool.slots[w]? = some s ∧
      (s.connected = true ∨ w ∈ g.dispatcher.pool.lost) ∧
      lastWrite id log = some a ∧ a.worker = w ∧ a.link = s.link ∧ a.complete = true ∧
      a.line = (Dispatcher.taskMessage r).encode) ∧
    ∀ now, let d := (g.deliveryTick now).2.dispatcher
      ∀ id r, d.Working id r → ∃ w s a, r.worker = some w ∧
        d.pool.slots[w]? = some s ∧ s.connected = true ∧
        lastWrite id log = some a ∧ a.worker = w ∧ a.link = s.link ∧ a.complete = true ∧
        a.line = (Dispatcher.taskMessage r).encode := by
  intro start g log
  have hstart : start.exchange.Held := Held.create _ _ _ _
  have hempty : start.Staffed [] := fun id r hr => nomatch hr.found
  obtain ⟨hheld, hstaffed⟩ := hempty.serve hstart turns
  obtain ⟨b, hb⟩ := hheld.listed
  have hticked : ∀ now, Manned (g.deliveryTick now).2.dispatcher [] log :=
    fun now => Manned.deliveryTick hb hstaffed now
  constructor
  · intro id r hr
    obtain ⟨a, ha⟩ := hstaffed id r hr
    obtain ⟨s, hs, hlink, hc⟩ := ha.attends
    exact ⟨a.worker, s, a, ha.worker, hs, hc, ha.last, rfl, hlink.symm, ha.complete, ha.line⟩
  · intro now d id r hr
    obtain ⟨a, ha⟩ := hticked now id r hr
    obtain ⟨s, hs, hlink, hc⟩ := ha.attends
    exact ⟨a.worker, s, a, ha.worker, hs, hc.resolve_right List.not_mem_nil, ha.last, rfl,
      hlink.symm, ha.complete, ha.line⟩

set_option maxRecDepth 100000 in
/-- The worker of `p` is lost while the line of `q` is written. Its slot is kept until the
delivery tick, which fails `p`. -/
example :
    let network : Network := { routed := true, listening := ["a"] }
    let ask : Link :=
      { Link.fresh with
        inbound := Bytes.ofString ("\x7b\"type\":\"request\",\"id\":\"p\"\x7d\n" ++
          "\x7b\"type\":\"request\",\"id\":\"q\"\x7d\n") }
    let f := (Frontend.create (Gateway.create {}) 3).serve
      [.addWorker network 0 "a", .accept ask, .receive 3 { now := 0, newId := fun _ => "" },
        .assignmentTick 1, .workerLink 0 Link.resetFar, .assignmentTick 2]
    let d := (f.gateway.deliveryTick 3).2.dispatcher
    ((f.gateway.dispatcher.cache.get? "p").map fun r => (r.status, r.worker)) =
        some (.processing, some 0) ∧
      f.gateway.dispatcher.pool.isConnected 0 = false ∧ f.gateway.dispatcher.pool.lost = [0] ∧
      f.gateway.dispatcher.pool.freeSlot? = some 1 ∧
      d.cache.get? "p" = none ∧ d.pool.freeSlot? = some 0 := by
  decide +kernel

end PromptGateway
