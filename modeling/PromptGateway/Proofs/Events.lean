import PromptGateway.Frontend
import PromptGateway.Proofs.Exchange

/-
  Runs of the gateway with its clients.

  An event is one thing that can happen: a client connects, is read from, is handed
  what there is for it, is written to or leaves; a tick of one of the two loops; or a
  single call from the side of the workers, so that the loops may also stop halfway
  through. Between events anything may happen on the connections. A run is any list of
  events, and its log is what a bystander notes of it.

  `steps_run`: a run is a sequence of steps of the exchange, and its log is what is
  noted of them. What holds of every step therefore holds of every run. The rounds of
  the loop that serves the clients are runs themselves (`reaches_receive`,
  `reaches_sweep`, `reaches_disconnectAll`).
-/

namespace PromptGateway

namespace Gateway

/-- The calls an assignment tick is made of. -/
def assignmentCalls (g : Gateway) (now : Millis) : List BackendCall :=
  if g.dispatcher.queue.isPendingEmpty || g.mustWait then [] else [.assign now]

/-- The calls a delivery tick is made of: what the workers said is heard, then the
losses are taken and the tasks of the lost workers failed, then time-outs. -/
def deliveryCalls (g : Gateway) (now : Millis) : List BackendCall :=
  let (lines, pool) := g.dispatcher.pool.pollAll
  let heard := .pool pool :: lines.map fun (worker, line) => .hear now worker line
  let (lost, pool) := (g.dispatcher.runBackend heard).pool.drainDisconnected
  heard ++ .pool pool :: lost.map (.failWorker · now) ++
    (g.settings.dispatch.taskTimeoutMs.map (.sweep now · now)).toList

theorem assignmentTick_eq (g : Gateway) (now : Millis) :
    (g.assignmentTick now).2 =
      { g with dispatcher := g.dispatcher.runBackend (g.assignmentCalls now) } := by
  unfold assignmentTick assignmentCalls
  split <;> rfl

theorem runBackend_hear (d : Dispatcher) (now : Millis) (lines : List (Nat × String)) :
    d.runBackend (lines.map fun (worker, line) => .hear now worker line) =
      ingestAll d now lines := by
  rw [Dispatcher.runBackend, List.foldl_map]
  rfl

theorem deliveryTick_eq (g : Gateway) (now : Millis) :
    (g.deliveryTick now).2 =
      { g with dispatcher := g.dispatcher.runBackend (g.deliveryCalls now) } := by
  have hlost : ∀ (d : Dispatcher) (lost : List Nat),
      d.runBackend (lost.map (.failWorker · now)) =
        lost.foldl (fun d worker => (d.failWorkerTasks worker now).2) d := by
    intro d lost
    rw [Dispatcher.runBackend, List.foldl_map]
    rfl
  have hexpire : ∀ (d : Dispatcher) (limit : Option Nat),
      d.runBackend (limit.map (.sweep now · now)).toList = expire d now limit := by
    intro d limit
    cases limit <;> rfl
  have happend : ∀ (d : Dispatcher) (l l' : List BackendCall),
      d.runBackend (l ++ l') = (d.runBackend l).runBackend l' := fun _ _ _ => List.foldl_append
  have hcons : ∀ (d : Dispatcher) (p : WorkerPool) (l : List BackendCall),
      d.runBackend (.pool p :: l) = (d.withPool p).runBackend l := fun _ _ _ => rfl
  unfold deliveryTick deliveryCalls failLost
  simp only [happend, hcons, runBackend_hear, hlost, hexpire]
  rfl

end Gateway

/-- What each client of a table waits for. -/
def waitingIn (clients : Table ConnectionId Client) (o : ConnectionId) : List WaitingRequest :=
  match clients.find? o with
  | none => []
  | some c => c.waiting

theorem mem_waitingIn {clients : Table ConnectionId Client} {o : ConnectionId} {w : WaitingRequest} :
    w ∈ waitingIn clients o ↔ ∃ c, clients.find? o = some c ∧ w ∈ c.waiting := by
  unfold waitingIn
  cases clients.find? o <;> simp

theorem waitingIn_modify {clients : Table ConnectionId Client} {o : ConnectionId} {c : Client}
    (hc : clients.find? o = some c) (c' : Client) :
    waitingIn (clients.modify o fun _ => c') =
      Function.update (waitingIn clients) o c'.waiting := by
  funext i
  rw [Function.update_apply, waitingIn, Table.find?_modify, hc]
  by_cases h : i = o
  · simp [h]
  · simp [h, waitingIn]

theorem waitingIn_insert {clients : Table ConnectionId Client} {o : ConnectionId}
    (ho : clients.find? o = none) (link : Link) :
    waitingIn (clients.insert o { link := link }) = waitingIn clients := by
  funext i
  rw [waitingIn, Table.find?_insert]
  by_cases h : i = o
  · simp [h, waitingIn, ho]
  · simp [h, waitingIn]

theorem waitingIn_erase (clients : Table ConnectionId Client) (o : ConnectionId) :
    waitingIn (clients.erase o) = Function.update (waitingIn clients) o [] := by
  funext i
  rw [Function.update_apply, waitingIn, Table.find?_erase]
  by_cases h : i = o
  · simp [h]
  · simp [h, waitingIn]

/-- One thing that can happen to a gateway with its clients. -/
inductive Event where
  | accept (link : Link)
  /-- Whatever may happen on the connection of a client. -/
  | link (o : ConnectionId) (change : Link → Link)
  | receive (o : ConnectionId) (m : Moment)
  | deliver (o : ConnectionId) (cap : Nat) (now : Millis)
  | flush (o : ConnectionId)
  | disconnect (o : ConnectionId) (now : Millis)
  | assignmentTick (now : Millis)
  | deliveryTick (now : Millis)
  | backend (call : BackendCall)

namespace Frontend

/-- The front end with another dispatch engine. -/
def withEngine (f : Frontend) (d : Dispatcher) : Frontend :=
  { f with gateway := { f.gateway with dispatcher := d } }

/-- The front end after an event. Events of a client that is not there are nothing. -/
def apply (f : Frontend) : Event → Frontend
  | .accept link => (f.accept link).2
  | .link o change =>
    match f.clients.find? o with
    | none => f
    | some c => f.update o { c with link := change c.link } f.gateway.dispatcher
  | .receive o m => (f.receiveFrom m o).2
  | .deliver o cap now =>
    match f.clients.find? o with
    | none => f
    | some c =>
      let (_, c, d) := c.deliver f.gateway.dispatcher cap now
      f.update o c d
  | .flush o =>
    match f.clients.find? o with
    | none => f
    | some c => f.update o c.flush.2 f.gateway.dispatcher
  | .disconnect o now => f.disconnect o now
  | .assignmentTick now => { f with gateway := (f.gateway.assignmentTick now).2 }
  | .deliveryTick now => { f with gateway := (f.gateway.deliveryTick now).2 }
  | .backend call => f.withEngine (f.gateway.dispatcher.applyBackend call)

/-- What is noted of an event. -/
def log (f : Frontend) : Event → List Observation
  | .receive o m =>
    match f.clients.find? o with
    | none => []
    | some c => c.receiveLog f.gateway.dispatcher m o
  | .deliver o cap now =>
    match f.clients.find? o with
    | none => []
    | some c => c.deliverLog f.gateway.dispatcher o cap now
  | .assignmentTick now =>
    journal Dispatcher.applyBackend Dispatcher.noted f.gateway.dispatcher
      (f.gateway.assignmentCalls now)
  | .deliveryTick now =>
    journal Dispatcher.applyBackend Dispatcher.noted f.gateway.dispatcher
      (f.gateway.deliveryCalls now)
  | .backend call => f.gateway.dispatcher.noted call
  | .accept _ | .link _ _ | .flush _ | .disconnect _ _ => []

/-- The front end after a list of events. -/
def run (f : Frontend) (events : List Event) : Frontend := events.foldl apply f

/-- What is noted of a list of events. -/
def runLog (f : Frontend) (events : List Event) : List Observation := journal apply log f events

/-- The exchange that goes on in a front end. -/
def exchange (f : Frontend) : Exchange := ⟨f.gateway.dispatcher, waitingIn f.clients⟩

open Exchange (Steps Step)

theorem steps_backend (d : Dispatcher) (ws : ConnectionId → List WaitingRequest)
    (calls : List BackendCall) :
    Steps ⟨d, ws⟩ (journal Dispatcher.applyBackend Dispatcher.noted d calls)
      ⟨d.runBackend calls, ws⟩ := by
  induction calls generalizing d with
  | nil => exact .refl
  | cons call calls ih => exact (Step.backend call).steps.trans (ih (d.applyBackend call))

/-- A change of a client that leaves what it waits for is no step at all. -/
theorem exchange_update {f : Frontend} {o : ConnectionId} {c : Client}
    (hc : f.clients.find? o = some c) (c' : Client) (d : Dispatcher) :
    (f.update o c' d).exchange = ⟨d, Function.update (waitingIn f.clients) o c'.waiting⟩ :=
  congrArg (Exchange.mk d) (waitingIn_modify hc c')

theorem waiting_flush (c : Client) : c.flush.2.waiting = c.waiting := by
  fun_induction Client.flush c <;> simp_all

theorem waitingIn_of_find? {clients : Table ConnectionId Client} {o : ConnectionId} {c : Client}
    (hc : clients.find? o = some c) : waitingIn clients o = c.waiting := by
  rw [waitingIn, hc]

/-- A connection that is taken in waits for nothing yet. -/
theorem exchange_accept (f : Frontend) (link : Link) :
    (f.accept link).2.exchange = f.exchange := by
  unfold accept
  split
  · next h =>
    have hr : f.nextId < UInt64.size := by
      simp only [hasRoom, Bool.and_eq_true, decide_eq_true_eq] at h
      exact h.2
    have hnew := (Table.find?_eq_none_iff f.clients _).mpr (f.nextId_not_mem hr)
    simp only [exchange, waitingIn_insert hnew]
  · rfl

/-- Every event is a sequence of steps of the exchange. -/
theorem steps_apply (f : Frontend) (e : Event) :
    Steps f.exchange (f.log e) (f.apply e).exchange := by
  cases e with
  | accept link =>
    simp only [apply, log, exchange_accept]
    exact .refl
  | link o change =>
    simp only [apply, log]
    cases hc : f.clients.find? o with
    | none => exact .refl
    | some c =>
      simp only [exchange_update hc]
      rw [← waitingIn_of_find? hc, Function.update_eq_self]
      exact .refl
  | receive o m =>
    simp only [apply, log, receiveFrom]
    cases hc : f.clients.find? o with
    | none => exact .refl
    | some c =>
      simp only [exchange_update hc]
      exact Exchange.steps_receive (waitingIn_of_find? hc) m
  | deliver o cap now =>
    simp only [apply, log]
    cases hc : f.clients.find? o with
    | none => exact .refl
    | some c =>
      simp only [exchange_update hc]
      exact Exchange.steps_deliver (waitingIn_of_find? hc) cap now
  | flush o =>
    simp only [apply, log]
    cases hc : f.clients.find? o with
    | none => exact .refl
    | some c =>
      simp only [exchange_update hc, waiting_flush]
      rw [← waitingIn_of_find? hc, Function.update_eq_self]
      exact .refl
  | disconnect o now =>
    simp only [apply, log, disconnect]
    cases hc : f.clients.find? o with
    | none => exact .refl
    | some c =>
      have hstep : Steps f.exchange [] _ := (Step.leave o now).steps
      rw [waitingIn_of_find? hc, ← waitingIn_erase] at hstep
      exact hstep
  | assignmentTick now =>
    simp only [apply, log, Gateway.assignmentTick_eq]
    exact steps_backend _ _ _
  | deliveryTick now =>
    simp only [apply, log, Gateway.deliveryTick_eq]
    exact steps_backend _ _ _
  | backend call => exact (Step.backend call).steps

/-- A run is a sequence of steps of the exchange, and its log is what is noted of them. -/
theorem steps_run (f : Frontend) (events : List Event) :
    Steps f.exchange (f.runLog events) (f.run events).exchange := by
  induction events generalizing f with
  | nil => exact .refl
  | cons e events ih => exact (f.steps_apply e).trans (ih (f.apply e))

/-! ## The loop that serves the clients -/

/-- A front end that some events lead to. -/
def Reaches (f g : Frontend) : Prop := ∃ events, f.run events = g

theorem Reaches.refl (f : Frontend) : f.Reaches f := ⟨[], rfl⟩

theorem Reaches.trans {f g h : Frontend} : f.Reaches g → g.Reaches h → f.Reaches h := by
  rintro ⟨es, rfl⟩ ⟨es', rfl⟩
  exact ⟨es ++ es', List.foldl_append⟩

theorem reaches_apply (f : Frontend) (e : Event) : f.Reaches (f.apply e) := ⟨[e], rfl⟩

theorem reaches_foldl {step : Frontend → ConnectionId → Frontend}
    (hstep : ∀ (f : Frontend) o, f.Reaches (step f o)) (f : Frontend) (os : List ConnectionId) :
    f.Reaches (os.foldl step f) := by
  induction os generalizing f with
  | nil => exact .refl f
  | cons o os ih => exact (hstep f o).trans (ih (step f o))

theorem reaches_forEach {step : Frontend → ConnectionId → Bool × Frontend}
    (hstep : ∀ (f : Frontend) o, f.Reaches (step f o).2) (f : Frontend) (now : Millis) :
    f.Reaches (f.forEach now step) := by
  refine Reaches.trans ?_ (reaches_foldl (fun f o => f.reaches_apply (.disconnect o now)) _ _)
  -- the clients to be dropped go along
  refine List.foldlRecOn f.clients.keys _
    (motive := fun s : List ConnectionId × Frontend => f.Reaches s.2) (.refl f) ?_
  exact fun s hs o _ => hs.trans (hstep s.2 o)

/-- To hand out what there is for a client and to write it are two events. -/
theorem reaches_deliverTo (f : Frontend) (now : Millis) (o : ConnectionId) :
    f.Reaches (f.deliverTo now o).2 := by
  refine ⟨[.deliver o f.gateway.settings.dispatch.maxFragmentsPerSweep now, .flush o], ?_⟩
  show (f.apply (.deliver o _ now)).apply (.flush o) = _
  simp only [apply, deliverTo]
  cases hc : f.clients.find? o with
  | none => simp only [hc]
  | some c =>
    dsimp only
    generalize c.deliver f.gateway.dispatcher f.gateway.settings.dispatch.maxFragmentsPerSweep now =
      delivered
    have hfound : (f.update o delivered.2.1 delivered.2.2).clients.find? o = some delivered.2.1 := by
      show (f.clients.modify o _).find? o = _
      rw [Table.find?_modify, if_pos rfl, hc]
      rfl
    simp only [hfound]
    simp only [update, Table.modify_modify]

/-- Every round of the loop that serves the clients is a run. -/
theorem reaches_receive (f : Frontend) (m : Moment) : f.Reaches (f.receive m) :=
  reaches_forEach (fun f o => f.reaches_apply (.receive o m)) f m.now

theorem reaches_sweep (f : Frontend) (now : Millis) : f.Reaches (f.sweep now) :=
  reaches_forEach (fun f o => f.reaches_deliverTo now o) f now

theorem reaches_disconnectAll (f : Frontend) (now : Millis) : f.Reaches (f.disconnectAll now) :=
  reaches_foldl (fun f o => f.reaches_apply (.disconnect o now)) f _

end Frontend

end PromptGateway
