import PromptGateway.Proofs.Asking
import PromptGateway.Proofs.Custody
import Mathlib.Algebra.Ring.Nat

/-
  What the bound on the fragments of one delivery does.

  A delivery hands out no more than so many fragments of each request that a client waits for,
  and what is left of them is handed out by the deliveries that follow.

    1. To hand out up to `a + b` fragments of one request is to hand out up to `a`, and then up
       to `b` of what is left (`handOver_add`).
    2. Between the two, the requests behind it on the list have their turn. They touch nothing
       of it, so one sweep of the list with room for `a + b` fragments is a sweep with room for
       `a`, and then one with room for `b` (`handOverAll_add`). Only the order in which messages
       about different requests are queued is another one.
    3. When nothing is left to hand out, more room changes nothing (`handOverAll_of_unread`).

  So a tight bound takes more deliveries than a wide one, and comes to the same
  (`fragment_cap_only_paces`).
-/

namespace PromptGateway

/-- A hand-over that is taken up again where it stopped. -/
def Handover.next (now : Millis) (cap : Nat) (x : Handover × Dispatcher) : Handover × Dispatcher :=
  match x.1.remaining with
  | none => x
  | some w =>
    let (h, d) := x.2.handOver now cap w
    ({ h with messages := x.1.messages ++ h.messages, moved := x.1.moved + h.moved }, d)

namespace Dispatcher

variable {d : Dispatcher} {w w' : WaitingRequest}

/-! ## One request -/

/-- How many fragments of a request have not been handed out. -/
def unreadCount (d : Dispatcher) (id : RequestId) : Nat :=
  (d.streamOf id).fragments.length - (d.streamOf id).cursor

/-- When there is nothing for now, nothing happens. -/
theorem handOver_of_nothing (now : Millis) (cap : Nat)
    (h : (d.nextFragment w.id).1 = .nothing) :
    d.handOver now cap w = ({ remaining := some w }, d) := by
  cases cap with
  | zero => rfl
  | succ cap => simp [handOver_succ, h, ask_of_nothing h]

theorem handOver_add (d : Dispatcher) (now : Millis) (a b : Nat) (w : WaitingRequest) :
    d.handOver now (a + b) w = Handover.next now b (d.handOver now a w) := by
  induction a generalizing d w with
  | zero => simp [handOver, Handover.next]
  | succ a ih =>
    rw [Nat.add_right_comm, handOver_succ, handOver_succ]
    cases hn : (d.nextFragment w.id).1 with
    | fragment f =>
      simp only [ih, Handover.next]
      rcases (d.ask w.id).handOver now a (w.gather f) with ⟨⟨remaining, messages, moved⟩, d₁⟩
      cases remaining with
      | none => rfl
      | some v => simp [Nat.add_right_comm]
    | finished => rfl
    | failed reason => rfl
    | nothing =>
      simp [Handover.next, ask_of_nothing hn, handOver_of_nothing now b hn]

/-- No more fragments are handed out than there is room for. -/
theorem moved_handOver_le (d : Dispatcher) (now : Millis) (cap : Nat) (w : WaitingRequest) :
    (d.handOver now cap w).1.moved ≤ cap := by
  induction cap generalizing d w with
  | zero => exact Nat.le_refl 0
  | succ cap ih =>
    rw [handOver_succ]
    cases (d.nextFragment w.id).1 with
    | fragment f => exact Nat.succ_le_succ (ih _ _)
    | finished => exact Nat.zero_le _
    | failed reason => exact Nat.zero_le _
    | nothing => exact Nat.zero_le _

/-- What is waited for after a hand-over is the same request. -/
theorem id_handOver (now : Millis) (cap : Nat)
    (h : (d.handOver now cap w).1.remaining = some w') : w'.id = w.id := by
  induction cap generalizing d w with
  | zero =>
    cases h
    rfl
  | succ cap ih =>
    rw [handOver_succ] at h
    cases hn : (d.nextFragment w.id).1 with
    | fragment f =>
      rw [hn] at h
      exact (ih h).trans (w.id_gather f)
    | finished =>
      rw [hn] at h
      cases h
    | failed reason =>
      rw [hn] at h
      cases h
    | nothing =>
      rw [hn] at h
      cases h
      rfl

theorem unreadCount_spared {d' : Dispatcher} {id : RequestId} (h : d.Spared d' id) :
    d'.unreadCount id = d.unreadCount id := by
  simp only [unreadCount, streamOf, h.2]

/-- A fragment that is handed out is unread no longer. -/
theorem unreadCount_ask {id : RequestId} {f : String}
    (h : (d.nextFragment id).1 = .fragment f) :
    (d.ask id).unreadCount id + 1 = d.unreadCount id := by
  have hdraws := d.draws_nextFragment id
  have hask := ask_of_draws hdraws
  rw [h] at hask hdraws
  obtain ⟨s, hs, -, hf, hstreams⟩ := hdraws.streams_fragment
  have hlt := (List.getElem?_eq_some_iff.mp hf).1
  rw [if_neg (fun e => by cases e)] at hask
  simp only [unreadCount, streamOf, hask, hstreams, hs, if_pos, Option.getD_some]
  omega

/-- With room for more than there is, a hand-over ends with a request of which there is nothing
for now, unless it is the last one. -/
theorem nothing_of_unreadCount_lt (now : Millis) {cap : Nat} (hcap : d.unreadCount w.id < cap)
    (h : (d.handOver now cap w).1.remaining = some w') :
    ((d.handOver now cap w).2.nextFragment w'.id).1 = .nothing := by
  induction cap generalizing d w with
  | zero => exact absurd hcap (Nat.not_lt_zero _)
  | succ cap ih =>
    rw [handOver_succ] at h ⊢
    cases hn : (d.nextFragment w.id).1 with
    | fragment f =>
      rw [hn] at h
      have hread := unreadCount_ask hn
      refine ih ?_ h
      rw [w.id_gather]
      omega
    | finished =>
      rw [hn] at h
      cases h
    | failed reason =>
      rw [hn] at h
      cases h
    | nothing =>
      rw [hn] at h
      cases h
      dsimp only
      rw [ask_of_nothing hn, hn]

/-- Room for more than there is changes nothing. -/
theorem handOver_of_unreadCount_lt (now : Millis) {cap : Nat} (more : Nat)
    (hcap : d.unreadCount w.id < cap) :
    d.handOver now (cap + more) w = d.handOver now cap w := by
  rw [handOver_add, Handover.next]
  split
  · rfl
  · next v hv =>
    rw [handOver_of_nothing now more (nothing_of_unreadCount_lt now hcap hv)]
    simp [← hv]

/-- The time of a delivery does not show in it. -/
theorem handOver_now (d : Dispatcher) (now now' : Millis) (cap : Nat) (w : WaitingRequest) :
    d.handOver now' cap w = d.handOver now cap w := by
  have hself : d.Spared d w.id := ⟨rfl, rfl⟩
  obtain ⟨n, hn, hd⟩ := handOver_spared now now' cap w hself
  rw [hd, ← hn]

end Dispatcher

/-! ## A list of requests -/

/-- What has come of a list of requests that are handed out one after the other. -/
structure Sweep where
  /-- What is still waited for. -/
  waiting : List WaitingRequest
  /-- The messages that were queued. -/
  log : List Observation
  /-- How many fragments of each request were handed out. -/
  shares : List Nat
  engine : Dispatcher

namespace Sweep

/-- Two sweeps that come to the same. Messages about different requests may have been queued in
another order. -/
structure Agrees (x y : Sweep) : Prop where
  waiting : x.waiting = y.waiting
  engine : x.engine = y.engine
  moved : x.shares.sum = y.shares.sum
  log : ∀ id, x.log.filter (·.id == id) = y.log.filter (·.id == id)

theorem Agrees.trans {x y z : Sweep} (h : x.Agrees y) (h' : y.Agrees z) : x.Agrees z where
  waiting := h.waiting.trans h'.waiting
  engine := h.engine.trans h'.engine
  moved := h.moved.trans h'.moved
  log := fun id => (h.log id).trans (h'.log id)

/-- A sweep that follows another one. -/
def andThen (x y : Sweep) : Sweep where
  waiting := y.waiting
  log := x.log ++ y.log
  shares := x.shares ++ y.shares
  engine := y.engine

theorem Agrees.andThen {x y : Sweep} (h : x.Agrees y) (first : Sweep) :
    (first.andThen x).Agrees (first.andThen y) where
  waiting := h.waiting
  engine := h.engine
  moved := by simp [Sweep.andThen, h.moved]
  log := by
    intro id
    simp [Sweep.andThen, h.log id]

/-- One request that has its turn before the others. -/
def cons (o : ConnectionId) (w : WaitingRequest) (h : Handover) (rest : Sweep) : Sweep where
  waiting := h.remaining.toList ++ rest.waiting
  log := h.messages.map (.queued o w.id) ++ rest.log
  shares := h.moved :: rest.shares
  engine := rest.engine

theorem Agrees.cons {x y : Sweep} (h : x.Agrees y) (o : ConnectionId) (w : WaitingRequest)
    (first : Handover) : (Sweep.cons o w first x).Agrees (Sweep.cons o w first y) where
  waiting := by simp [Sweep.cons, h.waiting]
  engine := h.engine
  moved := by simp [Sweep.cons, h.moved]
  log := by
    intro id
    simp [Sweep.cons, h.log id]

theorem filter_queued (o : ConnectionId) (i id : RequestId) (messages : List WireMessage) :
    (messages.map (Observation.queued o i)).filter (·.id == id) =
      if i = id then messages.map (.queued o i) else [] := by
  rw [List.filter_map]
  by_cases hi : i = id
  · simp [Function.comp_def, Observation.id, hi]
  · simp [Function.comp_def, Observation.id, hi]

/-- A request that has a second turn after the others, in which nothing is said about it, might
have had it at once. -/
theorem agrees_turns (o : ConnectionId) {w w' : WaitingRequest} (h h' : Handover) {x : Sweep}
    (y : Sweep) (hid : w'.id = w.id) (hlog : x.log.filter (·.id == w.id) = []) :
    ((cons o w h x).andThen (cons o w' h' y)).Agrees
      (cons o w { h' with messages := h.messages ++ h'.messages, moved := h.moved + h'.moved }
        (x.andThen y)) where
  waiting := rfl
  engine := rfl
  moved := by
    simp only [andThen, cons, List.sum_append, List.sum_cons, List.cons_append]
    omega
  log := by
    intro id
    simp only [andThen, cons, List.filter_append, List.map_append, filter_queued, hid]
    by_cases hw : w.id = id
    · simp [← hw, hlog]
    · simp [hw]

end Sweep

namespace Dispatcher

variable {d d' : Dispatcher} {id : RequestId} {ws : List WaitingRequest}

/-- Hands out up to `cap` fragments of each request. -/
def handOverAll (o : ConnectionId) (now : Millis) (cap : Nat) :
    List WaitingRequest → Dispatcher → Sweep
  | [], d => { waiting := [], log := [], shares := [], engine := d }
  | w :: ws, d =>
    let (h, d) := d.handOver now cap w
    .cons o w h (handOverAll o now cap ws d)

/-- What is still waited for was waited for before. -/
theorem ids_handOverAll (o : ConnectionId) (now : Millis) (cap : Nat) (ws : List WaitingRequest)
    (d : Dispatcher) :
    ((d.handOverAll o now cap ws).waiting.map (·.id)).Sublist (ws.map (·.id)) := by
  induction ws generalizing d with
  | nil => exact .slnil
  | cons w ws ih =>
    have hrest := ih (d.handOver now cap w).2
    simp only [handOverAll, Sweep.cons]
    cases hr : (d.handOver now cap w).1.remaining with
    | none => simpa [hr] using hrest.cons w.id
    | some v => simpa [hr, id_handOver now cap hr] using hrest

theorem log_handOverAll (o : ConnectionId) (now : Millis) (cap : Nat) (h : id ∉ ws.map (·.id)) :
    (d.handOverAll o now cap ws).log.filter (·.id == id) = [] := by
  induction ws generalizing d with
  | nil => rfl
  | cons w ws ih =>
    rw [List.map_cons, List.mem_cons, not_or] at h
    have hw : ¬ w.id = id := fun e => h.1 e.symm
    simp [handOverAll, Sweep.cons, ih h.2, Sweep.filter_queued, hw]

theorem spared_handOverAll (o : ConnectionId) (now : Millis) (cap : Nat)
    (h : id ∉ ws.map (·.id)) : d.Spared (d.handOverAll o now cap ws).engine id := by
  induction ws generalizing d with
  | nil => exact ⟨rfl, rfl⟩
  | cons w ws ih =>
    rw [List.map_cons, List.mem_cons, not_or] at h
    exact (spared_handOver now cap fun e => h.1 e.symm).trans (ih h.2)

/-- A question about one request and a sweep over others can be exchanged. -/
theorem handOverAll_ask (o : ConnectionId) (now : Millis) (cap : Nat)
    (h : id ∉ ws.map (·.id)) (n : Nat) :
    ((ask id)^[n] d).handOverAll o now cap ws =
      { d.handOverAll o now cap ws with
        engine := (ask id)^[n] (d.handOverAll o now cap ws).engine } := by
  induction n generalizing d with
  | zero => rfl
  | succ n ih =>
    have hone : (d.ask id).handOverAll o now cap ws =
        { d.handOverAll o now cap ws with
          engine := (d.handOverAll o now cap ws).engine.ask id } := by
      clear ih
      induction ws generalizing d with
      | nil => rfl
      | cons w ws ih =>
        rw [List.map_cons, List.mem_cons, not_or] at h
        simp only [handOverAll, handOver_ask now cap fun e => h.1 e.symm, ih h.2]
        rfl
    rw [Function.iterate_succ_apply, ih, hone, Function.iterate_succ_apply]

/-- A sweep with room for `a` fragments of each request, and then one with room for `b`. -/
theorem handOverAll_add (o : ConnectionId) (now : Millis) (a b : Nat)
    (hids : (ws.map (·.id)).Nodup) (d : Dispatcher) :
    let x := d.handOverAll o now a ws
    (x.andThen (x.engine.handOverAll o now b x.waiting)).Agrees
      (d.handOverAll o now (a + b) ws) := by
  induction ws generalizing d with
  | nil => exact ⟨rfl, rfl, rfl, fun _ => rfl⟩
  | cons w ws ih =>
    rw [List.map_cons, List.nodup_cons] at hids
    have hadd := d.handOver_add now a b w
    have hid : ∀ v, (d.handOver now a w).1.remaining = some v → v.id = w.id :=
      fun v => id_handOver now a
    simp only [handOverAll, hadd]
    generalize d.handOver now a w = first at hid ⊢
    obtain ⟨h, d₁⟩ := first
    cases hr : h.remaining with
    | none =>
      simpa [Handover.next, hr, Sweep.cons, Sweep.andThen] using (ih hids.2 d₁).cons o w h
    | some v =>
      have hv := hid v hr
      have hother : v.id ∉ ws.map (·.id) := hv ▸ hids.1
      -- the second turn finds as much of the request as there was before the others had theirs,
      -- and the others do as they would have done after it
      obtain ⟨n, hn, hsecond⟩ :=
        handOver_spared now now b v (spared_handOverAll (d := d₁) o now a hother)
      have hrest := ih hids.2 ((ask v.id)^[n] d₁)
      rw [handOverAll_ask o now a hother] at hrest
      have hturns := Sweep.agrees_turns o h (d₁.handOver now b v).1
        (((ask v.id)^[n] (d₁.handOverAll o now a ws).engine).handOverAll o now b
          (d₁.handOverAll o now a ws).waiting) hv (log_handOverAll o now a (d := d₁) hids.1)
      simpa [Handover.next, hr, Sweep.cons, handOverAll, hn, hsecond] using
        hturns.trans (hrest.cons o w _)

/-- What is unread of the others does not change with the hand-over of one request. -/
theorem unreadCount_rest {w : WaitingRequest} (now : Millis) (cap : Nat)
    (hid : w.id ∉ ws.map (·.id)) {n : Nat} (h : ∀ v ∈ w :: ws, d.unreadCount v.id < n) :
    ∀ v ∈ ws, (d.handOver now cap w).2.unreadCount v.id < n := by
  intro v hv
  have hne : w.id ≠ v.id := fun e => hid (e ▸ List.mem_map_of_mem hv)
  rw [unreadCount_spared (spared_handOver now cap hne)]
  exact h v (List.mem_cons_of_mem w hv)

/-- Room for more than there is of any request changes nothing. -/
theorem handOverAll_of_unread (o : ConnectionId) (now : Millis) {cap : Nat} (more : Nat)
    (hids : (ws.map (·.id)).Nodup) (hcap : ∀ w ∈ ws, d.unreadCount w.id < cap) :
    d.handOverAll o now (cap + more) ws = d.handOverAll o now cap ws := by
  induction ws generalizing d with
  | nil => rfl
  | cons w ws ih =>
    rw [List.map_cons, List.nodup_cons] at hids
    simp only [handOverAll, handOver_of_unreadCount_lt now more (hcap w List.mem_cons_self)]
    rw [ih hids.2 (unreadCount_rest now cap hids.1 hcap)]

/-- With room for more than there is, a sweep leaves requests of which there is nothing for
now. -/
theorem nothing_handOverAll (o : ConnectionId) (now : Millis) {cap : Nat}
    (hids : (ws.map (·.id)).Nodup) (hcap : ∀ w ∈ ws, d.unreadCount w.id < cap) :
    ∀ v ∈ (d.handOverAll o now cap ws).waiting,
      ((d.handOverAll o now cap ws).engine.nextFragment v.id).1 = .nothing := by
  induction ws generalizing d with
  | nil => exact fun v hv => absurd hv List.not_mem_nil
  | cons w ws ih =>
    rw [List.map_cons, List.nodup_cons] at hids
    intro v hv
    rcases List.mem_append.mp hv with hv | hv
    · have hr := Option.mem_toList.mp hv
      have hother : v.id ∉ ws.map (·.id) := by
        rw [id_handOver now cap hr]
        exact hids.1
      -- the others, which have their turn later, leave it as it is
      exact (spared_handOverAll o now cap hother).answer.trans
        (nothing_of_unreadCount_lt now (hcap w List.mem_cons_self) hr)
    · exact ih hids.2 (unreadCount_rest now cap hids.1 hcap) v hv

theorem handOverAll_now (o : ConnectionId) (now now' : Millis) (cap : Nat)
    (ws : List WaitingRequest) (d : Dispatcher) :
    d.handOverAll o now' cap ws = d.handOverAll o now cap ws := by
  induction ws generalizing d with
  | nil => rfl
  | cons w ws ih => simp only [handOverAll, d.handOver_now now now', ih]

theorem shares_handOverAll_le (o : ConnectionId) (now : Millis) (cap : Nat)
    (ws : List WaitingRequest) (d : Dispatcher) :
    ∀ n ∈ (d.handOverAll o now cap ws).shares, n ≤ cap := by
  induction ws generalizing d with
  | nil => exact fun n hn => absurd hn List.not_mem_nil
  | cons w ws ih =>
    intro n hn
    rcases List.mem_cons.mp hn with hn | hn
    · rw [hn]
      exact moved_handOver_le d now cap w
    · exact ih _ n hn

theorem handOverAll_zero (o : ConnectionId) (now : Millis) (ws : List WaitingRequest)
    (d : Dispatcher) :
    d.handOverAll o now 0 ws =
      { waiting := ws, log := [], shares := List.replicate ws.length 0, engine := d } := by
  induction ws with
  | nil => rfl
  | cons w ws ih =>
    simp only [handOverAll, handOver, ih]
    rfl

end Dispatcher

/-! ## Deliveries -/

namespace Client

/-- How many fragments of each request a delivery hands out. -/
def deliverShares (c : Client) (d : Dispatcher) (cap : Nat) (now : Millis) : List Nat :=
  journal (fun d w => (d.handOver now cap w).2) (fun d w => [(d.handOver now cap w).1.moved]) d
    c.waiting

/-- What a delivery does to the client and the engine, as a sweep over what the client waits
for. -/
theorem deliver_eq_handOverAll (c : Client) (d : Dispatcher) (o : ConnectionId) (cap : Nat)
    (now : Millis) :
    let x := d.handOverAll o now cap c.waiting
    c.deliver d cap now =
      (x.shares.sum, { c with waiting := x.waiting, outbox := (c.deliver d cap now).2.1.outbox },
        x.engine) := by
  intro x
  suffices key : ∀ (ws : List WaitingRequest) (s : Nat × Client × Dispatcher),
      ws.foldl (deliverStep cap now) s =
        (s.1 + (s.2.2.handOverAll o now cap ws).shares.sum,
          { s.2.1 with
            waiting := s.2.1.waiting ++ (s.2.2.handOverAll o now cap ws).waiting
            outbox := (ws.foldl (deliverStep cap now) s).2.1.outbox },
          (s.2.2.handOverAll o now cap ws).engine) by
    have hall := key c.waiting (0, { c with waiting := [] }, d)
    rw [← deliver_eq] at hall
    simpa using hall
  intro ws
  induction ws with
  | nil => intro s; simp [Dispatcher.handOverAll]
  | cons w ws ih =>
    intro s
    rw [List.foldl_cons, ih]
    simp [deliverStep, enqueue, Dispatcher.handOverAll, Sweep.cons, Nat.add_assoc]

/-- What is noted and counted of a delivery. -/
theorem deliverLog_eq_handOverAll (c : Client) (d : Dispatcher) (o : ConnectionId) (cap : Nat)
    (now : Millis) :
    c.deliverLog d o cap now = (d.handOverAll o now cap c.waiting).log ∧
      c.deliverShares d cap now = (d.handOverAll o now cap c.waiting).shares := by
  rw [deliverLog, deliverShares]
  induction c.waiting generalizing d with
  | nil => exact ⟨rfl, rfl⟩
  | cons w ws ih =>
    have hrest := ih (d.handOver now cap w).2
    rw [journal, journal, hrest.1, hrest.2]
    exact ⟨rfl, rfl⟩

end Client

/-- What has come of a number of deliveries. -/
structure Deliveries where
  client : Client
  engine : Dispatcher
  /-- The messages that were queued. -/
  log : List Observation
  /-- How many fragments each delivery counted. -/
  counts : List Nat
  /-- How many fragments of each request each delivery handed out. -/
  shares : List (List Nat)

/-- Delivers to a client at each of these times. -/
def Client.deliverAt (o : ConnectionId) (cap : Nat) :
    List Millis → Client → Dispatcher → Deliveries
  | [], c, d => { client := c, engine := d, log := [], counts := [], shares := [] }
  | now :: times, c, d =>
    let (n, c', d') := c.deliver d cap now
    let rest := deliverAt o cap times c' d'
    { rest with
      log := c.deliverLog d o cap now ++ rest.log
      counts := n :: rest.counts
      shares := c.deliverShares d cap now :: rest.shares }

/-- A number of deliveries, as one sweep. -/
def Deliveries.sweep (x : Deliveries) : Sweep where
  waiting := x.client.waiting
  log := x.log
  shares := x.shares.flatten
  engine := x.engine

namespace Client

/-- Deliveries with room for `m` fragments of each request come to the same as one sweep with as
much room as all of them together. -/
theorem sweep_deliverAt (o : ConnectionId) (now : Millis) (m : Nat) (times : List Millis)
    {c : Client} (hids : (c.waiting.map (·.id)).Nodup) (d : Dispatcher) :
    (deliverAt o m times c d).sweep.Agrees
      (d.handOverAll o now (times.length * m) c.waiting) := by
  induction times generalizing c d with
  | nil =>
    rw [List.length_nil, Nat.zero_mul, Dispatcher.handOverAll_zero]
    exact ⟨rfl, rfl, by simp [deliverAt, Deliveries.sweep], fun _ => rfl⟩
  | cons t times ih =>
    have hdeliver := c.deliver_eq_handOverAll d o m t
    obtain ⟨hlog, hshares⟩ := c.deliverLog_eq_handOverAll d o m t
    have hadd := d.handOverAll_add o now m (times.length * m) hids
    have hrest := hids.sublist (d.ids_handOverAll o now m c.waiting)
    rw [d.handOverAll_now o now t] at hdeliver hlog hshares
    generalize d.handOverAll o now m c.waiting = x at hdeliver hlog hshares hadd hrest
    have hwaiting : (c.deliver d m t).2.1.waiting = x.waiting :=
      congrArg (·.2.1.waiting) hdeliver
    have hengine : (c.deliver d m t).2.2 = x.engine := congrArg (·.2.2) hdeliver
    have hlater := ih (hwaiting ▸ hrest) (c.deliver d m t).2.2
    rw [hwaiting, hengine] at hlater
    rw [List.length_cons, Nat.succ_mul, Nat.add_comm]
    simp only [deliverAt, hlog, hshares, hengine]
    exact (hlater.andThen x).trans hadd

/-- Deliveries change nothing of a client but what it waits for and its outbox, and what is noted
of them is what they put into the outbox. -/
theorem client_deliverAt (o : ConnectionId) (m : Nat) (times : List Millis) (c : Client)
    (d : Dispatcher) :
    let x := deliverAt o m times c d
    x.client.link = c.link ∧ x.client.inbox = c.inbox ∧ x.client.outbox =
      c.outbox ++ (x.log.filterMap Observation.message?).flatMap WireMessage.encode := by
  induction times generalizing c d with
  | nil => simp [deliverAt]
  | cons t times ih =>
    obtain ⟨hlink, hinbox, houtbox⟩ := ih (c.deliver d m t).2.1 (c.deliver d m t).2.2
    have hdeliver := c.deliver_eq_handOverAll d o m t
    simp only [deliverAt, hlink, hinbox, houtbox]
    refine ⟨congrArg (·.2.1.link) hdeliver, congrArg (·.2.1.inbox) hdeliver, ?_⟩
    rw [outbox_deliver c d o m t, List.filterMap_append, List.flatMap_append, List.append_assoc]

/-- Each delivery counts what it hands out of all requests, and that is no more of each of them
than it has room for. -/
theorem counts_deliverAt (o : ConnectionId) (m : Nat) (times : List Millis) (c : Client)
    (d : Dispatcher) :
    (deliverAt o m times c d).counts = (deliverAt o m times c d).shares.map List.sum ∧
      ∀ shares ∈ (deliverAt o m times c d).shares, ∀ n ∈ shares, n ≤ m := by
  induction times generalizing c d with
  | nil => exact ⟨rfl, fun _ h => absurd h List.not_mem_nil⟩
  | cons t times ih =>
    obtain ⟨hcounts, hle⟩ := ih (c.deliver d m t).2.1 (c.deliver d m t).2.2
    have hdeliver := congrArg Prod.fst (c.deliver_eq_handOverAll d o m t)
    have hshares := (c.deliverLog_eq_handOverAll d o m t).2
    simp only [deliverAt]
    constructor
    · rw [hcounts, List.map_cons, hshares, hdeliver]
    · intro shares h
      rcases List.mem_cons.mp h with h | h
      · rw [h, hshares]
        exact Dispatcher.shares_handOverAll_le o t m c.waiting d
      · exact hle shares h

end Client

/-- The bound on the fragments of one delivery only paces it. Take a client of a gateway at any
moment, and let it be delivered to at a number of times, with room for `m` fragments of each
request, so that there is room in all for more than is unread of any request; or once, with that
much room.

Afterwards the client waits for the same requests, with the same text gathered, the engine is the
same, and there is nothing for now of the requests that are waited for. The same messages have
been queued about each request, in the same order, and they are what has been put into the
outbox; all else of the client is as it was. The counts of fragments add up to the same. Each of
the deliveries counts what it hands out of all requests, and hands out no more than `m` fragments
of any. -/
theorem fragment_cap_only_paces {settings : Settings} {firstId : Nat} {f : Frontend}
    (hf : (Frontend.create (Gateway.create settings) firstId).Reaches f) {o : ConnectionId}
    {c : Client} (hc : f.clients.find? o = some c) {m cap : Nat} (times : List Millis)
    (hslow : ∀ w ∈ c.waiting, f.gateway.dispatcher.unreadCount w.id < times.length * m)
    (hfast : ∀ w ∈ c.waiting, f.gateway.dispatcher.unreadCount w.id < cap) (now : Millis) :
    let slow := Client.deliverAt o m times c f.gateway.dispatcher
    let fast := Client.deliverAt o cap [now] c f.gateway.dispatcher
    slow.client.waiting = fast.client.waiting ∧ slow.engine = fast.engine ∧
      (∀ w ∈ slow.client.waiting, (slow.engine.nextFragment w.id).1 = .nothing) ∧
      (∀ id, slow.log.filter (·.id == id) = fast.log.filter (·.id == id)) ∧
      (∀ x ∈ [slow, fast], x.client.link = c.link ∧ x.client.inbox = c.inbox ∧
        x.client.outbox =
          c.outbox ++ (x.log.filterMap Observation.message?).flatMap WireMessage.encode) ∧
      slow.counts.sum = fast.counts.sum ∧ slow.counts = slow.shares.map List.sum ∧
      ∀ shares ∈ slow.shares, ∀ n ∈ shares, n ≤ m := by
  intro slow fast
  have hids : (c.waiting.map (·.id)).Nodup := by
    obtain ⟨events, rfl⟩ := hf
    have honce := (Frontend.held_run settings firstId events).once o
    rw [Frontend.exchange, Exchange.ids_tickets, Frontend.waitingIn_of_find? hc] at honce
    exact honce
  have hsame : f.gateway.dispatcher.handOverAll o now (times.length * m) c.waiting =
      f.gateway.dispatcher.handOverAll o now ([now].length * cap) c.waiting := by
    rw [← Dispatcher.handOverAll_of_unread o now cap hids hslow, Nat.add_comm,
      Dispatcher.handOverAll_of_unread o now _ hids hfast, List.length_singleton, Nat.one_mul]
  have hnothing := Dispatcher.nothing_handOverAll o now hids hslow
  have hslow := Client.sweep_deliverAt o now m times hids f.gateway.dispatcher
  have hfast := Client.sweep_deliverAt o now cap [now] hids f.gateway.dispatcher
  rw [← hsame] at hfast
  have hcounts := Client.counts_deliverAt o m times c f.gateway.dispatcher
  have hcount := Client.counts_deliverAt o cap [now] c f.gateway.dispatcher
  rw [← hslow.waiting, ← hslow.engine] at hnothing
  refine ⟨hslow.waiting.trans hfast.waiting.symm, hslow.engine.trans hfast.engine.symm, hnothing,
    fun id => (hslow.log id).trans (hfast.log id).symm, ?_, ?_, hcounts⟩
  · intro x hx
    rcases List.mem_pair.mp hx with hx | hx
    · rw [hx]
      exact Client.client_deliverAt o m times c _
    · rw [hx]
      exact Client.client_deliverAt o cap [now] c _
  · rw [hcounts.1, hcount.1, ← List.sum_flatten, ← List.sum_flatten]
    exact hslow.moved.trans hfast.moved.symm

/-- A client asks for `p`, to be streamed, and for `q`, in one piece. Both are answered, and only
`p` in full. -/
def twoAnswers : List Event :=
  let ask : Link :=
    { Link.fresh with
      inbound := Bytes.ofString "\x7b\"type\":\"request\",\"id\":\"p\",\"stream\":true\x7d\n" ++
        Bytes.ofString "\x7b\"type\":\"request\",\"id\":\"q\",\"stream\":false\x7d\n" }
  [.accept ask, .receive 3 { now := 0, newId := fun _ => "" },
    .backend (.hear 1 0 "\x7b\"type\":\"response\",\"id\":\"p\",\"token\":\"a\"\x7d"),
    .backend (.hear 2 0 "\x7b\"type\":\"response\",\"id\":\"q\",\"token\":\"c\"\x7d"),
    .backend (.hear 3 0
      "\x7b\"type\":\"response\",\"id\":\"p\",\"token\":\"b\",\"finished\":true\x7d")]

set_option maxRecDepth 100000 in
/-- Three deliveries of one fragment each come to the same as a single one, though the first two
leave `p` waiting for its end. -/
theorem fragment_cap_only_paces_two_answers :
    let f := (Frontend.create (Gateway.create {}) 3).run twoAnswers
    let d := f.gateway.dispatcher
    ∃ c, f.clients.find? 3 = some c ∧ (∀ w ∈ c.waiting, d.unreadCount w.id < 3 * 1) ∧
      (∀ w ∈ c.waiting, d.unreadCount w.id < 9) ∧
      (Client.deliverAt 3 1 [4, 5] c d).client.waiting.map (·.id) = ["p", "q"] ∧
      (Client.deliverAt 3 9 [7] c d).client.waiting =
        [{ id := "q", stream := false, gathered := "c" }] ∧
      (Client.deliverAt 3 1 [4, 5, 6] c d).client.waiting =
        (Client.deliverAt 3 9 [7] c d).client.waiting ∧
      (Client.deliverAt 3 1 [4, 5, 6] c d).engine = (Client.deliverAt 3 9 [7] c d).engine := by
  intro f d
  have hf : (Frontend.create (Gateway.create {}) 3).Reaches f := ⟨twoAnswers, rfl⟩
  have hc : f.clients.find? 3 = some ((f.clients.find? 3).get (by decide +kernel)) :=
    Option.some_get _ |>.symm
  generalize hwaiting : (f.clients.find? 3).get (by decide +kernel) = c at hc
  have hslow : ∀ w ∈ c.waiting, d.unreadCount w.id < 3 * 1 := by
    rw [← hwaiting]
    decide +kernel
  have hfast : ∀ w ∈ c.waiting, d.unreadCount w.id < 9 :=
    fun w hw => Nat.lt_of_lt_of_le (hslow w hw) (by decide)
  have hpaces := fragment_cap_only_paces hf hc [4, 5, 6] hslow hfast 7
  have hdelivered : (Client.deliverAt 3 1 [4, 5] c d).client.waiting.map (·.id) = ["p", "q"] ∧
      (Client.deliverAt 3 9 [7] c d).client.waiting =
        [{ id := "q", stream := false, gathered := "c" }] := by
    rw [← hwaiting]
    decide +kernel
  exact ⟨c, hc, hslow, hfast, hdelivered.1, hdelivered.2, hpaces.1, hpaces.2.1⟩

end PromptGateway
