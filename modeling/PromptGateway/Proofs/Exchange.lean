import PromptGateway.Client
import PromptGateway.Proofs.Calls
import Mathlib.Logic.Function.Basic

/-
  The exchange between the dispatch engine and the clients, in its smallest steps.

  Of the clients only the lists of what they wait for take part. A step is one call of
  the engine together with what the client makes of the answer: a request that is
  admitted is waited for, a fragment is written out or gathered, an answer that has
  ended is waited for no longer. With each step goes what a bystander can note of it,
  at most one `Observation`.

  Reading, delivering and leaving are made of such steps (`steps_receive`,
  `steps_deliver`, `Step.leave`), so what every step keeps, a run of the gateway keeps,
  also in the middle of a delivery.
-/

namespace PromptGateway

/-- What a bystander can note while a gateway runs. -/
inductive Observation where
  /-- A request has been admitted for a client. -/
  | admitted (owner : ConnectionId) (id : RequestId) (stream : Bool)
  /-- A response has been taken in for a request. -/
  | ingested (id : RequestId) (fragment : Option String) (finished : Bool)
  /-- A message about a request has been queued for a client. -/
  | queued (owner : ConnectionId) (id : RequestId) (message : WireMessage)
  deriving DecidableEq

/-- The engine, and what each client waits for. -/
structure Exchange where
  engine : Dispatcher
  waiting : ConnectionId → List WaitingRequest

/-- What is noted while a list of inputs is worked off. -/
def journal {σ ε ω : Type} (step : σ → ε → σ) (note : σ → ε → List ω) : σ → List ε → List ω
  | _, [] => []
  | s, e :: es => note s e ++ journal step note (step s e) es

theorem journal_append {σ ε ω : Type} (step : σ → ε → σ) (note : σ → ε → List ω) (s : σ)
    (es more : List ε) :
    journal step note s (es ++ more) =
      journal step note s es ++ journal step note (es.foldl step s) more := by
  induction es generalizing s with
  | nil => rfl
  | cons e es ih => rw [List.cons_append, journal, journal, ih, List.append_assoc, List.foldl_cons]

/-- Wherever what is noted is cut off, there is an input at which it is cut off. -/
theorem journal_split {σ ε ω : Type} {step : σ → ε → σ} {note : σ → ε → List ω} {s : σ}
    {es : List ε} {front back : List ω} (h : journal step note s es = front ++ back) :
    (front = journal step note s es ∧ back = []) ∨
      ∃ early e late n m, es = early ++ e :: late ∧ note (early.foldl step s) e = n ++ m ∧ m ≠ [] ∧
        front = journal step note s early ++ n ∧ m <+: back := by
  induction es generalizing s front with
  | nil =>
    obtain ⟨hfront, hback⟩ := List.append_eq_nil_iff.mp h.symm
    exact .inl ⟨hfront, hback⟩
  | cons e es ih =>
    have later : ∀ rest, front = note s e ++ rest → journal step note (step s e) es = rest ++ back →
        (front = journal step note s (e :: es) ∧ back = []) ∨
          ∃ early e' late n m, e :: es = early ++ e' :: late ∧
            note (early.foldl step s) e' = n ++ m ∧ m ≠ [] ∧
            front = journal step note s early ++ n ∧ m <+: back := by
      intro rest hfront hrest
      rcases ih hrest with ⟨hall, hnil⟩ | ⟨early, e', late, n, m, hes, hm, hne, hfront', hback⟩
      · exact .inl ⟨by rw [hfront, hall, journal], hnil⟩
      · refine .inr ⟨e :: early, e', late, n, m, by rw [hes]; rfl, hm, hne, ?_, hback⟩
        rw [hfront, hfront', journal, List.append_assoc]
    rw [journal] at h
    rcases List.append_eq_append_iff.mp h with ⟨rest, hfront, hrest⟩ | ⟨rest, hnote, hback⟩
    · exact later rest hfront hrest
    · cases rest with
      | nil =>
        rw [List.append_nil] at hnote
        exact later [] (by rw [hnote, List.append_nil]) hback.symm
      | cons x rest =>
        exact .inr ⟨[], e, es, front, x :: rest, rfl, hnote, List.cons_ne_nil _ _, rfl,
          ⟨journal step note (step s e) es, hback.symm⟩⟩

/-- What is noted of a line of a worker: a response that was taken in. -/
def Observation.ofLine : Except DecodeError WireMessage → IngestOutcome → List Observation
  | .ok (.response r), .appended id => [ingested id r.fragment? false]
  | .ok (.response r), .finished id => [ingested id r.fragment? true]
  | _, _ => []

/-- What is noted of a call from the side of the workers. -/
def Dispatcher.noted (d : Dispatcher) : BackendCall → List Observation
  | .hear now worker line =>
    Observation.ofLine (WireMessage.decode line) (d.ingest now worker line).1
  | .assign _ | .failWorker _ _ | .sweep _ _ _ | .pool _ => []

namespace Exchange

open Function (update)

/-- The engine after a client has left. -/
def left (d : Dispatcher) (owner : ConnectionId) (now : Millis) (waiting : List WaitingRequest) :
    Dispatcher :=
  waiting.foldl (fun d w => d.clearStream w.id) (d.cancelConnection owner now).2

/-- One step of the exchange, and what is noted of it. -/
inductive Step : Exchange → List Observation → Exchange → Prop where
  | backend {d ws} (call : BackendCall) : Step ⟨d, ws⟩ (d.noted call) ⟨d.applyBackend call, ws⟩
  | admitted {d ws m r o record d'} : d.admitRequest m r o = .ok (record, d') →
      Step ⟨d, ws⟩ [.admitted o record.id record.payload.stream]
        ⟨d', update ws o (ws o ++ [{ id := record.id, stream := record.payload.stream }])⟩
  | fragment {d ws o before w after f d'} : ws o = before ++ w :: after →
      d.nextFragment w.id = (.fragment f, d') →
      Step ⟨d, ws⟩ ((w.reply f).map (.queued o w.id))
        ⟨d', update ws o (before ++ w.gather f :: after)⟩
  | finish {d ws o before w after d'} (now : Millis) : ws o = before ++ w :: after →
      d.nextFragment w.id = (.finished, d') →
      Step ⟨d, ws⟩ [.queued o w.id w.ending]
        ⟨d'.finishDelivery w.id now, update ws o (before ++ after)⟩
  | fail {d ws o before w after reason d'} : ws o = before ++ w :: after →
      d.nextFragment w.id = (.failed reason, d') →
      Step ⟨d, ws⟩ [.queued o w.id (.failure w.id reason)] ⟨d', update ws o (before ++ after)⟩
  | leave {d ws} (o : ConnectionId) (now : Millis) :
      Step ⟨d, ws⟩ [] ⟨left d o now (ws o), update ws o []⟩

/-- Any number of steps, and what is noted of them. -/
inductive Steps (x : Exchange) : List Observation → Exchange → Prop where
  | refl : Steps x [] x
  | snoc {l y m z} : Steps x l y → Step y m z → Steps x (l ++ m) z

theorem Steps.trans {x y z : Exchange} {l m : List Observation} (h : Steps x l y)
    (h' : Steps y m z) : Steps x (l ++ m) z := by
  induction h' with
  | refl => rwa [List.append_nil]
  | snoc _ step ih =>
    rw [← List.append_assoc]
    exact ih.snoc step

theorem Step.steps {x y : Exchange} {l : List Observation} (h : Step x l y) : Steps x l y :=
  Steps.refl.snoc h

theorem Steps.induction {x y : Exchange} {l : List Observation} {P : Exchange → Prop}
    (step : ∀ y m z, P y → Step y m z → P z) (h : Steps x l y) (hx : P x) : P y := by
  induction h with
  | refl => exact hx
  | snoc _ hs ih => exact step _ _ _ ih hs

theorem length_noted_le (d : Dispatcher) (call : BackendCall) : (d.noted call).length ≤ 1 := by
  cases call with
  | hear now worker line =>
    simp only [Dispatcher.noted]
    unfold Observation.ofLine
    split
    · exact Nat.le_refl _
    · exact Nat.le_refl _
    · exact Nat.zero_le _
  | assign _ => exact Nat.zero_le _
  | failWorker _ _ => exact Nat.zero_le _
  | sweep _ _ _ => exact Nat.zero_le _
  | pool _ => exact Nat.zero_le _

theorem Step.length_le {x y : Exchange} {l : List Observation} (h : Step x l y) :
    l.length ≤ 1 := by
  cases h with
  | backend call => exact length_noted_le _ call
  | fragment _ _ =>
    rw [List.length_map, WaitingRequest.reply]
    split <;> simp
  | admitted _ => exact Nat.le_refl _
  | finish _ _ _ => exact Nat.le_refl _
  | fail _ _ => exact Nat.le_refl _
  | leave _ _ => exact Nat.zero_le _

/-- Whatever has been noted at some moment, the exchange has been in a state in which
just that had been noted. -/
theorem Steps.cut {x y : Exchange} {l seen : List Observation} (h : Steps x l y)
    (hseen : seen <+: l) : ∃ z, Steps x seen z := by
  induction h with
  | refl => exact ⟨x, List.prefix_nil.mp hseen ▸ .refl⟩
  | @snoc l y m z hl hs ih =>
    have hm := hs.length_le
    match m, hs, hm with
    | [], hs, _ => exact ih (by simpa using hseen)
    | [e], hs, _ =>
      rcases List.prefix_concat_iff.mp hseen with rfl | hpre
      · exact ⟨z, hl.snoc hs⟩
      · exact ih hpre

/-! ## Delivering -/

theorem steps_handOver (now : Millis) (o : ConnectionId) (before after : List WaitingRequest)
    (cap : Nat) (w : WaitingRequest) (d : Dispatcher) (ws : ConnectionId → List WaitingRequest)
    (hw : ws o = before ++ w :: after) :
    Steps ⟨d, ws⟩ ((d.handOver now cap w).1.messages.map (.queued o w.id))
      ⟨(d.handOver now cap w).2,
        update ws o (before ++ (d.handOver now cap w).1.remaining.toList ++ after)⟩ := by
  have stay : update ws o (before ++ w :: after) = ws := by rw [← hw, Function.update_eq_self]
  induction cap generalizing w d ws with
  | zero => simpa [Dispatcher.handOver, stay] using Steps.refl
  | succ cap ih =>
    simp only [Dispatcher.handOver]
    rcases hn : d.nextFragment w.id with ⟨answer, d₁⟩
    cases answer with
    | fragment f =>
      have hstep := (Step.fragment hw hn).steps
      have hrest := ih (w.gather f) d₁ (update ws o (before ++ w.gather f :: after))
        (Function.update_self ..) (by rw [Function.update_idem])
      rw [w.id_gather, Function.update_idem] at hrest
      simpa using hstep.trans hrest
    | finished => simpa using (Step.finish now hw hn).steps
    | failed reason => simpa using (Step.fail hw hn).steps
    | nothing =>
      -- an answer that has nothing new leaves the engine as it is
      have hdraws := d.draws_nextFragment w.id
      rw [hn] at hdraws
      obtain rfl : d₁ = d := hdraws.eq_of_nothing
      simpa [stay] using Steps.refl

end Exchange

/-! ## The calls of a client -/

/-- What every answer and every closing out of a request keeps, its hand-over keeps. -/
theorem Dispatcher.handOver_induction {P : Dispatcher → Prop} {id : RequestId}
    (drawn : ∀ d, P d → P (d.nextFragment id).2)
    (finished : ∀ d now, P d → P (d.finishDelivery id now)) (now : Millis) (cap : Nat)
    {w : WaitingRequest} (hid : w.id = id) {d : Dispatcher} (h : P d) :
    P (d.handOver now cap w).2 := by
  induction cap generalizing w d with
  | zero => exact h
  | succ cap ih =>
    have hdrawn := drawn d h
    simp only [handOver, hid]
    rcases hn : d.nextFragment id with ⟨answer, d'⟩
    rw [hn] at hdrawn
    cases answer with
    | fragment f => exact ih ((w.id_gather f).trans hid) hdrawn
    | finished => exact finished _ _ hdrawn
    | failed reason => exact hdrawn
    | nothing => exact hdrawn

theorem Client.deliver_induction {P : Dispatcher → Prop} (c : Client)
    (drawn : ∀ w ∈ c.waiting, ∀ d, P d → P (d.nextFragment w.id).2)
    (finished : ∀ w ∈ c.waiting, ∀ d now, P d → P (d.finishDelivery w.id now)) (cap : Nat)
    (now : Millis) {d : Dispatcher} (h : P d) : P (c.deliver d cap now).2.2 := by
  refine List.foldlRecOn c.waiting _
    (motive := fun s : Nat × Client × Dispatcher => P s.2.2) h ?_
  exact fun s hs w hw =>
    Dispatcher.handOver_induction (drawn w hw) (finished w hw) now cap rfl hs

/-- What every admission keeps, to read from a client keeps. -/
theorem Client.receive_induction {P : List WaitingRequest → Dispatcher → Prop}
    (admitted : ∀ ws d m r o record d', P ws d → d.admitRequest m r o = .ok (record, d') →
      P (ws ++ [{ id := record.id, stream := record.payload.stream }]) d')
    (c : Client) (m : Moment) (owner : ConnectionId) {d : Dispatcher} (h : P c.waiting d) :
    P (c.receive d m owner).2.1.waiting (c.receive d m owner).2.2 := by
  unfold receive
  rcases c.link.readAll with ⟨bytes, ended, link⟩
  cases ended with
  | true => exact h
  | false =>
    refine List.foldlRecOn _ _ (motive := fun s : Client × Dispatcher => P s.1.waiting s.2) h ?_
    rintro ⟨c, d⟩ hd (e | message) -
    · exact hd
    · cases message with
      | request r =>
        simp only [takeEntry, takeMessage]
        split
        · next ha => exact admitted c.waiting d m r owner _ _ hd ha
        · exact hd
      | task _ => exact hd
      | response _ => exact hd
      | error _ => exact hd
      | heartbeat => exact hd
      | status _ => exact hd

/-! ## What is noted of a client -/

namespace Client

/-- What is noted of one entry of a client: a request that was admitted. -/
def admissions (m : Moment) (owner : ConnectionId) (s : Client × Dispatcher) :
    Except DecodeError WireMessage → List Observation
  | .ok (.request r) =>
    match s.2.admitRequest m r owner with
    | .ok (record, _) => [.admitted owner record.id record.payload.stream]
    | .error _ => []
  | _ => []

/-- What is noted of everything that is read from a client at once. -/
def receiveLog (c : Client) (d : Dispatcher) (m : Moment) (owner : ConnectionId) :
    List Observation :=
  let (bytes, ended, link) := c.link.readAll
  let c := { c with link := link, inbox := c.inbox ++ bytes }
  if ended then []
  else
    let (entries, rest) := Frame.drainMessages c.inbox
    journal (takeEntry m owner) (admissions m owner) ({ c with inbox := rest }, d) entries

/-- What is noted of a delivery: the messages that are queued, request by request. -/
def deliverLog (c : Client) (d : Dispatcher) (owner : ConnectionId) (cap : Nat) (now : Millis) :
    List Observation :=
  journal (fun d w => (d.handOver now cap w).2)
    (fun d w => (d.handOver now cap w).1.messages.map (.queued owner w.id)) d c.waiting

/-- What a delivery does for one request. -/
def deliverStep (cap : Nat) (now : Millis) (s : Nat × Client × Dispatcher) (w : WaitingRequest) :
    Nat × Client × Dispatcher :=
  let (h, d) := s.2.2.handOver now cap w
  (s.1 + h.moved,
    { s.2.1.enqueue h.messages with waiting := s.2.1.waiting ++ h.remaining.toList }, d)

theorem deliver_eq (c : Client) (d : Dispatcher) (cap : Nat) (now : Millis) :
    c.deliver d cap now = c.waiting.foldl (deliverStep cap now) (0, { c with waiting := [] }, d) :=
  rfl

end Client

/-- The message of an observation, if it is one. -/
def Observation.message? : Observation → Option WireMessage
  | queued _ _ message => some message
  | admitted _ _ _ | ingested _ _ _ => none

/-- What is noted as queued in a delivery is what the delivery puts into the outbox. -/
theorem Client.outbox_deliver (c : Client) (d : Dispatcher) (o : ConnectionId) (cap : Nat)
    (now : Millis) :
    (c.deliver d cap now).2.1.outbox =
      c.outbox ++ ((c.deliverLog d o cap now).filterMap Observation.message?).flatMap
        WireMessage.encode := by
  have messages : ∀ (id : RequestId) (ms : List WireMessage),
      (ms.map (Observation.queued o id)).filterMap Observation.message? = ms := by
    intro id ms
    rw [List.filterMap_map]
    exact List.filterMap_some
  rw [deliver_eq, deliverLog]
  suffices key : ∀ (ws : List WaitingRequest) (s : Nat × Client × Dispatcher),
      (ws.foldl (deliverStep cap now) s).2.1.outbox =
        s.2.1.outbox ++ ((journal (fun d w => (d.handOver now cap w).2)
          (fun d w => (d.handOver now cap w).1.messages.map (Observation.queued o w.id)) s.2.2
            ws).filterMap Observation.message?).flatMap WireMessage.encode from
    key c.waiting (0, { c with waiting := [] }, d)
  intro ws
  induction ws with
  | nil => intro s; simp [journal]
  | cons w ws ih =>
    intro s
    rw [List.foldl_cons, ih, journal, List.filterMap_append, List.flatMap_append, messages]
    simp [deliverStep, enqueue]

namespace Exchange

open Function (update)

theorem steps_deliver {c : Client} {d : Dispatcher} {ws : ConnectionId → List WaitingRequest}
    {o : ConnectionId} (hws : ws o = c.waiting) (cap : Nat) (now : Millis) :
    Steps ⟨d, ws⟩ (c.deliverLog d o cap now)
      ⟨(c.deliver d cap now).2.2, update ws o (c.deliver d cap now).2.1.waiting⟩ := by
  rw [Client.deliver_eq, Client.deliverLog]
  -- what the client keeps so far stands before what has not had its turn
  suffices key : ∀ (rest : List WaitingRequest) (s : Nat × Client × Dispatcher)
      (ws : ConnectionId → List WaitingRequest), ws o = s.2.1.waiting ++ rest →
      Steps ⟨s.2.2, ws⟩ (journal (fun d w => (d.handOver now cap w).2)
          (fun d w => (d.handOver now cap w).1.messages.map (Observation.queued o w.id)) s.2.2
            rest)
        ⟨(rest.foldl (Client.deliverStep cap now) s).2.2,
          update ws o (rest.foldl (Client.deliverStep cap now) s).2.1.waiting⟩ from
    key c.waiting (0, { c with waiting := [] }, d) ws hws
  intro rest
  induction rest with
  | nil =>
    intro s ws hws
    have hstay : update ws o s.2.1.waiting = ws := by
      rw [List.append_nil] at hws
      rw [← hws, Function.update_eq_self]
    simpa [journal, hstay] using Steps.refl
  | cons w rest ih =>
    intro s ws hws
    have hhand := steps_handOver now o s.2.1.waiting rest cap w s.2.2 ws hws
    have hrest := ih (Client.deliverStep cap now s w)
      (update ws o ((Client.deliverStep cap now s w).2.1.waiting ++ rest)) (Function.update_self ..)
    rw [Function.update_idem] at hrest
    exact hhand.trans hrest

/-- To take in one entry of a client is to take at most one step. -/
theorem steps_takeEntry (m : Moment) {o : ConnectionId} {s : Client × Dispatcher}
    {ws : ConnectionId → List WaitingRequest} (hws : ws o = s.1.waiting)
    (e : Except DecodeError WireMessage) :
    Steps ⟨s.2, ws⟩ (Client.admissions m o s e)
      ⟨(Client.takeEntry m o s e).2, update ws o (Client.takeEntry m o s e).1.waiting⟩ := by
  have hstay : update ws o s.1.waiting = ws := by rw [← hws, Function.update_eq_self]
  -- a reply changes the outbox and nothing else
  have hreply : ∀ ms, Steps ⟨s.2, ws⟩ [] ⟨s.2, update ws o (s.1.enqueue ms).waiting⟩ := by
    intro ms
    change Steps ⟨s.2, ws⟩ [] ⟨s.2, update ws o s.1.waiting⟩
    rw [hstay]
    exact .refl
  cases e with
  | error e => exact hreply _
  | ok message =>
    cases message with
    | request r =>
      simp only [Client.takeEntry, Client.takeMessage, Client.admissions]
      cases ha : s.2.admitRequest m r o with
      | error e => exact hreply _
      | ok x =>
        obtain ⟨record, d'⟩ := x
        simpa [← hws] using (Step.admitted ha).steps
    | task _ => exact hreply _
    | response _ => exact hreply _
    | error _ => exact hreply _
    | heartbeat => exact hreply _
    | status _ => exact hreply _

theorem steps_receive {c : Client} {d : Dispatcher} {ws : ConnectionId → List WaitingRequest}
    {o : ConnectionId} (hws : ws o = c.waiting) (m : Moment) :
    Steps ⟨d, ws⟩ (c.receiveLog d m o)
      ⟨(c.receive d m o).2.2, update ws o (c.receive d m o).2.1.waiting⟩ := by
  have key : ∀ (es : List (Except DecodeError WireMessage)) (s : Client × Dispatcher)
      (ws : ConnectionId → List WaitingRequest), ws o = s.1.waiting →
      Steps ⟨s.2, ws⟩ (journal (Client.takeEntry m o) (Client.admissions m o) s es)
        ⟨(es.foldl (Client.takeEntry m o) s).2,
          update ws o (es.foldl (Client.takeEntry m o) s).1.waiting⟩ := by
    intro es
    induction es with
    | nil =>
      intro s ws hws
      have hstay : update ws o s.1.waiting = ws := by rw [← hws, Function.update_eq_self]
      simpa [journal, hstay] using Steps.refl
    | cons e es ih =>
      intro s ws hws
      have hrest := ih (Client.takeEntry m o s e)
        (update ws o (Client.takeEntry m o s e).1.waiting) (Function.update_self ..)
      rw [Function.update_idem] at hrest
      exact (steps_takeEntry m hws e).trans hrest
  unfold Client.receiveLog Client.receive
  rcases c.link.readAll with ⟨bytes, ended, link⟩
  cases ended with
  | true =>
    have hstay : update ws o c.waiting = ws := by rw [← hws, Function.update_eq_self]
    simpa [hstay] using Steps.refl
  | false =>
    have := key (Frame.drainMessages (c.inbox ++ bytes)).1
      ({ c with link := link, inbox := (Frame.drainMessages (c.inbox ++ bytes)).2 }, d) ws hws
    simpa only [Bool.false_eq_true, if_false] using this

end Exchange

end PromptGateway
