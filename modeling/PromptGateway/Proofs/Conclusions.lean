import Mathlib.Data.List.Induction
import PromptGateway.Proofs.Exchange
import PromptGateway.Proofs.Lifecycle

/-
  How answers are brought to a conclusion.

  A client is sent the end of an answer when the stream has ended and everything in it has
  been handed out, and then the record goes. That the stream has ended says that the end of
  the answer was taken in; it does not say that the task had been given to a worker.

    1. A delivery is made of dealings (`Client.dealt_closings`), and each end of an answer
       that it sends comes of one of them, at which the answer had ended
       (`Client.closing_of_end`). Nothing else that is written to a client ends an answer
       (`Client.endsNothing_receive`).
    2. `Concluded` has the two ways in which an answer can have ended. In the one the task
       was given to the worker that its record names, and the record can move to completed. In
       the other it still waits, and it waited when the end was taken in.
    3. `records_end_lawfully` puts this together with the lawfulness of runs, and
       `early_answer_closes_waiting` is a run that goes the other way.
-/

namespace PromptGateway

/-- A message that ends the answer to a request. -/
def WireMessage.Ends (m : WireMessage) (id : RequestId) : Prop :=
  m = .streamEnd id ∨ ∃ text, m = .fullResult id text

/-- A fragment does not end an answer. -/
theorem WaitingRequest.not_ends_of_mem_reply {w : WaitingRequest} {fragment : String}
    {m : WireMessage} (hm : m ∈ w.reply fragment) (id : RequestId) : ¬ m.Ends id := by
  unfold reply at hm
  split at hm
  · obtain rfl := List.mem_singleton.mp hm
    simp [WireMessage.Ends, WireMessage.token, WireMessage.streamEnd, WireMessage.fullResult]
  · cases hm

theorem WaitingRequest.eq_id_of_ends {w : WaitingRequest} {id : RequestId}
    (h : w.ending.Ends id) : id = w.id := by
  unfold ending at h
  split at h
  · simpa [WireMessage.Ends, WireMessage.streamEnd, WireMessage.fullResult, eq_comm] using h
  · simpa [WireMessage.Ends, WireMessage.streamEnd, WireMessage.fullResult, eq_comm] using h

namespace Dispatcher

/-! ## Deliveries as dealings -/

theorem dealt_append (d : Dispatcher) (dealings more : List Dealing) :
    d.dealt (dealings ++ more) = (d.dealt dealings).dealt more :=
  List.foldl_append

/-- The dealings that a hand-over is made of. -/
def closings (now : Millis) : Nat → RequestId → Dispatcher → List Dealing
  | 0, _, _ => []
  | cap + 1, id, d =>
    .close id now ::
      match d.nextFragment id with
      | (.fragment _, d) => closings now cap id d
      | _ => []

theorem deal_close_eq {d d' : Dispatcher} {id : RequestId} {answer : Drain}
    (hn : d.nextFragment id = (answer, d')) (now : Millis) :
    d.deal (.close id now) = if answer = .finished then d'.finishDelivery id now else d' := by
  rw [deal, hn]

theorem dealt_closings (now : Millis) (cap : Nat) (w : WaitingRequest) (d : Dispatcher) :
    d.dealt (closings now cap w.id d) = (d.handOver now cap w).2 := by
  induction cap generalizing w d with
  | zero => rfl
  | succ cap ih =>
    have hdealt : ∀ dealings, d.dealt (.close w.id now :: dealings) =
        (d.deal (.close w.id now)).dealt dealings := fun _ => rfl
    rcases hn : d.nextFragment w.id with ⟨answer, d'⟩
    rw [closings, handOver, hn, hdealt, deal_close_eq hn]
    cases answer with
    | fragment f =>
      have hrest := ih (w.gather f) d'
      rw [w.id_gather] at hrest
      exact hrest
    | finished => rfl
    | failed reason => rfl
    | nothing => rfl

/-- The end of an answer is sent when the answer has ended. -/
theorem closing_of_end {now : Millis} {cap : Nat} {w : WaitingRequest} {d : Dispatcher}
    {m : WireMessage} {id : RequestId} (hm : m ∈ (d.handOver now cap w).1.messages)
    (hend : m.Ends id) :
    id = w.id ∧ ∃ early late, closings now cap w.id d = early ++ .close w.id now :: late ∧
      ((d.dealt early).nextFragment w.id).1 = .finished := by
  induction cap generalizing w d with
  | zero => cases hm
  | succ cap ih =>
    rcases hn : d.nextFragment w.id with ⟨answer, d'⟩
    rw [handOver, hn] at hm
    rw [closings, hn]
    cases answer with
    | fragment f =>
      rcases List.mem_append.mp hm with hm | hm
      · exact absurd hend (WaitingRequest.not_ends_of_mem_reply hm id)
      · obtain ⟨hid, early, late, he, hfin⟩ := ih hm
        rw [w.id_gather] at hid he hfin
        have hdealt : d.dealt (.close w.id now :: early) = d'.dealt early := by
          show (d.deal (.close w.id now)).dealt early = d'.dealt early
          rw [deal_close_eq hn]
          rfl
        refine ⟨hid, .close w.id now :: early, late, ?_, ?_⟩
        · rw [List.cons_append, ← he]
        · rw [hdealt]
          exact hfin
    | finished =>
      obtain rfl := List.mem_singleton.mp hm
      refine ⟨w.eq_id_of_ends hend, [], [], rfl, ?_⟩
      show (d.nextFragment w.id).1 = .finished
      rw [hn]
    | failed reason =>
      obtain rfl := List.mem_singleton.mp hm
      rcases hend with he | ⟨text, he⟩
      · cases he
      · cases he
    | nothing => cases hm

end Dispatcher

namespace Client

/-- The dealings that a delivery is made of. -/
def closings (c : Client) (d : Dispatcher) (cap : Nat) (now : Millis) : List Dealing :=
  journal (fun d w => (d.handOver now cap w).2) (fun d w => Dispatcher.closings now cap w.id d) d
    c.waiting

theorem dealt_closings (c : Client) (d : Dispatcher) (cap : Nat) (now : Millis) :
    d.dealt (c.closings d cap now) = (c.deliver d cap now).2.2 := by
  rw [deliver_eq, closings]
  suffices key : ∀ (ws : List WaitingRequest) (s : Nat × Client × Dispatcher),
      s.2.2.dealt (journal (fun d w => (d.handOver now cap w).2)
        (fun d w => Dispatcher.closings now cap w.id d) s.2.2 ws) =
          (ws.foldl (deliverStep cap now) s).2.2 from
    key c.waiting (0, { c with waiting := [] }, d)
  intro ws
  induction ws with
  | nil => exact fun _ => rfl
  | cons w ws ih =>
    intro s
    rw [journal, Dispatcher.dealt_append, Dispatcher.dealt_closings]
    exact ih (deliverStep cap now s w)

/-- Each end of an answer that a delivery queues comes of one of its dealings, and the answer
had ended there. -/
theorem closing_of_end {c : Client} {d : Dispatcher} {o : ConnectionId} {cap : Nat}
    {now : Millis} {owner : ConnectionId} {i id : RequestId} {m : WireMessage}
    (hm : .queued owner i m ∈ c.deliverLog d o cap now) (hend : m.Ends id) :
    ∃ early late, c.closings d cap now = early ++ .close id now :: late ∧
      ((d.dealt early).nextFragment id).1 = .finished := by
  unfold deliverLog at hm
  unfold closings
  generalize c.waiting = ws at hm ⊢
  induction ws generalizing d with
  | nil => cases hm
  | cons w ws ih =>
    rw [journal] at hm
    rw [journal]
    rcases List.mem_append.mp hm with hm | hm
    · obtain ⟨m', hm', he⟩ := List.mem_map.mp hm
      cases he
      obtain ⟨hid, early, late, he, hfin⟩ := Dispatcher.closing_of_end hm' hend
      subst hid
      exact ⟨early, _, by rw [he, List.append_assoc]; rfl, hfin⟩
    · obtain ⟨early, late, he, hfin⟩ := ih hm
      refine ⟨Dispatcher.closings now cap w.id d ++ early, late, by rw [he, List.append_assoc], ?_⟩
      rw [Dispatcher.dealt_append, Dispatcher.dealt_closings]
      exact hfin

/-- What has been written to a client since ends no answer. -/
def EndsNothing (c c' : Client) : Prop :=
  ∃ replies : List WireMessage, c'.outbox = c.outbox ++ replies.flatMap WireMessage.encode ∧
    ∀ reply ∈ replies, ∀ id, ¬ reply.Ends id

theorem EndsNothing.of_eq {c c' : Client} (h : c'.outbox = c.outbox) : EndsNothing c c' :=
  ⟨[], by simp [h], nofun⟩

theorem EndsNothing.enqueue {c c' : Client} (h : EndsNothing c c') {reply : WireMessage}
    (hkind : ∀ r, reply ≠ .response r) : EndsNothing c (c'.enqueue [reply]) := by
  obtain ⟨replies, he, hends⟩ := h
  refine ⟨replies ++ [reply], by simp [Client.enqueue, he], ?_⟩
  intro reply' hmem id hend
  rcases List.mem_append.mp hmem with hmem | hmem
  · exact hends reply' hmem id hend
  · obtain rfl := List.mem_singleton.mp hmem
    rcases hend with rfl | ⟨text, rfl⟩
    · exact hkind _ rfl
    · exact hkind _ rfl

/-- What is written when the lines of a client are taken in ends no answer. -/
theorem endsNothing_receive (c : Client) (d : Dispatcher) (m : Moment) (owner : ConnectionId) :
    EndsNothing c (c.receive d m owner).2.1 := by
  unfold receive
  rcases c.link.readAll with ⟨bytes, ended, link⟩
  cases ended with
  | true => exact .of_eq rfl
  | false =>
    refine List.foldlRecOn _ _ (motive := fun s : Client × Dispatcher => EndsNothing c s.1)
      (.of_eq rfl) ?_
    intro s hs entry _
    cases entry with
    | error e => exact hs.enqueue fun _ h => by cases h
    | ok message =>
      cases message with
      | request r =>
        simp only [takeEntry, takeMessage]
        split
        · exact hs
        · exact hs.enqueue fun _ h => by cases h
      | heartbeat => exact hs.enqueue fun _ h => by cases h
      | task _ => exact hs.enqueue fun _ h => by cases h
      | response _ => exact hs.enqueue fun _ h => by cases h
      | error _ => exact hs.enqueue fun _ h => by cases h
      | status _ => exact hs.enqueue fun _ h => by cases h

end Client

namespace Dispatcher

/-! ## Answers that have ended -/

/-- How the answer to a request can have ended. -/
inductive Concluded (d : Dispatcher) (log : List Milestone) (id : RequestId) : Prop where
  /-- The line of the task was written to the worker that the record names, and the record can
  move to completed. -/
  | served {r l a} : d.cache.get? id = some r → r.status = .processing → life id log = some l →
      l.answered ≠ none → l.written = some a → a.complete = true → r.worker = some a.worker →
      a.line = (taskMessage r).encode →
      (∀ now, (d.cache.transition? id .completed now).isSome = true) → Concluded d log id
  /-- The task has not been given to a worker, and the record cannot move to completed. -/
  | hasty {r l} : d.cache.get? id = some r → r.status = .pending → life id log = some l →
      l.written = none → l.answered = some .pending →
      (∀ now, d.cache.transition? id .completed now = none) → Concluded d log id

theorem isSome_transition? {c : TaskCache} {id : RequestId} {r : TaskRecord}
    (hr : c.get? id = some r) (next : TaskStatus) (now : Millis) :
    (c.transition? id next now).isSome = r.status.canMove next := by
  cases hmove : r.status.canMove next with
  | true => simp [TaskCache.transition?, hr, TaskRecord.move?, hmove]
  | false => simp [TaskCache.transition?, hr, TaskRecord.move?, hmove]

variable {d : Dispatcher} {log : List Milestone} {id : RequestId}

/-- An answer that has ended has ended in one of these two ways. -/
theorem Recounted.concluded (h : d.Recounted log) (hfin : (d.nextFragment id).1 = .finished) :
    d.Concluded log id := by
  have hd := d.draws_nextFragment id
  rw [hfin] at hd
  generalize (d.nextFragment id).2 = d' at hd
  cases hd with
  | @finished s hs hfailure hfinished _ =>
    have hended : d.streamFinished id = true := by
      rw [streamFinished, hs]
      exact hfinished
    -- a stream that has not failed is that of a record
    obtain ⟨r, hr⟩ : ∃ r, d.cache.get? id = some r := by
      have hid := h.pairs id
      rw [hs] at hid
      cases hg : d.cache.get? id with
      | some r => exact ⟨r, rfl⟩
      | none =>
        rw [hg] at hid
        cases hid with
        | failed hfailed _ _ =>
          rw [hfailure] at hfailed
          cases hfailed
    obtain ⟨l, hl, hmatches⟩ := h.chronicled id r hr
    have hanswered : l.answered ≠ none := hmatches.finished.mp hended
    have hmove := isSome_transition? hr .completed
    rcases hmatches.sent with ⟨hst, a, ha, hcomplete, hworker, hline⟩ | ⟨hst, hwritten⟩
    · rw [hst] at hmove
      exact .served hr hst hl hanswered ha hcomplete hworker hline hmove
    · rw [hst] at hmove
      obtain ⟨status, hstatus⟩ := Option.ne_none_iff_exists'.mp hanswered
      obtain rfl := hmatches.early hst status hstatus
      exact .hasty hr hst hl hwritten hstatus fun now => Option.not_isSome_iff_eq_none.mp (by
        rw [hmove now]
        exact Bool.false_ne_true)

/-- What a life says of the end of the answer comes of this milestone, or it was said before. -/
theorem answered_note {o : Option Life} {l : Life} {m : Milestone} {status : TaskStatus}
    (hl : Life.note id o m = some l) (ha : l.answered = some status) :
    m = .answered id status ∨ ∃ l', o = some l' ∧ l'.answered = some status := by
  cases m with
  | admitted record =>
    rw [Life.note] at hl
    split at hl
    · cases hl
      cases ha
    · exact .inr ⟨l, hl, ha⟩
  | written a =>
    rw [Life.note] at hl
    split at hl
    · obtain ⟨l', rfl, rfl⟩ := Option.map_eq_some_iff.mp hl
      exact .inr ⟨l', rfl, ha⟩
    · exact .inr ⟨l, hl, ha⟩
  | answered i status' =>
    rw [Life.note] at hl
    split at hl
    · next hi =>
      obtain ⟨l', rfl, rfl⟩ := Option.map_eq_some_iff.mp hl
      cases ha
      rw [hi]
      exact .inl rfl
    · exact .inr ⟨l, hl, ha⟩

/-- What the life of a request says of the end of its answer stands in the log. -/
theorem mem_of_answered {l : Life} {status : TaskStatus} (hl : life id log = some l)
    (ha : l.answered = some status) : .answered id status ∈ log := by
  induction log using List.reverseRecOn generalizing l with
  | nil => cases hl
  | append_singleton log m ih =>
    rw [life_concat] at hl
    rcases answered_note hl ha with rfl | ⟨l', hl', ha'⟩
    · exact List.mem_append_right _ List.mem_cons_self
    · exact List.mem_append_left _ (ih hl' ha')

/-- Where an answer is closed out in haste, its end was taken in while the task waited. -/
theorem Recounted.answered_of_hasty (h : d.Recounted log) {x : Dealing} (hx : d.Hasty x) :
    ∃ id, .answered id .pending ∈ log := by
  obtain ⟨id, now, r, -, hfin, hr, hst⟩ := hx
  cases h.concluded hfin with
  | @served r' _ _ hr' hst' _ _ _ _ _ _ _ =>
    cases hr.symm.trans hr'
    rw [hst] at hst'
    cases hst'
  | hasty _ _ hl _ ha _ => exact ⟨id, mem_of_answered hl ha⟩

end Dispatcher

/-- How records end. In every run of the calls of the engine:

all changes of the cache are lawful exactly if no answer is closed out in haste, and so they
are if no end of an answer is taken in for a task that waits;

an answer that has ended is that of a task which its worker was given, whose record can move
to completed, or else of one that has not been given to a worker, whose record cannot, and then
its end was taken in while it waited;

to take in the lines of a client ends no answer; a delivery to a client is made of such calls,
and whenever it sends the end of an answer, one of them closes out this answer, which has ended
in one of these two ways. -/
theorem records_end_lawfully (maxTasks maxPending maxProcessing maxWorkers : Nat)
    (dealings : List Dealing) :
    let start := Dispatcher.create maxTasks maxPending maxProcessing maxWorkers
    let d := start.dealt dealings
    let log := start.milestoneLog dealings
    let lawful := List.IsChain TaskCache.Lawfully (start.cache :: start.history dealings)
    ((start.history dealings).getLastD start.cache = d.cache ∧
      (lawful ↔ ∀ early x late, dealings = early ++ x :: late → ¬ (start.dealt early).Hasty x) ∧
      ((∀ id, .answered id .pending ∉ log) → lawful)) ∧
    (∀ id, (d.nextFragment id).1 = .finished → d.Concluded log id) ∧
    (∀ (c : Client) (m : Moment) (owner : ConnectionId),
      c.EndsNothing (c.receive d m owner).2.1) ∧
    ∀ (c : Client) (owner : ConnectionId) (cap : Nat) (now : Millis),
      d.dealt (c.closings d cap now) = (c.deliver d cap now).2.2 ∧
      ∀ o i id m, .queued o i m ∈ c.deliverLog d owner cap now → m.Ends id →
        ∃ early late, c.closings d cap now = early ++ .close id now :: late ∧
          ((d.dealt early).nextFragment id).1 = .finished ∧
          (d.dealt early).Concluded (log ++ d.milestoneLog early) id := by
  intro start d log lawful
  have hstart : Dispatcher.Recounted start [] := .create _ _ _ _
  have hd : d.Recounted log := hstart.dealt dealings
  obtain ⟨b, hb⟩ := hstart.listed
  have hiff : lawful ↔ ∀ early x late, dealings = early ++ x :: late →
      ¬ (start.dealt early).Hasty x :=
    Dispatcher.isChain_history_iff hb hstart.pairs dealings
  refine ⟨⟨start.getLastD_history dealings, hiff, ?_⟩, fun id hfin => hd.concluded hfin,
    fun c m owner => c.endsNothing_receive d m owner, ?_⟩
  · intro hnone
    refine hiff.mpr fun early x late he hhasty => ?_
    obtain ⟨id, hid⟩ := (hstart.dealt early).answered_of_hasty hhasty
    refine hnone id ?_
    show .answered id .pending ∈ journal Dispatcher.deal Dispatcher.milestones start dealings
    rw [he, journal_append]
    exact List.mem_append_left _ hid
  · intro c owner cap now
    refine ⟨c.dealt_closings d cap now, fun o i id m hm hend => ?_⟩
    obtain ⟨early, late, he, hfin⟩ := Client.closing_of_end hm hend
    exact ⟨early, late, he, hfin, (hd.dealt early).concluded hfin⟩

/-- A request for `p` is admitted, and a worker that was not asked answers it in full. -/
def answeredEarly : List Dealing :=
  [.submit { now := 0, newId := fun _ => "" } { id := some "p" } 1,
    .backend (.hear 0 0 "\x7b\"type\":\"response\",\"id\":\"p\",\"token\":\"early\",\"finished\":true\x7d")]

set_option maxRecDepth 100000 in
/-- The client is sent the end of the answer while the task waits. The record, which cannot move
to completed, is taken out. -/
theorem early_answer_closes_waiting :
    let start := Dispatcher.create 8 8 8 1
    let d := start.dealt answeredEarly
    let c : Client := { waiting := [{ id := "p", stream := true }] }
    (d.cache.get? "p").map (·.status) = some .pending ∧
      (d.cache.transition? "p" .completed 0).isNone = true ∧
      c.deliverLog d 1 8 0 = [.queued 1 "p" (.token "p" "early"), .queued 1 "p" (.streamEnd "p")] ∧
      ((start.history (answeredEarly ++ c.closings d 8 0)).map fun cache =>
        (cache.get? "p").map (·.status)) =
        none :: List.replicate 7 (some .pending) ++ [none, none] ∧
      (c.deliver d 8 0).2.2.cache.get? "p" = none := by
  decide +kernel

end PromptGateway
