import PromptGateway.Proofs.Events
import PromptGateway.Proofs.Standing

/-
  What has been noted of one request.

  An account holds what a bystander notes of a request from its admission on: the
  fragments of the responses that were taken in for it, whether one of them was the
  last, and the messages that were queued about it. An account is exact if the
  messages are what the request deserves (`Account.Exact`).

  A request that a client still waits for is underway: `Account.Underway` relates
  its account to what the client has gathered and to the stream the engine keeps.
  One lemma for each thing that can happen to it says that it stays underway or
  comes to an exact account:

    1. a response is taken in (`Underway.hear`) or the stream fails (`Underway.fail`);
    2. a fragment is handed out (`Underway.draw`);
    3. the answer ends (`Underway.exact_finish`, `Underway.exact_fail`).

  `evolves_applyBackend` says that calls from the side of the workers do no more
  than the first to the stream of a request.
-/

namespace PromptGateway

/-- The request an observation is about. -/
def Observation.id : Observation → RequestId
  | admitted _ id _ | ingested id _ _ | queued _ id _ => id

/-- What has been noted of a request since it was admitted. -/
structure Account where
  owner : ConnectionId
  stream : Bool
  /-- The fragments of its responses, in the order in which they were taken in. -/
  fragments : List String := []
  /-- Whether a response was the last. -/
  finished : Bool := false
  /-- What was queued about it, and for whom. -/
  messages : List (ConnectionId × WireMessage) := []
  deriving DecidableEq

namespace Account

/-- The account after a response. -/
def hear (a : Account) (fragment : Option String) (finished : Bool) : Account :=
  { a with fragments := a.fragments ++ fragment.toList, finished := a.finished || finished }

/-- The account after a message. -/
def send (a : Account) (owner : ConnectionId) (message : WireMessage) : Account :=
  { a with messages := a.messages ++ [(owner, message)] }

/-- The account of a request after one more observation. An admission opens a new one. -/
def note (id : RequestId) (a : Option Account) (e : Observation) : Option Account :=
  if e.id = id then
    match e with
    | .admitted owner _ stream => some { owner := owner, stream := stream }
    | .ingested _ fragment finished => a.map (·.hear fragment finished)
    | .queued owner _ message => a.map (·.send owner message)
  else a

/-- The messages for the first fragments of a request. -/
def tokens (id : RequestId) (n : Nat) (a : Account) : List WireMessage :=
  if a.stream then (a.fragments.take n).map (.token id) else []

/-- The message that ends an answer. -/
def ending (id : RequestId) (a : Account) : WireMessage :=
  if a.stream then .streamEnd id else .fullResult id (String.join a.fragments)

/-- The messages about a request are for its owner. They are its first fragments in
order, if they are to be streamed, and then at most one more message: either the end of
the answer, if a last response was taken in and all fragments have been handed out, or a
failure. -/
def Exact (id : RequestId) (a : Account) : Prop :=
  ∃ n terminal, n ≤ a.fragments.length ∧
    a.messages = (a.tokens id n ++ Option.toList terminal).map (a.owner, ·) ∧
    ∀ t ∈ terminal,
      (t = a.ending id ∧ a.finished = true ∧ n = a.fragments.length) ∨
        ∃ reason, t = .failure id reason

end Account

/-- What a log says of a request. -/
def account (id : RequestId) (log : List Observation) : Option Account :=
  log.foldl (Account.note id) none

theorem account_append (id : RequestId) (log more : List Observation) :
    account id (log ++ more) = more.foldl (Account.note id) (account id log) :=
  List.foldl_append

example : account "a" [.admitted 3 "a" true, .ingested "a" (some "x") false,
    .ingested "b" (some "y") true, .queued 3 "a" (.token "a" "x")] =
      some { owner := 3, stream := true, fragments := ["x"], messages := [(3, .token "a" "x")] } := by
  decide

theorem note_of_ne {id : RequestId} {e : Observation} (h : e.id ≠ id) (a : Option Account) :
    Account.note id a e = a := if_neg h

theorem account_append_of_ne {id : RequestId} {more : List Observation}
    (h : ∀ e ∈ more, e.id ≠ id) (log : List Observation) :
    account id (log ++ more) = account id log := by
  rw [account_append]
  induction more with
  | nil => rfl
  | cons e more ih =>
    rw [List.foldl_cons, note_of_ne (h e List.mem_cons_self)]
    exact ih fun e he => h e (List.mem_cons_of_mem _ he)

theorem account_append_ne_none {id : RequestId} {log : List Observation}
    (h : account id log ≠ none) (more : List Observation) : account id (log ++ more) ≠ none := by
  rw [account_append]
  induction more generalizing log with
  | nil => exact h
  | cons e more ih =>
    have hnote : account id (log ++ [e]) ≠ none := by
      rw [account_append]
      show Account.note id (account id log) e ≠ none
      unfold Account.note
      split
      · cases e with
        | admitted _ _ _ => exact Option.some_ne_none _
        | ingested _ _ _ => simpa using h
        | queued _ _ _ => simpa using h
      · exact h
    simpa only [account_append, List.foldl_cons, List.foldl_nil] using ih hnote

/-- A request that a client waits for: what has been noted of it, what the client has of
it, and what there is for it in the engine. -/
structure Account.Underway (a : Account) (n : Nat) (w : WaitingRequest)
    (stream : Option TokenStream) : Prop where
  stream_eq : w.stream = a.stream
  read_le : n ≤ a.fragments.length
  sent : a.messages = (a.tokens w.id n).map (a.owner, ·)
  gathered : a.stream = false → w.gathered = String.join (a.fragments.take n)
  unheard : stream = none → a.fragments = [] ∧ a.finished = false
  buffered : ∀ s, stream = some s → s.failure = none →
    s.fragments = a.fragments ∧ s.finished = a.finished ∧ s.cursor = n

theorem TokenStream.absorb_eq {s : TokenStream} (h : s.finished = false) (r : TokenResponse) :
    s.absorb r =
      { s with fragments := s.fragments ++ r.fragment?.toList, finished := r.finished } := by
  obtain ⟨fragments, cursor, finished, failure⟩ := s
  obtain rfl : finished = false := h
  unfold TokenStream.absorb TokenStream.append TokenStream.finish
  cases r.fragment? with
  | none => cases r.finished <;> simp
  | some f => cases r.finished <;> rfl

namespace Account.Underway

variable {a : Account} {n : Nat} {w : WaitingRequest} {stream : Option TokenStream}

/-- As long as a request is underway, its fragments have been sent and nothing else. -/
theorem exact (h : a.Underway n w stream) : a.Exact w.id := by
  refine ⟨n, none, h.read_le, ?_, fun t ht => by cases ht⟩
  rw [Option.toList_none, List.append_nil]
  exact h.sent

theorem fail (h : a.Underway n w stream) {s : TokenStream} {reason : String}
    (hs : s.failure = some reason) : a.Underway n w (some s) := by
  refine { h with unheard := nofun, buffered := ?_ }
  rintro _ ⟨⟩ hf
  rw [hs] at hf
  cases hf

/-- A response comes, and the stream of the request has not ended. -/
theorem hear (h : a.Underway n w stream) {r : TokenResponse}
    (hopen : ∀ s, stream = some s → s.finished = false) :
    (a.hear r.fragment? r.finished).Underway n w
      (if r.fragment? = none ∧ r.finished = false then stream
      else some ((stream.getD {}).absorb r)) := by
  -- what has been read stays in front of what comes in
  have htake : (a.fragments ++ r.fragment?.toList).take n = a.fragments.take n :=
    List.take_append_of_le_length h.read_le
  refine ⟨h.stream_eq, ?_, ?_, ?_, ?_, ?_⟩
  · exact Nat.le_trans h.read_le (by simp [Account.hear])
  · show a.messages = _
    rw [h.sent]
    simp only [tokens, Account.hear, htake]
  · intro hstream
    show w.gathered = String.join ((a.fragments ++ r.fragment?.toList).take n)
    rw [htake]
    exact h.gathered hstream
  · split
    · next hr =>
      intro hnone
      simpa [Account.hear, hr] using h.unheard hnone
    · intro hnone
      cases hnone
  · split
    · next hr =>
      intro s hs hf
      simpa [Account.hear, hr] using h.buffered s hs hf
    · rintro _ ⟨⟩ hf
      cases stream with
      | none =>
        -- the first response of the request, whose stream begins with it
        obtain ⟨hfragments, hfinished⟩ := h.unheard rfl
        have hn : n = 0 := by simpa [hfragments] using h.read_le
        rw [Option.getD_none, TokenStream.absorb_eq rfl]
        simp [Account.hear, hfragments, hfinished, hn]
      | some s =>
        rw [Option.getD_some, TokenStream.absorb_eq (hopen s rfl)] at hf ⊢
        obtain ⟨hfragments, hfinished, hcursor⟩ := h.buffered s rfl hf
        have hopen := hopen s rfl
        rw [hfinished] at hopen
        simp [Account.hear, hfragments, hopen, hcursor]

/-- A fragment is handed out. -/
theorem draw {s : TokenStream} {f : String} (h : a.Underway n w (some s))
    (hfailure : s.failure = none) (hf : s.fragments[s.cursor]? = some f) :
    (((w.reply f).map (Observation.queued a.owner w.id)).foldl (Account.note w.id) (some a)) =
        some { a with messages := a.messages ++ (w.reply f).map (a.owner, ·) } ∧
      Account.Underway { a with messages := a.messages ++ (w.reply f).map (a.owner, ·) } (n + 1)
        (w.gather f) (some { s with cursor := s.cursor + 1 }) := by
  obtain ⟨hfragments, hfinished, hcursor⟩ := h.buffered s rfl hfailure
  rw [hfragments, hcursor] at hf
  have hlt : n < a.fragments.length := (List.getElem?_eq_some_iff.mp hf).1
  have htake : a.fragments.take (n + 1) = a.fragments.take n ++ [f] := by
    rw [List.take_add_one, hf]
    rfl
  constructor
  · unfold WaitingRequest.reply
    split
    · show Account.note w.id (some a) (.queued a.owner w.id _) = _
      exact if_pos rfl
    · simp
  · refine ⟨(w.stream_gather f).trans h.stream_eq, hlt, ?_, ?_, nofun, ?_⟩
    · show a.messages ++ _ = _
      rw [h.sent, w.id_gather]
      unfold WaitingRequest.reply tokens
      rw [h.stream_eq, htake]
      cases a.stream <;> simp
    · intro hs
      show (w.gather f).gathered = String.join (a.fragments.take (n + 1))
      rw [htake, String.join, List.foldl_append]
      have hw : w.stream = false := h.stream_eq.trans hs
      rw [WaitingRequest.gather, hw]
      show w.gathered ++ f = String.join _ ++ f
      rw [h.gathered hs]
    · rintro _ ⟨⟩ -
      exact ⟨hfragments, hfinished, congrArg (· + 1) hcursor⟩

/-- Everything has been handed out, and the answer ends. -/
theorem exact_finish {s : TokenStream} (h : a.Underway n w (some s)) (hfailure : s.failure = none)
    (hfinished : s.finished = true) (hcursor : s.cursor = s.fragments.length) :
    (a.send a.owner w.ending).Exact w.id := by
  obtain ⟨hf, hfin, hc⟩ := h.buffered s rfl hfailure
  have hn : n = a.fragments.length := by rw [← hc, hcursor, hf]
  refine ⟨n, some w.ending, h.read_le, ?_, ?_⟩
  · show a.messages ++ _ = (a.tokens w.id n ++ _).map _
    rw [h.sent, List.map_append]
    rfl
  · rintro _ ⟨⟩
    refine .inl ⟨?_, hfin.symm.trans hfinished, hn⟩
    unfold WaitingRequest.ending Account.ending Account.send
    rw [h.stream_eq]
    cases hs : a.stream with
    | true => rfl
    | false =>
      have hg := h.gathered hs
      rw [hn, List.take_length] at hg
      simp [hg]

theorem exact_fail (h : a.Underway n w stream) (reason : String) :
    (a.send a.owner (.failure w.id reason)).Exact w.id := by
  refine ⟨n, some (.failure w.id reason), h.read_le, ?_, ?_⟩
  · show a.messages ++ _ = (a.tokens w.id n ++ _).map _
    rw [h.sent, List.map_append]
    rfl
  · rintro _ ⟨⟩
    exact .inr ⟨reason, rfl⟩

end Account.Underway

/-! ## Calls from the side of the workers -/

/-- What such a call does to the stream of one request, and what is noted of it. -/
inductive Evolves (d : Dispatcher) (id : RequestId) :
    List Observation → Option TokenStream → Prop where
  | same {l} : (∀ e ∈ l, e.id ≠ id) → Evolves d id l (d.streams.find? id)
  | fails {l s reason} : (∀ e ∈ l, e.id ≠ id) → s.failure = some reason → Evolves d id l (some s)
  | hears {r : TokenResponse} {t} : id = r.id → d.cache.get? id = some t →
      d.streamFinished id = false →
      Evolves d id [.ingested id r.fragment? r.finished]
        (if r.fragment? = none ∧ r.finished = false then d.streams.find? id
        else some ((d.streamOf id).absorb r))

namespace Dispatcher

theorem find?_ended {d : Dispatcher} {id : RequestId} {status : TaskStatus}
    (hst : status ≠ .cancelled) (message : String) (j : RequestId) :
    (d.ended id status message).streams.find? j =
      if j = id then some ((d.streamOf id).fail message) else d.streams.find? j := by
  rw [ended, if_neg hst]
  exact Table.find?_insert _ _ _ _

theorem find?_absorb (d : Dispatcher) (r : TokenResponse) (j : RequestId) :
    (d.absorb r).streams.find? j =
      if j = r.id then
        if r.fragment? = none ∧ r.finished = false then d.streams.find? j
        else some ((d.streamOf j).absorb r)
      else d.streams.find? j := by
  unfold absorb
  by_cases hr : r.fragment? = none ∧ r.finished = false
  · simp [hr]
  · rw [if_neg hr]
    show (d.streams.insert r.id ((d.streamOf r.id).absorb r)).find? j = _
    rw [Table.find?_insert]
    by_cases hj : j = r.id
    · simp [hj, hr]
    · simp [hj]

/-- The stream of a request is as it was, or it has failed. -/
def KeepsOrFails (d d' : Dispatcher) (id : RequestId) : Prop :=
  d'.streams.find? id = d.streams.find? id ∨
    ∃ s reason, d'.streams.find? id = some s ∧ s.failure = some reason

/-- A call of which nothing is noted lets streams fail, and nothing else. -/
theorem KeepsOrFails.evolves {d d' : Dispatcher} {id : RequestId} (h : d.KeepsOrFails d' id) :
    Evolves d id [] (d'.streams.find? id) := by
  rcases h with h | ⟨s, reason, h, hs⟩
  · rw [h]
    exact .same fun _ he => absurd he List.not_mem_nil
  · rw [h]
    exact .fails (fun _ he => absurd he List.not_mem_nil) hs

/-- When a task ends that is not cancelled, its stream fails. -/
theorem KeepsOrFails.ended {d d' : Dispatcher} {id : RequestId} (h : d.KeepsOrFails d' id)
    {status : TaskStatus} (hst : status ≠ .cancelled) (i : RequestId) (message : String) :
    d.KeepsOrFails (d'.ended i status message) id := by
  unfold KeepsOrFails
  rw [find?_ended hst]
  split
  · exact .inr ⟨_, _, rfl, rfl⟩
  · exact h

theorem keepsOrFails_endEach (d : Dispatcher) {q : Dispatcher → TaskRecord → Bool}
    {status : TaskStatus} (hst : status ≠ .cancelled) (message : String) (now : Millis)
    (records : List TaskRecord) (id : RequestId) :
    d.KeepsOrFails (d.endEach q status message now records).2 id := by
  refine endEach_induction (P := fun d' => d.KeepsOrFails d' id) ?_ _ (.inl rfl)
  intro d₁ d₂ i h he
  obtain ⟨-, rfl⟩ := endTask?_eq_some_iff.mp he
  exact h.ended hst i message

theorem keepsOrFails_assigns {d d' : Dispatcher} {now : Millis} {o : Assignment}
    (h : d.Assigns now o d') (id : RequestId) : d.KeepsOrFails d' id := by
  have fails : ∀ rest i reason, d.KeepsOrFails ((d.dequeued rest).ended i .failed reason) id := by
    intro rest i reason
    have hdequeued : d.KeepsOrFails (d.dequeued rest) id := .inl rfl
    exact hdequeued.ended (by decide) i reason
  cases h with
  | saturated _ => exact .inl rfl
  | idle _ => exact .inl rfl
  | skipped _ _ => exact .inl rfl
  | unserved _ _ _ _ => exact fails _ _ _
  | undelivered _ _ _ _ _ => exact fails _ _ _
  | assigned _ _ _ _ _ _ => exact .inl rfl

theorem evolves_hears {d d' : Dispatcher} {now : Millis}
    {message : Except DecodeError WireMessage} {outcome : IngestOutcome}
    (h : d.Hears now message outcome d') (id : RequestId) :
    Evolves d id (Observation.ofLine message outcome) (d'.streams.find? id) := by
  -- a response that is taken in goes into the stream of the request it names
  have hears : ∀ {r : TokenResponse} {t}, d.cache.get? r.id = some t →
      d.streamFinished r.id = false →
      Evolves d id [.ingested r.id r.fragment? r.finished]
        (((d.progress r.id now).absorb r).streams.find? id) := by
    intro r t ht hfin
    rw [find?_absorb]
    split
    · next hid =>
      subst hid
      exact .hears rfl ht hfin
    · next hid =>
      refine .same fun e he => ?_
      rw [List.mem_singleton.mp he]
      exact fun hr => hid hr.symm
  have quiet : ∀ {d'}, d.KeepsOrFails d' id → Evolves d id [] (d'.streams.find? id) :=
    KeepsOrFails.evolves
  cases h with
  | more ht hfin hr =>
    have hheard := hears ht hfin
    rwa [hr] at hheard
  | last ht hfin hr =>
    have hheard := hears ht hfin
    rwa [hr] at hheard
  | failed _ _ _ =>
    have hsame : d.KeepsOrFails d id := .inl rfl
    exact (hsame.ended (by decide) _ _).evolves
  | undecodable => exact quiet (.inl rfl)
  | orphan _ => exact quiet (.inl rfl)
  | late _ _ => exact quiet (.inl rfl)
  | stray _ _ => exact quiet (.inl rfl)
  | unnamed _ => exact quiet (.inl rfl)
  | status => exact quiet (.inl rfl)
  | heartbeat => exact quiet (.inl rfl)
  | request => exact quiet (.inl rfl)
  | task => exact quiet (.inl rfl)

theorem evolves_applyBackend (d : Dispatcher) (call : BackendCall) (id : RequestId) :
    Evolves d id (d.noted call) ((d.applyBackend call).streams.find? id) := by
  cases call with
  | hear now worker line =>
    obtain ⟨p, hp⟩ := d.ingest_eq_heard now worker line
    show Evolves d id (Observation.ofLine _ (d.ingest now worker line).1)
      ((d.ingest now worker line).2.streams.find? id)
    rw [hp]
    exact evolves_hears (d.hears_heard now _) id
  | assign now => exact (keepsOrFails_assigns (assigns_assignNext d now) id).evolves
  | failWorker worker now => exact (keepsOrFails_endEach d (by decide) _ now _ id).evolves
  | sweep now timeoutMs clock => exact (keepsOrFails_endEach d (by decide) _ clock _ id).evolves
  | pool p =>
    have hpool : d.KeepsOrFails (d.withPool p) id := .inl rfl
    exact hpool.evolves

/-! ## Calls from the side of the clients -/

theorem Draws.streams_fragment {d d' : Dispatcher} {id : RequestId} {f : String}
    (h : d.Draws id (.fragment f) d') :
    ∃ s, d.streams.find? id = some s ∧ s.failure = none ∧ s.fragments[s.cursor]? = some f ∧
      ∀ j, d'.streams.find? j =
        if j = id then some { s with cursor := s.cursor + 1 } else d.streams.find? j := by
  cases h with
  | fragment hs hfailure hf => exact ⟨_, hs, hfailure, hf, fun j => Table.find?_insert _ _ _ _⟩

/-- An answer is of one request, and the streams of the others are as they were. -/
theorem Draws.streams_of_ne {d d' : Dispatcher} {id : RequestId} {o : Drain} (h : d.Draws id o d')
    {j : RequestId} (hj : j ≠ id) : d'.streams.find? j = d.streams.find? j := by
  cases h with
  | failed _ _ => exact (Table.find?_erase _ _ _).trans (if_neg hj)
  | fragment _ _ _ => exact (Table.find?_insert _ _ _ _).trans (if_neg hj)
  | untracked _ _ => rfl
  | unanswered _ _ => rfl
  | finished _ _ _ _ => rfl
  | unread _ _ _ _ => rfl

theorem streams_finishDelivery (d : Dispatcher) {id : RequestId} (now : Millis) {j : RequestId}
    (hj : j ≠ id) : (d.finishDelivery id now).streams.find? j = d.streams.find? j := by
  rw [finishDelivery_eq]
  exact (Table.find?_erase _ _ _).trans (if_neg hj)

theorem streams_cancelConnection (d : Dispatcher) (o : ConnectionId) (now : Millis)
    {j : RequestId} (hj : ∀ r ∈ d.cache.ownedBy o, j ≠ r.id) :
    (d.cancelConnection o now).2.streams.find? j = d.streams.find? j := by
  have hids : j ∉ (d.cache.ownedBy o).map (·.id) := by
    intro hm
    obtain ⟨r, hr, hrj⟩ := List.mem_map.mp hm
    exact hj r hr hrj.symm
  rw [cancelConnection_eq]
  generalize (d.cache.ownedBy o).map (·.id) = ids at hids
  clear hj
  induction ids generalizing d with
  | nil => rfl
  | cons id ids ih =>
    rw [List.mem_cons, not_or] at hids
    rw [List.foldl_cons, ih _ hids.2, cancelTask]
    cases he : d.endTask? id .cancelled "client disconnected" now with
    | none => rfl
    | some d' =>
      obtain ⟨-, rfl⟩ := endTask?_eq_some_iff.mp he
      exact (Table.find?_erase _ _ _).trans (if_neg hids.1)

theorem streams_clearStreams (ws : List WaitingRequest) (d : Dispatcher) {j : RequestId}
    (hj : ∀ w ∈ ws, j ≠ w.id) :
    (ws.foldl (fun d w => d.clearStream w.id) d).streams.find? j = d.streams.find? j := by
  induction ws generalizing d with
  | nil => rfl
  | cons w ws ih =>
    rw [List.foldl_cons, ih _ fun w hw => hj w (List.mem_cons_of_mem _ hw)]
    exact (Table.find?_erase _ _ _).trans (if_neg (hj w List.mem_cons_self))

end Dispatcher

end PromptGateway
