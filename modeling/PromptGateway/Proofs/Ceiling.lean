import PromptGateway.Proofs.Completion
import PromptGateway.Proofs.Composition

/-
  How long a line for a client can be.

  Nothing bounds a line where it is written. `reply_lines_composed` says, for every run, how long
  the line of each reply is at most, if the lines that are read are bounded, and that a client
  reads it exactly if it is no longer than the largest message.

  `Ceiling.long_answer_refused` is a run in which an answer is longer: its two halves come in
  lines that are just short enough (`Dispatcher.find?_hear`), and it is written in one piece
  (`Dispatcher.messages_handOver`).
-/

namespace PromptGateway

open Text (utf8Length)

variable {n : Nat} {d : Dispatcher}

theorem Frontend.light_create (settings : Settings) (firstId : Nat) :
    (Frontend.create (Gateway.create settings) firstId).exchange.Light n [] where
  lines := List.forall_mem_nil _
  engine := ⟨fun _ => List.nil_sublist _, nofun⟩
  waiting := nofun

/-- How long the lines are that are queued for clients, in any run of a gateway in which no line
of a client or worker and no id that is made up takes more than `n` bytes. Every message that is
queued is composed in one of the listed ways, and its line, without its newline, is no longer
than that says. So a heartbeat, and a report about a message of another kind or about a line that
is empty, too long or no text, is short. A token, the end of a stream or a failure in the words
of a worker is at most 51 bytes longer than the longest line that was read. But a whole answer
may be as long as the lines of the workers that brought its fragments, of which each is one of
the run and brings one; an id that is a duplicate is written twice; and a report about a
malformed line may be seven times as long as the line that it quotes.

A client reads the message that was queued, however the bytes are cut and whatever other lines
come before, if and only if the line is no longer than the largest message; a longer one that
comes in one piece is refused. And what is said to be queued is what the outboxes gain. -/
theorem reply_lines_composed (settings : Settings) (firstId n : Nat) (events : List Event)
    (hlines : ∀ line ∈ journal Frontend.apply Frontend.linesRead
      (Frontend.create (Gateway.create settings) firstId) events, utf8Length line.toList ≤ n)
    (hids : ∀ o m, .receive o m ∈ events → ∀ k, textSize (m.newId k) ≤ n) :
    let start := Frontend.create (Gateway.create settings) firstId
    (∀ message ∈ journal Frontend.apply Frontend.queued start events,
      (∃ k, Composed n (journal Frontend.apply Frontend.linesHeard start events) message k ∧
        message.encode.length ≤ k + 1) ∧
      (∀ earlier chunks, (∀ l ∈ earlier, newline ∉ l) →
        (∀ l ∈ earlier, l.length ≤ maxMessageBytes) →
        chunks.flatten = Frame.join earlier [] ++ message.encode →
        (Frame.feed Frame.drainMessages [] chunks =
            (earlier.flatMap Frame.message ++ [.ok message], []) ↔
          message.encode.length ≤ maxMessageBytes + 1)) ∧
      (maxMessageBytes + 1 < message.encode.length →
        Frame.feed Frame.drainMessages [] [message.encode] = ([.error .oversized], []))) ∧
    ∀ o c, (start.run events).clients.find? o = some c →
      ∀ e, ((∃ m, e = .receive o m) ∨ ∃ cap now, e = .deliver o cap now) →
        ∃ c', ((start.run events).apply e).clients.find? o = some c' ∧
          c'.outbox = c.outbox ++ ((start.run events).queued e).flatMap WireMessage.encode := by
  intro start
  refine ⟨fun message hmessage => ?_, fun o c hc e he => Frontend.outbox_queued hc he⟩
  obtain ⟨k, hk⟩ :=
    Frontend.light_run (Frontend.light_create settings firstId) hlines hids message hmessage
  have hkind := hk.kind_ne
  refine ⟨⟨k, hk, ?_⟩, fun earlier chunks hnewline hsizes hchunks => ?_, fun hlong => ?_⟩
  · rw [WireMessage.length_encode]
    exact Nat.succ_le_succ hk.size_le
  · exact Frame.feed_drainMessages_iff hkind hnewline hsizes hchunks
  · exact Frame.feed_encode_of_long hkind hlong

/-! ## One answer in two fragments -/

/-- A response that is taken in with a fragment. -/
theorem Dispatcher.find?_hear {r : TokenResponse} {t : TaskRecord} {line : String}
    (hline : WireMessage.decode line = .ok (.response r)) (ht : d.cache.get? r.id = some t)
    (hopen : d.streamFinished r.id = false) (hr : r.fragment? ≠ none) (now : Millis)
    (worker : Nat) :
    (d.applyBackend (.hear now worker line)).streams.find? r.id =
        some ((d.streamOf r.id).absorb r) ∧
      ∃ t', (d.applyBackend (.hear now worker line)).cache.get? r.id = some t' := by
  obtain ⟨p, hp⟩ := d.ingest_eq_heard now worker line
  have hresponse : (d.heard now (WireMessage.decode line)).2 = (d.progress r.id now).absorb r := by
    rw [hline, Dispatcher.heard, Dispatcher.ingestResponse_eq ht, hopen, if_neg Bool.false_ne_true]
    split <;> rfl
  show (d.ingest now worker line).2.streams.find? r.id = _ ∧
    ∃ t', (d.ingest now worker line).2.cache.get? r.id = some t'
  rw [hp, hresponse]
  constructor
  · have hkept : ¬ (r.fragment? = none ∧ r.finished = false) := fun h => hr h.1
    exact (Dispatcher.find?_absorb (d.progress r.id now) r r.id).trans
      (by rw [if_pos rfl, if_neg hkept]; rfl)
  · refine ⟨TaskRecord.progressed now t, ?_⟩
    show ((d.progress r.id now).absorb r).cache.get? r.id = _
    rw [Dispatcher.cache_absorb, Dispatcher.progress, TaskCache.get?_modify, if_pos rfl, ht]
    rfl

/-- An answer that has ended and is not streamed is written in one piece. -/
theorem Dispatcher.messages_handOver {s : TokenStream} {w : WaitingRequest}
    (hs : d.streams.find? w.id = some s) (hfailure : s.failure = none) (hfin : s.finished = true)
    (hle : s.cursor ≤ s.fragments.length) (hw : w.stream = false) (now : Millis) {cap : Nat}
    (hcap : (s.fragments.drop s.cursor).length < cap) :
    (d.handOver now cap w).1.messages =
      [.fullResult w.id ((s.fragments.drop s.cursor).foldl (· ++ ·) w.gathered)] := by
  -- each fragment is gathered in turn, so the induction is on what is unread
  generalize hunread : s.fragments.drop s.cursor = unread at hcap ⊢
  induction unread generalizing d s w cap with
  | nil =>
    obtain ⟨cap, rfl⟩ := Nat.exists_eq_add_one_of_ne_zero (Nat.ne_of_gt hcap)
    have hcursor : s.cursor = s.fragments.length :=
      Nat.le_antisymm hle (List.drop_eq_nil_iff.mp hunread)
    rw [handOver, nextFragment_of_drained hs hfailure hfin hcursor]
    simp [WaitingRequest.ending, hw]
  | cons f unread ih =>
    obtain ⟨cap, rfl⟩ := Nat.exists_eq_add_one_of_ne_zero (Nat.ne_of_gt (Nat.zero_lt_of_lt hcap))
    obtain ⟨hf, hnext, hrest⟩ := unread_cons hunread
    obtain ⟨d', hn, hstream⟩ := nextFragment_of_unread hs hfailure hf
    have hgather : w.gather f = { w with gathered := w.gathered ++ f } := by
      rw [WaitingRequest.gather, hw]
      rfl
    have hlater := @ih d' { s with cursor := s.cursor + 1 } (w.gather f)
      (by rwa [w.id_gather]) hfailure hfin hnext
      ((w.stream_gather f).trans hw) cap hrest (Nat.lt_of_succ_lt_succ hcap)
    rw [handOver, hn]
    show w.reply f ++ (d'.handOver now cap (w.gather f)).1.messages = _
    rw [hlater, hgather, WaitingRequest.reply, hw]
    rfl

namespace Ceiling

/-- A gateway without clients. -/
def gateway : Frontend := Frontend.create (Gateway.create {}) 3

/-- The line of a client that asks for an answer in one piece. -/
def asking : String := "\x7b\"type\":\"request\",\"id\":\"p\",\"stream\":false\x7d"

/-- A client asks, and its task is given to a worker. -/
def opening : List Event :=
  let workers : WorkerPool :=
    { maxWorkers := 1
      slots := [{ address := "a", link := 0, lastSeen := 0 }]
      links := [.fresh] }
  [.backend (.pool workers),
    .accept { Link.fresh with inbound := Bytes.ofString asking ++ [newline] },
    .receive 3 { now := 0, newId := fun _ => "" },
    .assignmentTick 0]

/-- What the worker says: a fragment, and whether it is the last. -/
def saying (fragment : String) (finished : Bool) : WireMessage :=
  .response { id := "p", token := some fragment, finished := finished }

/-- The worker answers in two halves, which are delivered together. -/
def answering (half : String) : List Event :=
  opening ++ [.backend (.hear 1 0 (String.ofList (saying half false).line)),
    .backend (.hear 2 0 (String.ofList (saying half true).line)), .deliver 3 8 3]

theorem run_opening :
    let f := gateway.run opening
    journal Frontend.apply Frontend.linesRead gateway opening = [asking] ∧
      journal Frontend.apply Frontend.linesHeard gateway opening = [] ∧
      journal Frontend.apply Frontend.queued gateway opening = [] ∧
      f.gateway.dispatcher.cache.contains "p" = true ∧
      f.gateway.dispatcher.streams.find? "p" = none ∧
      (f.clients.find? 3).map Client.waiting = some [{ id := "p", stream := false }] := by
  decide +kernel

section

variable {half : String}

theorem textSize_saying (finished : Bool) :
    utf8Length (saying half finished).line ≤ textSize half + 54 := by
  have hid : textSize "p" = 3 := by decide
  have hkey : textSize "token" = 7 := by decide
  have hflag := Json.Write.utf8Length_boolean_le finished
  rw [saying, WireMessage.utf8Length_response, Option.elim_some, Option.elim_none, hid, hkey]
  omega

theorem decode_saying (h : textSize half + 54 ≤ maxMessageBytes) (finished : Bool) :
    WireMessage.decode (String.ofList (saying half finished).line) = .ok (saying half finished) :=
  WireMessage.decode_line nofun (Nat.le_trans (textSize_saying finished) h)

/-- Both halves are in the stream. -/
theorem streams_halves {d : Dispatcher} (h : textSize half + 54 ≤ maxMessageBytes)
    (hlive : d.cache.contains "p" = true) (hnone : d.streams.find? "p" = none) :
    ((d.applyBackend (.hear 1 0 (String.ofList (saying half false).line))).applyBackend
        (.hear 2 0 (String.ofList (saying half true).line))).streams.find? "p" =
      some { fragments := [half, half], finished := true } := by
  obtain ⟨t, ht⟩ := (TaskCache.contains_iff _ _).mp hlive
  obtain ⟨hfirst, t', ht'⟩ := Dispatcher.find?_hear (decode_saying h false) ht
    (by simp [Dispatcher.streamFinished, hnone]) (Option.some_ne_none _) 1 0
  generalize d.applyBackend (.hear 1 0 (String.ofList (saying half false).line)) = d' at *
  have hone : d'.streams.find? "p" = some { fragments := [half] } := by
    rw [Dispatcher.streamOf, hnone] at hfirst
    exact hfirst
  obtain ⟨hsecond, -⟩ := Dispatcher.find?_hear (decode_saying h true) ht'
    (by simp [Dispatcher.streamFinished, hone]) (Option.some_ne_none _) 2 0
  rw [Dispatcher.streamOf, hone] at hsecond
  exact hsecond

/-- What the worker says. -/
def halves (half : String) : List String :=
  [String.ofList (saying half false).line, String.ofList (saying half true).line]

/-- What is read, what of it is heard of the worker, and what is queued. -/
theorem run_answering (h : textSize half + 54 ≤ maxMessageBytes) :
    journal Frontend.apply Frontend.linesRead gateway (answering half) = asking :: halves half ∧
      journal Frontend.apply Frontend.linesHeard gateway (answering half) = halves half ∧
      journal Frontend.apply Frontend.queued gateway (answering half) =
        [.fullResult "p" ("" ++ half ++ half)] := by
  obtain ⟨hread, hheard, hqueued, hlive, hnone, hwaiting⟩ := run_opening
  rw [answering, journal_append, journal_append, journal_append, hread, hheard, hqueued]
  refine ⟨rfl, rfl, ?_⟩
  change [] ++ journal Frontend.apply Frontend.queued (gateway.run opening) _ = _
  generalize gateway.run opening = f at hlive hnone hwaiting
  obtain ⟨c, hc, hw⟩ := Option.map_eq_some_iff.mp hwaiting
  have hmessages := Dispatcher.messages_handOver (w := { id := "p", stream := false })
    (streams_halves h hlive hnone) rfl rfl (Nat.zero_le _) rfl 3 (by decide : 2 < 8)
  have hdelivered : ∀ d : Dispatcher, (c.queued (.deliver d 3 8 3)) =
      (d.handOver 3 8 { id := "p", stream := false }).1.messages := by
    intro d
    simp [Client.queued, Client.deliverLog, hw, journal, List.filterMap_map, Function.comp_def,
      Observation.message?]
  simp only [journal, Frontend.queued, Frontend.apply, Frontend.withEngine, hc, hdelivered,
    hmessages]
  rfl

/-- Every line is at least as short as the longer half and its envelope. -/
theorem read_answering_le (h : textSize half + 54 ≤ maxMessageBytes) :
    ∀ line ∈ journal Frontend.apply Frontend.linesRead gateway (answering half),
      utf8Length line.toList ≤ textSize half + 54 := by
  have hasking : utf8Length asking.toList ≤ 2 + 54 := by decide
  have hhalf := textSize_eq half
  rw [(run_answering h).1, halves]
  simp only [List.forall_mem_cons, String.toList_ofList]
  exact ⟨by omega, textSize_saying false, textSize_saying true,
    List.forall_mem_nil _⟩

end

/-- A short answer is read one byte at a time. -/
theorem reply_lines_composed_short :
    (∀ line ∈ journal Frontend.apply Frontend.linesRead gateway (answering "hi"),
      utf8Length line.toList ≤ 58) ∧
    (∀ o m, .receive o m ∈ answering "hi" → ∀ k, textSize (m.newId k) ≤ 58) ∧
    (∃ k, Composed 58 (halves "hi") (.fullResult "p" "hihi") k) ∧
    Frame.feed Frame.drainMessages [] ((WireMessage.fullResult "p" "hihi").encode.map ([·])) =
      ([.ok (.fullResult "p" "hihi")], []) := by
  have hlines : ∀ line ∈ journal Frontend.apply Frontend.linesRead gateway (answering "hi"),
      utf8Length line.toList ≤ 58 := read_answering_le (by decide)
  have hids : ∀ o m, .receive o m ∈ answering "hi" → ∀ k, textSize (m.newId k) ≤ 58 := by
    intro o m hm k
    simp [answering, opening] at hm
    obtain ⟨-, rfl⟩ := hm
    show textSize "" ≤ 58
    decide
  obtain ⟨hqueued, -⟩ := reply_lines_composed {} 3 58 (answering "hi") hlines hids
  have hanswer : WireMessage.fullResult "p" "hihi" ∈
      journal Frontend.apply Frontend.queued gateway (answering "hi") := by
    rw [(run_answering (by decide)).2.2]
    exact List.mem_singleton.mpr rfl
  obtain ⟨⟨k, hk, -⟩, hread, -⟩ := hqueued _ hanswer
  have hheard : journal Frontend.apply Frontend.linesHeard gateway (answering "hi") = halves "hi" :=
    (run_answering (by decide)).2.1
  have hsingle := hread [] ((WireMessage.fullResult "p" "hihi").encode.map ([·]))
    (List.forall_mem_nil _) (List.forall_mem_nil _)
  refine ⟨hlines, hids, ⟨k, hheard ▸ hk⟩, (hsingle ?_).mpr (by decide +kernel)⟩
  rw [← List.flatMap_def, List.flatMap_singleton']
  rfl

/-- The longest half of one-byte characters. -/
def long : String := String.ofList (List.replicate (maxMessageBytes - 56) 'a')

theorem textSize_long : textSize long + 54 = maxMessageBytes := by
  rw [textSize_eq, long, String.toList_ofList, Forwarding.written_replicate]
  rfl

/-- No line that is read is too long, and the answer that is queued is refused. -/
theorem long_answer_refused :
    (∀ line ∈ journal Frontend.apply Frontend.linesRead gateway (answering long),
      utf8Length line.toList ≤ maxMessageBytes) ∧
    ∃ answer, journal Frontend.apply Frontend.queued gateway (answering long) = [answer] ∧
      maxMessageBytes < utf8Length answer.line ∧
      Frame.feed Frame.drainMessages [] [answer.encode] = ([.error .oversized], []) := by
  have hsize : textSize long + 54 ≤ maxMessageBytes := Nat.le_of_eq textSize_long
  have hlong : maxMessageBytes <
      utf8Length (WireMessage.fullResult "p" ("" ++ long ++ long)).line := by
    have hid : textSize "p" = 3 := by decide
    have hempty : textSize "" = 2 := by decide
    have hfirst := textSize_append "" long
    have hsecond := textSize_append ("" ++ long) long
    have hhalf := textSize_long
    have hceiling : maxMessageBytes = 65536 := rfl
    rw [WireMessage.size_fullResult]
    omega
  refine ⟨fun line hline => Nat.le_trans (read_answering_le hsize line hline) hsize, _,
    (run_answering hsize).2.2, hlong, Frame.feed_encode_of_long nofun ?_⟩
  rw [WireMessage.length_encode]
  exact Nat.add_lt_add_right hlong 1

end Ceiling

end PromptGateway
