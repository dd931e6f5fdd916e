import PromptGateway.Proofs.Admission
import PromptGateway.Proofs.Packets
import PromptGateway.Proofs.Runaway

/-
  Every line of a client is answered once.

  What has arrived from a client is taken apart into entries: one for each complete line that
  is not blank, and one more if the buffer had to be given up. The entries are dealt with one
  after the other, and each sees the engine as those before it left it. There are two reactions
  to an entry: a request that is admitted is waited for, and everything else is replied to at
  once.

    1. `Reacts` says which entry has which reaction, and what becomes of the engine;
       `reacts_iff` that `reaction` computes it, so that there is always exactly one.
    2. `takeEntry_eq` and `foldl_takeEntry`: this is all that is done to the client.
    3. `ReactsAll.without`: an entry that is only replied to could as well not have come.
    4. `lines_answered_once` puts this together for what `receive` does with a link.
-/

namespace PromptGateway

/-- What an entry of a client comes to. -/
inductive Reaction where
  /-- The request is waited for from now on. -/
  | waits (w : WaitingRequest)
  | replies (message : WireMessage)

namespace Reaction

/-- The request that is waited for. -/
def waiting? : Reaction → Option WaitingRequest
  | waits w => some w
  | replies _ => none

/-- The reply. -/
def message? : Reaction → Option WireMessage
  | waits _ => none
  | replies message => some message

/-- A reaction is one or the other. -/
theorem length_parts (l : List Reaction) :
    (l.filterMap waiting?).length + (l.filterMap message?).length = l.length := by
  induction l with
  | nil => rfl
  | cons a l ih =>
    cases a with
    | waits w =>
      simp only [List.filterMap_cons, waiting?, message?, List.length_cons]
      omega
    | replies message =>
      simp only [List.filterMap_cons, waiting?, message?, List.length_cons]
      omega

end Reaction

namespace Client

variable {m : Moment} {owner : ConnectionId} {d d' : Dispatcher}

/-! ## One entry -/

/-- Which reaction an entry has, and the engine after it. Only an admission changes the
engine. -/
inductive Reacts (m : Moment) (owner : ConnectionId) (d : Dispatcher) :
    Except DecodeError WireMessage → Reaction → Dispatcher → Prop where
  | admitted {r : InferenceRequest} {record : TaskRecord} {d' : Dispatcher} :
      d.admitInPlace m r owner = (.ok record, d') →
      Reacts m owner d (.ok (.request r))
        (.waits { id := record.id, stream := record.payload.stream }) d'
  | rejected {r : InferenceRequest} {e : AdmissionError} :
      d.admitInPlace m r owner = (.error e, d) →
      Reacts m owner d (.ok (.request r))
        (.replies (.failure (Text.trimmed (r.id.getD "")) e.message)) d
  | heartbeat : Reacts m owner d (.ok .heartbeat) (.replies .heartbeat) d
  | undecodable {e : DecodeError} : Reacts m owner d (.error e) (.replies (.failure "" e.message)) d
  | unexpected {message : WireMessage} : message.kind ≠ .request → message.kind ≠ .heartbeat →
      Reacts m owner d (.ok message)
        (.replies (.failure "" s!"unexpected '{message.kind.name}' message from client")) d

/-- The reaction to an entry, and the engine after it. -/
def reaction (m : Moment) (owner : ConnectionId) (d : Dispatcher) :
    Except DecodeError WireMessage → Reaction × Dispatcher
  | .ok (.request r) =>
    match d.admitRequest m r owner with
    | .ok (record, d') => (.waits { id := record.id, stream := record.payload.stream }, d')
    | .error e => (.replies (.failure (r.requestedId.getD "") e.message), d)
  | .ok .heartbeat => (.replies .heartbeat, d)
  | .ok message =>
    (.replies (.failure "" s!"unexpected '{message.kind.name}' message from client"), d)
  | .error e => (.replies (.failure "" e.message), d)

theorem requestedId_getD (r : InferenceRequest) :
    r.requestedId.getD "" = Text.trimmed (r.id.getD "") := by
  unfold InferenceRequest.requestedId
  cases r.id with
  | none => rfl
  | some wish => by_cases hblank : Text.trimmed wish = "" <;> simp [hblank, Option.filter]

theorem reacts_reaction (m : Moment) (owner : ConnectionId) (d : Dispatcher)
    (e : Except DecodeError WireMessage) :
    Reacts m owner d e (reaction m owner d e).1 (reaction m owner d e).2 := by
  cases e with
  | error e => exact .undecodable
  | ok message =>
    cases message with
    | request r =>
      rw [reaction]
      cases ha : d.admitRequest m r owner with
      | ok x => exact .admitted (Dispatcher.admitInPlace_ok_iff.mpr ha)
      | error e =>
        dsimp only
        rw [requestedId_getD]
        exact .rejected (Dispatcher.admitInPlace_error_iff.mpr ⟨ha, rfl⟩)
    | heartbeat => exact .heartbeat
    | task t => exact .unexpected nofun nofun
    | response r => exact .unexpected nofun nofun
    | error e => exact .unexpected nofun nofun
    | status s => exact .unexpected nofun nofun

/-- An entry has exactly one reaction. -/
theorem reacts_iff {e : Except DecodeError WireMessage} {a : Reaction} :
    Reacts m owner d e a d' ↔ reaction m owner d e = (a, d') := by
  constructor
  · intro h
    cases h with
    | admitted hplace => rw [reaction, Dispatcher.admitInPlace_ok_iff.mp hplace]
    | rejected hplace =>
      rw [reaction, (Dispatcher.admitInPlace_error_iff.mp hplace).1, ← requestedId_getD]
    | heartbeat => rfl
    | undecodable => rfl
    | @unexpected message hrequest hheartbeat =>
      cases message with
      | request r => exact absurd rfl hrequest
      | heartbeat => exact absurd rfl hheartbeat
      | task t => rfl
      | response r => rfl
      | error e => rfl
      | status s => rfl
  · intro h
    have hreacts := reacts_reaction m owner d e
    rwa [h] at hreacts

/-- The engine is left alone by an entry that is only replied to. -/
theorem Reacts.engine_eq {e : Except DecodeError WireMessage} {message : WireMessage}
    (h : Reacts m owner d e (.replies message) d') : d' = d := by
  cases h with
  | rejected _ => rfl
  | heartbeat => rfl
  | undecodable => rfl
  | unexpected _ _ => rfl

/-! ## One after the other -/

/-- The reactions to entries that are dealt with one after the other. -/
inductive ReactsAll (m : Moment) (owner : ConnectionId) :
    Dispatcher → List (Except DecodeError WireMessage) → List Reaction → Dispatcher → Prop where
  | nil {d : Dispatcher} : ReactsAll m owner d [] [] d
  | cons {d d' d'' : Dispatcher} {e : Except DecodeError WireMessage} {a : Reaction}
      {es : List (Except DecodeError WireMessage)} {as : List Reaction} :
      Reacts m owner d e a d' → ReactsAll m owner d' es as d'' →
      ReactsAll m owner d (e :: es) (a :: as) d''

/-- The engine after some entries. -/
def engineAfter (m : Moment) (owner : ConnectionId) (d : Dispatcher)
    (es : List (Except DecodeError WireMessage)) : Dispatcher :=
  es.foldl (fun d e => (reaction m owner d e).2) d

/-- The reactions to some entries. -/
def reactions (m : Moment) (owner : ConnectionId) (d : Dispatcher)
    (es : List (Except DecodeError WireMessage)) : List Reaction :=
  journal (fun d e => (reaction m owner d e).2) (fun d e => [(reaction m owner d e).1]) d es

variable {es : List (Except DecodeError WireMessage)} {as : List Reaction}

theorem reactsAll_iff : ReactsAll m owner d es as d' ↔
    as = reactions m owner d es ∧ d' = engineAfter m owner d es := by
  constructor
  · intro h
    induction h with
    | nil => exact ⟨rfl, rfl⟩
    | cons hreacts _ ih =>
      rw [reacts_iff] at hreacts
      simp [reactions, journal, engineAfter, hreacts, ih]
  · rintro ⟨rfl, rfl⟩
    induction es generalizing d with
    | nil => exact .nil
    | cons e es ih => exact .cons (reacts_reaction m owner d e) ih

theorem ReactsAll.length_eq (h : ReactsAll m owner d es as d') : as.length = es.length := by
  induction h with
  | nil => rfl
  | cons _ _ ih => rw [List.length_cons, List.length_cons, ih]

/-- An entry that is only replied to could as well not have come: all the others have the
reactions they have. -/
theorem ReactsAll.without {before after : List (Except DecodeError WireMessage)}
    {early late : List Reaction} {e : Except DecodeError WireMessage} {message : WireMessage}
    (h : ReactsAll m owner d (before ++ e :: after) (early ++ .replies message :: late) d')
    (hlength : early.length = before.length) :
    ReactsAll m owner d (before ++ after) (early ++ late) d' := by
  induction before generalizing d early with
  | nil =>
    obtain rfl := List.length_eq_zero_iff.mp hlength
    cases h with
    | cons hreacts hrest =>
      rw [hreacts.engine_eq] at hrest
      exact hrest
  | cons b before ih =>
    cases early with
    | nil => cases hlength
    | cons a early =>
      cases h with
      | cons hreacts hrest => exact .cons hreacts (ih hrest (Nat.succ.inj hlength))

/-! ## The client -/

/-- A client after some reactions. -/
def react (c : Client) (as : List Reaction) : Client :=
  { c with
    waiting := c.waiting ++ as.filterMap Reaction.waiting?
    outbox := c.outbox ++ (as.filterMap Reaction.message?).flatMap WireMessage.encode }

theorem react_cons (c : Client) (a : Reaction) (as : List Reaction) :
    c.react (a :: as) = (c.react [a]).react as := by
  cases a <;> simp [react, List.filterMap_cons, Reaction.waiting?, Reaction.message?]

theorem takeEntry_eq (m : Moment) (owner : ConnectionId) (s : Client × Dispatcher)
    (e : Except DecodeError WireMessage) :
    takeEntry m owner s e =
      (s.1.react [(reaction m owner s.2 e).1], (reaction m owner s.2 e).2) := by
  have hreply : ∀ message : WireMessage, s.1.enqueue [message] = s.1.react [.replies message] := by
    intro message
    simp [enqueue, react, Reaction.waiting?, Reaction.message?]
  cases e with
  | error e => exact congrArg (·, s.2) (hreply _)
  | ok message =>
    cases message with
    | request r =>
      rw [takeEntry, takeMessage, reaction]
      cases s.2.admitRequest m r owner with
      | ok x => simp [react, Reaction.waiting?, Reaction.message?]
      | error e => exact congrArg (·, s.2) (hreply _)
    | heartbeat => exact congrArg (·, s.2) (hreply _)
    | task t => exact congrArg (·, s.2) (hreply _)
    | response r => exact congrArg (·, s.2) (hreply _)
    | error e => exact congrArg (·, s.2) (hreply _)
    | status st => exact congrArg (·, s.2) (hreply _)

theorem foldl_takeEntry (m : Moment) (owner : ConnectionId) (s : Client × Dispatcher)
    (es : List (Except DecodeError WireMessage)) :
    es.foldl (takeEntry m owner) s =
      (s.1.react (reactions m owner s.2 es), engineAfter m owner s.2 es) := by
  induction es generalizing s with
  | nil => simp [reactions, journal, engineAfter, react]
  | cons e es ih =>
    rw [List.foldl_cons, ih, takeEntry_eq, ← react_cons]
    rfl

/-- To read from a client is to react to what has arrived, unless its link is over. -/
theorem receive_eq (c : Client) (d : Dispatcher) (m : Moment) (owner : ConnectionId) :
    c.receive d m owner =
      let buffer := c.inbox ++ c.link.inbound
      let link := { c.link with inbound := [], interruptions := 0 }
      if c.link.isOver then (true, { c with link := link, inbox := buffer }, d)
      else
        let (entries, rest) := Frame.drainMessages buffer
        (false, ({ c with link := link, inbox := rest }).react (reactions m owner d entries),
          engineAfter m owner d entries) := by
  unfold receive
  rw [Link.readAll_eq]
  dsimp only
  split
  · rfl
  · rw [foldl_takeEntry]

end Client

/-! ## Lines -/

namespace Frame

/-- A line of blanks. -/
def Blank (line : Bytes) : Prop :=
  ∃ cs, line = Bytes.ofChars cs ∧ ∀ c ∈ cs, Text.isBlank c = true

/-- A blank line is no entry, and every other line is one. -/
theorem message_cases (line : Bytes) :
    (Blank line ∧ message line = []) ∨ (¬ Blank line ∧ ∃ e, message line = [e]) := by
  have hreads : Reads line (entry line).toList := reads_iff.mpr rfl
  rw [message]
  cases he : entry line with
  | none =>
    rw [he] at hreads
    cases hreads with
    | blank hcs => exact .inl ⟨⟨_, rfl, hcs⟩, rfl⟩
  | some e =>
    refine .inr ⟨?_, _, rfl⟩
    rintro ⟨cs, rfl, hcs⟩
    have hnone := reads_iff.mp (Reads.blank hcs)
    rw [he] at hnone
    cases hnone

/-- The fault for what is left after the last newline, if it has grown too long. -/
def overflow (tail : Bytes) : List (Except DecodeError WireMessage) :=
  if maxMessageBytes < tail.length then [.error .oversized] else []

theorem drainMessages_eq {buffer tail : Bytes} {lines : List Bytes} (h : Parts buffer lines tail) :
    drainMessages buffer = (lines.flatMap message ++ overflow tail,
      if maxMessageBytes < tail.length then [] else tail) := by
  have hlines : (lines.filterMap entry).map (· >>= WireMessage.decode) = lines.flatMap message := by
    rw [List.filterMap_eq_flatMap_toList, List.map_flatMap]
    refine List.flatMap_congr fun l _ => ?_
    rw [message]
    cases entry l <;> rfl
  rw [drainMessages, drainLines, h.splitLines_eq]
  dsimp only
  rw [overflow]
  split
  · rw [List.map_append, hlines]
    rfl
  · rw [hlines, List.append_nil]

end Frame

open Client in
/-- What reading from a client does, whatever has arrived and in whatever state the client and
the engine are. If the link is over, whether it has ended or was reset, no line is looked at:
everything stays in the buffer and the engine is as it was.

Otherwise what is in the buffer is lines and a tail. A blank line is no entry, any other line is
exactly one, and a tail that is too long is one more. There is exactly one list of reactions
that goes with the entries in their order, each of them to the engine that the one before left:
a request that is admitted is waited for, under the id of its record, and nothing is queued; one
that is refused leaves the engine alone and is replied to with the id that was asked for and the
wording of the refusal; a heartbeat is sent back; and an entry that cannot be read, or is a
message of another kind, is replied to without an id. That is all that is done: there are as many
new requests and replies together as there are entries, and the engine and all other reactions
are the same without any entry that was only replied to. -/
theorem lines_answered_once (c : Client) (d : Dispatcher) (m : Moment) (owner : ConnectionId) :
    let buffer := c.inbox ++ c.link.inbound
    let link := { c.link with inbound := [], interruptions := 0 }
    (c.link.isOver = true →
      c.receive d m owner = (true, { c with link := link, inbox := buffer }, d)) ∧
    (c.link.isOver = false → ∃ lines tail, Frame.Parts buffer lines tail ∧
      let entries := lines.flatMap Frame.message ++ Frame.overflow tail
      (∀ line ∈ lines, (Frame.Blank line ∧ Frame.message line = []) ∨
        (¬ Frame.Blank line ∧ ∃ e, Frame.message line = [e])) ∧
      ∃ reactions d',
        (∀ as d'', ReactsAll m owner d entries as d'' ↔ as = reactions ∧ d'' = d') ∧
        c.receive d m owner =
          (false,
            { link := link
              inbox := if maxMessageBytes < tail.length then [] else tail
              outbox := c.outbox ++
                (reactions.filterMap Reaction.message?).flatMap WireMessage.encode
              waiting := c.waiting ++ reactions.filterMap Reaction.waiting? }, d') ∧
        (reactions.filterMap Reaction.waiting?).length +
          (reactions.filterMap Reaction.message?).length = entries.length ∧
        ∀ before e after early message late, entries = before ++ e :: after →
          reactions = early ++ .replies message :: late → early.length = before.length →
          ReactsAll m owner d (before ++ after) (early ++ late) d') := by
  intro buffer link
  have hreceive := c.receive_eq d m owner
  dsimp only at hreceive
  refine ⟨fun hover => ?_, fun hover => ?_⟩
  · rw [hreceive, if_pos hover]
  · have hparts := Frame.parts_splitLines buffer
    refine ⟨_, _, hparts, ?_⟩
    intro entries
    rw [hover, if_neg Bool.false_ne_true, Frame.drainMessages_eq hparts] at hreceive
    have hall : ReactsAll m owner d entries (reactions m owner d entries)
        (engineAfter m owner d entries) := reactsAll_iff.mpr ⟨rfl, rfl⟩
    refine ⟨fun line _ => Frame.message_cases line, reactions m owner d entries,
      engineAfter m owner d entries, fun as d'' => reactsAll_iff, hreceive, ?_, ?_⟩
    · rw [Reaction.length_parts, hall.length_eq]
    · intro before e after early message late hentries hreactions hlength
      rw [hentries] at hall
      rw [hentries] at hreactions
      rw [hreactions] at hall
      rw [hentries]
      exact hall.without hlength

end PromptGateway
