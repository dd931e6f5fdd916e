import PromptGateway.Dispatcher

/-
  One client and the requests it waits for.

  Lines of a client become requests of the dispatch engine. What the engine has
  for a waiting request is written out as messages: for a streamed request every
  fragment at once and an end, for any other the whole answer in one piece, and
  for a request that has failed the reason. Messages collect in the outbox, and
  the link takes from it what it has room for.

  What is proved: `outbox_flush`, a flush that stops short without a reason to
  close the link has met a link that would block.
-/

namespace PromptGateway

/-- A request that a client waits for. -/
structure WaitingRequest where
  id : RequestId
  stream : Bool
  /-- The fragments of an answer that is to be given in one piece. -/
  gathered : String := ""
  deriving DecidableEq, Repr

namespace WaitingRequest

/-- What is written for one fragment. -/
def reply (w : WaitingRequest) (fragment : String) : List WireMessage :=
  if w.stream then [.token w.id fragment] else []

/-- The request after one fragment. -/
def gather (w : WaitingRequest) (fragment : String) : WaitingRequest :=
  if w.stream then w else { w with gathered := w.gathered ++ fragment }

theorem id_gather (w : WaitingRequest) (fragment : String) : (w.gather fragment).id = w.id := by
  unfold gather
  split <;> rfl

theorem stream_gather (w : WaitingRequest) (fragment : String) :
    (w.gather fragment).stream = w.stream := by
  unfold gather
  split <;> rfl

/-- What is written when everything has been handed out. -/
def ending (w : WaitingRequest) : WireMessage :=
  if w.stream then .streamEnd w.id else .fullResult w.id w.gathered

end WaitingRequest

/-- What one sweep does for one request. -/
structure Handover where
  /-- The request, if the client still waits for it. -/
  remaining : Option WaitingRequest
  /-- The messages to write. -/
  messages : List WireMessage := []
  /-- How many fragments were handed out. -/
  moved : Nat := 0
  deriving DecidableEq, Repr

/-- Hands out up to `cap` fragments of one request. -/
def Dispatcher.handOver (now : Millis) :
    Nat → WaitingRequest → Dispatcher → Handover × Dispatcher
  | 0, w, d => ({ remaining := some w }, d)
  | cap + 1, w, d =>
    match d.nextFragment w.id with
    | (.fragment f, d) =>
      let (h, d) := handOver now cap (w.gather f) d
      ({ h with messages := w.reply f ++ h.messages, moved := h.moved + 1 }, d)
    | (.finished, d) => ({ remaining := none, messages := [w.ending] }, d.finishDelivery w.id now)
    | (.failed reason, d) => ({ remaining := none, messages := [.failure w.id reason] }, d)
    | (.nothing, d) => ({ remaining := some w }, d)

/-- One client. -/
structure Client where
  link : Link := .fresh
  /-- What has arrived of a line that is not complete. -/
  inbox : Bytes := []
  /-- What has yet to be written. -/
  outbox : Bytes := []
  waiting : List WaitingRequest := []
  deriving DecidableEq, Repr

namespace Client

/-! ## Reading -/

/-- Puts messages at the end of the outbox. -/
def enqueue (c : Client) (messages : List WireMessage) : Client :=
  { c with outbox := c.outbox ++ messages.flatMap WireMessage.encode }

/-- Takes in one message. Anything but a request or a heartbeat is refused. -/
def takeMessage (c : Client) (d : Dispatcher) (m : Moment) (owner : ConnectionId) :
    WireMessage → Client × Dispatcher
  | .request r =>
    match d.admitRequest m r owner with
    | .ok (record, d) =>
      ({ c with waiting := c.waiting ++ [{ id := record.id, stream := record.payload.stream }] }, d)
    | .error e => (c.enqueue [.failure (r.requestedId.getD "") e.message], d)
  | .heartbeat => (c.enqueue [.heartbeat], d)
  | other =>
    (c.enqueue [.failure "" s!"unexpected '{other.kind.name}' message from client"], d)

/-- Takes in one line, or the fault it has. -/
def takeEntry (m : Moment) (owner : ConnectionId) (s : Client × Dispatcher) :
    Except DecodeError WireMessage → Client × Dispatcher
  | .ok message => s.1.takeMessage s.2 m owner message
  | .error e => (s.1.enqueue [.failure "" e.message], s.2)

/-- Reads whatever has arrived and takes in every complete line. The link is to
be closed when it has ended or failed, and then no line is looked at. -/
def receive (c : Client) (d : Dispatcher) (m : Moment) (owner : ConnectionId) :
    Bool × Client × Dispatcher :=
  let (bytes, ended, link) := c.link.readAll
  let c := { c with link := link, inbox := c.inbox ++ bytes }
  if ended then (true, c, d)
  else
    let (entries, rest) := Frame.drainMessages c.inbox
    (false, entries.foldl (takeEntry m owner) ({ c with inbox := rest }, d))

/-! ## Writing -/

/-- Hands out up to `cap` fragments of every waiting request, and counts them. -/
def deliver (c : Client) (d : Dispatcher) (cap : Nat) (now : Millis) :
    Nat × Client × Dispatcher :=
  c.waiting.foldl
    (fun (n, c, d) w =>
      let (h, d) := d.handOver now cap w
      (n + h.moved,
        { c.enqueue h.messages with waiting := c.waiting ++ h.remaining.toList }, d))
    (0, { c with waiting := [] }, d)

/-- Whether there is something to write. -/
def wantsWrite (c : Client) : Bool := !c.outbox.isEmpty

/-- Writes the outbox until it is empty or the link would block, and whether the
link is to be closed. -/
def flush (c : Client) : Bool × Client :=
  if _he : c.outbox = [] then (false, c)
  else match _h : c.link.write c.outbox with
    | (.accepted 0, link) => (true, { c with link := link })
    | (.accepted (n + 1), link) =>
      flush { c with link := link, outbox := c.outbox.drop (n + 1) }
    | (.wouldBlock, link) => (false, { c with link := link })
    | (.failed .interrupted, link) => flush { c with link := link }
    | (.failed _, link) => (true, { c with link := link })
  termination_by c.outbox.length + c.link.interruptions
  decreasing_by
    · have := Link.interruptions_of_accepted _h
      have := List.length_pos_iff.mpr _he
      simp only [List.length_drop]
      omega
    · have := Link.interruptions_of_interrupted _h
      omega

/-- Gives up everything the client waits for. -/
def release (c : Client) (d : Dispatcher) (owner : ConnectionId) (now : Millis) :
    Client × Dispatcher :=
  let (_, d) := d.cancelConnection owner now
  ({ c with waiting := [] }, c.waiting.foldl (fun d w => d.clearStream w.id) d)

/-- A flush that leaves something behind and does not ask for the link to be
closed has met a link that would block. -/
theorem outbox_flush {c c' : Client} (h : c.flush = (false, c')) :
    c'.outbox = [] ∨ ∃ l : Link, l.write c'.outbox = (.wouldBlock, c'.link) := by
  fun_induction flush c with
  | case1 c he => cases h; exact .inl he
  | case2 c he l hw => cases h
  | case3 c he n l hw ih => exact ih h
  | case4 c he l hw => cases h; exact .inr ⟨c.link, hw⟩
  | case5 c he l hw ih => exact ih h
  | case6 c he e l hw => cases h

end Client

end PromptGateway
