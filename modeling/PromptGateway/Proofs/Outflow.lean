import PromptGateway.Proofs.Replies

/-
  The bytes that go out to a client.

  Messages are put at the end of the outbox and the socket takes bytes from its front, as many
  or as few at a time as it likes. Between two attempts to write there may be new messages, and
  an attempt need not even offer all that is there: the outbox lies in a ring, and only the part
  up to the end of the ring is in one piece.

    1. `writeOut` is a call that writes, against a socket that may answer anything. What was
       accepted and what is left are the outbox (`accepted_writeOut`); and a call that leaves
       something and does not ask for the link to be closed is one that was told to wait
       (`verdict_writeOut`).
    2. `Link.answers` are what a link answers to such a call. What it accepts goes out
       (`outbound_answers`), and to flush is to write with its answers (`flush_eq_writeOut`).
    3. `outflow_call` is about one call, `outflow_intact` about any number of them.
-/

namespace PromptGateway

/-- How many bytes a write has taken. -/
def WriteOutcome.count : WriteOutcome → Nat
  | accepted n => n
  | wouldBlock | failed _ => 0

/-- A write never takes more than it was given, and what it takes is on its way if there is
somebody at the far end. -/
theorem Link.write_spec {l l' : Link} {payload : Bytes} {out : WriteOutcome}
    (h : l.write payload = (out, l')) :
    out.count ≤ payload.length ∧ (l'.farEnd = .present ↔ l.farEnd = .present) ∧
      l'.outbound = l.outbound ++ if l.farEnd = .present then payload.take out.count else [] := by
  unfold write at h
  split at h
  · cases h
    simp [WriteOutcome.count]
  · split at h
    · cases h
      simp [WriteOutcome.count]
    · split at h
      · cases h
        simp [WriteOutcome.count]
      · next hfar =>
        cases h
        simp [WriteOutcome.count, hfar]
      · cases h
        simp [WriteOutcome.count]
      · split at h
        · cases h
          simp [WriteOutcome.count]
        · next hfar _ =>
          cases h
          refine ⟨Nat.min_le_right _ _, ?_⟩
          simp [WriteOutcome.count, hfar]

/-- An attempt to write: what is offered is the first byte of the outbox and so many beyond it,
and the socket answers. -/
structure Offer where
  beyond : Nat
  answer : WriteOutcome
  deriving DecidableEq, Repr

/-- What has come of writing an outbox. -/
structure Writing where
  accepted : Bytes := []
  left : Bytes
  /-- Whether the link is to be closed; nothing while there is more to be attempted. -/
  verdict : Option Bool
  deriving DecidableEq, Repr

/-- Writes an outbox, attempt by attempt. -/
def writeOut : List Offer → Bytes → Writing
  | [], outbox => { left := outbox, verdict := if outbox = [] then some false else none }
  | o :: offers, outbox =>
    if outbox = [] then { left := [], verdict := some false }
    else match o.answer with
      | .accepted 0 => { left := outbox, verdict := some true }
      | .accepted (n + 1) =>
        let taken := min (n + 1) (outbox.take (o.beyond + 1)).length
        let w := writeOut offers (outbox.drop taken)
        { w with accepted := outbox.take taken ++ w.accepted }
      | .wouldBlock => { left := outbox, verdict := some false }
      | .failed .interrupted => writeOut offers outbox
      | .failed _ => { left := outbox, verdict := some true }

/-- Nothing is lost, repeated or put in another order. -/
theorem accepted_writeOut (offers : List Offer) (outbox : Bytes) :
    (writeOut offers outbox).accepted ++ (writeOut offers outbox).left = outbox := by
  fun_induction writeOut offers outbox with
  | case1 outbox => rfl
  | case2 o offers => rfl
  | case3 o offers outbox hne hanswer => rfl
  | case4 o offers outbox hne n hanswer taken w ih =>
    rw [List.append_assoc, ih, List.take_append_drop]
  | case5 o offers outbox hne hanswer => rfl
  | case6 o offers outbox hne hanswer ih => exact ih
  | case7 o offers outbox hne e hanswer => rfl

/-- A call that has not been settled still has something to write. -/
theorem left_ne_nil {offers : List Offer} {outbox : Bytes}
    (h : (writeOut offers outbox).verdict = none) : (writeOut offers outbox).left ≠ [] := by
  fun_induction writeOut offers outbox with
  | case1 outbox =>
    intro hnil
    simp only at h hnil
    simp [hnil] at h
  | case2 o offers => cases h
  | case3 o offers outbox hne hanswer => cases h
  | case4 o offers outbox hne n hanswer taken w ih => exact ih h
  | case5 o offers outbox hne hanswer => cases h
  | case6 o offers outbox hne hanswer ih => exact ih h
  | case7 o offers outbox hne e hanswer => cases h

/-- After attempts that have not settled it, a call goes on with what they have left. -/
theorem writeOut_append {before : List Offer} {outbox : Bytes}
    (h : (writeOut before outbox).verdict = none) (offers : List Offer) :
    writeOut (before ++ offers) outbox =
      let w := writeOut before outbox
      let rest := writeOut offers w.left
      { rest with accepted := w.accepted ++ rest.accepted } := by
  fun_induction writeOut before outbox with
  | case1 outbox => rfl
  | case2 o before => cases h
  | case3 o before outbox hne hanswer => cases h
  | case4 o before outbox hne n hanswer taken w ih =>
    rw [List.cons_append, writeOut, if_neg hne, hanswer]
    dsimp only
    rw [ih h]
    simp [taken, w]
  | case5 o before outbox hne hanswer => cases h
  | case6 o before outbox hne hanswer ih =>
    rw [List.cons_append, writeOut, if_neg hne, hanswer]
    exact ih h
  | case7 o before outbox hne e hanswer => cases h

/-- A call leaves something and does not ask for the link to be closed exactly when an attempt
that it came to was told to wait. -/
theorem verdict_writeOut (offers : List Offer) (outbox : Bytes) :
    ((writeOut offers outbox).verdict = some false ∧ (writeOut offers outbox).left ≠ []) ↔
      ∃ used o unused, offers = used ++ o :: unused ∧ (writeOut used outbox).verdict = none ∧
        o.answer = .wouldBlock := by
  constructor
  · rintro ⟨hverdict, hleft⟩
    fun_induction writeOut offers outbox with
    | case1 outbox =>
      simp only at hverdict hleft
      simp [hleft] at hverdict
    | case2 o offers => exact absurd rfl hleft
    | case3 o offers outbox hne hanswer => cases hverdict
    | case4 o offers outbox hne n hanswer taken w ih =>
      obtain ⟨used, last, unused, rfl, hused, hlast⟩ := ih hverdict hleft
      refine ⟨o :: used, last, unused, rfl, ?_, hlast⟩
      rw [writeOut, if_neg hne, hanswer]
      exact hused
    | case5 o offers outbox hne hanswer =>
      refine ⟨[], o, offers, rfl, ?_, hanswer⟩
      rw [writeOut, if_neg hne]
    | case6 o offers outbox hne hanswer ih =>
      obtain ⟨used, last, unused, rfl, hused, hlast⟩ := ih hverdict hleft
      refine ⟨o :: used, last, unused, rfl, ?_, hlast⟩
      rw [writeOut, if_neg hne, hanswer]
      exact hused
    | case7 o offers outbox hne e hanswer => cases hverdict
  · rintro ⟨used, o, unused, rfl, hused, ho⟩
    have hleft := left_ne_nil hused
    rw [writeOut_append hused]
    dsimp only
    rw [writeOut, if_neg hleft, ho]
    exact ⟨rfl, hleft⟩

/-! ## The answers of a link -/

namespace Link

/-- What a link answers to attempts that offer so many bytes beyond the first, and the link then.
There is no attempt behind one that settles the call. -/
def answers (l : Link) : List Nat → Bytes → List Offer × Link
  | [], _ => ([], l)
  | n :: sizes, outbox =>
    if outbox = [] then ([], l)
    else match l.write (outbox.take (n + 1)) with
      | (.accepted (k + 1), l) =>
        let (offers, last) := answers l sizes (outbox.drop (k + 1))
        (⟨n, .accepted (k + 1)⟩ :: offers, last)
      | (.failed .interrupted, l) =>
        let (offers, last) := answers l sizes outbox
        (⟨n, .failed .interrupted⟩ :: offers, last)
      | (answer, l) => ([⟨n, answer⟩], l)

/-- A link that would block is left as it is. -/
theorem eq_of_wouldBlock {l l' : Link} {payload : Bytes}
    (h : l.write payload = (.wouldBlock, l')) : l' = l := by
  unfold write at h
  split at h
  · cases h
  · split at h
    · cases h
    · split at h
      · cases h
      · cases h
      · cases h
      · split at h
        · cases h
          rfl
        · cases h

end Link

/-- A part of what is on offer is taken. -/
theorem writeOut_accepted {outbox : Bytes} {m n : Nat}
    (hn : n + 1 ≤ (outbox.take (m + 1)).length) (offers : List Offer) :
    writeOut (⟨m, .accepted (n + 1)⟩ :: offers) outbox =
      let w := writeOut offers (outbox.drop (n + 1))
      { w with accepted := outbox.take (n + 1) ++ w.accepted } := by
  have hne : outbox ≠ [] := by
    rintro rfl
    simp at hn
  rw [writeOut, if_neg hne]
  simp only [Nat.min_eq_left hn]

/-- Whatever is offered to a link, what it accepts is what has gone out to a far end that is
there. -/
theorem outbound_answers (l : Link) (sizes : List Nat) (outbox : Bytes) :
    ((l.answers sizes outbox).2.farEnd = .present ↔ l.farEnd = .present) ∧
      (l.answers sizes outbox).2.outbound = l.outbound ++
        if l.farEnd = .present then (writeOut (l.answers sizes outbox).1 outbox).accepted
        else [] := by
  fun_induction Link.answers l sizes outbox with
  | case1 l outbox => simp [writeOut]
  | case2 l n sizes => simp [writeOut]
  | case3 l n sizes outbox hne k l' hw offers last he ih =>
    obtain ⟨hcount, hfar, hout⟩ := Link.write_spec hw
    rw [he] at ih
    refine ⟨ih.1.trans hfar, ?_⟩
    rw [writeOut_accepted hcount, ih.2, hout]
    have htake : (outbox.take (n + 1)).take (k + 1) = outbox.take (k + 1) := by
      have hle : k + 1 ≤ n + 1 := Nat.le_trans hcount (List.length_take_le _ _)
      rw [List.take_take, Nat.min_eq_left hle]
    simp only [hfar, List.append_assoc, WriteOutcome.count, htake]
    split
    · rfl
    · rfl
  | case4 l n sizes outbox hne l' hw offers last he ih =>
    obtain ⟨-, hfar, hout⟩ := Link.write_spec hw
    rw [he] at ih
    refine ⟨ih.1.trans hfar, ?_⟩
    rw [writeOut, if_neg hne, ih.2, hout]
    simp [hfar, WriteOutcome.count]
  | case5 l n sizes outbox hne answer l' hacc hint hw =>
    obtain ⟨-, hfar, hout⟩ := Link.write_spec hw
    refine ⟨hfar, ?_⟩
    rw [hout]
    -- an attempt that settles the call without having been accepted takes nothing
    cases answer with
    | accepted k =>
      cases k with
      | zero => simp [WriteOutcome.count, writeOut, hne]
      | succ k => exact (hacc k rfl).elim
    | wouldBlock => simp [WriteOutcome.count, writeOut, hne]
    | failed e =>
      cases e with
      | interrupted => exact (hint rfl).elim
      | brokenPipe => simp [WriteOutcome.count, writeOut, hne]
      | connectionReset => simp [WriteOutcome.count, writeOut, hne]

namespace Client

/-- To flush is to write, with the whole outbox on offer each time: the same is left, the same
is said about the link, and the link is what its answers make of it. -/
theorem flush_eq_writeOut (c : Client) {n : Nat} (hn : c.outbox.length ≤ n) : ∃ attempts,
    let (offers, last) := c.link.answers (List.replicate attempts n) c.outbox
    c.flush.2 = { c with link := last, outbox := (writeOut offers c.outbox).left } ∧
      (writeOut offers c.outbox).verdict = some c.flush.1 := by
  have hoffer : ∀ {c : Client}, c.outbox.length ≤ n → c.outbox.take (n + 1) = c.outbox :=
    fun h => List.take_of_length_le (Nat.le_succ_of_le h)
  fun_induction flush c with
  | case1 c he =>
    obtain ⟨link, inbox, outbox, waiting⟩ := c
    obtain rfl : outbox = [] := he
    exact ⟨0, rfl, rfl⟩
  | case2 c he l hw =>
    refine ⟨1, ?_⟩
    simp [Link.answers, he, hoffer hn, hw, writeOut]
  | case3 c he k l hw ih =>
    obtain ⟨attempts, hclient, hverdict⟩ := ih (by rw [List.length_drop]; omega)
    refine ⟨attempts + 1, ?_⟩
    rw [List.replicate_succ, Link.answers, if_neg he, hoffer hn, hw]
    dsimp only
    rw [writeOut_accepted (by rw [hoffer hn]; exact (Link.write_spec hw).1)]
    exact ⟨hclient, hverdict⟩
  | case4 c he l hw =>
    refine ⟨1, ?_⟩
    simp [Link.answers, he, hoffer hn, hw, writeOut]
  | case5 c he l hw ih =>
    obtain ⟨attempts, hclient, hverdict⟩ := ih hn
    refine ⟨attempts + 1, ?_⟩
    rw [List.replicate_succ, Link.answers, if_neg he, hoffer hn, hw]
    dsimp only
    rw [writeOut, if_neg he]
    exact ⟨hclient, hverdict⟩
  | case6 c he e l hinterrupted hw =>
    refine ⟨1, ?_⟩
    cases e with
    | interrupted => exact (hinterrupted rfl).elim
    | brokenPipe => simp [Link.answers, he, hoffer hn, hw, writeOut]
    | connectionReset => simp [Link.answers, he, hoffer hn, hw, writeOut]

/-! ## Calls -/

/-- One call for a client. What has arrived by then, the engine and the clock are whatever they
are, and the socket answers as it likes. -/
inductive Call where
  | receive (link : Link) (d : Dispatcher) (m : Moment) (owner : ConnectionId)
  | deliver (d : Dispatcher) (owner : ConnectionId) (cap : Nat) (now : Millis)
  | write (offers : List Offer)

/-- The client after a call. -/
def call (c : Client) : Call → Client
  | .receive link d m owner => ({ c with link := link }.receive d m owner).2.1
  | .deliver d _ cap now => (c.deliver d cap now).2.1
  | .write offers => { c with outbox := (writeOut offers c.outbox).left }

/-- The messages that a call queues: the replies to what was read, or what is delivered. -/
def queued (c : Client) : Call → List WireMessage
  | .receive link d m owner =>
    if link.isOver then []
    else
      let entries := (Frame.drainMessages (c.inbox ++ link.inbound)).1
      (reactions m owner d entries).filterMap Reaction.message?
  | .deliver d owner cap now => (c.deliverLog d owner cap now).filterMap Observation.message?
  | .write _ => []

/-- The bytes that the socket accepts in a call. -/
def accepted (c : Client) : Call → Bytes
  | .receive _ _ _ _ | .deliver _ _ _ _ => []
  | .write offers => (writeOut offers c.outbox).accepted

/-- One call: what is accepted comes off the front of the outbox, and what is queued goes to
its end. -/
theorem outflow_call (c : Client) (t : Call) :
    c.accepted t ++ (c.call t).outbox = c.outbox ++ (c.queued t).flatMap WireMessage.encode := by
  cases t with
  | receive link d m owner =>
    have hreceive := { c with link := link }.receive_eq d m owner
    simp only [call, queued, accepted, List.nil_append]
    dsimp only at hreceive
    rw [hreceive]
    split
    · simp
    · rfl
  | deliver d owner cap now => exact c.outbox_deliver d owner cap now
  | write offers =>
    calc (writeOut offers c.outbox).accepted ++ (writeOut offers c.outbox).left
        = c.outbox := accepted_writeOut offers c.outbox
      _ = c.outbox ++ [].flatMap WireMessage.encode := (List.append_nil _).symm

/-- Any calls. -/
theorem outflow_calls (c : Client) (calls : List Call) :
    journal call accepted c calls ++ (calls.foldl call c).outbox =
      c.outbox ++ (journal call queued c calls).flatMap WireMessage.encode := by
  induction calls generalizing c with
  | nil => simp [journal]
  | cons t calls ih =>
    rw [journal, journal, List.foldl_cons, List.flatMap_append]
    calc c.accepted t ++ journal call accepted (c.call t) calls ++
          (calls.foldl call (c.call t)).outbox
        = c.accepted t ++ ((c.call t).outbox ++
            (journal call queued (c.call t) calls).flatMap WireMessage.encode) := by
          rw [List.append_assoc, ih]
      _ = c.outbox ++ ((c.queued t).flatMap WireMessage.encode ++
            (journal call queued (c.call t) calls).flatMap WireMessage.encode) := by
          rw [← List.append_assoc, outflow_call, List.append_assoc]

end Client

open Client in
/-- What goes out to a client, for every client, any calls in any order and any socket. At every
moment, also between two attempts to write, the bytes that the socket has accepted and then the
outbox are what was in the outbox at first and then the messages that have been queued since,
each as it is encoded and in the order in which they were queued. So what the client sees is the
front of that: no byte is lost, repeated or out of place.

A call that writes leaves something behind without asking for the link to be closed exactly when
one of its attempts was told to wait. Where the answers are those of a link, however much each
attempt offers, what was accepted is what has gone out to a far end that is there.

And to flush is to make such a call, with all that is left on offer each time and the answers of
the link, whatever the link: the same is left, the same is said about the link, and the link is
what its answers make of it. If it leaves something and does not ask for the link to be closed,
it is because the link would block. -/
theorem outflow_intact (c : Client) (calls : List Client.Call) :
    let c' := calls.foldl call c
    let stream := c.outbox ++ (journal call queued c calls).flatMap WireMessage.encode
    let accepted := journal call accepted c calls
    accepted ++ c'.outbox = stream ∧ accepted <+: stream ∧
    (∀ offers,
      let w := writeOut offers c'.outbox
      (w.verdict = some false ∧ w.left ≠ [] ↔
        ∃ used o unused, offers = used ++ o :: unused ∧
          (writeOut used c'.outbox).verdict = none ∧ o.answer = .wouldBlock)) ∧
    (∀ link : Link, ∀ sizes,
      let (offers, last) := link.answers sizes c'.outbox
      last.outbound = link.outbound ++
        if link.farEnd = .present then (writeOut offers c'.outbox).accepted else []) ∧
    ∀ link,
      let (closing, after) := { c' with link := link }.flush
      (∃ attempts,
        let (offers, last) := link.answers (List.replicate attempts c'.outbox.length) c'.outbox
        let w := writeOut offers c'.outbox
        after = { c' with link := last, outbox := w.left } ∧ w.verdict = some closing ∧
          after.link.outbound =
            link.outbound ++ if link.farEnd = .present then w.accepted else []) ∧
      (closing = false →
        after.outbox = [] ∨ after.link.write after.outbox = (.wouldBlock, after.link)) := by
  intro c' stream accepted
  have hwhole : accepted ++ c'.outbox = stream := outflow_calls c calls
  refine ⟨hwhole, ⟨_, hwhole⟩, fun offers => verdict_writeOut offers c'.outbox,
    fun link sizes => (outbound_answers link sizes c'.outbox).2, fun link => ⟨?_, ?_⟩⟩
  · obtain ⟨attempts, hafter, hverdict⟩ :=
      { c' with link := link }.flush_eq_writeOut (Nat.le_refl c'.outbox.length)
    refine ⟨attempts, hafter, hverdict, ?_⟩
    rw [hafter]
    exact (outbound_answers link _ c'.outbox).2
  · intro hclosing
    rcases outbox_flush (Prod.ext hclosing rfl) with hempty | ⟨l, hblocked⟩
    · exact .inl hempty
    · refine .inr ?_
      rwa [← Link.eq_of_wouldBlock hblocked] at hblocked

end PromptGateway
