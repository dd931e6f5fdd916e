import PromptGateway.Proofs.Chunks
import PromptGateway.Proofs.Settling
import PromptGateway.Proofs.Stories

/-
  The last words of a worker.

  A worker that leaves has often just answered. Its connection may have more to be read than
  one delivery tick takes, and the end of the tick's share may fall into a line. The loss
  must not be noticed before everything that was sent has been heard, and the tasks of the
  worker are failed only then.

    1. As long as the tasks of the worker have not been failed, what was read so far and what
       is in the queue is what was sent, and what was heard is the lines of what was read
       (`Heeds.step`, `Heeds.run`).
    2. The tick that fails the tasks has found the queue empty and the far end gone
       (`Heeds.failing`).
    3. `last_words`: everything that was sent has then been heard, line by line and once, and
       it does not take longer than its length says. A request whose last response is among
       the lines is settled, and the loss is nothing to it.
-/

namespace PromptGateway

/-! ## Words -/

/-- The lines of a stream that are text and not blank, in order, each without the blanks at
its end. -/
def words (stream : Bytes) : List String :=
  (Frame.splitLines stream).1.filterMap fun line =>
    match line.text? with
    | none => none
    | some s =>
      if Text.isBlankText s.toList then none else some (String.ofList (Text.trimEnd s.toList))

theorem words_eq (stream : Bytes) :
    words stream = spoken ((Frame.splitLines stream).1.filterMap Frame.entry) := by
  rw [words, spoken, List.filterMap_filterMap]
  refine List.filterMap_congr fun line _ => ?_
  unfold Frame.entry
  cases line.text? with
  | none => rfl
  | some s => by_cases hb : Text.isBlankText s.toList = true <;> simp [hb, Except.toOption]

/-- What is sent later takes no word back. -/
theorem words_mono {stream whole : Bytes} (h : stream <+: whole) :
    words stream <+: words whole := by
  obtain ⟨more, rfl⟩ := h
  rw [words, words, Frame.splitLines_append, List.filterMap_append]
  exact List.prefix_append _ _

/-- What comes out of a buffer is the words of the stream, wherever it was cut. -/
theorem spoken_feed {chunks : List Bytes} {whole : Bytes} (hpre : chunks.flatten <+: whole)
    (hfits : ∀ line ∈ (Frame.splitLines whole).1, line.length ≤ maxMessageBytes) :
    spoken (Frame.feed Frame.drainLines [] chunks).1 = words chunks.flatten := by
  have hshort : ∀ line ∈ (Frame.splitLines chunks.flatten).1, line.length ≤ maxMessageBytes := by
    intro line hline
    obtain ⟨more, rfl⟩ := hpre
    apply hfits
    rw [Frame.splitLines_append]
    exact List.mem_append_left _ hline
  have hfaults : ∀ n, spoken (List.replicate n (.error .oversized)) = [] := by
    intro n
    rw [spoken, List.filterMap_eq_nil_iff]
    intro e he
    rw [List.eq_of_mem_replicate he]
    rfl
  rw [Frame.feed_drainLines_lines hshort, spoken_append, hfaults, List.append_nil, words_eq]

namespace Frontend

/-! ## What was heard so far -/

/-- A worker that is listened to: what was read and what is in the queue is what was sent,
and what was heard is what came out of the buffer. -/
structure Heeds (f : Frontend) (w l : Nat) (c : Course) (events : List Event) (k : Link)
    (chunks : List Bytes) : Prop where
  listens : ∃ s, f.gateway.dispatcher.pool.Listens w l s k ∧
    s.buffer = (Frame.feed Frame.drainLines [] chunks).2
  unshut : k.shut = false
  present : k.farEnd = .present ↔ c.left = false
  stream : chunks.flatten ++ k.inbound = c.sent
  heard : heard w (calls events) = spoken (Frame.feed Frame.drainLines [] chunks).1
  interruptions : k.interruptions ≤ c.interruptions
  untold : c.left = false → c.ticks = 0
  reads : c.left = true → k.reads + WorkerPool.maxReadsPerPoll * c.ticks ≤ c.reads

theorem Engages.heeds {f : Frontend} {w l : Nat} (h : f.Engages w l) :
    f.Heeds w l {} [] .fresh [] := by
  obtain ⟨rfl, ha⟩ := h
  obtain ⟨s, hs, hbuffer⟩ := WorkerPool.listens_addWorker (orderly_created _ _ _).2 ha
  refine ⟨⟨s, ?_, hbuffer⟩, rfl, by simp [Link.fresh], rfl, rfl, Nat.le_refl _, fun _ => rfl, nofun⟩
  refine hs.of_eq ?_ ?_ ?_ <;> simp [turn, event, apply, Dispatcher.applyBackend,
    Dispatcher.withPool, withEngine, WorkerPool.apply, ha]

namespace Heeds

variable {f : Frontend} {w l : Nat} {c : Course} {events : List Event} {k : Link}
  {chunks : List Bytes}

/-- The end of the connection is never further away than the course says. -/
theorem reads_le (h : f.Heeds w l c events k chunks) :
    k.reads + WorkerPool.maxReadsPerPoll * c.ticks ≤ c.reads := by
  cases hleft : c.left with
  | true => exact h.reads hleft
  | false =>
    have hticks := h.untold hleft
    have hinterruptions := h.interruptions
    have hlength := congrArg List.length h.stream
    rw [List.length_append] at hlength
    simp only [Link.reads, Course.reads, Link.readChunk, hticks]
    omega

/-- Nothing that a reader would notice happens, and nothing is heard. -/
theorem quiet (h : f.Heeds w l c events k chunks) {f' : Frontend} {more : List Event}
    (hkept : ∀ s, f.gateway.dispatcher.pool.Listens w l s k →
      ∃ k', f'.gateway.dispatcher.pool.Listens w l s k' ∧ k.Quiet k')
    (hmore : PromptGateway.heard w (calls more) = []) :
    ∃ k', f'.Heeds w l c (events ++ more) k' chunks := by
  obtain ⟨s, hs, hbuffer⟩ := h.listens
  obtain ⟨k', hs', hquiet⟩ := hkept s hs
  refine ⟨k', ⟨s, hs', hbuffer⟩, hquiet.shut.trans h.unshut, hquiet.present.trans h.present, ?_, ?_,
    Nat.le_trans hquiet.interruptions h.interruptions, h.untold, fun hleft => ?_⟩
  · rw [hquiet.inbound, h.stream]
  · rw [calls_append, heard_append, hmore, List.append_nil, h.heard]
  · exact Nat.le_trans (Nat.add_le_add_right hquiet.reads_le _) (h.reads hleft)

/-- A move on the connection. -/
theorem moved (h : f.Heeds w l c events k chunks) (m : LinkMove) :
    ∃ k', (f.turn (.workerLink l (Link.moved m))).Heeds w l (c.note (.link m))
      (events ++ f.unrolledTurn (.workerLink l (Link.moved m))) k' chunks := by
  have silent : (k.Quiet (k.moved m)) → c.note (.link m) = c →
      ∃ k', (f.turn (.workerLink l (Link.moved m))).Heeds w l (c.note (.link m))
        (events ++ f.unrolledTurn (.workerLink l (Link.moved m))) k' chunks := by
    intro hquiet hnote
    rw [hnote]
    exact h.quiet (fun s hs => ⟨_, hs.modifyLink _, hquiet⟩) rfl
  have hheard : PromptGateway.heard w
      (calls (events ++ f.unrolledTurn (.workerLink l (Link.moved m)))) =
        spoken (Frame.feed Frame.drainLines [] chunks).1 := by
    rw [calls_append, heard_append, h.heard]
    exact List.append_nil _
  have hreads := h.reads_le
  obtain ⟨s, hs, hbuffer⟩ := h.listens
  have hlistens : ∃ s, (f.turn (.workerLink l (Link.moved m))).gateway.dispatcher.pool.Listens w l s
      (k.moved m) ∧ s.buffer = (Frame.feed Frame.drainLines [] chunks).2 :=
    ⟨s, hs.modifyLink _, hbuffer⟩
  cases m with
  | take => exact silent ⟨rfl, .rfl, Nat.le_refl _, rfl⟩ rfl
  | stuff => exact silent ⟨rfl, .rfl, Nat.le_refl _, rfl⟩ rfl
  | unstuff => exact silent ⟨rfl, .rfl, Nat.le_refl _, rfl⟩ rfl
  | send bytes =>
    by_cases hfar : k.farEnd = .present
    · have hleft := h.present.mp hfar
      rw [Link.moved, if_pos hfar] at hlistens
      rw [Course.note, if_neg (by simp [hleft])]
      refine ⟨_, hlistens, h.unshut, h.present, ?_, hheard, h.interruptions, h.untold, fun ht => ?_⟩
      · rw [← h.stream, List.append_assoc]
        rfl
      · cases hleft.symm.trans ht
    · have hleft : c.left = true := by simpa [h.present] using hfar
      exact silent (by rw [Link.moved, if_neg hfar]; exact .refl)
        (by rw [Course.note, if_pos hleft])
  | close =>
    by_cases hfar : k.farEnd = .present
    · rw [Link.moved, if_pos hfar] at hlistens
      exact ⟨_, hlistens, h.unshut, by simp [Link.closeFar, Course.note], h.stream, hheard,
        h.interruptions, (fun hstill => by cases hstill), fun _ => hreads⟩
    · have hleft : c.left = true := by simpa [h.present] using hfar
      exact silent (by rw [Link.moved, if_neg hfar]; exact .refl) (by rw [Course.note, ← hleft])
  | reset =>
    exact ⟨_, hlistens, h.unshut, by simp [Link.moved, Link.resetFar, Course.note], h.stream,
      hheard, h.interruptions, (fun hstill => by cases hstill), fun _ => hreads⟩
  | interrupt times =>
    refine ⟨_, hlistens, h.unshut, h.present, h.stream, hheard,
      Nat.add_le_add_right h.interruptions times, h.untold, fun _ => ?_⟩
    simp only [Link.moved, Link.reads, Course.note, Course.reads] at hreads ⊢
    omega

/-- What is heard in a delivery tick. If the tick fails the tasks of the worker, it has read
everything that was sent and found that the far end has left. -/
theorem heard_tick (h : f.Heeds w l c events k chunks) (now : Millis) :
    let chunk := (k.readUpTo WorkerPool.maxReadsPerPoll).1
    PromptGateway.heard w (calls (events ++ f.unrolledTurn (.deliveryTick now))) =
        spoken (Frame.feed Frame.drainLines [] (chunks ++ [chunk])).1 ∧
      (chunks ++ [chunk]).flatten ++ (k.readUpTo WorkerPool.maxReadsPerPoll).2.2.inbound = c.sent ∧
      ∀ t, .failWorker w t ∈ f.gateway.deliveryCalls now →
        (k.readUpTo WorkerPool.maxReadsPerPoll).2.2.inbound = [] ∧ c.left = true := by
  intro chunk
  obtain ⟨s, hs, hbuffer⟩ := h.listens
  obtain ⟨hheard, hcalm, -⟩ := hs.deliveryTick now
  obtain ⟨hsplit, hover, -⟩ := k.readUpTo_split WorkerPool.maxReadsPerPoll
  refine ⟨?_, ?_, fun t ht => ?_⟩
  · rw [calls_append, heard_append, h.heard, Frame.feed_concat, spoken_append, ← hbuffer]
    exact congrArg _ ((congrArg _ (calls_backend _)).trans hheard)
  · rw [List.flatten_append, List.flatten_singleton, List.append_assoc, hsplit, h.stream]
  · cases hends : (k.readUpTo WorkerPool.maxReadsPerPoll).2.1 with
    | false => exact absurd ht ((hcalm hends).2 t)
    | true =>
      obtain ⟨hnil, hfar⟩ := hover hends
      refine ⟨hnil, ?_⟩
      rcases hfar with hfar | hshut
      · simpa [h.present] using hfar
      · cases h.unshut.symm.trans hshut

/-- A delivery tick that does not fail the tasks of the worker. -/
theorem ticked (h : f.Heeds w l c events k chunks) {now : Millis}
    (hnone : ∀ t, .failWorker w t ∉ f.gateway.deliveryCalls now) :
    ∃ k' chunks', (f.turn (.deliveryTick now)).Heeds w l (c.note (.turn (.deliveryTick now)))
      (events ++ f.unrolledTurn (.deliveryTick now)) k' chunks' := by
  obtain ⟨hheard, hstream, -⟩ := h.heard_tick now
  obtain ⟨-, -, hfar, hshut, hle⟩ := k.readUpTo_split WorkerPool.maxReadsPerPoll
  obtain ⟨hreads, hends⟩ := k.reads_readUpTo WorkerPool.maxReadsPerPoll
  obtain ⟨s, hs, hbuffer⟩ := h.listens
  obtain ⟨-, hcalm, hlast⟩ := hs.deliveryTick now
  have hgoes : (k.readUpTo WorkerPool.maxReadsPerPoll).2.1 = false := by
    cases hover : (k.readUpTo WorkerPool.maxReadsPerPoll).2.1 with
    | false => rfl
    | true => exact absurd (hlast hover) (hnone now)
  obtain ⟨⟨s', hs', hbuffer'⟩, -⟩ := hcalm hgoes
  refine ⟨_, _, ⟨s', hs', ?_⟩, hshut.trans h.unshut, ?_, ?_, hheard, ?_, fun hleft => ?_,
    fun hleft => ?_⟩
  · rw [hbuffer', Frame.feed_concat, ← hbuffer]
    rfl
  · rw [hfar, h.present, Course.note]
    split <;> rfl
  · rw [hstream, Course.note]
    split <;> rfl
  · refine Nat.le_trans hle (Nat.le_trans h.interruptions ?_)
    rw [Course.note]
    split <;> exact Nat.le_refl _
  · rw [Course.note] at hleft ⊢
    split at hleft
    · next hgone => cases hgone.symm.trans hleft
    · next hstill => rw [if_neg hstill, h.untold hleft]
  · have hgone : c.left = true := by
      rw [Course.note] at hleft
      split at hleft <;> assumption
    rw [Course.note, if_pos hgone]
    -- all reads of the tick brought something, or the end would have been found
    have hmany : WorkerPool.maxReadsPerPoll ≤ k.reads := by
      by_contra hfew
      have hover := hends (fun hp => by cases hgone.symm.trans (h.present.mp hp))
        (Nat.lt_of_not_le hfew)
      cases hgoes.symm.trans hover
    have hbefore := h.reads hgone
    simp only [Course.reads, WorkerPool.maxReadsPerPoll] at *
    omega

theorem mem_unrolledTurn {now : Millis} {call : BackendCall} :
    .backend call ∈ f.unrolledTurn (.deliveryTick now) ↔ call ∈ f.gateway.deliveryCalls now := by
  simp [unrolledTurn]

/-- Whatever happens next, unless it is the tick that fails the tasks of the worker. -/
theorem step (h : f.Heeds w l c events k chunks) (hf : f.exchange.Held) {x : Happening}
    (hown : ∀ change, x ≠ .turn (.workerLink l change))
    (hwhole : ∀ a ∈ f.turnWrites (x.asTurn l), a.link = l → a.broken = false)
    (hnone : ∀ t, .backend (.failWorker w t) ∉ f.unrolledTurn (x.asTurn l)) :
    ∃ k' chunks', (f.turn (x.asTurn l)).Heeds w l (c.note x)
      (events ++ f.unrolledTurn (x.asTurn l)) k' chunks' := by
  cases x with
  | link m =>
    obtain ⟨k', h'⟩ := h.moved m
    exact ⟨k', chunks, h'⟩
  | turn t =>
    have silent : (∀ s, f.gateway.dispatcher.pool.Listens w l s k →
          ∃ k', (f.turn t).gateway.dispatcher.pool.Listens w l s k' ∧ k.Quiet k') →
        PromptGateway.heard w (calls (f.unrolledTurn t)) = [] →
        ∃ k' chunks', (f.turn t).Heeds w l c (events ++ f.unrolledTurn t) k' chunks' := by
      intro hkept hnothing
      obtain ⟨k', h'⟩ := h.quiet hkept hnothing
      exact ⟨k', chunks, h'⟩
    have client : t.ofClient = true → ∀ s, f.gateway.dispatcher.pool.Listens w l s k →
        ∃ k', (f.turn t).gateway.dispatcher.pool.Listens w l s k' ∧ k.Quiet k' :=
      fun ht s hs => ⟨k, (narrows_turn hf ht).2 ▸ hs, .refl⟩
    cases t with
    | accept _ => exact silent (client rfl) rfl
    | clientLink _ _ => exact silent (client rfl) rfl
    | receive _ _ => exact silent (client rfl) rfl
    | deliver _ _ _ => exact silent (client rfl) rfl
    | flush _ => exact silent (client rfl) rfl
    | disconnect _ _ => exact silent (client rfl) rfl
    | assignmentTick now =>
      refine silent (fun s hs => ?_) rfl
      simp only [turn, event, apply, Gateway.assignmentTick_eq]
      simp only [Happening.asTurn, turnWrites] at hwhole
      unfold Gateway.assignmentCalls at hwhole ⊢
      split at hwhole
      · next hidle =>
        rw [if_pos hidle]
        exact ⟨k, hs, .refl⟩
      · next hbusy =>
        rw [if_neg hbusy]
        rw [List.flatMap_singleton] at hwhole
        show ∃ k', (f.gateway.dispatcher.assignNext now).2.pool.Listens w l s k' ∧ k.Quiet k'
        rw [Dispatcher.pool_assignNext]
        exact hs.beginAssign now fun a ha => hwhole a (Option.mem_toList.mpr ha)
    | deliveryTick now => exact h.ticked fun t ht => hnone t (mem_unrolledTurn.mpr ht)
    | addWorker network now address =>
      refine silent (fun s hs => ⟨k, ?_, .refl⟩) rfl
      show (f.gateway.dispatcher.pool.apply (.add network now address)).Listens w l s k
      simp only [WorkerPool.apply]
      split
      · next ha => exact hs.enlists (WorkerPool.enlists_addWorker ha)
      · exact hs
    | workerLink l' change =>
      have hne : l' ≠ l := fun hl => hown change (hl ▸ rfl)
      exact silent (fun s hs => ⟨k, hs.modifyLink_ne hne change, .refl⟩) rfl

/-- As long as the tasks of the worker have not been failed. -/
theorem run (h : f.Heeds w l c events k chunks) (hf : f.exchange.Held) {story : List Happening}
    (hown : ∀ change, .turn (.workerLink l change) ∉ story)
    (hwhole : ∀ a ∈ f.writes (turnsOn l story), a.link = l → a.broken = false)
    (hnone : ∀ t, .backend (.failWorker w t) ∉ f.unrolled (turnsOn l story)) :
    ∃ k' chunks', (f.serve (turnsOn l story)).Heeds w l (story.foldl Course.note c)
      (events ++ f.unrolled (turnsOn l story)) k' chunks' := by
  induction story generalizing f c events k chunks with
  | nil =>
    refine ⟨k, chunks, ?_⟩
    show f.Heeds w l c (events ++ []) k chunks
    rw [List.append_nil]
    exact h
  | cons x story ih =>
    obtain ⟨k₁, chunks₁, h₁⟩ := h.step hf
      (fun change hx => hown change (hx ▸ List.mem_cons_self))
      (fun a ha => hwhole a (List.mem_append_left _ ha))
      (fun t ht => hnone t (List.mem_append_left _ ht))
    obtain ⟨k₂, chunks₂, h₂⟩ := ih h₁ (held_turn hf _)
      (fun change hx => hown change (List.mem_cons_of_mem _ hx))
      (fun a ha => hwhole a (List.mem_append_right _ ha))
      (fun t ht => hnone t (List.mem_append_right _ ht))
    exact ⟨k₂, chunks₂, by rw [List.append_assoc] at h₂; exact h₂⟩

/-- What is heard in a turn is what has been read of what was sent. -/
theorem heard_turn (h : f.Heeds w l c events k chunks) (t : Turn) :
    ∃ read, read.flatten <+: c.sent ∧
      PromptGateway.heard w (calls (events ++ f.unrolledTurn t)) =
        spoken (Frame.feed Frame.drainLines [] read).1 := by
  have silent : PromptGateway.heard w (calls (f.unrolledTurn t)) = [] →
      ∃ read, read.flatten <+: c.sent ∧
        PromptGateway.heard w (calls (events ++ f.unrolledTurn t)) =
          spoken (Frame.feed Frame.drainLines [] read).1 := by
    intro hnothing
    refine ⟨chunks, ⟨k.inbound, h.stream⟩, ?_⟩
    rw [calls_append, heard_append, hnothing, List.append_nil, h.heard]
  cases t with
  | deliveryTick now =>
    obtain ⟨hheard, hstream, -⟩ := h.heard_tick now
    exact ⟨_, ⟨_, hstream⟩, hheard⟩
  | _ => exact silent rfl

/-- When the tasks of the worker are failed, everything that was sent has been read, and what
came out of it has been heard. -/
theorem failing (h : f.Heeds w l c events k chunks) {turn : Turn} {n m : List Event} {t : Millis}
    (hturn : f.unrolledTurn turn = n ++ .backend (.failWorker w t) :: m) :
    c.left = true ∧ ∃ read, read.flatten = c.sent ∧
      PromptGateway.heard w (calls (events ++ n)) =
        spoken (Frame.feed Frame.drainLines [] read).1 := by
  have hmem : .backend (.failWorker w t) ∈ f.unrolledTurn turn :=
    hturn ▸ List.mem_append_right n List.mem_cons_self
  cases turn with
  | deliveryTick now =>
    obtain ⟨hheard, hstream, hends⟩ := h.heard_tick now
    obtain ⟨hnil, hleft⟩ := hends t (mem_unrolledTurn.mp hmem)
    rw [hnil, List.append_nil] at hstream
    refine ⟨hleft, _, hstream, ?_⟩
    obtain ⟨before, rest, hcalls, rfl, hrest⟩ := List.map_eq_append_iff.mp hturn
    obtain ⟨call, after, rfl, hcall, -⟩ := List.map_eq_cons_iff.mp hrest
    cases hcall
    have hbefore := Gateway.heard_before_failWorker (w := w) hcalls
    rw [calls_append, heard_append, calls_backend, hbefore, ← hheard, calls_append, heard_append]
    exact congrArg _ (congrArg _ (calls_backend _).symm)
  | _ => cases List.mem_singleton.mp hmem

end Heeds

end Frontend

namespace Frontend.Engages

variable {f : Frontend} {w l : Nat} {story : List Happening} (hf : f.Engages w l)
  (hown : ∀ change, .turn (.workerLink l change) ∉ story)
  (hwhole : ∀ a ∈ f.writes (turnsOn l story), a.link = l → a.broken = false)

include hf hown hwhole

/-- Wherever one looks before the tasks of the worker are failed, what was read and heard is
known at the beginning of the turn in which one looks. -/
theorem split {front back : List Event} (hevents : f.unrolled (turnsOn l story) = front ++ back)
    (hnone : ∀ t, .backend (.failWorker w t) ∉ front) :
    (∃ k chunks, (f.serve (turnsOn l story)).Heeds w l (course story) front k chunks ∧ back = []) ∨
      ∃ early x late n m k chunks, story = early ++ x :: late ∧
        (f.serve (turnsOn l early)).Heeds w l (course early) (f.unrolled (turnsOn l early)) k
          chunks ∧
        (f.serve (turnsOn l early)).unrolledTurn (x.asTurn l) = n ++ m ∧ m ≠ [] ∧
        front = f.unrolled (turnsOn l early) ++ n ∧ m <+: back := by
  rcases journal_split hevents with
    ⟨rfl, hback⟩ | ⟨before, turn, after, n, m, hturns, hturn, hne, hfront, hm⟩
  · obtain ⟨k, chunks, h⟩ := hf.heeds.run hf.held hown hwhole hnone
    exact .inl ⟨k, chunks, h, hback⟩
  · obtain ⟨early, rest, rfl, rfl, hrest⟩ := List.map_eq_append_iff.mp hturns
    obtain ⟨x, late, rfl, rfl, -⟩ := List.map_eq_cons_iff.mp hrest
    have hwrites : f.writes (turnsOn l (early ++ x :: late)) = f.writes (turnsOn l early) ++
        (f.serve (turnsOn l early)).writes (turnsOn l (x :: late)) := by
      rw [turnsOn, List.map_append]
      exact journal_append ..
    obtain ⟨k, chunks, h⟩ := hf.heeds.run hf.held
      (fun change hx => hown change (List.mem_append_left _ hx))
      (fun a ha => hwhole a (hwrites ▸ List.mem_append_left _ ha))
      (fun t ht => hnone t (hfront ▸ List.mem_append_left _ ht))
    exact .inr ⟨early, x, late, n, m, k, chunks, rfl, h, hturn, hne, hfront, hm⟩

/-- What has been heard comes out of what has been read. -/
theorem heard_front {front back : List Event}
    (hevents : f.unrolled (turnsOn l story) = front ++ back)
    (hnone : ∀ t, .backend (.failWorker w t) ∉ front) :
    ∃ read, read.flatten <+: (course story).sent ∧
      heard w (calls front) <+: spoken (Frame.feed Frame.drainLines [] read).1 := by
  rcases hf.split hown hwhole hevents hnone with
    ⟨k, chunks, h, -⟩ | ⟨early, x, late, n, m, k, chunks, rfl, h, hturn, -, rfl, -⟩
  · exact ⟨chunks, ⟨k.inbound, h.stream⟩, h.heard ▸ List.prefix_rfl⟩
  · obtain ⟨read, hread, hheard⟩ := h.heard_turn (x.asTurn l)
    refine ⟨read, hread.trans (course_split early (x :: late)).1, ?_⟩
    rw [← hheard, hturn, ← List.append_assoc, calls_append _ m, heard_append]
    exact List.prefix_append _ _

/-- When the tasks of the worker are failed, everything that was sent has been read. -/
theorem heard_failing {front back : List Event} {t : Millis}
    (hevents : f.unrolled (turnsOn l story) = front ++ .backend (.failWorker w t) :: back)
    (hnone : ∀ t, .backend (.failWorker w t) ∉ front) :
    (course story).left = true ∧ ∃ read, read.flatten = (course story).sent ∧
      heard w (calls front) = spoken (Frame.feed Frame.drainLines [] read).1 := by
  rcases hf.split hown hwhole hevents hnone with
    ⟨k, chunks, h, hback⟩ | ⟨early, x, late, n, m, k, chunks, rfl, h, hturn, hne, rfl, hm⟩
  · cases hback
  · cases m with
    | nil => exact absurd rfl hne
    | cons e m =>
      obtain ⟨rfl, -⟩ := List.cons_prefix_cons.mp hm
      obtain ⟨hleft, read, hread, hheard⟩ := h.failing hturn
      obtain ⟨hsent, hstill⟩ := (course_split early (x :: late)).2 hleft
      exact ⟨hstill, read, hread.trans hsent.symm, hheard⟩

/-- The end of the connection is found in time. -/
theorem reads_of_none
    (hnone : ∀ t, .backend (.failWorker w t) ∉ f.unrolled (turnsOn l story)) :
    WorkerPool.maxReadsPerPoll * (course story).ticks ≤ (course story).reads := by
  obtain ⟨k, chunks, h⟩ := hf.heeds.run hf.held hown hwhole hnone
  exact Nat.le_trans (Nat.le_add_left _ _) h.reads_le

end Frontend.Engages

/-- The last words of a worker count. Take a worker that has just been added and any story of
its connection: it sends what it likes and leaves in an orderly way or not, while clients come
and go, the loops tick and other workers do as they please, in any order. Nothing else happens
on its connection, no write of a task line breaks it, and no complete line that is sent is longer
than the largest message.

Delivery ticks are taken apart into their calls. Before its tasks are failed, what has been heard
of it is at any moment a part of the lines it has sent, from the first on: those that are text and
not blank, each once and in order. When its tasks are failed it has left, and all of these lines
have been heard. This comes when it has left and there were as many delivery ticks since as the
reads of what it has sent need, of which a tick makes sixteen.

A request that was in flight when its last response was heard, and was not admitted again since,
is left as it is when the tasks of the worker are failed. -/
theorem last_words {f : Frontend} {w l : Nat} (hf : f.Engages w l) {story : List Happening}
    (hown : ∀ change, .turn (.workerLink l change) ∉ story)
    (hwhole : ∀ a ∈ f.writes (turnsOn l story), a.link = l → a.broken = false)
    (hfits : ∀ line ∈ (Frame.splitLines (course story).sent).1, line.length ≤ maxMessageBytes) :
    let events := f.unrolled (turnsOn l story)
    f.run events = f.serve (turnsOn l story) ∧
    (∀ front back, events = front ++ back → (∀ t, .backend (.failWorker w t) ∉ front) →
      heard w (calls front) <+: words (course story).sent) ∧
    (∀ front t back, events = front ++ .backend (.failWorker w t) :: back →
      (∀ t', .backend (.failWorker w t') ∉ front) →
      (course story).left = true ∧ heard w (calls front) = words (course story).sent) ∧
    ((course story).reads < WorkerPool.maxReadsPerPoll * (course story).ticks →
      ∃ t, .backend (.failWorker w t) ∈ events) ∧
    ∀ first t line r middle t' back,
      events = first ++ .backend (.hear t w line) ::
        (middle ++ .backend (.failWorker w t') :: back) →
      WireMessage.decode line = .ok (.response r) → r.finished = true →
      (f.run first).gateway.dispatcher.cache.contains r.id = true →
      (∀ o stream, .admitted o r.id stream ∉
        (f.run (first ++ [.backend (.hear t w line)])).runLog middle) →
      let d := (f.run (first ++ .backend (.hear t w line) :: middle)).gateway.dispatcher
      d.Untouched (d.failWorkerTasks w t').2 r.id := by
  intro events
  refine ⟨f.run_unrolled _, fun front back hevents hnone => ?_,
    fun front t back hevents hnone => ?_, fun hticks => ?_, ?_⟩
  · obtain ⟨read, hread, hheard⟩ := hf.heard_front hown hwhole hevents hnone
    rw [spoken_feed hread hfits] at hheard
    exact hheard.trans (words_mono hread)
  · obtain ⟨hleft, read, hread, hheard⟩ := hf.heard_failing hown hwhole hevents hnone
    rw [spoken_feed (hread ▸ List.prefix_rfl) hfits, hread] at hheard
    exact ⟨hleft, hheard⟩
  · by_contra hnone
    have hmany := hf.reads_of_none hown hwhole fun t ht => hnone ⟨t, ht⟩
    exact absurd hticks (Nat.not_lt_of_le hmany)
  · intro first t line r middle t' back _ hline hlast hlive hnew
    exact Frontend.untouched_after_last hf.held hline hlast hlive hnew w t'

namespace LastWords

/-- A gateway to which worker 0 has just been added. -/
def gateway : Frontend :=
  (Frontend.create (Gateway.create {}) 3).turn
    (.addWorker { routed := true, listening := ["a"] } 0 "a")

/-- A client asks for `p`, worker 0 is given it, and the first tick finds half a line of the
answer. -/
def opening : List Happening :=
  let ask : Link :=
    { Link.fresh with inbound := Bytes.ofString "\x7b\"type\":\"request\",\"id\":\"p\"\x7d\n" }
  [.turn (.accept ask), .turn (.receive 3 { now := 0, newId := fun _ => "" }),
    .turn (.assignmentTick 1), .link .take,
    .link (.send (Bytes.ofString "\x7b\"type\":\"response\",\"id\":\"p\",\"token\":\"wh")),
    .turn (.deliveryTick 2)]

/-- The fragment and the end of the answer, as they are heard. -/
def answer : List String :=
  ["\x7b\"type\":\"response\",\"id\":\"p\",\"token\":\"whole\"\x7d",
    "\x7b\"type\":\"response\",\"id\":\"p\",\"finished\":true\x7d"]

/-- The worker sends the rest of the line, a blank line, one that is no text, the end of the
answer and a piece of another line, and resets the connection. -/
def sending : List Happening :=
  opening ++
    [.link (.send (Bytes.ofString "ole\"\x7d\n \n" ++ [255, newline] ++
        Bytes.ofString "\x7b\"type\":\"response\",\"id\":\"p\",\"finished\":true\x7d\r\n\x7b\"ty")),
      .link .reset]

/-- The next tick reads all this. -/
def story : List Happening := sending ++ [.turn (.deliveryTick 3)]

/-- The gateway before this tick. -/
def waiting : Gateway := (gateway.serve (turnsOn 0 sending)).gateway

/-- The events before the end of the answer is heard. -/
def first : List Event :=
  gateway.unrolled (turnsOn 0 sending) ++
    [.backend (.pool waiting.dispatcher.pool.pollAll.2), .backend (.hear 3 0 answer[0])]

/-- The events between this and the loss. -/
def middle : List Event := [.backend (.pool (waiting.afterHearing 3).pool.drainDisconnected.2)]

set_option maxRecDepth 100000 in
theorem unrolled_story :
    gateway.unrolled (turnsOn 0 story) = first ++ .backend (.hear 3 0 answer[1]) ::
      (middle ++ .backend (.failWorker 0 3) :: []) := by
  obtain ⟨hpolled, hlost, hlimit⟩ :
      waiting.dispatcher.pool.pollAll.1 = [(0, answer[0]), (0, answer[1])] ∧
        (waiting.afterHearing 3).pool.lost = [0] ∧
        waiting.settings.dispatch.taskTimeoutMs = none := by
    decide +kernel
  have hcalls : waiting.deliveryCalls 3 =
      [.pool waiting.dispatcher.pool.pollAll.2, .hear 3 0 answer[0], .hear 3 0 answer[1],
        .pool (waiting.afterHearing 3).pool.drainDisconnected.2, .failWorker 0 3] := by
    rw [Gateway.deliveryCalls_eq, Gateway.hearingCalls, Gateway.closingCalls, hpolled, hlost,
      hlimit]
    rfl
  have hlast : gateway.unrolled (turnsOn 0 story) =
      gateway.unrolled (turnsOn 0 sending) ++ (waiting.deliveryCalls 3).map .backend := by
    rw [story, turnsOn, List.map_append]
    refine (journal_append ..).trans (congrArg _ ?_)
    exact List.append_nil _
  rw [hlast, hcalls, first, List.append_assoc]
  rfl

set_option maxRecDepth 100000 in
/-- Both lines of the answer are heard before the tasks of the worker are failed, and `p` is
left with its whole answer. -/
theorem last_words_reset :
    let front := first ++ .backend (.hear 3 0 answer[1]) :: middle
    let d := (gateway.run front).gateway.dispatcher
    gateway.Engages 0 0 ∧
    gateway.unrolled (turnsOn 0 story) = front ++ [.backend (.failWorker 0 3)] ∧
    heard 0 (calls front) = answer ∧
    d.streams.find? "p" = some { fragments := ["whole"], finished := true } ∧
    d.Untouched (d.failWorkerTasks 0 3).2 "p" := by
  intro front d
  have hf : gateway.Engages 0 0 := @Frontend.Engages.added _ _ [] _ _ _ _ _ _ rfl rfl
  have hown : ∀ change, .turn (.workerLink 0 change) ∉ story := by simp [story, sending, opening]
  obtain ⟨hwhole, hfits, hwords⟩ :
      (∀ a ∈ gateway.writes (turnsOn 0 story), a.link = 0 → a.broken = false) ∧
        (∀ line ∈ (Frame.splitLines (course story).sent).1, line.length ≤ maxMessageBytes) ∧
        words (course story).sent = answer := by
    decide +kernel
  obtain ⟨hfails, hlive, hstream⟩ :
      (calls front).any (fun call => match call with | .failWorker _ _ => true | _ => false) =
          false ∧
        (gateway.run first).gateway.dispatcher.cache.contains "p" = true ∧
        d.streams.find? "p" = some { fragments := ["whole"], finished := true } := by
    decide +kernel
  have hevents : gateway.unrolled (turnsOn 0 story) = front ++ [.backend (.failWorker 0 3)] := by
    rw [unrolled_story]
    exact (List.append_assoc first (_ :: middle) _).symm
  have hnone : ∀ t, .backend (.failWorker 0 t) ∉ front := by
    intro t ht
    have hcall : .failWorker 0 t ∈ calls front := List.mem_filterMap.mpr ⟨_, ht, rfl⟩
    exact absurd (List.any_eq_false.mp hfails _ hcall) (by simp)
  have hnothing : (gateway.run (first ++ [.backend (.hear 3 0 answer[1])])).runLog middle = [] :=
    rfl
  obtain ⟨-, -, hheard, -, hleft⟩ := last_words hf hown hwhole hfits
  refine ⟨hf, hevents, ?_, hstream, ?_⟩
  · rw [(hheard front 3 [] hevents hnone).2, hwords]
  · refine hleft first 3 answer[1] { id := "p", finished := true } middle 3 [] unrolled_story
      (by decide +kernel) rfl hlive fun o stream => ?_
    rw [hnothing]
    exact List.not_mem_nil

end LastWords

end PromptGateway
