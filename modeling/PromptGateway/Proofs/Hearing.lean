import PromptGateway.Proofs.Attempts
import PromptGateway.Proofs.Events

/-
  Listening to one worker.

  A slot listens to a worker if it is connected, by a connection that no other slot has, and
  no loss of it is on the list. What has arrived of a line stands in the buffer of the slot,
  and what was sent after that in the queue of the connection.

    1. Nothing but a read takes bytes out of the queue, and a read that finds the connection
       over has left none in it (`Link.readUpTo_split`).
    2. What happens to other slots and on other connections is nothing to the slot
       (`Listens.modifyLink_ne`, `Listens.dropped`), nor is a write on its connection that
       does not break it (`Listens.beginAssign`).
    3. A delivery tick reads from the connection once and hears every line that is complete
       then. It is the one that finds the loss if the connection is over, and it fails the
       tasks of the worker in the end (`Listens.deliveryTick`).
-/

namespace PromptGateway

/-! ## Reading -/

namespace Link

/-- What one end does that no reader at this end would notice. -/
structure Quiet (k k' : Link) : Prop where
  inbound : k'.inbound = k.inbound
  present : k'.farEnd = .present ↔ k.farEnd = .present
  interruptions : k'.interruptions ≤ k.interruptions
  shut : k'.shut = k.shut

theorem Quiet.refl {k : Link} : Quiet k k := ⟨rfl, .rfl, Nat.le_refl _, rfl⟩

theorem quiet_write (k : Link) (payload : Bytes) : Quiet k (k.write payload).2 := by
  unfold write
  split
  · next n hn => exact ⟨rfl, .rfl, by simp [hn], rfl⟩
  · split
    · exact .refl
    · split
      · exact .refl
      · next hfar => exact ⟨rfl, by simp [hfar], Nat.le_refl _, rfl⟩
      · exact .refl
      · split
        · exact .refl
        · exact ⟨rfl, .rfl, Nat.le_refl _, rfl⟩

/-- Reads take bytes off the front of the queue, and find the connection over only when
nothing is left in it and one end has left. -/
theorem readUpTo_split (n : Nat) (k : Link) :
    (k.readUpTo n).1 ++ (k.readUpTo n).2.2.inbound = k.inbound ∧
      ((k.readUpTo n).2.1 = true →
        (k.readUpTo n).2.2.inbound = [] ∧ (k.farEnd ≠ .present ∨ k.shut = true)) ∧
      (k.readUpTo n).2.2.farEnd = k.farEnd ∧ (k.readUpTo n).2.2.shut = k.shut ∧
      (k.readUpTo n).2.2.interruptions ≤ k.interruptions := by
  induction n generalizing k with
  | zero => exact ⟨rfl, nofun, rfl, rfl, Nat.le_refl _⟩
  | succ n ih =>
    obtain ⟨inbound, outbound, farEnd, room, interruptions, shut⟩ := k
    cases interruptions with
    | succ i =>
      obtain ⟨hsplit, hover, hfar, hshut, hle⟩ := ih ⟨inbound, outbound, farEnd, room, i, shut⟩
      exact ⟨hsplit, hover, hfar, hshut, Nat.le_succ_of_le hle⟩
    | zero =>
      cases inbound with
      | nil => cases shut <;> cases farEnd <;> simp [readUpTo, read]
      | cons b bs =>
        obtain ⟨hsplit, hover, hfar, hshut, hle⟩ :=
          ih ⟨(b :: bs).drop readChunk, outbound, farEnd, room, 0, shut⟩
        refine ⟨?_, hover, hfar, hshut, hle⟩
        have hfront := congrArg ((b :: bs).take readChunk ++ ·) hsplit
        exact (List.append_assoc ..).trans (hfront.trans (List.take_append_drop ..))

/-- How many reads it takes until none brings anything. -/
def reads (k : Link) : Nat := k.interruptions + (k.inbound.length + (readChunk - 1)) / readChunk

theorem Quiet.reads_le {k k' : Link} (h : Quiet k k') : k'.reads ≤ k.reads := by
  rw [reads, h.inbound]
  exact Nat.add_le_add_right h.interruptions _

/-- No read is in vain, and the one after the last that brings anything finds the connection
over if the far end has left. -/
theorem reads_readUpTo (n : Nat) (k : Link) :
    (k.readUpTo n).2.2.reads ≤ k.reads - n ∧
      (k.farEnd ≠ .present → k.reads < n → (k.readUpTo n).2.1 = true) := by
  induction n generalizing k with
  | zero => exact ⟨Nat.le_refl _, fun _ h => absurd h (Nat.not_lt_zero _)⟩
  | succ n ih =>
    obtain ⟨inbound, outbound, farEnd, room, interruptions, shut⟩ := k
    cases interruptions with
    | succ i =>
      obtain ⟨hreads, hover⟩ := ih ⟨inbound, outbound, farEnd, room, i, shut⟩
      have hone : (⟨inbound, outbound, farEnd, room, i + 1, shut⟩ : Link).reads =
          (⟨inbound, outbound, farEnd, room, i, shut⟩ : Link).reads + 1 := by
        simp only [reads]
        omega
      rw [hone]
      exact ⟨by rw [Nat.add_sub_add_right]; exact hreads,
        fun hfar hlt => hover hfar (Nat.lt_of_succ_lt_succ hlt)⟩
    | zero =>
      cases inbound with
      | nil => cases shut <;> cases farEnd <;> simp [readUpTo, read, reads, readChunk]
      | cons b bs =>
        obtain ⟨hreads, hover⟩ := ih ⟨(b :: bs).drop readChunk, outbound, farEnd, room, 0, shut⟩
        have hone : (⟨b :: bs, outbound, farEnd, room, 0, shut⟩ : Link).reads =
            (⟨(b :: bs).drop readChunk, outbound, farEnd, room, 0, shut⟩ : Link).reads + 1 := by
          simp only [reads, List.length_drop, List.length_cons, readChunk]
          omega
        rw [hone]
        exact ⟨by rw [Nat.add_sub_add_right]; exact hreads,
          fun hfar hlt => hover hfar (Nat.lt_of_succ_lt_succ hlt)⟩

end Link

/-! ## One slot -/

/-- The lines of one worker. -/
def linesOf (w : Nat) (lines : List (Nat × String)) : List String :=
  lines.filterMap fun x => if x.1 = w then some x.2 else none

/-- The lines that are text, among what has been taken out of a buffer. -/
def spoken (entries : List (Except DecodeError String)) : List String :=
  entries.filterMap Except.toOption

theorem linesOf_append (w : Nat) (lines more : List (Nat × String)) :
    linesOf w (lines ++ more) = linesOf w lines ++ linesOf w more :=
  List.filterMap_append

theorem spoken_append (entries more : List (Except DecodeError String)) :
    spoken (entries ++ more) = spoken entries ++ spoken more :=
  List.filterMap_append

/-- A slot after its worker has been read from. -/
def WorkerSlot.afterRead (s : WorkerSlot) (k : Link) : WorkerSlot :=
  { s with buffer := (Frame.drainLines (s.buffer ++ (k.readUpTo WorkerPool.maxReadsPerPoll).1)).2 }

namespace WorkerPool

/-- A slot that listens: it is connected by a connection that no other slot has, and no loss
of it is to be reported. -/
structure Listens (p : WorkerPool) (w l : Nat) (s : WorkerSlot) (k : Link) : Prop where
  slot : p.slots[w]? = some s
  connected : s.connected = true
  link : s.link = l
  line : p.links[l]? = some k
  apart : ∀ (i : Nat) (t : WorkerSlot), p.slots[i]? = some t → t.link = l → i = w
  unreported : w ∉ p.lost

variable {p p' : WorkerPool} {w l : Nat} {s : WorkerSlot} {k : Link}

namespace Listens

theorem of_eq (h : p.Listens w l s k) (hs : p'.slots = p.slots) (hl : p'.links = p.links)
    (hlost : ∀ i ∈ p'.lost, i ∈ p.lost) : p'.Listens w l s k where
  slot := hs ▸ h.slot
  connected := h.connected
  link := h.link
  line := hl ▸ h.line
  apart := hs ▸ h.apart
  unreported := fun hw => h.unreported (hlost w hw)

/-- What is noted in a slot. -/
theorem modifySlot (h : p.Listens w l s k) {i : Nat} {f : WorkerSlot → WorkerSlot}
    (hf : ∀ t, (f t).link = t.link) (hown : i = w → (f s).connected = true) :
    (p.modifySlot i f).Listens w l (if i = w then f s else s) k where
  slot := by
    show (p.slots.modify i f)[w]? = _
    rw [List.getElem?_modify, h.slot]
    by_cases hi : i = w <;> simp [hi]
  connected := by
    split
    · next hi => exact hown hi
    · exact h.connected
  link := by
    split
    · exact (hf s).trans h.link
    · exact h.link
  line := h.line
  apart := fun j t ht hlink => by
    change (p.slots.modify i f)[j]? = some t at ht
    rw [List.getElem?_modify] at ht
    obtain ⟨t', ht', rfl⟩ := Option.map_eq_some_iff.mp ht
    refine h.apart j t' ht' ?_
    rw [← hlink]
    split
    · exact (hf t').symm
    · rfl
  unreported := h.unreported

/-- What happens on its connection. -/
theorem modifyLink (h : p.Listens w l s k) (f : Link → Link) :
    (p.modifyLink l f).Listens w l s (f k) :=
  { h with
    line := by
      show (p.links.modify l f)[l]? = _
      rw [List.getElem?_modify, h.line]
      simp }

/-- What happens on another connection. -/
theorem modifyLink_ne (h : p.Listens w l s k) {l' : Nat} (hne : l' ≠ l) (f : Link → Link) :
    (p.modifyLink l' f).Listens w l s k :=
  { h with
    line := by
      show (p.links.modify l' f)[l]? = _
      rw [List.getElem?_modify, h.line]
      simp [hne] }

theorem link_ne (h : p.Listens w l s k) {i : Nat} {t : WorkerSlot} (ht : p.slots[i]? = some t)
    (hi : i ≠ w) : t.link ≠ l :=
  fun hl => hi (h.apart i t ht hl)

/-- The loss of another worker. -/
theorem dropped (h : p.Listens w l s k) {i : Nat} {t : WorkerSlot} (hi : i ≠ w)
    (hne : t.link ≠ l) : (p.dropped i t).Listens w l s k := by
  have hslot := h.modifySlot (i := i)
    (f := fun t => { t with connected := false, available := false }) (fun _ => rfl)
    (fun hw => absurd hw hi)
  rw [if_neg hi] at hslot
  refine { hslot.modifyLink_ne hne Link.close with unreported := ?_ }
  intro hw
  rcases List.mem_append.mp hw with hw | hw
  · exact h.unreported hw
  · exact hi (List.mem_singleton.mp hw).symm

/-- A write on any connection. -/
theorem wrote (h : p.Listens w l s k) {l' : Nat} {k₀ : Link} (hk : p.links[l']? = some k₀)
    (payload : Bytes) : ∃ k', (p.wrote l' k₀ payload).Listens w l s k' ∧ k.Quiet k' := by
  by_cases hl : l' = l
  · subst hl
    cases hk.symm.trans h.line
    exact ⟨_, h.modifyLink _, k.quiet_write payload⟩
  · exact ⟨k, h.modifyLink_ne hl _, .refl⟩

/-- A message to any worker, unless it breaks the connection. -/
theorem sends (h : p.Listens w l s k) {index : Nat} {payload : Bytes}
    {write : Option (Nat × WriteOutcome)} {sent : Except SendError Unit}
    (hs : p.Sends index payload write sent p')
    (hclean : ∀ link outcome, write = some (link, outcome) → link = l →
      (∃ n, outcome = .accepted n ∧ n = payload.length) ∨ outcome = .wouldBlock) :
    ∃ k', p'.Listens w l s k' ∧ k.Quiet k' := by
  -- whose connection breaks is another worker
  have gone : ∀ {t : WorkerSlot} {k₀ : Link}, p.slots[index]? = some t →
      p.links[t.link]? = some k₀ → t.link ≠ l →
      ∃ k', ((p.wrote t.link k₀ payload).dropped index t).Listens w l s k' ∧ k.Quiet k' := by
    intro t k₀ ht hk hne
    obtain ⟨k', hk', hq⟩ := h.wrote hk payload
    refine ⟨k', hk'.dropped (fun hi => hne ?_) hne, hq⟩
    subst hi
    cases ht.symm.trans h.slot
    exact h.link
  cases hs with
  | unknown _ => exact ⟨k, h, .refl⟩
  | disconnected _ _ => exact ⟨k, h, .refl⟩
  | unlinked _ _ => exact ⟨k, h, .refl⟩
  | whole _ _ hk _ => exact h.wrote hk payload
  | blocked _ _ hk _ => exact h.wrote hk payload
  | part ht _ hk _ hn =>
    refine gone ht hk fun hl => ?_
    rcases hclean _ _ rfl hl with ⟨n, hacc, hlen⟩ | hblock
    · cases hacc
      exact hn hlen
    · cases hblock
  | failed ht _ hk _ =>
    refine gone ht hk fun hl => ?_
    rcases hclean _ _ rfl hl with ⟨n, hacc, -⟩ | hblock
    · cases hacc
    · cases hblock

/-- A worker that is added takes another slot, and a connection of its own. -/
theorem enlists (h : p.Listens w l s k) {index : Nat} (he : p.Enlists index p') :
    p'.Listens w l s k := by
  obtain ⟨new, hnew, hslots⟩ := he.slots
  have hl : l < p.links.length := (List.getElem?_eq_some_iff.mp h.line).1
  have hne : w ≠ index := by
    rintro rfl
    have hgone := (he.free s h.slot).1
    rw [h.connected] at hgone
    cases hgone
  refine ⟨?_, h.connected, h.link, ?_, ?_, ?_⟩
  · rw [hslots, if_neg hne, h.slot]
  · rw [he.links, List.getElem?_append_left hl, h.line]
  · intro i t ht hlink
    rw [hslots] at ht
    split at ht
    · cases ht
      omega
    · exact h.apart i t ht hlink
  · rw [he.lost]
    exact h.unreported

end Listens

/-! ## Reading from all workers -/

/-- The lines that a worker said completely when it is read from. -/
def saidLines (i : Nat) (s : WorkerSlot) (k : Link) : List (Nat × String) :=
  (Frame.drainLines (s.buffer ++ (k.readUpTo maxReadsPerPoll).1)).1.filterMap fun
    | .ok line => some (i, line)
    | .error _ => none

/-- The pool after a worker has been read from. -/
def afterRead (p : WorkerPool) (i : Nat) (s : WorkerSlot) (k : Link) : WorkerPool :=
  (p.modifyLink s.link fun _ => (k.readUpTo maxReadsPerPoll).2.2).modifySlot i fun s' =>
    { s' with buffer := (s.afterRead k).buffer }

theorem pollSlot_of_connected {i : Nat} (hs : p.slots[i]? = some s) (hc : s.connected = true)
    (hk : p.links[s.link]? = some k) :
    p.pollSlot i = (saidLines i s k,
      if (k.readUpTo maxReadsPerPoll).2.1 then (p.afterRead i s k).markLost i
      else p.afterRead i s k) := by
  rw [pollSlot, hs]
  simp only [hc, Bool.not_true, Bool.false_eq_true, if_false]
  rw [hk]
  rfl

/-- Either a worker is read from or nothing happens. -/
theorem pollSlot_cases (p : WorkerPool) (i : Nat) :
    p.pollSlot i = ([], p) ∨ ∃ s k, p.slots[i]? = some s ∧ s.connected = true ∧
      p.links[s.link]? = some k ∧ p.pollSlot i = (saidLines i s k,
        if (k.readUpTo maxReadsPerPoll).2.1 then (p.afterRead i s k).markLost i
        else p.afterRead i s k) := by
  cases hs : p.slots[i]? with
  | none => exact .inl (by rw [pollSlot, hs])
  | some s =>
    cases hc : s.connected with
    | false =>
      refine .inl ?_
      rw [pollSlot, hs]
      simp only [hc, Bool.not_false, if_true]
    | true =>
      cases hk : p.links[s.link]? with
      | none =>
        refine .inl ?_
        rw [pollSlot, hs]
        simp only [hc, Bool.not_true, Bool.false_eq_true, if_false]
        rw [hk]
      | some k => exact .inr ⟨s, k, rfl, hc, hk, pollSlot_of_connected hs hc hk⟩

theorem linesOf_saidLines (i : Nat) (s : WorkerSlot) (k : Link) :
    linesOf w (saidLines i s k) =
      if i = w then spoken (Frame.drainLines (s.buffer ++ (k.readUpTo maxReadsPerPoll).1)).1
      else [] := by
  rw [linesOf, saidLines, List.filterMap_filterMap]
  split
  · next hi =>
    refine congrArg (List.filterMap · _) (funext fun e => ?_)
    cases e <;> simp [hi, Except.toOption]
  · next hi =>
    rw [List.filterMap_eq_nil_iff]
    intro e _
    cases e <;> simp [hi]

/-- Every line goes with the worker it is from. -/
theorem linesOf_pollSlot_ne {i : Nat} (hi : i ≠ w) (p : WorkerPool) :
    linesOf w (p.pollSlot i).1 = [] := by
  rcases p.pollSlot_cases i with he | ⟨s, k, -, -, -, he⟩
  · rw [he]
    rfl
  · rw [he, linesOf_saidLines, if_neg hi]

/-- To read from another worker is nothing to the slot. -/
theorem Listens.pollSlot_ne (h : p.Listens w l s k) {i : Nat} (hi : i ≠ w) :
    (p.pollSlot i).2.Listens w l s k := by
  rcases p.pollSlot_cases i with he | ⟨t, k₀, ht, hc, hk, he⟩
  · rw [he]
    exact h
  · have hne := h.link_ne ht hi
    have hread : (p.afterRead i t k₀).Listens w l s k := by
      have := (h.modifyLink_ne hne fun _ => (k₀.readUpTo maxReadsPerPoll).2.2).modifySlot (i := i)
        (f := fun s' => { s' with buffer := (t.afterRead k₀).buffer }) (fun _ => rfl)
        (fun hw => absurd hw hi)
      rwa [if_neg hi] at this
    rw [he]
    dsimp only
    split
    · have hslot : (p.afterRead i t k₀).slots[i]? =
          some { t with buffer := (t.afterRead k₀).buffer } := by
        show (p.slots.modify i _)[i]? = _
        rw [List.getElem?_modify, ht]
        simp
      rw [markLost_of_connected hslot hc]
      exact hread.dropped hi hne
    · exact hread

/-- The slot after it has been read from, and the loss if the connection was over. -/
theorem Listens.pollSlot (h : p.Listens w l s k) :
    ((k.readUpTo maxReadsPerPoll).2.1 = false →
      (p.pollSlot w).2.Listens w l (s.afterRead k) (k.readUpTo maxReadsPerPoll).2.2) ∧
    ((k.readUpTo maxReadsPerPoll).2.1 = true → w ∈ (p.pollSlot w).2.lost) := by
  have hread : (p.afterRead w s k).Listens w l (s.afterRead k)
      (k.readUpTo maxReadsPerPoll).2.2 := by
    have := (h.modifyLink fun _ => (k.readUpTo maxReadsPerPoll).2.2).modifySlot (i := w)
      (f := fun s' => { s' with buffer := (s.afterRead k).buffer }) (fun _ => rfl)
      (fun _ => h.connected)
    rw [if_pos rfl] at this
    rw [WorkerPool.afterRead, h.link]
    exact this
  rw [pollSlot_of_connected h.slot h.connected (h.link ▸ h.line)]
  constructor
  · intro hover
    rw [hover]
    exact hread
  · intro hover
    rw [hover]
    show w ∈ ((p.afterRead w s k).markLost w).lost
    rw [markLost_of_connected hread.slot hread.connected]
    exact List.mem_append_right _ (List.mem_singleton_self w)

theorem linesOf_pollSlot (h : p.Listens w l s k) :
    linesOf w (p.pollSlot w).1 =
      spoken (Frame.drainLines (s.buffer ++ (k.readUpTo maxReadsPerPoll).1)).1 := by
  rw [pollSlot_of_connected h.slot h.connected (h.link ▸ h.line), linesOf_saidLines, if_pos rfl]

/-- A few workers are read from, one after the other. -/
def pollEach (is : List Nat) (x : List (Nat × String) × WorkerPool) :
    List (Nat × String) × WorkerPool :=
  is.foldl (fun (lines, p) i => (lines ++ (p.pollSlot i).1, (p.pollSlot i).2)) x

theorem pollEach_of_not_mem {is : List Nat} (hw : w ∉ is) (x : List (Nat × String) × WorkerPool) :
    linesOf w (pollEach is x).1 = linesOf w x.1 ∧
      (x.2.Listens w l s k → (pollEach is x).2.Listens w l s k) ∧
      (w ∈ x.2.lost → w ∈ (pollEach is x).2.lost) := by
  induction is generalizing x with
  | nil => exact ⟨rfl, id, id⟩
  | cons i is ih =>
    rw [List.mem_cons, not_or] at hw
    have hi : i ≠ w := Ne.symm hw.1
    obtain ⟨hlines, hlistens, hlost⟩ := ih hw.2 (x.1 ++ (x.2.pollSlot i).1, (x.2.pollSlot i).2)
    refine ⟨?_, fun h => hlistens (h.pollSlot_ne hi),
      fun h => hlost ((reports_pollSlot i).lost w h)⟩
    refine hlines.trans ?_
    rw [linesOf_append, linesOf_pollSlot_ne hi, List.append_nil]

/-- All workers are read from: each once, so the slot is read from once. -/
theorem Listens.pollAll (h : p.Listens w l s k) :
    linesOf w p.pollAll.1 =
      spoken (Frame.drainLines (s.buffer ++ (k.readUpTo maxReadsPerPoll).1)).1 ∧
    ((k.readUpTo maxReadsPerPoll).2.1 = false →
      p.pollAll.2.Listens w l (s.afterRead k) (k.readUpTo maxReadsPerPoll).2.2) ∧
    ((k.readUpTo maxReadsPerPoll).2.1 = true → w ∈ p.pollAll.2.lost) := by
  have hmem : w ∈ List.range p.slots.length :=
    List.mem_range.mpr (List.getElem?_eq_some_iff.mp h.slot).1
  have hnodup := @List.nodup_range p.slots.length
  have hall : p.pollAll = pollEach (List.range p.slots.length) ([], p) := rfl
  obtain ⟨front, back, hsplit⟩ := List.append_of_mem hmem
  rw [hsplit, List.nodup_append, List.nodup_cons] at hnodup
  obtain ⟨-, ⟨hback, -⟩, hdisjoint⟩ := hnodup
  have hfront : w ∉ front := fun hw => hdisjoint w hw w List.mem_cons_self rfl
  have hsteps : p.pollAll = pollEach back
      ((pollEach front ([], p)).1 ++ ((pollEach front ([], p)).2.pollSlot w).1,
        ((pollEach front ([], p)).2.pollSlot w).2) := by
    rw [hall, hsplit, pollEach, List.foldl_append, List.foldl_cons]
    rfl
  obtain ⟨hnone, hlistens, -⟩ := @pollEach_of_not_mem w l s k front hfront ([], p)
  have hbefore := hlistens h
  obtain ⟨hlines, hkeeps, hlost⟩ :=
    @pollEach_of_not_mem w l (s.afterRead k) (k.readUpTo maxReadsPerPoll).2.2 back hback
      ((pollEach front ([], p)).1 ++ ((pollEach front ([], p)).2.pollSlot w).1,
        ((pollEach front ([], p)).2.pollSlot w).2)
  rw [← hsteps] at hlines hkeeps hlost
  refine ⟨?_, fun hover => hkeeps (hbefore.pollSlot.1 hover),
    fun hover => hlost (hbefore.pollSlot.2 hover)⟩
  rw [hlines, linesOf_append, hnone, linesOf_pollSlot hbefore]
  rfl

/-! ## Assignments and delivery ticks -/

theorem Listens.beginAssign {d : Dispatcher} (h : d.pool.Listens w l s k) (now : Millis)
    (hclean : ∀ a, d.attempt? = some a → a.link = l → a.broken = false) :
    ∃ k', (d.beginAssign now).2.pool.Listens w l s k' ∧ k.Quiet k' := by
  rcases Dispatcher.begins_sends (d.begins_beginAssign now) with
    ⟨-, hp⟩ | ⟨id, worker, pool, line, write, sent, hsel, hs, hatt⟩
  · exact ⟨k, hp ▸ h, .refl⟩
  · obtain ⟨i, -, he⟩ := Option.map_eq_some_iff.mp hsel
    cases he
    have hchosen : ({ d.pool with next := worker + 1 } : WorkerPool).Listens w l s k :=
      h.of_eq rfl rfl fun _ hi => hi
    refine hchosen.sends hs fun link outcome hw hl => ?_
    subst hw
    have hunbroken := hclean _ hatt hl
    cases outcome with
    | accepted n => exact .inl ⟨n, rfl, by simpa [Attempt.broken] using hunbroken⟩
    | wouldBlock => exact .inr rfl
    | failed e => cases hunbroken

/-- What workers say changes no connection, and no list of the lost. -/
theorem Listens.ingestAll {d : Dispatcher} (h : d.pool.Listens w l s k) (now : Millis)
    (lines : List (Nat × String)) :
    ∃ s', (Gateway.ingestAll d now lines).pool.Listens w l s' k ∧ s'.buffer = s.buffer := by
  refine List.foldlRecOn lines _
    (motive := fun d : Dispatcher => ∃ s', d.pool.Listens w l s' k ∧ s'.buffer = s.buffer)
    ⟨s, h, rfl⟩ ?_
  rintro d ⟨s', h', hbuffer⟩ ⟨worker, line⟩ -
  obtain ⟨note, he, hnote⟩ := d.pool_ingest now worker line
  have hnoted := h'.modifySlot (i := worker) (fun t => (hnote t).1)
    (fun _ => (hnote s').2.1.trans h'.connected)
  refine ⟨_, he ▸ hnoted, ?_⟩
  split
  · exact (hnote s').2.2.trans hbuffer
  · exact hbuffer

end WorkerPool

namespace Gateway

theorem lost_ingestAll (d : Dispatcher) (now : Millis) (lines : List (Nat × String)) :
    (ingestAll d now lines).pool.lost = d.pool.lost := by
  refine List.foldlRecOn lines _
    (motive := fun d' : Dispatcher => d'.pool.lost = d.pool.lost) rfl ?_
  rintro d' h ⟨worker, line⟩ -
  obtain ⟨note, he, -⟩ := d'.pool_ingest now worker line
  exact (congrArg WorkerPool.lost he).trans h

/-- The engine when a delivery tick has heard what the workers said. -/
def afterHearing (g : Gateway) (now : Millis) : Dispatcher :=
  ingestAll { g.dispatcher with pool := g.dispatcher.pool.pollAll.2 } now
    g.dispatcher.pool.pollAll.1

/-- The calls with which a delivery tick begins, up to the last line that is heard. -/
def hearingCalls (g : Gateway) (now : Millis) : List BackendCall :=
  .pool g.dispatcher.pool.pollAll.2 ::
    g.dispatcher.pool.pollAll.1.map fun (worker, line) => .hear now worker line

/-- The calls that follow. -/
def closingCalls (g : Gateway) (now : Millis) : List BackendCall :=
  .pool (g.afterHearing now).pool.drainDisconnected.2 ::
    (g.afterHearing now).pool.lost.map (.failWorker · now) ++
    (g.settings.dispatch.taskTimeoutMs.map (.sweep now · now)).toList

theorem deliveryCalls_eq (g : Gateway) (now : Millis) :
    g.deliveryCalls now = g.hearingCalls now ++ g.closingCalls now := by
  have hheard : g.dispatcher.runBackend (.pool g.dispatcher.pool.pollAll.2 ::
      g.dispatcher.pool.pollAll.1.map fun (worker, line) => .hear now worker line) =
        g.afterHearing now := runBackend_hear _ now _
  rw [deliveryCalls]
  simp only [hheard]
  rw [List.append_assoc, WorkerPool.drainDisconnected]
  rfl

theorem pool_deliveryTick (g : Gateway) (now : Millis) :
    (g.deliveryTick now).2.dispatcher.pool = { (g.afterHearing now).pool with lost := [] } := by
  have hfailed : ∀ (lost : List Nat) (d : Dispatcher),
      (lost.foldl (fun d worker => (d.failWorkerTasks worker now).2) d).pool = d.pool := by
    intro lost d
    refine List.foldlRecOn lost _ (motive := fun d' : Dispatcher => d'.pool = d.pool) rfl ?_
    exact fun d' h worker _ => (Dispatcher.pool_endEach _).trans h
  have hexpired : ∀ (d : Dispatcher) (limit : Option Nat), (expire d now limit).pool = d.pool := by
    intro d limit
    cases limit with
    | none => rfl
    | some timeoutMs => exact Dispatcher.pool_endEach _
  exact (hexpired _ _).trans (hfailed _ _)

end Gateway

/-- The lines of one worker that are heard in a list of calls. -/
def heard (w : Nat) (calls : List BackendCall) : List String :=
  calls.filterMap fun
    | .hear _ i line => if i = w then some line else none
    | .assign _ | .failWorker _ _ | .sweep _ _ _ | .pool _ => none

theorem heard_append (w : Nat) (calls more : List BackendCall) :
    heard w (calls ++ more) = heard w calls ++ heard w more :=
  List.filterMap_append

/-- Nothing but a line is heard. -/
theorem heard_eq_nil {w : Nat} {calls : List BackendCall}
    (h : ∀ now i line, .hear now i line ∉ calls) : heard w calls = [] := by
  rw [heard, List.filterMap_eq_nil_iff]
  intro call hcall
  cases call with
  | hear now i line => exact absurd hcall (h now i line)
  | assign _ => rfl
  | failWorker _ _ => rfl
  | sweep _ _ _ => rfl
  | pool _ => rfl

theorem heard_hear (w : Nat) (now : Millis) (lines : List (Nat × String)) :
    heard w (lines.map fun (worker, line) => .hear now worker line) = linesOf w lines := by
  rw [heard, List.filterMap_map]
  rfl

namespace Gateway

variable {g : Gateway} {now : Millis} {w : Nat}

theorem failWorker_not_mem_hearingCalls (i : Nat) (t : Millis) :
    .failWorker i t ∉ g.hearingCalls now := by
  simp [hearingCalls]

theorem hear_not_mem_closingCalls (t : Millis) (i : Nat) (line : String) :
    .hear t i line ∉ g.closingCalls now := by
  simp [closingCalls]

theorem failWorker_mem_closingCalls {i : Nat} {t : Millis} :
    .failWorker i t ∈ g.closingCalls now ↔ i ∈ (g.afterHearing now).pool.lost ∧ now = t := by
  have hlimit : .failWorker i t ∉
      (g.settings.dispatch.taskTimeoutMs.map (BackendCall.sweep now · now)).toList := by
    cases g.settings.dispatch.taskTimeoutMs <;> simp
  rw [closingCalls, List.mem_append, or_iff_left hlimit, List.mem_cons, List.mem_map]
  constructor
  · rintro (h | ⟨j, hj, h⟩)
    · cases h
    · cases h
      exact ⟨hj, rfl⟩
  · rintro ⟨hi, rfl⟩
    exact .inr ⟨i, hi, rfl⟩

theorem heard_deliveryCalls (w : Nat) (g : Gateway) (now : Millis) :
    heard w (g.deliveryCalls now) = linesOf w g.dispatcher.pool.pollAll.1 := by
  rw [deliveryCalls_eq, heard_append, heard_eq_nil hear_not_mem_closingCalls, List.append_nil]
  exact heard_hear w now _

/-- Whatever a delivery tick hears it has heard before it fails the tasks of any worker. -/
theorem heard_before_failWorker {before after : List BackendCall} {i : Nat} {t : Millis}
    (h : g.deliveryCalls now = before ++ .failWorker i t :: after) :
    heard w before = heard w (g.deliveryCalls now) := by
  have hsplit := h
  rw [deliveryCalls_eq] at hsplit
  rcases List.append_eq_append_iff.mp hsplit with ⟨c, hbefore, hclosing⟩ | ⟨c, hhearing, hafter⟩
  · have hrest : heard w (.failWorker i t :: after) = [] :=
      heard_eq_nil fun t' j line hmem =>
        hear_not_mem_closingCalls t' j line (hclosing ▸ List.mem_append_right c hmem)
    rw [h, heard_append, hrest, List.append_nil]
  · cases c with
    | nil =>
      have hrest : heard w (.failWorker i t :: after) = [] :=
        heard_eq_nil fun t' j line hmem =>
          hear_not_mem_closingCalls t' j line (by rwa [hafter, List.nil_append] at hmem)
      rw [h, heard_append, hrest, List.append_nil]
    | cons x c =>
      cases (List.cons.inj hafter).1
      exact absurd (hhearing ▸ List.mem_append_right before List.mem_cons_self)
        (failWorker_not_mem_hearingCalls i t)

end Gateway

/-- A delivery tick, for a worker that is listened to: it reads once, and everything that is
complete then is heard. If the connection is not over it is listened to again afterwards, and
if it is its tasks are failed in the end. -/
theorem WorkerPool.Listens.deliveryTick {g : Gateway} {w l : Nat} {s : WorkerSlot} {k : Link}
    (h : g.dispatcher.pool.Listens w l s k) (now : Millis) :
    heard w (g.deliveryCalls now) =
      spoken (Frame.drainLines (s.buffer ++ (k.readUpTo WorkerPool.maxReadsPerPoll).1)).1 ∧
    ((k.readUpTo WorkerPool.maxReadsPerPoll).2.1 = false →
      (∃ s', (g.deliveryTick now).2.dispatcher.pool.Listens w l s'
          (k.readUpTo WorkerPool.maxReadsPerPoll).2.2 ∧
        s'.buffer = (s.afterRead k).buffer) ∧
      ∀ t, .failWorker w t ∉ g.deliveryCalls now) ∧
    ((k.readUpTo WorkerPool.maxReadsPerPoll).2.1 = true →
      .failWorker w now ∈ g.deliveryCalls now) := by
  obtain ⟨hlines, hkept, hlost⟩ := h.pollAll
  have hsame : (g.afterHearing now).pool.lost = g.dispatcher.pool.pollAll.2.lost :=
    Gateway.lost_ingestAll _ now _
  refine ⟨(Gateway.heard_deliveryCalls w g now).trans hlines, fun hover => ?_, fun hover => ?_⟩
  · have hpolled := hkept hover
    have hengine : ({ g.dispatcher with pool := g.dispatcher.pool.pollAll.2 } :
        Dispatcher).pool.Listens w l (s.afterRead k) (k.readUpTo maxReadsPerPoll).2.2 := hpolled
    obtain ⟨s', hs', hbuffer⟩ := hengine.ingestAll now g.dispatcher.pool.pollAll.1
    refine ⟨⟨s', ?_, hbuffer⟩, fun t ht => ?_⟩
    · rw [Gateway.pool_deliveryTick]
      exact hs'.of_eq rfl rfl fun _ hi => absurd hi List.not_mem_nil
    · rw [Gateway.deliveryCalls_eq, List.mem_append] at ht
      rcases ht with ht | ht
      · exact Gateway.failWorker_not_mem_hearingCalls w t ht
      · have hw := (Gateway.failWorker_mem_closingCalls.mp ht).1
        rw [hsame] at hw
        exact hpolled.unreported hw
  · rw [Gateway.deliveryCalls_eq, List.mem_append]
    refine .inr (Gateway.failWorker_mem_closingCalls.mpr ⟨?_, rfl⟩)
    rw [hsame]
    exact hlost hover

end PromptGateway
