import PromptGateway.Proofs.Hearing
import PromptGateway.Proofs.Notices

/-
  What is the end of a connection.

  A message that is not taken as a whole is the end of the connection it is sent on, unless it
  would have had to wait. A sweep is the end of a connection when one of the reads it makes finds
  the far end gone or fails, an interruption apart. So much is said by the socket alone.

    1. `Link.Ends` is about the reads of a sweep, one after the other, and
       `Link.readUpTo_over_iff` says that it is what a sweep finds out.
    2. `WorkerPool.Severs` says of an act on a pool which connection is at its end.
    3. What is noted as lost was connected before and is not any more (`lost_mem_losses`), and a
       message notes a loss exactly if it is the end of the connection (`lost_mem_notices_send`).
       Nothing else that is done to a pool does, but for a sweep (`lost_not_mem_notices`).
-/

namespace PromptGateway

/-! ## Outcomes -/

/-- Whether a write of so many bytes is the end of a connection: half a message spoils every
later one. -/
def WriteOutcome.severs (size : Nat) : WriteOutcome → Bool
  | accepted n => n != size
  | wouldBlock => false
  | failed _ => true

/-- Whether a read finds a connection at its end. -/
def ReadOutcome.severs : ReadOutcome → Bool
  | endOfStream => true
  | failed e => e != .interrupted
  | data _ | wouldBlock => false

/-- Whether a reader goes on after a read. -/
def ReadOutcome.goesOn : ReadOutcome → Bool
  | data _ => true
  | failed e => e == .interrupted
  | endOfStream | wouldBlock => false

namespace Link

/-- A connection after a number of reads. -/
def afterReads : Nat → Link → Link
  | 0, l => l
  | k + 1, l => afterReads k l.read.2

/-- One of the first `n` reads finds the connection at its end, and the reader gets to it. -/
def Ends (n : Nat) (l : Link) : Prop :=
  ∃ k < n, (l.afterReads k).read.1.severs = true ∧
    ∀ j < k, (l.afterReads j).read.1.goesOn = true

theorem not_ends_zero (l : Link) : ¬ l.Ends 0 := by
  rintro ⟨k, hk, -⟩
  exact Nat.not_lt_zero k hk

/-- The first read is the end, or the reader goes on and it is one of the others. -/
theorem ends_succ (n : Nat) (l : Link) :
    l.Ends (n + 1) ↔ l.read.1.severs = true ∨ l.read.1.goesOn = true ∧ l.read.2.Ends n := by
  constructor
  · rintro ⟨k, hk, hsevers, hbefore⟩
    cases k with
    | zero => exact .inl hsevers
    | succ k =>
      refine .inr ⟨hbefore 0 (Nat.succ_pos k), k, Nat.lt_of_succ_lt_succ hk, hsevers, ?_⟩
      exact fun j hj => hbefore (j + 1) (Nat.succ_lt_succ hj)
  · rintro (hsevers | ⟨hgoes, k, hk, hsevers, hbefore⟩)
    · exact ⟨0, Nat.succ_pos n, hsevers, fun j hj => absurd hj (Nat.not_lt_zero j)⟩
    · refine ⟨k + 1, Nat.succ_lt_succ hk, hsevers, fun j hj => ?_⟩
      cases j with
      | zero => exact hgoes
      | succ j => exact hbefore j (Nat.lt_of_succ_lt_succ hj)

/-- A reader that stops after so many reads finds out whether one of them is the end. -/
theorem readUpTo_over_iff (n : Nat) (l : Link) : (l.readUpTo n).2.1 = true ↔ l.Ends n := by
  induction n generalizing l with
  | zero => simp [readUpTo, not_ends_zero]
  | succ n ih =>
    rw [ends_succ, ← ih, readUpTo]
    generalize l.read = r
    obtain ⟨o, l'⟩ := r
    cases o with
    | data b => simp [ReadOutcome.severs, ReadOutcome.goesOn]
    | endOfStream => simp [ReadOutcome.severs]
    | wouldBlock => simp [ReadOutcome.severs, ReadOutcome.goesOn]
    | failed e => cases e <;> simp [ReadOutcome.severs, ReadOutcome.goesOn]

end Link

/-! ## Acts -/

namespace WorkerPool

variable {p p' : WorkerPool} {i c index : Nat} {s : WorkerSlot} {k : Link} {payload : Bytes}

/-- A worker is connected by a connection. -/
structure Holds (p : WorkerPool) (i c : Nat) (k : Link) : Prop where
  slot : ∃ s, p.slots[i]? = some s ∧ s.connected = true ∧ s.link = c
  line : p.links[c]? = some k

/-- An act is the end of the connection that a worker has: a message to it that is not taken as
a whole and did not have to wait, or a sweep with a read that finds the connection over. -/
def Severs (p : WorkerPool) (i c : Nat) : PoolAct → Prop
  | .send index payload =>
    index = i ∧ ∃ k, p.Holds i c k ∧ (k.write payload).1.severs payload.length = true
  | .call .poll => ∃ k, p.Holds i c k ∧ k.Ends maxReadsPerPoll
  | .call _ => False

/-- What is noted as lost was connected and is not any more. -/
theorem lost_mem_losses : .lost i c ∈ p.losses p' ↔
    (∃ s, p.slots[i]? = some s ∧ s.connected = true ∧ s.link = c) ∧ p'.isConnected i = false := by
  have hlossAt : ∀ j, p.lossAt? p' j = some (.lost i c) ↔
      j = i ∧ (∃ s, p.slots[j]? = some s ∧ s.connected = true ∧ s.link = c) ∧
        p'.isConnected j = false := by
    intro j
    rw [lossAt?]
    cases p.slots[j]? with
    | none => simp
    | some s => cases hon : s.connected <;> cases p'.isConnected j <;> simp [hon, and_comm]
  rw [losses, List.mem_filterMap]
  simp only [hlossAt, List.mem_range]
  constructor
  · rintro ⟨j, -, rfl, h⟩
    exact h
  · intro h
    obtain ⟨s, hs, -⟩ := h.1
    exact ⟨i, (List.getElem?_eq_some_iff.mp hs).1, rfl, h⟩

/-- A slot is given up, and no other one. -/
theorem isConnected_dropped (hs : p.slots[i]? = some s) (hon : s.connected = true) (index : Nat)
    (t : WorkerSlot) : (p.dropped index t).isConnected i = false ↔ index = i := by
  rw [isConnected, slots_dropped, hs, Option.map_some]
  by_cases hi : index = i <;> simp [hi, hon]

/-- A message notes a loss exactly if it is the end of the connection. -/
theorem lost_mem_notices_send :
    .lost i c ∈ p.notices (.send index payload) ↔ p.Severs i c (.send index payload) := by
  rw [notices, lost_mem_losses]
  have hsends := p.sends_send index payload
  generalize p.write? index payload = w at hsends
  generalize (p.send index payload).1 = sent at hsends
  generalize (p.send index payload).2 = p' at hsends ⊢
  constructor
  · rintro ⟨⟨s, hs, hon, rfl⟩, hoff⟩
    -- a slot that is as it was is still connected
    have kept : ∀ q : WorkerPool, q.slots = p.slots → q.isConnected i = true := by
      intro q hq
      rw [isConnected, hq, hs]
      exact hon
    have severed : ∀ {t k}, p.slots[index]? = some t → p.links[t.link]? = some k →
        ((p.wrote t.link k payload).dropped index t).isConnected i = false →
        (k.write payload).1.severs payload.length = true →
        p.Severs i s.link (.send index payload) := by
      intro t k ht hk hdropped hsevers
      obtain rfl := (isConnected_dropped (p := p.wrote t.link k payload) hs hon index t).mp hdropped
      cases hs.symm.trans ht
      exact ⟨rfl, k, ⟨⟨s, hs, hon, rfl⟩, hk⟩, hsevers⟩
    cases hsends with
    | unknown _ => simp [kept p rfl] at hoff
    | disconnected _ _ => simp [kept p rfl] at hoff
    | unlinked _ _ => simp [kept p rfl] at hoff
    | whole _ _ _ _ => simp [kept (p.wrote _ _ payload) rfl] at hoff
    | blocked _ _ _ _ => simp [kept (p.wrote _ _ payload) rfl] at hoff
    | part ht _ hk hw hn => exact severed ht hk hoff (by simp [hw, WriteOutcome.severs, hn])
    | failed ht _ hk hw => exact severed ht hk hoff (by rw [hw]; rfl)
  · rintro ⟨rfl, k, ⟨⟨s, hs, hon, rfl⟩, hk⟩, hsevers⟩
    refine ⟨⟨s, hs, hon, rfl⟩, ?_⟩
    cases hsends with
    | unknown ht => cases hs.symm.trans ht
    | disconnected ht htc =>
      cases hs.symm.trans ht
      cases hon.symm.trans htc
    | unlinked ht hnone =>
      cases hs.symm.trans ht
      cases hk.symm.trans hnone
    | whole ht _ hk' hw =>
      cases hs.symm.trans ht
      cases hk.symm.trans hk'
      simp [hw, WriteOutcome.severs] at hsevers
    | blocked ht _ hk' hw =>
      cases hs.symm.trans ht
      cases hk.symm.trans hk'
      simp [hw, WriteOutcome.severs] at hsevers
    | part ht _ _ _ _ => exact (isConnected_dropped (p := p.wrote _ _ payload) hs hon ..).mpr rfl
    | failed ht _ _ _ => exact (isConnected_dropped (p := p.wrote _ _ payload) hs hon ..).mpr rfl

/-- Nothing but a message or a sweep notes a loss. -/
theorem lost_not_mem_notices {call : PoolCall} (h : call ≠ .poll) :
    .lost i c ∉ p.notices (.call call) := by
  cases call with
  | poll => exact (h rfl).elim
  | add network now address =>
    rw [notices]
    split <;> simp
  | drain => simp [notices]
  | _ => simp [notices]

end WorkerPool

end PromptGateway
