import PromptGateway.Text.Utf8

/-
  One connection, seen from this end.

  A link is a queue of bytes in each direction. The far end may close it in an
  orderly way, after which this end reads what is queued and then the end, and
  one more write is still accepted, and lost; or reset it, after which this end
  reads what is queued and then an error, and cannot write. A write takes as many
  bytes as there is room for: all of them, some, or none, which is to say that it
  would block.

  What is proved: `bytes_read`, reading loses and reorders nothing; `readAll_eq`,
  to read until it would block brings everything that is queued; and
  `bytes_written`, a write to an open link appends the part it accepts, the front
  of what it was given.
-/

namespace PromptGateway

/-- Why a system call on a link fails. -/
inductive IoError where
  | interrupted
  | brokenPipe
  | connectionReset
  deriving DecidableEq, Repr

/-- The wording of a failed call. -/
def IoError.message : IoError → String
  | interrupted => "Interrupted system call (os error 4)"
  | brokenPipe => "Broken pipe (os error 32)"
  | connectionReset => "Connection reset by peer (os error 104)"

/-- The state of the other end of a link. -/
inductive FarEnd where
  | present
  /-- Closed in an orderly way; `noticed` once a write has been answered. -/
  | closed (noticed : Bool)
  | reset
  deriving DecidableEq, Repr

/-- One connection, seen from this end. -/
structure Link where
  /-- What the far end has sent and this end has not read. -/
  inbound : Bytes := []
  /-- What this end has written and the far end has not taken. -/
  outbound : Bytes := []
  farEnd : FarEnd := .present
  /-- How many more bytes a write can place. -/
  room : Nat
  /-- How many of the next calls are interrupted by a signal. -/
  interruptions : Nat := 0
  /-- Whether this end has closed the link. -/
  shut : Bool := false
  deriving DecidableEq, Repr

/-- What a read brings. -/
inductive ReadOutcome where
  | data (bytes : Bytes)
  | endOfStream
  | wouldBlock
  | failed (error : IoError)
  deriving DecidableEq, Repr

/-- What a write does. -/
inductive WriteOutcome where
  | accepted (count : Nat)
  | wouldBlock
  | failed (error : IoError)
  deriving DecidableEq, Repr

namespace Link

/-- How many bytes a link holds that the far end has not taken. -/
def capacity : Nat := 8 * 1024 * 1024

/-- The most that one read brings. -/
def readChunk : Nat := 4096

/-- A new connection. -/
def fresh : Link := { room := capacity }

/-! ## This end -/

/-- One read. -/
def read (l : Link) : ReadOutcome × Link :=
  match l.interruptions with
  | n + 1 => (.failed .interrupted, { l with interruptions := n })
  | 0 =>
    if l.inbound.isEmpty then
      if l.shut then (.endOfStream, l)
      else match l.farEnd with
        | .present => (.wouldBlock, l)
        | .closed _ => (.endOfStream, l)
        | .reset => (.failed .connectionReset, l)
    else (.data (l.inbound.take readChunk), { l with inbound := l.inbound.drop readChunk })

/-- One write. -/
def write (l : Link) (payload : Bytes) : WriteOutcome × Link :=
  match l.interruptions with
  | n + 1 => (.failed .interrupted, { l with interruptions := n })
  | 0 =>
    if l.shut then (.failed .brokenPipe, l)
    else match l.farEnd with
      | .closed true => (.failed .brokenPipe, l)
      | .closed false => (.accepted payload.length, { l with farEnd := .closed true })
      | .reset => (.failed .connectionReset, l)
      | .present =>
        if l.room = 0 ∧ payload ≠ [] then (.wouldBlock, l)
        else
          let n := min l.room payload.length
          (.accepted n, { l with outbound := l.outbound ++ payload.take n, room := l.room - n })

/-- Reads until it would block, the link ends or fails, but at most `n` times.
Gives what was read, whether the link is over, and the link after it. -/
def readUpTo : Nat → Link → Bytes × Bool × Link
  | 0, l => ([], false, l)
  | n + 1, l =>
    match l.read with
    | (.data b, l) =>
      let (rest, ended, l) := readUpTo n l
      (b ++ rest, ended, l)
    | (.wouldBlock, l) => ([], false, l)
    | (.failed .interrupted, l) => readUpTo n l
    | (.endOfStream, l) => ([], true, l)
    | (.failed _, l) => ([], true, l)

/-- Reads until it would block, the link ends or fails. Each read but the last
uses up a byte or an interruption. -/
def readAll (l : Link) : Bytes × Bool × Link :=
  readUpTo (l.inbound.length + l.interruptions + 1) l

/-- Closes the link from this end. -/
def close (l : Link) : Link := { l with shut := true }

/-! ## The far end -/

/-- The far end sends bytes. -/
def arrive (l : Link) (bytes : Bytes) : Link := { l with inbound := l.inbound ++ bytes }

/-- The far end takes everything that has been written, and sees whether the
link has been closed behind it. -/
def take (l : Link) : Bytes × Bool × Link :=
  (l.outbound, l.shut, { l with outbound := [], room := l.room + l.outbound.length })

/-- The far end closes in an orderly way. -/
def closeFar (l : Link) : Link := { l with farEnd := .closed false }

/-- The far end resets the connection. -/
def resetFar (l : Link) : Link := { l with farEnd := .reset }

/-- No more room for a write. -/
def stuff (l : Link) : Link := { l with room := 0 }

/-- Room for writes again. -/
def unstuff (l : Link) : Link := { l with room := capacity - l.outbound.length }

/-! ## Laws -/

/-- A write is interrupted once for every pending interruption. -/
theorem interruptions_of_interrupted {l l' : Link} {payload : Bytes}
    (h : l.write payload = (.failed .interrupted, l')) :
    l'.interruptions + 1 = l.interruptions := by
  unfold write at h
  split at h
  · next n hn => cases h; simp [hn]
  · split at h
    · cases h
    · split at h
      · cases h
      · cases h
      · cases h
      · split at h <;> cases h

/-- A write that is accepted was not interrupted. -/
theorem interruptions_of_accepted {l l' : Link} {payload : Bytes} {n : Nat}
    (h : l.write payload = (.accepted n, l')) : l'.interruptions = l.interruptions := by
  unfold write at h
  split at h
  · cases h
  · split at h
    · cases h
    · split at h
      · cases h
      · cases h; rfl
      · cases h
      · split at h <;> cases h
        rfl

/-- Reading loses and reorders nothing. -/
theorem bytes_read {l l' : Link} {b : Bytes} (h : l.read = (.data b, l')) :
    b ++ l'.inbound = l.inbound ∧ b ≠ [] := by
  unfold read at h
  split at h
  · cases h
  · split at h
    · split at h
      · cases h
      · split at h <;> cases h
    · next hne =>
      cases h
      refine ⟨List.take_append_drop _ _, ?_⟩
      cases hi : l.inbound with
      | nil => simp [hi] at hne
      | cons x xs => simp [readChunk]

/-- Whether there is an end or a failure behind what is queued. -/
def isOver (l : Link) : Bool := l.shut || l.farEnd != .present

/-- Reading often enough brings everything that is queued, and then what is behind
it. -/
theorem readUpTo_eq : ∀ (n : Nat) (l : Link), l.inbound.length + l.interruptions < n →
    l.readUpTo n = (l.inbound, l.isOver, { l with inbound := [], interruptions := 0 })
  | 0, _, h => absurd h (Nat.not_lt_zero _)
  | n + 1, l, h => by
    obtain ⟨inbound, outbound, farEnd, room, interruptions, shut⟩ := l
    cases interruptions with
    | succ k =>
      simp only [readUpTo, read]
      rw [readUpTo_eq n _ (by simp only at h ⊢; omega)]
      rfl
    | zero =>
      cases inbound with
      | nil => cases shut <;> cases farEnd <;> simp [readUpTo, read, isOver]
      | cons b bs =>
        simp only [readUpTo, read, List.isEmpty_cons, Bool.false_eq_true, if_false]
        rw [readUpTo_eq n _ (by
          simp only [List.length_drop, List.length_cons, readChunk] at h ⊢
          omega)]
        simp [isOver]

theorem readAll_eq (l : Link) :
    l.readAll = (l.inbound, l.isOver, { l with inbound := [], interruptions := 0 }) :=
  readUpTo_eq _ _ (Nat.lt_succ_self _)

/-- A write to a link whose far end is there appends the part it accepts, the
front of the payload. -/
theorem bytes_written {l l' : Link} {payload : Bytes} {n : Nat} (hf : l.farEnd = .present)
    (h : l.write payload = (.accepted n, l')) :
    l'.outbound = l.outbound ++ payload.take n ∧ n ≤ payload.length := by
  unfold write at h
  split at h
  · cases h
  · split at h
    · cases h
    · simp only [hf] at h
      split at h
      · cases h
      · cases h
        exact ⟨rfl, Nat.min_le_right _ _⟩

end Link

end PromptGateway
