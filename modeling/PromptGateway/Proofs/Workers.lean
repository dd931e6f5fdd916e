import PromptGateway.Worker.Pool

/-
  What becomes of the connections to the workers.

  Two relations between a pool and a later one carry everything that follows. `Reports`:
  the slots are the same and so are their connections, a slot may have lost its connection
  and then it stands in the list of the lost, and nothing was written. Reading, choosing
  and noting are of this kind. `Fades` is the same without the list: taking the list and
  closing everything are of this kind only. A worker that is added takes a slot that may be
  taken over, or a new one, and a connection of its own (`Enlists`).

  `Sends` lists what a message to a worker can come to, and the write that was made for it
  if one was (`sends_send`).
-/

namespace PromptGateway

/-- The part of a message that a write has taken over. -/
def WriteOutcome.taken (payload : Bytes) : WriteOutcome → Bytes
  | .accepted n => payload.take n
  | .wouldBlock | .failed _ => []

namespace Link

/-- Whatever a write takes over goes to the far end, if there is one. -/
theorem outbound_write (l : Link) (payload : Bytes) :
    (l.write payload).2.outbound =
      l.outbound ++ if l.farEnd = .present then (l.write payload).1.taken payload else [] := by
  unfold write
  split
  · simp [WriteOutcome.taken]
  · split
    · simp [WriteOutcome.taken]
    · split
      · simp [*]
      · simp [*]
      · simp [*]
      · split <;> simp [WriteOutcome.taken]

theorem le_of_accepted {l : Link} {payload : Bytes} {n : Nat}
    (h : (l.write payload).1 = .accepted n) : n ≤ payload.length := by
  unfold write at h
  split at h
  · cases h
  · split at h
    · cases h
    · split at h
      · cases h
      · cases h
        exact Nat.le_refl _
      · cases h
      · split at h
        · cases h
        · cases h
          exact Nat.min_le_right _ _

theorem outbound_read (l : Link) : l.read.2.outbound = l.outbound := by
  unfold read
  split
  · rfl
  · split
    · split
      · rfl
      · split <;> rfl
    · rfl

theorem outbound_readUpTo (n : Nat) (l : Link) : (l.readUpTo n).2.2.outbound = l.outbound := by
  induction n generalizing l with
  | zero => rfl
  | succ n ih =>
    have hread := l.outbound_read
    unfold readUpTo
    split <;> rename_i e <;> rw [e] at hread
    · exact (ih _).trans hread
    · exact hread
    · exact (ih _).trans hread
    · exact hread
    · exact hread

end Link

namespace WorkerPool

variable {p p' p'' : WorkerPool}

/-- What has been written to each connection and has not been taken yet. -/
def outbounds (p : WorkerPool) : List Bytes := p.links.map (·.outbound)

/-- The slots are the same, but for connections that are gone, and nothing was written. -/
structure Fades (p p' : WorkerPool) : Prop where
  slots : p'.slots.length = p.slots.length
  kept : ∀ (i : Nat) (s' : WorkerSlot), p'.slots[i]? = some s' → ∃ s : WorkerSlot,
    p.slots[i]? = some s ∧ s'.link = s.link ∧ (s'.connected = true → s.connected = true)
  outbounds : p'.outbounds = p.outbounds

/-- Whatever connection is gone, its worker is in the list of the lost, and only workers are
put on it. -/
structure Reports (p p' : WorkerPool) : Prop extends Fades p p' where
  lost : ∀ i ∈ p.lost, i ∈ p'.lost
  known : ∀ i ∈ p'.lost, i ∈ p.lost ∨ i < p.slots.length
  noted : ∀ (i : Nat) (s s' : WorkerSlot), p.slots[i]? = some s → p'.slots[i]? = some s' →
    s.connected = true → s'.connected = true ∨ i ∈ p'.lost

theorem length_outbounds : p.outbounds.length = p.links.length := List.length_map _

theorem modifySlot_modifySlot (p : WorkerPool) (i : Nat) (f g : WorkerSlot → WorkerSlot) :
    (p.modifySlot i f).modifySlot i g = p.modifySlot i (g ∘ f) :=
  congrArg (fun slots => { p with slots := slots }) (List.modify_modify_eq ..)

theorem outbounds_modifyLink {l : Nat} {f : Link → Link}
    (hf : ∀ k, p.links[l]? = some k → (f k).outbound = k.outbound) :
    (p.modifyLink l f).outbounds = p.outbounds := by
  refine List.ext_getElem? fun i => ?_
  simp only [outbounds, modifyLink, List.getElem?_map, List.getElem?_modify]
  by_cases hi : l = i
  · subst hi
    cases hk : p.links[l]? with
    | none => simp
    | some k => simp [hf k hk]
  · simp [hi]

namespace Fades

theorem refl : Fades p p := ⟨rfl, fun _ s hs => ⟨s, hs, rfl, id⟩, rfl⟩

theorem trans (h : Fades p p') (h' : Fades p' p'') : Fades p p'' where
  slots := h'.slots.trans h.slots
  kept := fun i s'' hs'' => by
    obtain ⟨s', hs', hl', hc'⟩ := h'.kept i s'' hs''
    obtain ⟨s, hs, hl, hc⟩ := h.kept i s' hs'
    exact ⟨s, hs, hl'.trans hl, fun h => hc (hc' h)⟩
  outbounds := h'.outbounds.trans h.outbounds

theorem links (h : Fades p p') : p'.links.length = p.links.length := by
  rw [← length_outbounds, h.outbounds, length_outbounds]

/-- A slot is found again with its connection. -/
theorem found (h : Fades p p') {i : Nat} {s : WorkerSlot} (hs : p.slots[i]? = some s) :
    ∃ s', p'.slots[i]? = some s' ∧ s'.link = s.link := by
  have hi : i < p'.slots.length := by
    rw [h.slots]
    exact (List.getElem?_eq_some_iff.mp hs).1
  obtain ⟨s₀, hs₀, hl, -⟩ := h.kept i _ (List.getElem?_eq_getElem hi)
  cases hs.symm.trans hs₀
  exact ⟨_, List.getElem?_eq_getElem hi, hl⟩

end Fades

namespace Reports

/-- Nothing happens to the slots, nothing is lost and nothing is written. -/
theorem of_eq (hs : p'.slots = p.slots) (hl : p'.lost = p.lost)
    (ho : p'.outbounds = p.outbounds) : Reports p p' where
  slots := congrArg List.length hs
  kept := fun i s' hs' => ⟨s', hs ▸ hs', rfl, id⟩
  outbounds := ho
  lost := fun i hi => hl ▸ hi
  known := fun i hi => .inl (hl ▸ hi)
  noted := fun i s s' hi hi' hc => by
    rw [hs, hi] at hi'
    cases hi'
    exact .inl hc

theorem refl : Reports p p := of_eq rfl rfl rfl

theorem trans (h : Reports p p') (h' : Reports p' p'') : Reports p p'' where
  toFades := h.toFades.trans h'.toFades
  lost := fun i hi => h'.lost i (h.lost i hi)
  known := fun i hi => by
    rcases h'.known i hi with hi | hi
    · exact h.known i hi
    · exact .inr (h.slots ▸ hi)
  noted := fun i s s'' hs hs'' hc => by
    obtain ⟨s', hs', -, -⟩ := h'.kept i s'' hs''
    rcases h.noted i s s' hs hs' hc with hc' | hl
    · exact h'.noted i s' s'' hs' hs'' hc'
    · exact .inr (h'.lost i hl)

/-- What is noted in a slot without a change of its connection. -/
theorem modifySlot {i : Nat} {f : WorkerSlot → WorkerSlot}
    (hf : ∀ s, (f s).link = s.link ∧ (f s).connected = s.connected) :
    Reports p (p.modifySlot i f) := by
  have hget : ∀ j, (p.modifySlot i f).slots[j]? = (p.slots[j]?).map fun s => if i = j then f s else s := by
    intro j
    show (p.slots.modify i f)[j]? = _
    rw [List.getElem?_modify]
    cases p.slots[j]? <;> by_cases h : i = j <;> simp [h]
  have hsame : ∀ j (s : WorkerSlot), (if i = j then f s else s).link = s.link ∧
      (if i = j then f s else s).connected = s.connected := by
    intro j s
    split
    · exact hf s
    · exact ⟨rfl, rfl⟩
  refine ⟨⟨List.length_modify .., ?_, rfl⟩, fun _ h => h, fun _ h => .inl h, ?_⟩
  · intro j s' hs'
    rw [hget] at hs'
    obtain ⟨s, hs, rfl⟩ := Option.map_eq_some_iff.mp hs'
    exact ⟨s, hs, (hsame j s).1, fun h => (hsame j s).2 ▸ h⟩
  · intro j s s' hs hs' hc
    rw [hget, hs] at hs'
    cases hs'
    exact .inl ((hsame j s).2.trans hc)

theorem modifyLink {l : Nat} {f : Link → Link}
    (hf : ∀ k, p.links[l]? = some k → (f k).outbound = k.outbound) :
    Reports p (p.modifyLink l f) :=
  of_eq rfl rfl (outbounds_modifyLink hf)

end Reports

/-! ## Losses -/

/-- A pool in which the connection of a worker has been given up. -/
def dropped (p : WorkerPool) (i : Nat) (s : WorkerSlot) : WorkerPool :=
  { (p.modifySlot i fun s => { s with connected := false, available := false }).modifyLink s.link
      Link.close with lost := p.lost ++ [i] }

theorem markLost_of_connected {i : Nat} {s : WorkerSlot} (hs : p.slots[i]? = some s)
    (hc : s.connected = true) : p.markLost i = p.dropped i s := by
  rw [markLost, hs]
  exact if_pos hc

theorem slots_dropped (i j : Nat) (s : WorkerSlot) :
    (p.dropped i s).slots[j]? = (p.slots[j]?).map fun s =>
      if i = j then { s with connected := false, available := false } else s := by
  show (p.slots.modify i _)[j]? = _
  rw [List.getElem?_modify]
  cases p.slots[j]? <;> by_cases h : i = j <;> simp [h]

theorem reports_dropped {i : Nat} {s : WorkerSlot} (hs : p.slots[i]? = some s) :
    Reports p (p.dropped i s) := by
  refine ⟨⟨List.length_modify .., ?_, outbounds_modifyLink fun _ _ => rfl⟩,
    fun _ h => List.mem_append_left _ h, ?_, ?_⟩
  · intro j s' hs'
    rw [slots_dropped] at hs'
    obtain ⟨t, ht, rfl⟩ := Option.map_eq_some_iff.mp hs'
    refine ⟨t, ht, ?_⟩
    split
    · exact ⟨rfl, nofun⟩
    · exact ⟨rfl, id⟩
  · intro j hj
    rcases List.mem_append.mp hj with hj | hj
    · exact .inl hj
    · cases List.mem_singleton.mp hj
      exact .inr (List.getElem?_eq_some_iff.mp hs).1
  · intro j t t' ht ht' hc
    rw [slots_dropped, ht] at ht'
    cases ht'
    split
    · next h =>
      subst h
      exact .inr (List.mem_append_right _ (List.mem_singleton.mpr rfl))
    · exact .inl hc

theorem reports_markLost (i : Nat) : Reports p (p.markLost i) := by
  cases hs : p.slots[i]? with
  | none =>
    rw [markLost, hs]
    exact .refl
  | some s =>
    cases hc : s.connected with
    | true =>
      rw [markLost_of_connected hs hc]
      exact reports_dropped hs
    | false =>
      rw [markLost, hs]
      simp only [hc, Bool.false_eq_true, if_false]
      exact .refl

/-! ## Reading, choosing and noting -/

theorem reports_pollSlot (i : Nat) : Reports p (p.pollSlot i).2 := by
  unfold pollSlot
  cases p.slots[i]? with
  | none => exact .refl
  | some s =>
    dsimp only
    split
    · exact .refl
    · cases hk : p.links[s.link]? with
      | none => exact .refl
      | some k =>
        have hread := k.outbound_readUpTo maxReadsPerPoll
        have hlink : Reports p (p.modifyLink s.link fun _ => (k.readUpTo maxReadsPerPoll).2.2) :=
          .modifyLink fun k' hk' => by cases hk.symm.trans hk'; exact hread
        have hslot := hlink.trans (Reports.modifySlot (i := i)
          (f := fun s' => { s' with
            buffer := (Frame.drainLines (s.buffer ++ (k.readUpTo maxReadsPerPoll).1)).2 })
          fun _ => ⟨rfl, rfl⟩)
        dsimp only
        split
        · exact hslot.trans (reports_markLost i)
        · exact hslot

theorem reports_pollAll : Reports p p.pollAll.2 := by
  refine List.foldlRecOn (List.range p.slots.length) _
    (motive := fun x : List (Nat × String) × WorkerPool => Reports p x.2) .refl ?_
  exact fun x hx i _ => hx.trans (reports_pollSlot i)

theorem reports_touch (i : Nat) (now : Millis) : Reports p (p.touch i now) :=
  .modifySlot fun _ => ⟨rfl, rfl⟩

theorem reports_updateStatus (i : Nat) (status : NodeStatus) (now : Millis) :
    Reports p (p.updateStatus i status now) :=
  .modifySlot fun _ => ⟨rfl, rfl⟩

theorem reports_select {i : Nat} (h : p.select? = some (i, p')) : Reports p p' := by
  obtain ⟨j, -, hj⟩ := Option.map_eq_some_iff.mp h
  cases hj
  exact .of_eq rfl rfl rfl

theorem fades_drainDisconnected : Fades p p.drainDisconnected.2 :=
  ⟨rfl, fun _ s hs => ⟨s, hs, rfl, id⟩, rfl⟩

theorem fades_closeAll : Fades p p.closeAll := by
  refine ⟨List.length_map .., ?_, ?_⟩
  · intro i s' hs'
    obtain ⟨s, hs, rfl⟩ := Option.map_eq_some_iff.mp (List.getElem?_map ▸ hs' : (p.slots[i]?).map _ = _)
    refine ⟨s, hs, ?_⟩
    split
    · exact ⟨rfl, nofun⟩
    · exact ⟨rfl, id⟩
  · show (p.links.map Link.close).map _ = _
    rw [List.map_map]
    rfl

/-! ## New workers -/

/-- A worker has been added under an index. -/
structure Enlists (p : WorkerPool) (index : Nat) (p' : WorkerPool) : Prop where
  links : p'.links = p.links ++ [.fresh]
  lost : p'.lost = p.lost
  slots : ∃ s' : WorkerSlot, s'.link = p.links.length ∧
    ∀ i, p'.slots[i]? = if i = index then some s' else p.slots[i]?
  free : ∀ s : WorkerSlot, p.slots[index]? = some s → s.connected = false ∧ index ∉ p.lost

/-- The slot for a new worker is one that may be taken over, or stands behind the table. -/
theorem freeSlot?_eq_some {index : Nat} (h : p.freeSlot? = some index) :
    (∃ s, p.slots[index]? = some s ∧ p.isReusable index s = true) ∨ index = p.slots.length := by
  unfold freeSlot? at h
  split at h
  · next s i hfind =>
    cases h
    have hs : p.slots[index]? = some s :=
      List.mem_zipIdx_iff_getElem?.mp (List.mem_of_find?_eq_some hfind)
    exact .inl ⟨s, hs, by simpa using List.find?_some hfind⟩
  · split at h
    · cases h
      exact .inr rfl
    · cases h

theorem enlists_addWorker {network : Network} {now : Millis} {address : String} {index : Nat}
    (h : p.addWorker network now address = .ok (index, p')) : p.Enlists index p' := by
  unfold addWorker at h
  split at h
  · cases h
  · next i hfree =>
    split at h
    · cases h
    · cases h
      rcases freeSlot?_eq_some hfree with ⟨s, hs, hreusable⟩ | rfl
      · -- the slot of a worker that is gone
        have hi := (List.getElem?_eq_some_iff.mp hs).1
        refine ⟨rfl, rfl, ⟨{ address := address, link := p.links.length, lastSeen := now }, rfl,
          fun j => ?_⟩, fun s' hs' => ?_⟩
        · simp only [if_pos hi, List.getElem?_set]
          by_cases hj : j = index
          · subst hj
            simp
          · simp [hj, Ne.symm hj]
        · cases hs.symm.trans hs'
          simpa [isReusable] using hreusable
      · -- a slot of its own, behind the others
        refine ⟨rfl, rfl, ⟨{ address := address, link := p.links.length, lastSeen := now }, rfl,
          fun j => ?_⟩, fun s' hs' => ?_⟩
        · simp only [Nat.lt_irrefl, if_false, List.getElem?_append, List.getElem?_singleton]
          by_cases hj : j = p.slots.length
          · simp [hj]
          · by_cases hlt : j < p.slots.length
            · simp [hj, hlt]
            · have : j - p.slots.length ≠ 0 := by omega
              simp [hj, hlt, this]
        · rw [List.getElem?_eq_none (Nat.le_refl _)] at hs'
          cases hs'

theorem slots_addWorker {network : Network} {now : Millis} {address : String} {index : Nat}
    (h : p.addWorker network now address = .ok (index, p')) :
    p'.slots[index]? = some { address := address, link := p.links.length, lastSeen := now } := by
  unfold addWorker at h
  split at h
  · cases h
  · next i hfree =>
    split at h
    · cases h
    · cases h
      rcases freeSlot?_eq_some hfree with ⟨s, hs, -⟩ | rfl
      · have hi := (List.getElem?_eq_some_iff.mp hs).1
        simp [hi]
      · simp

/-! ## Writing -/

/-- The write that a message to a worker comes to, if it gets that far: the connection it
is made on, and its outcome. -/
def write? (p : WorkerPool) (index : Nat) (payload : Bytes) : Option (Nat × WriteOutcome) :=
  match p.slots[index]? with
  | none => none
  | some s =>
    if s.connected then (p.links[s.link]?).map fun k => (s.link, (k.write payload).1) else none

/-- The pool after a write on a connection. -/
def wrote (p : WorkerPool) (l : Nat) (k : Link) (payload : Bytes) : WorkerPool :=
  p.modifyLink l fun _ => (k.write payload).2

/-- Everything a message to a worker can come to. -/
inductive Sends (p : WorkerPool) (index : Nat) (payload : Bytes) :
    Option (Nat × WriteOutcome) → Except SendError Unit → WorkerPool → Prop where
  | unknown : p.slots[index]? = none →
      Sends p index payload none (.error (.unknownWorker index)) p
  | disconnected {s} : p.slots[index]? = some s → s.connected = false →
      Sends p index payload none (.error (.notConnected index)) p
  | unlinked {s} : p.slots[index]? = some s → p.links[s.link]? = none →
      Sends p index payload none (.error (.notConnected index)) p
  | whole {s k} : p.slots[index]? = some s → s.connected = true → p.links[s.link]? = some k →
      (k.write payload).1 = .accepted payload.length →
      Sends p index payload (some (s.link, .accepted payload.length)) (.ok ())
        (p.wrote s.link k payload)
  | part {s k n} : p.slots[index]? = some s → s.connected = true → p.links[s.link]? = some k →
      (k.write payload).1 = .accepted n → n ≠ payload.length →
      Sends p index payload (some (s.link, .accepted n))
        (.error (.sendFailed index (.partialWrite n payload.length)))
        ((p.wrote s.link k payload).dropped index s)
  | blocked {s k} : p.slots[index]? = some s → s.connected = true → p.links[s.link]? = some k →
      (k.write payload).1 = .wouldBlock →
      Sends p index payload (some (s.link, .wouldBlock)) (.error (.sendFailed index .bufferFull))
        (p.wrote s.link k payload)
  | failed {s k e} : p.slots[index]? = some s → s.connected = true → p.links[s.link]? = some k →
      (k.write payload).1 = .failed e →
      Sends p index payload (some (s.link, .failed e)) (.error (.sendFailed index (.failed e)))
        ((p.wrote s.link k payload).dropped index s)

theorem sends_send (p : WorkerPool) (index : Nat) (payload : Bytes) :
    p.Sends index payload (p.write? index payload) (p.send index payload).1
      (p.send index payload).2 := by
  unfold write? send
  cases hs : p.slots[index]? with
  | none => exact .unknown hs
  | some s =>
    cases hc : s.connected with
    | false =>
      simp only [hc, Bool.false_eq_true, if_false]
      exact .disconnected hs hc
    | true =>
      simp only [hc, if_true, sendTo]
      cases hk : p.links[s.link]? with
      | none => exact .unlinked hs hk
      | some k =>
        -- the loss is noted after the write, which leaves the slot as it was
        have hlost : (p.wrote s.link k payload).markLost index =
            (p.wrote s.link k payload).dropped index s := markLost_of_connected hs hc
        simp only [Option.map_some]
        cases hw : (k.write payload).1 with
        | accepted n =>
          dsimp only
          split
          · next hn =>
            subst hn
            exact .whole hs hc hk hw
          · next hn =>
            have hpart := Sends.part hs hc hk hw hn
            rw [← hlost] at hpart
            exact hpart
        | wouldBlock => exact .blocked hs hc hk hw
        | failed e =>
          have hfailed := Sends.failed hs hc hk hw
          rw [← hlost] at hfailed
          exact hfailed

end WorkerPool

end PromptGateway
