import PromptGateway.Proofs.Severance

/-
  Every loss is reported once.

  What is noted of a run of a pool is compared with the pool itself.

    1. Reading from one worker and sending to one worker are of a kind (`Handles`): nothing
       happens but to its slot, which stays as it is or loses its connection, and then the index
       is put on the list.
    2. `Noted` ties the notices of a run to the pool: a slot has the connection that was added
       last under its index, and on the list are the losses since the last report. Every act
       keeps it (`Noted.act`), so every notice follows those before it.
    3. `Tidy` is the table by itself: its size, where the next search begins, and which
       workers are available.
    4. What is noted as lost is a connection that has come to its end on its own socket
       (`Noted.lost_mem_notices`).
    5. `losses_reported_once` is the table and the notices of any run.
-/

namespace PromptGateway

/-! ## What one act does -/

namespace WorkerPool

variable {p p' q : WorkerPool} {log : List Notice} {i : Nat}

theorem isConnected_of_slots (h : p'.slots[i]? = p.slots[i]?) :
    p'.isConnected i = p.isConnected i := by
  rw [isConnected, isConnected, h]

/-- No two slots have the same connection. -/
def Apart (p : WorkerPool) : Prop :=
  ∀ (i j : Nat) (s t : WorkerSlot), p.slots[i]? = some s → p.slots[j]? = some t →
    s.link = t.link → i = j

/-- The slots have the connections that they had, and no slot is connected that was not. -/
structure Wanes (p p' : WorkerPool) : Prop where
  slots : p'.slots.length = p.slots.length
  kept : ∀ (i : Nat) (s' : WorkerSlot), p'.slots[i]? = some s' → ∃ s : WorkerSlot,
    p.slots[i]? = some s ∧ s'.link = s.link ∧ (s'.connected = true → s.connected = true)
  links : p'.links.length = p.links.length

/-- The same, and nothing is lost. -/
structure Calm (p p' : WorkerPool) : Prop extends Wanes p p' where
  lost : p'.lost = p.lost

/-- A connected worker has been given up, and nothing else has happened. -/
structure Loses (p : WorkerPool) (i c : Nat) (p' : WorkerPool) : Prop extends Wanes p p' where
  lost : p'.lost = p.lost ++ [i]
  gone : ∃ s, p.slots[i]? = some s ∧ s.connected = true ∧ s.link = c
  severed : ∀ s', p'.slots[i]? = some s' → s'.connected = false

namespace Wanes

theorem linkAt? (h : Wanes p p') (i : Nat) : p'.linkAt? i = p.linkAt? i := by
  rw [WorkerPool.linkAt?, WorkerPool.linkAt?]
  cases hs' : p'.slots[i]? with
  | none =>
    rw [List.getElem?_eq_none_iff, h.slots, ← List.getElem?_eq_none_iff] at hs'
    rw [hs']
  | some s' =>
    obtain ⟨s, hs, hl, -⟩ := h.kept i s' hs'
    rw [hs, Option.map_some, Option.map_some, hl]

theorem apart (h : Wanes p p') (ha : p.Apart) : p'.Apart := by
  intro i j s' t' hs' ht' hst
  obtain ⟨s, hs, hl, -⟩ := h.kept i s' hs'
  obtain ⟨t, ht, hl', -⟩ := h.kept j t' ht'
  exact ha i j s t hs ht (by rw [← hl, hst, hl'])

end Wanes

theorem Calm.of_slots (hs : p'.slots = p.slots) (hk : p'.links.length = p.links.length)
    (hl : p'.lost = p.lost) : Calm p p' where
  slots := congrArg List.length hs
  kept := fun _ s' hs' => ⟨s', hs ▸ hs', rfl, fun h => h⟩
  links := hk
  lost := hl

theorem Calm.refl : Calm p p := .of_slots rfl rfl rfl

theorem Fades.calm (h : p.Fades p') (hl : p'.lost = p.lost) : Calm p p' where
  slots := h.slots
  kept := h.kept
  links := h.links
  lost := hl

namespace Enlists

variable {index : Nat}

/-- A slot of the new table is the new one or one that was there. -/
theorem slot_cases (h : p.Enlists index p') {s : WorkerSlot} (hs : p'.slots[i]? = some s) :
    (i = index ∧ s.link = p.links.length) ∨ (i ≠ index ∧ p.slots[i]? = some s) := by
  obtain ⟨new, hnew, hslots⟩ := h.slots
  rw [hslots] at hs
  split at hs
  · next hi =>
    cases hs
    exact .inl ⟨hi, hnew⟩
  · next hi => exact .inr ⟨hi, hs⟩

theorem linkAt? (h : p.Enlists index p') (i : Nat) :
    p'.linkAt? i = if i = index then some p.links.length else p.linkAt? i := by
  obtain ⟨new, hnew, hslots⟩ := h.slots
  rw [WorkerPool.linkAt?, hslots]
  split
  · rw [Option.map_some, hnew]
  · rfl

/-- The new connection is none of the old ones. -/
theorem apart (h : p.Enlists index p') (ha : p.Apart)
    (hlt : ∀ (i : Nat) (s : WorkerSlot), p.slots[i]? = some s → s.link < p.links.length) :
    p'.Apart := by
  intro i j s t hs ht hst
  rcases h.slot_cases hs with ⟨hi, hsl⟩ | ⟨-, hs'⟩ <;>
    rcases h.slot_cases ht with ⟨hj, htl⟩ | ⟨-, ht'⟩
  · rw [hi, hj]
  · exact absurd (hst.symm.trans hsl) (Nat.ne_of_lt (hlt j t ht'))
  · exact absurd (hst.trans htl) (Nat.ne_of_lt (hlt i s hs'))
  · exact ha i j s t hs' ht' hst

end Enlists

/-- What becomes of the slot `i`, and nothing of another one: it is as connected as before, and
then it may be given up. -/
structure Handles (p : WorkerPool) (i : Nat) (p' : WorkerPool) : Prop where
  others : ∀ j, j ≠ i → p'.slots[j]? = p.slots[j]?
  outcome : (p.Calm p' ∧ p'.isConnected i = p.isConnected i) ∨
    ∃ q s, p.Calm q ∧ q.slots[i]? = some s ∧ s.connected = true ∧ p' = q.dropped i s

theorem loses_dropped {s : WorkerSlot} (h : p.Calm q) (hs : q.slots[i]? = some s)
    (hc : s.connected = true) : ∃ c, p.Loses i c (q.dropped i s) := by
  obtain ⟨t, ht, hl, htc⟩ := h.kept i s hs
  refine ⟨t.link, ⟨?_, ?_, ?_⟩, ?_, ⟨t, ht, htc hc, rfl⟩, ?_⟩
  · exact (List.length_modify ..).trans h.slots
  · intro j s' hs'
    rw [slots_dropped] at hs'
    obtain ⟨u, hu, rfl⟩ := Option.map_eq_some_iff.mp hs'
    obtain ⟨v, hv, hvl, hvc⟩ := h.kept j u hu
    refine ⟨v, hv, ?_⟩
    split
    · exact ⟨hvl, by simp⟩
    · exact ⟨hvl, hvc⟩
  · exact (List.length_modify ..).trans h.links
  · show q.lost ++ [i] = _
    rw [h.lost]
  · intro s' hs'
    rw [slots_dropped, hs, Option.map_some, if_pos rfl] at hs'
    cases hs'
    rfl

/-- Nothing is noted, or the loss of the connection. -/
theorem Handles.noted (h : p.Handles i p') :
    (p.lossAt? p' i = none ∧ p.Calm p') ∨
      ∃ c, p.lossAt? p' i = some (.lost i c) ∧ p.Loses i c p' := by
  rcases h.outcome with ⟨hcalm, hc⟩ | ⟨q, s, hcalm, hs, hc, rfl⟩
  · refine .inl ⟨?_, hcalm⟩
    rw [lossAt?, hc, isConnected]
    cases p.slots[i]? <;> simp
  · obtain ⟨c, hloses⟩ := loses_dropped hcalm hs hc
    obtain ⟨t, ht, htc, rfl⟩ := hloses.gone
    refine .inr ⟨_, ?_, hloses⟩
    have hgone : (q.dropped i s).isConnected i = false := by
      rw [isConnected, slots_dropped, hs]
      simp
    rw [lossAt?, ht, Option.bind_some, htc, hgone]
    rfl

theorem handles_send (p : WorkerPool) (index : Nat) (payload : Bytes) :
    p.Handles index (p.send index payload).2 := by
  have hsends := p.sends_send index payload
  generalize p.write? index payload = w at hsends
  generalize (p.send index payload).1 = o at hsends
  generalize (p.send index payload).2 = p' at hsends ⊢
  have wrote : ∀ l k, p.Calm (p.wrote l k payload) := fun l k =>
    .of_slots rfl (List.length_modify ..) rfl
  have dropped : ∀ {s : WorkerSlot} {k}, p.slots[index]? = some s → s.connected = true →
      p.Handles index ((p.wrote s.link k payload).dropped index s) := by
    intro s k hs hc
    refine ⟨fun j hj => ?_, .inr ⟨_, s, wrote _ k, hs, hc, rfl⟩⟩
    rw [slots_dropped]
    simp only [hj.symm, if_false, Option.map_id']
    rfl
  cases hsends with
  | unknown _ => exact ⟨fun _ _ => rfl, .inl ⟨.refl, rfl⟩⟩
  | disconnected _ _ => exact ⟨fun _ _ => rfl, .inl ⟨.refl, rfl⟩⟩
  | unlinked _ _ => exact ⟨fun _ _ => rfl, .inl ⟨.refl, rfl⟩⟩
  | whole _ _ _ _ => exact ⟨fun _ _ => rfl, .inl ⟨wrote _ _, rfl⟩⟩
  | blocked _ _ _ _ => exact ⟨fun _ _ => rfl, .inl ⟨wrote _ _, rfl⟩⟩
  | part hs hc _ _ _ => exact dropped hs hc
  | failed hs hc _ _ => exact dropped hs hc

theorem handles_pollSlot (p : WorkerPool) (i : Nat) : p.Handles i (p.pollSlot i).2 := by
  rcases p.pollSlot_cases i with he | ⟨s, k, hs, hc, hk, he⟩
  · rw [he]
    exact ⟨fun _ _ => rfl, .inl ⟨.refl, rfl⟩⟩
  · have hget : ∀ j, (p.afterRead i s k).slots[j]? = (p.slots[j]?).map fun t =>
        if i = j then { t with buffer := (s.afterRead k).buffer } else t := by
      intro j
      show (p.slots.modify i _)[j]? = _
      rw [List.getElem?_modify]
      cases p.slots[j]? <;> by_cases hij : i = j <;> simp [hij]
    have hcalm : p.Calm (p.afterRead i s k) := by
      refine ⟨⟨List.length_modify .., fun j t ht => ?_, List.length_modify ..⟩, rfl⟩
      rw [hget] at ht
      obtain ⟨u, hu, rfl⟩ := Option.map_eq_some_iff.mp ht
      refine ⟨u, hu, ?_⟩
      split <;> exact ⟨rfl, fun h => h⟩
    have hothers : ∀ j, j ≠ i → (p.afterRead i s k).slots[j]? = p.slots[j]? := by
      intro j hj
      rw [hget]
      simp [hj.symm]
    rw [he]
    dsimp only
    split
    · have hafter := (hget i).trans (congrArg _ hs)
      rw [Option.map_some, if_pos rfl] at hafter
      rw [markLost_of_connected hafter hc]
      refine ⟨fun j hj => ?_, .inr ⟨_, _, hcalm, hafter, hc, rfl⟩⟩
      rw [slots_dropped, hothers j hj]
      simp [hj.symm]
    · refine ⟨hothers, .inl ⟨hcalm, ?_⟩⟩
      rw [isConnected, isConnected, hget, hs]
      simp

/-- Where only one slot is handled only its loss is noted. -/
theorem Handles.losses (h : p.Handles i p') : p.losses p' = (p.lossAt? p' i).toList := by
  have hothers : ∀ j, j ≠ i → p.lossAt? p' j = none := by
    intro j hj
    rw [lossAt?, isConnected_of_slots (h.others j hj), isConnected]
    cases p.slots[j]? <;> simp
  by_cases hi : i < p.slots.length
  · obtain ⟨front, back, hsplit⟩ := List.append_of_mem (List.mem_range.mpr hi)
    have hnodup := @List.nodup_range p.slots.length
    rw [hsplit, List.nodup_append, List.nodup_cons] at hnodup
    obtain ⟨-, ⟨hback, -⟩, hfront⟩ := hnodup
    have hnone : ∀ js : List Nat, i ∉ js → js.filterMap (p.lossAt? p') = [] := by
      intro js hjs
      rw [List.filterMap_eq_nil_iff]
      exact fun j hj => hothers j fun hij => hjs (hij ▸ hj)
    rw [WorkerPool.losses, hsplit, List.filterMap_append, List.filterMap_cons, hnone back hback,
      hnone front fun hmem => hfront i hmem i List.mem_cons_self rfl]
    cases p.lossAt? p' i <;> rfl
  · have hnone : p.lossAt? p' i = none := by
      rw [lossAt?, List.getElem?_eq_none (Nat.le_of_not_lt hi)]
      rfl
    rw [hnone, WorkerPool.losses, Option.toList_none, List.filterMap_eq_nil_iff]
    intro j hj
    exact hothers j fun hij => hi (hij ▸ List.mem_range.mp hj)

/-! ## The notices of a run -/

/-- The notices tell what the slots and the list of the lost are like. -/
structure Noted (p : WorkerPool) (log : List Notice) : Prop where
  shown : ∀ i, p.linkAt? i = holder i log
  made : ∀ i c, .added i c ∈ log → c < p.links.length
  apart : p.Apart
  owed : p.lost = (outstanding log).map (·.1)
  held : ∀ x ∈ outstanding log, p.linkAt? x.1 = some x.2
  gone : ∀ c ∈ lostLinks log, ∀ (i : Nat) (s : WorkerSlot), p.slots[i]? = some s → s.link = c →
    s.connected = false
  told : Told log

namespace Noted

/-- A connection of a slot was made before. -/
theorem link_lt {s : WorkerSlot} (h : Noted p log) (hs : p.slots[i]? = some s) :
    s.link < p.links.length := by
  have hlink : p.linkAt? i = some s.link := by rw [linkAt?, hs, Option.map_some]
  rw [h.shown] at hlink
  exact h.made i _ (added_of_holder hlink)

/-- What is reported next is what is outstanding. -/
theorem reported (h : Noted p log) :
    (p.lost.map fun i => (i, p.linkAt? i)) = (outstanding log).map fun x => (x.1, some x.2) := by
  rw [h.owed, List.map_map]
  exact List.map_congr_left fun x hx => by rw [Function.comp_apply, h.held x hx]

/-- A connection that was lost does not come back. -/
theorem still_gone (h : Noted p log) (hw : p.Wanes p') {c : Nat} (hc : c ∈ lostLinks log)
    {s' : WorkerSlot} (hs' : p'.slots[i]? = some s') (hl' : s'.link = c) :
    s'.connected = false := by
  obtain ⟨s, hs, hl, hcon⟩ := hw.kept i s' hs'
  have hoff := h.gone c hc i s hs (hl.symm.trans hl')
  rw [Bool.eq_false_iff] at hoff ⊢
  exact fun hon => hoff (hcon hon)

theorem calm (h : Noted p log) (hc : p.Calm p') : Noted p' log where
  shown := fun i => (hc.linkAt? i).trans (h.shown i)
  made := fun i c hmem => hc.links ▸ h.made i c hmem
  apart := hc.apart h.apart
  owed := hc.lost.trans h.owed
  held := fun x hx => (hc.linkAt? x.1).trans (h.held x hx)
  gone := fun _ hlost _ _ hs' hl' => h.still_gone hc.toWanes hlost hs' hl'
  told := h.told

theorem loses {c : Nat} (h : Noted p log) (hl : p.Loses i c p') :
    Noted p' (log ++ [.lost i c]) := by
  obtain ⟨s, hs, hon, hlink⟩ := hl.gone
  have hheld : p.linkAt? i = some c := by rw [linkAt?, hs, Option.map_some, hlink]
  have hlost : lostLinks (log ++ [.lost i c]) = lostLinks log ++ [c] := by simp [lostLinks]
  refine ⟨fun j => ?_, ?_, hl.apart h.apart, ?_, ?_, ?_, h.told.concat ⟨?_, ?_⟩⟩
  · rw [hl.linkAt?, holder_append, h.shown]
  · intro j c' hmem
    rw [hl.links]
    exact h.made j c' (by simpa using hmem)
  · rw [hl.lost, h.owed, outstanding_append, List.map_append]
    rfl
  · intro x hx
    rw [outstanding_append, List.mem_append, List.mem_singleton] at hx
    rw [hl.linkAt?]
    rcases hx with hx | rfl
    · exact h.held x hx
    · exact hheld
  · intro c' hc' j s' hs' hl'
    rw [hlost, List.mem_append, List.mem_singleton] at hc'
    rcases hc' with hc' | rfl
    · exact h.still_gone hl.toWanes hc' hs' hl'
    · -- no other slot has the connection that was lost
      obtain ⟨t, ht, htl, -⟩ := hl.kept j s' hs'
      obtain rfl := h.apart j i t s ht hs (htl.symm.trans (hl'.trans hlink.symm))
      exact hl.severed s' hs'
  · rw [← h.shown, hheld]
  · intro hc'
    have hoff := h.gone c hc' i s hs hlink
    rw [hon] at hoff
    cases hoff

theorem handles (h : Noted p log) (hh : p.Handles i p') :
    Noted p' (log ++ (p.lossAt? p' i).toList) := by
  rcases hh.noted with ⟨hnone, hcalm⟩ | ⟨c, hsome, hloses⟩
  · rw [hnone, Option.toList_none, List.append_nil]
    exact h.calm hcalm
  · rw [hsome, Option.toList_some]
    exact h.loses hloses

/-- The slot for a new worker is none of which a loss is outstanding. -/
theorem owed_ne {index : Nat} (h : Noted p log) (he : p.Enlists index p') :
    ∀ x ∈ outstanding log, x.1 ≠ index := by
  rintro x hx hxi
  obtain ⟨s, hs, -⟩ := Option.map_eq_some_iff.mp (h.held x hx)
  refine (he.free s (hxi ▸ hs)).2 ?_
  rw [h.owed, ← hxi]
  exact List.mem_map_of_mem hx

theorem enlists {index : Nat} (h : Noted p log) (he : p.Enlists index p') :
    Noted p' (log ++ [.added index p.links.length]) := by
  have howed := h.owed_ne he
  have hlost : lostLinks (log ++ [.added index p.links.length]) = lostLinks log := by
    simp [lostLinks]
  refine ⟨fun j => ?_, ?_, he.apart h.apart fun _ _ => h.link_lt, ?_, ?_, ?_,
    h.told.concat ⟨howed, ?_⟩⟩
  · rw [he.linkAt?, holder_append, h.shown]
    simp only [eq_comm]
  · intro j c hmem
    rw [he.links, List.length_append, List.length_singleton]
    rw [List.mem_append, List.mem_singleton] at hmem
    rcases hmem with hmem | hmem
    · exact Nat.lt_succ_of_lt (h.made j c hmem)
    · cases hmem
      exact Nat.lt_succ_self _
  · rw [he.lost, h.owed, outstanding_append]
  · intro x hx
    rw [outstanding_append] at hx
    rw [he.linkAt?, if_neg (howed x hx)]
    exact h.held x hx
  · intro c hc j s hs hl
    rw [hlost] at hc
    rcases he.slot_cases hs with ⟨-, hsl⟩ | ⟨-, hs'⟩
    · obtain ⟨i, hi⟩ := h.told.added_of_lost hc
      exact absurd (hl.symm.trans hsl) (Nat.ne_of_lt (h.made i c hi))
    · exact h.gone c hc j s hs' hl
  · exact fun j hmem => Nat.lt_irrefl _ (h.made j _ hmem)

theorem drained (h : Noted p log) :
    Noted p.drainDisconnected.2
      (log ++ [.reported (p.drainDisconnected.1.map fun i => (i, p.linkAt? i))]) := by
  have hlost : ∀ losses, lostLinks (log ++ [.reported losses]) = lostLinks log := by
    simp [lostLinks]
  refine ⟨fun i => ?_, ?_, h.apart, ?_, ?_, ?_, h.told.concat h.reported⟩
  · rw [holder_append]
    exact h.shown i
  · intro i c hmem
    exact h.made i c (by simpa using hmem)
  · rw [outstanding_append]
    rfl
  · rw [outstanding_append]
    exact fun _ hmem => absurd hmem List.not_mem_nil
  · rw [hlost]
    exact h.gone

/-- A sweep reads from one worker after the other. The slots that it has not come to are as they
were, and the losses in the others have been noted. -/
theorem swept (h : Noted p log) (k : Nat) :
    (∀ j, k ≤ j → (pollEach (List.range k) ([], p)).2.slots[j]? = p.slots[j]?) ∧
      Noted (pollEach (List.range k) ([], p)).2
        (log ++ (List.range k).filterMap (p.lossAt? (pollEach (List.range k) ([], p)).2)) := by
  induction k with
  | zero =>
    refine ⟨fun _ _ => rfl, ?_⟩
    rw [List.range_zero, List.filterMap_nil, List.append_nil]
    exact h
  | succ k ih =>
    obtain ⟨hlater, hnoted⟩ := ih
    have hstep : (pollEach (List.range (k + 1)) ([], p)).2 =
        ((pollEach (List.range k) ([], p)).2.pollSlot k).2 := by
      rw [List.range_succ, pollEach, List.foldl_append]
      rfl
    rw [hstep]
    generalize (pollEach (List.range k) ([], p)).2 = q at hlater hnoted ⊢
    have hhandles := handles_pollSlot q k
    refine ⟨fun j hj => (hhandles.others j (by omega)).trans (hlater j (by omega)), ?_⟩
    -- what became of the earlier slots is not touched by this one
    have hearlier : (List.range k).filterMap (p.lossAt? (q.pollSlot k).2) =
        (List.range k).filterMap (p.lossAt? q) := by
      refine List.filterMap_congr fun j hj => ?_
      have hjk : j ≠ k := Nat.ne_of_lt (List.mem_range.mp hj)
      rw [lossAt?, lossAt?, isConnected_of_slots (hhandles.others j hjk)]
    have hthis : p.lossAt? (q.pollSlot k).2 k = q.lossAt? (q.pollSlot k).2 k := by
      rw [lossAt?, lossAt?, hlater k (Nat.le_refl k)]
    have hlosses : (List.range (k + 1)).filterMap (p.lossAt? (q.pollSlot k).2) =
        (List.range k).filterMap (p.lossAt? q) ++ (q.lossAt? (q.pollSlot k).2 k).toList := by
      rw [List.range_succ, List.filterMap_append, hearlier, ← hthis, List.filterMap_cons]
      cases p.lossAt? (q.pollSlot k).2 k <;> rfl
    rw [hlosses, ← List.append_assoc]
    exact hnoted.handles hhandles

theorem polled (h : Noted p log) : Noted p.pollAll.2 (log ++ p.losses p.pollAll.2) :=
  (h.swept p.slots.length).2

theorem act (h : Noted p log) (a : PoolAct) : Noted (p.act a) (log ++ p.notices a) := by
  have quiet : ∀ c, p.notices (.call c) = [] → p.Calm (p.apply c) →
      Noted (p.apply c) (log ++ p.notices (.call c)) := by
    intro c hn hc
    rw [hn, List.append_nil]
    exact h.calm hc
  cases a with
  | send index payload =>
    have hh := handles_send p index payload
    rw [notices, hh.losses]
    exact h.handles hh
  | call c =>
    cases c with
    | add network now address =>
      rw [WorkerPool.act, apply, notices]
      cases hadd : p.addWorker network now address with
      | error e => simpa using h
      | ok x => exact h.enlists (enlists_addWorker hadd)
    | poll => exact h.polled
    | drain => exact h.drained
    | select =>
      refine quiet .select rfl ?_
      rw [apply]
      cases hsel : p.select? with
      | none => exact .refl
      | some x =>
        obtain ⟨j, -, rfl⟩ := Option.map_eq_some_iff.mp hsel
        exact .of_slots rfl rfl rfl
    | touch index now =>
      exact quiet (.touch index now) rfl ((reports_touch index now).toFades.calm rfl)
    | status index status now =>
      exact quiet (.status index status now) rfl
        ((reports_updateStatus index status now).toFades.calm rfl)
    | closeAll => exact quiet .closeAll rfl (fades_closeAll.calm rfl)
    | link l change => exact quiet (.link l change) rfl (.of_slots rfl (List.length_modify ..) rfl)

theorem start (maxWorkers : Nat) : Noted { maxWorkers := maxWorkers } [] := by
  refine ⟨fun _ => rfl, ?_, ?_, rfl, ?_, ?_, ?_⟩
  · exact fun _ _ hmem => absurd hmem List.not_mem_nil
  · exact fun _ _ _ _ hs => absurd (hs : [][_]? = _) (by simp)
  · exact fun _ hmem => absurd hmem List.not_mem_nil
  · exact fun _ hmem => absurd hmem List.not_mem_nil
  · exact fun _ _ _ hnil => absurd hnil (by simp)

theorem perform (h : Noted p log) (acts : List PoolAct) :
    Noted (p.perform acts) (log ++ p.record acts) := by
  induction acts generalizing p log with
  | nil => rwa [record, journal, List.append_nil]
  | cons a acts ih =>
    rw [record, journal, ← List.append_assoc]
    exact ih (h.act a)

end Noted

/-! ## The table -/

/-- The table has room for its slots, the search for the next worker begins in it or behind it,
and a worker that can be given a task is connected. -/
structure Tidy (maxWorkers : Nat) (p : WorkerPool) : Prop where
  max : p.maxWorkers = maxWorkers
  room : p.slots.length ≤ maxWorkers
  turn : p.next ≤ p.slots.length
  ready : ∀ s ∈ p.slots, s.available = true → s.connected = true

/-- The table may grow as long as there is room, the search begins where it began, and no worker
becomes available that is not connected. -/
structure Arranges (p p' : WorkerPool) : Prop where
  max : p'.maxWorkers = p.maxWorkers
  next : p'.next = p.next
  grows : p.slots.length ≤ p'.slots.length
  room : p.slots.length ≤ p.maxWorkers → p'.slots.length ≤ p.maxWorkers
  ready : (∀ s ∈ p.slots, s.available = true → s.connected = true) →
    ∀ s ∈ p'.slots, s.available = true → s.connected = true

theorem lt_of_freeSlot? {index : Nat} (h : p.freeSlot? = some index)
    (hroom : p.slots.length ≤ p.maxWorkers) : index < p.maxWorkers := by
  unfold freeSlot? at h
  split at h
  · next s i hfind =>
    cases h
    have hs : p.slots[index]? = some s :=
      List.mem_zipIdx_iff_getElem?.mp (List.mem_of_find?_eq_some hfind)
    exact Nat.lt_of_lt_of_le (List.getElem?_eq_some_iff.mp hs).1 hroom
  · split at h
    · next hlt =>
      cases h
      exact hlt
    · cases h

namespace Arranges

theorem of_eq (hm : p'.maxWorkers = p.maxWorkers) (hn : p'.next = p.next)
    (hs : p'.slots = p.slots) : Arranges p p' where
  max := hm
  next := hn
  grows := Nat.le_of_eq (congrArg List.length hs).symm
  room := fun h => hs ▸ h
  ready := fun h => hs ▸ h

theorem refl : Arranges p p := of_eq rfl rfl rfl

theorem trans (h : Arranges p q) (h' : Arranges q p') : Arranges p p' where
  max := h'.max.trans h.max
  next := h'.next.trans h.next
  grows := Nat.le_trans h.grows h'.grows
  room := fun hr => h.max ▸ h'.room (h.max.symm ▸ h.room hr)
  ready := fun hr => h'.ready (h.ready hr)

theorem modifySlot (p : WorkerPool) (i : Nat) {f : WorkerSlot → WorkerSlot}
    (hf : ∀ s, (s.available = true → s.connected = true) →
      (f s).available = true → (f s).connected = true) : Arranges p (p.modifySlot i f) := by
  have hlen : (p.modifySlot i f).slots.length = p.slots.length := List.length_modify ..
  refine ⟨rfl, rfl, Nat.le_of_eq hlen.symm, fun hr => hlen ▸ hr, fun hready s hs => ?_⟩
  obtain ⟨j, hj⟩ := List.getElem?_of_mem hs
  rw [WorkerPool.modifySlot, List.getElem?_modify] at hj
  obtain ⟨t, ht, rfl⟩ := Option.map_eq_some_iff.mp hj
  have htready := hready t (List.mem_of_getElem? ht)
  split
  · exact hf t htready
  · exact htready

theorem modifyLink (p : WorkerPool) (l : Nat) (f : Link → Link) : Arranges p (p.modifyLink l f) :=
  of_eq rfl rfl rfl

theorem dropped (p : WorkerPool) (i : Nat) (s : WorkerSlot) : Arranges p (p.dropped i s) :=
  (modifySlot p i fun _ _ h => h).trans (of_eq rfl rfl rfl)

theorem markLost (p : WorkerPool) (i : Nat) : Arranges p (p.markLost i) := by
  unfold WorkerPool.markLost
  split
  · exact refl
  · next s _ =>
    split
    · exact dropped p i s
    · exact refl

theorem send (p : WorkerPool) (index : Nat) (payload : Bytes) :
    Arranges p (p.send index payload).2 := by
  have hsends := p.sends_send index payload
  generalize p.write? index payload = w at hsends
  generalize (p.send index payload).1 = o at hsends
  generalize (p.send index payload).2 = p' at hsends ⊢
  cases hsends with
  | unknown _ => exact refl
  | disconnected _ _ => exact refl
  | unlinked _ _ => exact refl
  | whole _ _ _ _ => exact modifyLink ..
  | blocked _ _ _ _ => exact modifyLink ..
  | part _ _ _ _ _ => exact (modifyLink ..).trans (dropped ..)
  | failed _ _ _ _ => exact (modifyLink ..).trans (dropped ..)

theorem pollSlot (p : WorkerPool) (i : Nat) : Arranges p (p.pollSlot i).2 := by
  rcases p.pollSlot_cases i with he | ⟨s, k, -, -, -, he⟩ <;> rw [he]
  · exact refl
  · have hread : Arranges p (p.afterRead i s k) :=
      (modifyLink ..).trans (modifySlot _ i fun _ h => h)
    dsimp only
    split
    · exact hread.trans (markLost ..)
    · exact hread

theorem pollAll (p : WorkerPool) : Arranges p p.pollAll.2 := by
  refine List.foldlRecOn (List.range p.slots.length) _
    (motive := fun x : List (Nat × String) × WorkerPool => Arranges p x.2) refl ?_
  exact fun x hx i _ => hx.trans (pollSlot x.2 i)

theorem addWorker {network : Network} {now : Millis} {address : String} {index : Nat}
    (h : p.addWorker network now address = .ok (index, p')) : Arranges p p' := by
  unfold WorkerPool.addWorker at h
  split at h
  · cases h
  · next i hfree =>
    split at h
    · cases h
    · cases h
      split
      · -- the slot of a worker that is gone
        refine ⟨rfl, rfl, ?_, fun hr => ?_, fun hready s hs => ?_⟩
        · exact Nat.le_of_eq List.length_set.symm
        · rwa [List.length_set]
        · rcases List.mem_or_eq_of_mem_set hs with hs | rfl
          · exact hready s hs
          · exact fun _ => rfl
      · -- a slot of its own, behind the others
        refine ⟨rfl, rfl, ?_, fun hr => ?_, fun hready s hs => ?_⟩
        · rw [List.length_append]
          exact Nat.le_add_right ..
        · have hlt := lt_of_freeSlot? hfree hr
          rw [List.length_append, List.length_singleton]
          omega
        · rcases List.mem_append.mp hs with hs | hs
          · exact hready s hs
          · cases List.mem_singleton.mp hs
            exact fun _ => rfl

theorem closeAll (p : WorkerPool) : Arranges p p.closeAll := by
  have hlen : p.closeAll.slots.length = p.slots.length := List.length_map ..
  refine ⟨rfl, rfl, Nat.le_of_eq hlen.symm, fun hr => hlen ▸ hr, fun hready s' hs' => ?_⟩
  obtain ⟨s, hs, rfl⟩ := List.mem_map.mp hs'
  split
  · exact nofun
  · exact hready s hs

end Arranges

/-- Whatever happens, but for the choice of a worker. -/
theorem arranges_act {a : PoolAct} (ha : a ≠ .call .select) : p.Arranges (p.act a) := by
  cases a with
  | send index payload => exact .send p index payload
  | call c =>
    cases c with
    | select => exact absurd rfl ha
    | add network now address =>
      rw [WorkerPool.act, apply]
      split
      · next hadd => exact .addWorker hadd
      · exact .refl
    | poll => exact .pollAll p
    | drain => exact .of_eq rfl rfl rfl
    | touch index now => exact .modifySlot p index fun _ h => h
    | status index status now =>
      -- what a worker says of itself counts only as long as it is connected
      exact .modifySlot p index fun _ _ hready => (Bool.and_eq_true_iff.mp hready).2
    | closeAll => exact .closeAll p
    | link l change => exact .modifyLink p l change

theorem lt_of_select? {index : Nat} (h : p.select? = some (index, p')) :
    index < p.slots.length := by
  obtain ⟨i, hi, he⟩ := Option.map_eq_some_iff.mp h
  cases he
  obtain ⟨k, hk, rfl⟩ := List.mem_map.mp (List.mem_of_find?_eq_some hi)
  exact Nat.mod_lt _ (Nat.lt_of_le_of_lt (Nat.zero_le k) (List.mem_range.mp hk))

namespace Tidy

variable {n : Nat}

theorem start (n : Nat) : Tidy n { maxWorkers := n } :=
  ⟨rfl, Nat.zero_le _, Nat.le_refl _, fun _ hs => absurd hs List.not_mem_nil⟩

theorem arranges (h : Tidy n p) (ha : p.Arranges p') : Tidy n p' where
  max := ha.max.trans h.max
  room := h.max ▸ ha.room (h.max.symm ▸ h.room)
  turn := ha.next ▸ Nat.le_trans h.turn ha.grows
  ready := ha.ready h.ready

theorem select (h : Tidy n p) {index : Nat} (hsel : p.select? = some (index, p')) :
    Tidy n p' := by
  have hlt := lt_of_select? hsel
  obtain ⟨i, -, he⟩ := Option.map_eq_some_iff.mp hsel
  cases he
  exact ⟨h.max, h.room, hlt, h.ready⟩

theorem act (h : Tidy n p) (a : PoolAct) : Tidy n (p.act a) := by
  by_cases ha : a = .call .select
  · rw [ha, WorkerPool.act, apply]
    split
    · next hsel => exact h.select hsel
    · exact h
  · exact h.arranges (arranges_act ha)

theorem perform (h : Tidy n p) (acts : List PoolAct) : Tidy n (p.perform acts) := by
  induction acts generalizing p with
  | nil => exact h
  | cons a acts ih => exact ih (h.act a)

end Tidy

namespace Noted

/-- No worker is twice on the list of the lost: its slot has one connection, and no connection
is outstanding twice. -/
theorem nodup_lost (h : Noted p log) : p.lost.Nodup := by
  have hnodup := (List.nodup_append.mp h.told.nodup_reported_append_outstanding).2.1
  rw [h.owed]
  refine hnodup.of_map.map_on fun x hx y hy hxy => Prod.ext hxy ?_
  exact Option.some.inj ((h.held x hx).symm.trans ((congrArg p.linkAt? hxy).trans (h.held y hy)))

theorem disconnected_of_lost (h : Noted p log) (hi : i ∈ p.lost) :
    ∃ s, p.slots[i]? = some s ∧ s.connected = false := by
  rw [h.owed] at hi
  obtain ⟨x, hx, rfl⟩ := List.mem_map.mp hi
  obtain ⟨s, hs, hl⟩ := Option.map_eq_some_iff.mp (h.held x hx)
  exact ⟨s, hs, h.gone x.2 (mem_lostLinks.mpr ⟨_, lost_of_outstanding hx⟩) x.1 s hs hl⟩

/-- A connected worker listens. -/
theorem listens {s : WorkerSlot} {k : Link} (h : Noted p log) (hs : p.slots[i]? = some s)
    (hon : s.connected = true) (hk : p.links[s.link]? = some k) : p.Listens i s.link s k where
  slot := hs
  connected := hon
  link := rfl
  line := hk
  apart := fun j t ht hl => h.apart j i t s ht hs hl
  unreported := fun hi => by
    obtain ⟨t, ht, hoff⟩ := h.disconnected_of_lost hi
    cases hs.symm.trans ht
    rw [hon] at hoff
    cases hoff

/-- A connected worker is not connected any more after a sweep exactly if the sweep has found its
connection at the end. -/
theorem isConnected_pollAll {s : WorkerSlot} {k : Link} (h : Noted p log)
    (hs : p.slots[i]? = some s) (hon : s.connected = true) (hk : p.links[s.link]? = some k) :
    p.pollAll.2.isConnected i = false ↔ k.Ends maxReadsPerPoll := by
  obtain ⟨-, hkeeps, hloses⟩ := (h.listens hs hon hk).pollAll
  rw [← Link.readUpTo_over_iff]
  constructor
  · intro hoff
    by_contra hover
    have hstill := hkeeps (Bool.eq_false_iff.mpr hover)
    rw [isConnected, hstill.slot] at hoff
    exact Bool.noConfusion (hstill.connected.symm.trans hoff)
  · intro hover
    obtain ⟨t, ht, hoff⟩ := h.polled.disconnected_of_lost (hloses hover)
    rw [isConnected, ht]
    exact hoff

/-- What an act notes as lost is a connection that is at its end by it. -/
theorem lost_mem_notices (h : Noted p log) (a : PoolAct) (i c : Nat) :
    .lost i c ∈ p.notices a ↔ p.Severs i c a := by
  cases a with
  | send index payload => exact lost_mem_notices_send
  | call call =>
    by_cases hpoll : call = .poll
    · subst hpoll
      rw [notices, lost_mem_losses]
      constructor
      · rintro ⟨⟨s, hs, hon, rfl⟩, hoff⟩
        have hk := List.getElem?_eq_getElem (h.link_lt hs)
        exact ⟨_, ⟨⟨s, hs, hon, rfl⟩, hk⟩, (h.isConnected_pollAll hs hon hk).mp hoff⟩
      · rintro ⟨k, ⟨⟨s, hs, hon, rfl⟩, hk⟩, hends⟩
        exact ⟨⟨s, hs, hon, rfl⟩, (h.isConnected_pollAll hs hon hk).mpr hends⟩
    · have hnone : ¬ p.Severs i c (.call call) := by
        cases call <;> first | exact (hpoll rfl).elim | exact id
      exact iff_of_false (lost_not_mem_notices hpoll) hnone

end Noted

end WorkerPool

open WorkerPool in
/-- The table of a pool never has more slots than it may have, each under its own index, and none
is available that is not connected; the workers on the list of the lost are disconnected, and each
is there once. Whatever is done to the pool next, a connection is lost by it exactly if its worker
is connected and the connection is at its end by what its own socket answers: it has not taken a
message as a whole and would not have had to wait, or a read of a sweep has come to an end or a
failure. Every connection was made under an index and for one worker only.

A connection that is lost through a message or a sweep was made under its index
before; it is named by the first report after the loss and by no other one, by none while there
has been none, and only after that report another worker takes its slot. No report names anything
else. -/
theorem losses_reported_once (maxWorkers : Nat) (acts : List PoolAct) :
    let start : WorkerPool := { maxWorkers := maxWorkers }
    let p := start.perform acts
    let log := start.record acts
    (Tidy maxWorkers p ∧ (∀ i, p.linkAt? i = holder i log) ∧
      (∀ (i : Nat) (w : WorkerSnapshot), p.snapshot[i]? = some w → w.index = i) ∧ p.lost.Nodup ∧
      ∀ i ∈ p.lost, ∃ s, p.slots[i]? = some s ∧ s.connected = false) ∧
    (∀ next i c, start.record (acts ++ [next]) = log ++ p.notices next ∧
      (.lost i c ∈ p.notices next ↔ p.Severs i c next)) ∧
    (∀ before i c after, log = before ++ .added i c :: after → ∀ j, .added j c ∉ before) ∧
    (∀ before i c after, log = before ++ .lost i c :: after →
      .added i c ∈ before ∧ (∀ j, .lost j c ∉ before) ∧
      ((∀ n ∈ after, n.isReport = false) →
        log.filter (Notice.reports c) = [] ∧ ∀ c', .added i c' ∉ after) ∧
      ∀ mid losses late, after = mid ++ .reported losses :: late →
        (∀ n ∈ mid, n.isReport = false) →
        losses.count (i, some c) = 1 ∧ log.filter (Notice.reports c) = [.reported losses] ∧
          ∀ c', .added i c' ∉ mid) ∧
    ∀ before losses after, log = before ++ .reported losses :: after →
      ∀ x ∈ losses, ∃ c, x.2 = some c ∧ .lost x.1 c ∈ before := by
  intro start p log
  have htidy : Tidy maxWorkers p := (Tidy.start maxWorkers).perform acts
  have hnoted : p.Noted log := (Noted.start maxWorkers).perform acts
  have htold := hnoted.told
  refine ⟨⟨htidy, hnoted.shown, ?_, hnoted.nodup_lost, fun i hi => hnoted.disconnected_of_lost hi⟩,
    ?_, ?_, ?_, ?_⟩
  · intro i w hw
    rw [snapshot, List.getElem?_map, List.getElem?_zipIdx] at hw
    obtain ⟨s, hs, rfl⟩ := Option.map_eq_some_iff.mp hw
    obtain ⟨t, -, rfl⟩ := Option.map_eq_some_iff.mp hs
    exact Nat.zero_add i
  · intro next i c
    refine ⟨?_, hnoted.lost_mem_notices next i c⟩
    exact (journal_append ..).trans (congrArg _ (List.append_nil _))
  · intro before i c after hlog
    exact (htold before _ after hlog).2
  · intro before i c after hlog
    refine ⟨htold.added_before_lost hlog, fun j hj => ?_, htold.unreported hlog, ?_⟩
    · exact (htold before _ after hlog).2 (mem_lostLinks.mpr ⟨j, hj⟩)
    · rintro mid losses late rfl hmid
      exact htold.first_report hlog hmid
  · intro before losses after hlog
    exact (htold.of_reported hlog).2

-- The table has room for one worker, so another one has to wait for the report.
example :
    let network : Network := ⟨true, ["worker"]⟩
    let add : PoolAct := .call (.add network 0 "worker")
    ({ maxWorkers := 1 } : WorkerPool).record
        [add, .call (.link 0 Link.closeFar), .call .poll, add, .call .drain, add, .call .drain] =
      [.added 0 0, .lost 0 0, .reported [(0, some 0)], .added 0 1, .reported []] := by
  decide

end PromptGateway
