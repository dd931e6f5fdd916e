import PromptGateway.Proofs.Engine
import PromptGateway.Proofs.Workers

/-
  The writes of task lines.

  An assignment makes at most one write, of the line of one task to the connection of one
  worker; `Dispatcher.attempt?` is this write, and `attempt?_eq_some_iff` says when it is
  made. The task is assigned exactly if the write took over the whole line
  (`assigned_iff`).

  A write that took over a part of its line, or failed, has spoilt the connection.
  `Framed` is what keeps the connections clean all the same: no slot is connected to a
  connection that is spoilt, and nothing was written to one after that. Reading and noting
  keep this (`Framed.fades`), a new worker has a connection of its own (`Framed.enlists`),
  and a write adds to the list (`Framed.writes`).
-/

namespace PromptGateway

/-- One write of the line of a task to the connection of a worker. -/
structure Attempt where
  id : RequestId
  worker : Nat
  /-- The connection, among all that have been made. -/
  link : Nat
  line : Bytes
  outcome : WriteOutcome
  deriving DecidableEq, Repr

namespace Attempt

/-- The bytes that were handed to the connection. -/
def handed (a : Attempt) : Bytes := a.outcome.taken a.line

/-- Whether the whole line was handed over. -/
def complete (a : Attempt) : Bool := a.outcome == .accepted a.line.length

/-- Whether the connection is of no use any more: a part of the line was handed over, or
the write failed. -/
def broken (a : Attempt) : Bool :=
  match a.outcome with
  | .accepted n => n != a.line.length
  | .wouldBlock => false
  | .failed _ => true

theorem complete_iff {a : Attempt} : a.complete = true ↔ a.outcome = .accepted a.line.length := by
  simp [complete]

theorem handed_of_complete {a : Attempt} (h : a.complete = true) : a.handed = a.line := by
  rw [handed, complete_iff.mp h]
  exact List.take_length

/-- A write that neither handed over the line nor broke the connection did nothing. -/
theorem handed_of_blocked {a : Attempt} (hc : a.complete = false) (hb : a.broken = false) :
    a.handed = [] := by
  unfold complete at hc
  unfold broken at hb
  unfold handed
  cases ho : a.outcome with
  | accepted n =>
    rw [ho] at hb hc
    simp only [bne_eq_false_iff_eq] at hb
    simp [hb] at hc
  | wouldBlock => rfl
  | failed e => rfl

/-- Of a line that broke its connection a part was handed over at most. -/
theorem length_handed_lt {a : Attempt} (hb : a.broken = true) (hne : a.line ≠ [])
    (hle : ∀ n, a.outcome = .accepted n → n ≤ a.line.length) : a.handed.length < a.line.length := by
  have hpos := List.length_pos_iff.mpr hne
  unfold broken at hb
  unfold handed
  cases ho : a.outcome with
  | accepted n =>
    have hn := hle n ho
    rw [ho] at hb
    simp only [bne_iff_ne] at hb
    simp only [WriteOutcome.taken, List.length_take]
    omega
  | wouldBlock => exact hpos
  | failed e => exact hpos

end Attempt

namespace Dispatcher

/-- The write that an assignment makes, if it gets that far. -/
def attempt? (d : Dispatcher) : Option Attempt :=
  if d.queue.isSaturated then none
  else do
    let id ← d.queue.pending.head?
    let r ← d.cache.get? id
    if r.status = .pending then
      let (worker, pool) ← d.pool.select?
      let (link, outcome) ← pool.write? worker (taskMessage r).encode
      return ⟨id, worker, link, (taskMessage r).encode, outcome⟩
    else none

variable {d d' : Dispatcher}

theorem attempt?_eq_some_iff {a : Attempt} :
    d.attempt? = some a ↔ d.queue.isSaturated = false ∧ ∃ rest r pool,
      d.queue.pending = a.id :: rest ∧ d.cache.get? a.id = some r ∧ r.status = .pending ∧
      d.pool.select? = some (a.worker, pool) ∧ a.line = (taskMessage r).encode ∧
      pool.write? a.worker a.line = some (a.link, a.outcome) := by
  obtain ⟨id, worker, link, line, outcome⟩ := a
  unfold attempt?
  constructor
  · intro h
    split at h
    · cases h
    · next hsat =>
      obtain ⟨id', hid, h⟩ := Option.bind_eq_some_iff.mp h
      obtain ⟨r, hr, h⟩ := Option.bind_eq_some_iff.mp h
      split at h
      · next hst =>
        obtain ⟨⟨worker', pool⟩, hsel, h⟩ := Option.bind_eq_some_iff.mp h
        obtain ⟨⟨link', outcome'⟩, hw, h⟩ := Option.bind_eq_some_iff.mp h
        cases h
        obtain ⟨rest, hp⟩ := List.head?_eq_some_iff.mp hid
        exact ⟨by simpa using hsat, rest, r, pool, hp, hr, hst, hsel, rfl, hw⟩
      · cases h
  · rintro ⟨hsat, rest, r, pool, hp, hr, hst, hsel, hline, hw⟩
    dsimp only at hp hr hsel hline hw
    subst hline
    simp [hsat, hp, hr, hst, hsel, hw]

/-- A message that was sent was written as a whole. -/
theorem write?_of_sent {p p' : WorkerPool} {index : Nat} {payload : Bytes}
    (h : p.send index payload = (.ok (), p')) :
    ∃ l, p.write? index payload = some (l, .accepted payload.length) := by
  have hs := p.sends_send index payload
  rw [h] at hs
  generalize p.write? index payload = w at hs ⊢
  cases hs with
  | whole _ _ _ _ => exact ⟨_, rfl⟩

/-- A message that was not sent was not written as a whole. -/
theorem write?_of_unsent {p p' : WorkerPool} {index : Nat} {payload : Bytes} {e : SendError}
    (h : p.send index payload = (.error e, p')) (l : Nat) :
    p.write? index payload ≠ some (l, .accepted payload.length) := by
  have hs := p.sends_send index payload
  rw [h] at hs
  generalize p.write? index payload = w at hs ⊢
  cases hs with
  | unknown _ => exact nofun
  | disconnected _ _ => exact nofun
  | unlinked _ _ => exact nofun
  | part _ _ _ _ hn =>
    intro heq
    cases heq
    exact hn rfl
  | blocked _ _ _ _ => exact nofun
  | failed _ _ _ _ => exact nofun

/-- A task is assigned exactly if its whole line was handed to the connection. -/
theorem assigned_iff {now : Millis} {id : RequestId} {worker : Nat} :
    (d.assignNext now).1 = .assigned id worker ↔
      ∃ a, d.attempt? = some a ∧ a.id = id ∧ a.worker = worker ∧ a.complete = true := by
  have ha := d.assigns_assignNext now
  generalize (d.assignNext now).1 = o at ha ⊢
  generalize (d.assignNext now).2 = d' at ha
  constructor
  · rintro rfl
    cases ha with
    | assigned hsat hp hr hst hsel hsend =>
      obtain ⟨l, hw⟩ := write?_of_sent hsend
      exact ⟨⟨id, worker, l, _, _⟩,
        attempt?_eq_some_iff.mpr ⟨hsat, _, _, _, hp, hr, hst, hsel, rfl, hw⟩, rfl, rfl,
        Attempt.complete_iff.mpr rfl⟩
  · rintro ⟨a, hatt, rfl, rfl, hcomplete⟩
    obtain ⟨hsat, rest, r, pool, hp, hr, hst, hsel, hline, hw⟩ := attempt?_eq_some_iff.mp hatt
    have hout := Attempt.complete_iff.mp hcomplete
    cases ha with
    | saturated h => rw [hsat] at h; cases h
    | idle h => rw [hp] at h; cases h
    | skipped hp' hno =>
      cases hp.symm.trans hp'
      exact absurd hst (hno r hr)
    | unserved _ _ _ hsel' => rw [hsel] at hsel'; cases hsel'
    | undelivered hp' hr' _ hsel' hsend =>
      cases hp.symm.trans hp'
      cases hr.symm.trans hr'
      cases hsel.symm.trans hsel'
      rw [hout, hline] at hw
      exact absurd hw (write?_of_unsent hsend _)
    | assigned _ hp' _ _ hsel' _ =>
      cases hp.symm.trans hp'
      cases hsel.symm.trans hsel'
      rfl

end Dispatcher

/-! ## The connections -/

namespace WorkerPool

variable {p p' : WorkerPool} {a : Attempt} {log : List Attempt}

/-- A write was made on the connection of its worker, and given up if it is spoilt. -/
structure Writes (p : WorkerPool) (a : Attempt) (p' : WorkerPool) : Prop where
  made : ∃ s k, p.slots[a.worker]? = some s ∧ s.connected = true ∧ s.link = a.link ∧
    p.links[a.link]? = some k ∧ (k.write a.line).1 = a.outcome ∧
    Reports (p.wrote a.link k a.line) p'
  spoilt : a.broken = true → ∀ s', p'.slots[a.worker]? = some s' → s'.connected = false

/-- The list of writes that were made fits the pool: a connection that is spoilt is that of
no connected slot, and it was not written to again. -/
structure Framed (p : WorkerPool) (log : List Attempt) : Prop where
  linked : ∀ (i : Nat) (s : WorkerSlot), p.slots[i]? = some s → s.link < p.links.length
  apart : ∀ (i j : Nat) (s t : WorkerSlot), p.slots[i]? = some s → p.slots[j]? = some t →
    s.link = t.link → i = j
  made : ∀ a ∈ log, a.link < p.links.length
  spoilt : ∀ a ∈ log, a.broken = true → ∀ (i : Nat) (s : WorkerSlot), p.slots[i]? = some s →
    s.link = a.link → s.connected = false
  final : log.Pairwise fun a b => a.broken = true → b.link ≠ a.link

theorem Sends.eq_of_none {index : Nat} {payload : Bytes} {sent : Except SendError Unit}
    (h : p.Sends index payload none sent p') : p' = p := by
  cases h <;> rfl

theorem writes_sends {index link : Nat} {payload : Bytes} {outcome : WriteOutcome}
    {sent : Except SendError Unit} (h : p.Sends index payload (some (link, outcome)) sent p')
    (id : RequestId) : p.Writes ⟨id, index, link, payload, outcome⟩ p' := by
  have dropped : ∀ {s k}, p.slots[index]? = some s → ∀ s',
      ((p.wrote s.link k payload).dropped index s).slots[index]? = some s' → s'.connected = false := by
    intro s k hs s' hs'
    rw [slots_dropped] at hs'
    obtain ⟨t, -, rfl⟩ := Option.map_eq_some_iff.mp hs'
    rw [if_pos rfl]
  cases h with
  | whole hs hc hk hw => exact ⟨⟨_, _, hs, hc, rfl, hk, hw, .refl⟩, by simp [Attempt.broken]⟩
  | part hs hc hk hw hn =>
    exact ⟨⟨_, _, hs, hc, rfl, hk, hw, reports_dropped hs⟩, fun _ => dropped hs⟩
  | blocked hs hc hk hw => exact ⟨⟨_, _, hs, hc, rfl, hk, hw, .refl⟩, nofun⟩
  | failed hs hc hk hw =>
    exact ⟨⟨_, _, hs, hc, rfl, hk, hw, reports_dropped hs⟩, fun _ => dropped hs⟩

/-- To choose a worker changes nothing that a write depends on. -/
theorem Writes.of_select {q : WorkerPool} {i : Nat} (h : q.Writes a p')
    (hsel : p.select? = some (i, q)) : p.Writes a p' := by
  obtain ⟨j, -, hj⟩ := Option.map_eq_some_iff.mp hsel
  cases hj
  obtain ⟨s, k, hs, hc, hlink, hk, hw, hreports⟩ := h.made
  have hsame : Reports (p.wrote a.link k a.line)
      (({ p with next := i + 1 } : WorkerPool).wrote a.link k a.line) := .of_eq rfl rfl rfl
  exact ⟨⟨s, k, hs, hc, hlink, hk, hw, hsame.trans hreports⟩, h.spoilt⟩

namespace Framed

theorem fades (h : Framed p log) (hf : Fades p p') : Framed p' log where
  linked := fun i s' hs' => by
    obtain ⟨s, hs, hl, -⟩ := hf.kept i s' hs'
    rw [hl, hf.links]
    exact h.linked i s hs
  apart := fun i j s' t' hs' ht' hlink => by
    obtain ⟨s, hs, hl, -⟩ := hf.kept i s' hs'
    obtain ⟨t, ht, hl', -⟩ := hf.kept j t' ht'
    exact h.apart i j s t hs ht (by rw [← hl, hlink, hl'])
  made := fun a ha => hf.links ▸ h.made a ha
  spoilt := fun a ha hb i s' hs' hlink => by
    obtain ⟨s, hs, hl, hc⟩ := hf.kept i s' hs'
    have := h.spoilt a ha hb i s hs (hl.symm.trans hlink)
    cases hc' : s'.connected with
    | false => rfl
    | true => rw [hc hc'] at this; cases this
  final := h.final

/-- Whatever happens on the connections themselves. -/
theorem relinked (h : Framed p log) (hs : p'.slots = p.slots)
    (hl : p'.links.length = p.links.length) : Framed p' log where
  linked := by rw [hs, hl]; exact h.linked
  apart := by rw [hs]; exact h.apart
  made := by rw [hl]; exact h.made
  spoilt := by rw [hs]; exact h.spoilt
  final := h.final

/-- A worker that is added has a connection nothing was written to. -/
theorem enlists {index : Nat} (h : Framed p log) (he : p.Enlists index p') : Framed p' log := by
  obtain ⟨new, hnew, hslots⟩ := he.slots
  have hlinks : p'.links.length = p.links.length + 1 := by rw [he.links]; simp
  -- a slot is the new one, or one that was there before with an older connection
  have hcases : ∀ i s, p'.slots[i]? = some s →
      (i = index ∧ s.link = p.links.length) ∨ (p.slots[i]? = some s ∧ s.link < p.links.length) := by
    intro i s hs
    rw [hslots] at hs
    split at hs
    · next hi => cases hs; exact .inl ⟨hi, hnew⟩
    · exact .inr ⟨hs, h.linked i s hs⟩
  refine ⟨?_, ?_, ?_, ?_, h.final⟩
  · intro i s hs
    rcases hcases i s hs with ⟨-, hl⟩ | ⟨-, hl⟩ <;> omega
  · intro i j s t hs ht hlink
    rcases hcases i s hs with ⟨hi, hl⟩ | ⟨hs, hl⟩ <;> rcases hcases j t ht with ⟨hj, hl'⟩ | ⟨ht, hl'⟩
    · rw [hi, hj]
    · omega
    · omega
    · exact h.apart i j s t hs ht hlink
  · intro a ha
    have := h.made a ha
    omega
  · intro a ha hb i s hs hlink
    rcases hcases i s hs with ⟨-, hl⟩ | ⟨hs, -⟩
    · have := h.made a ha
      omega
    · exact h.spoilt a ha hb i s hs hlink

theorem writes (h : Framed p log) (hw : Writes p a p') : Framed p' (log ++ [a]) := by
  obtain ⟨s, k, hs, hc, hlink, hk, -, hreports⟩ := hw.made
  have hwrote : Framed (p.wrote a.link k a.line) log := h.relinked rfl (List.length_modify ..)
  have hold : Framed p' log := hwrote.fades hreports.toFades
  have hmade : a.link < p'.links.length := by
    rw [hreports.links, wrote, modifyLink, List.length_modify]
    exact (List.getElem?_eq_some_iff.mp hk).1
  refine ⟨hold.linked, hold.apart, ?_, ?_, ?_⟩
  · intro b hb
    rcases List.mem_append.mp hb with hb | hb
    · exact hold.made b hb
    · rw [List.mem_singleton.mp hb]
      exact hmade
  · intro b hb hbroken i t ht hl
    rcases List.mem_append.mp hb with hb | hb
    · exact hold.spoilt b hb hbroken i t ht hl
    · rw [List.mem_singleton.mp hb] at hbroken hl
      -- no other slot has the connection of the worker
      obtain ⟨s', hs', hl'⟩ := hreports.found (s := s) hs
      have hi : i = a.worker := hold.apart i a.worker t s' ht hs' (by rw [hl, hl', hlink])
      subst hi
      exact hw.spoilt hbroken t ht
  · rw [List.pairwise_append]
    refine ⟨h.final, List.pairwise_singleton .., ?_⟩
    intro b hb c hc' hbroken heq
    rw [List.mem_singleton.mp hc'] at heq
    -- the worker was connected until now, so its connection was not spoilt
    have := h.spoilt b hb hbroken a.worker s hs (hlink.trans heq)
    rw [hc] at this
    cases this

theorem create (maxWorkers : Nat) : Framed { maxWorkers := maxWorkers } [] := by
  constructor <;> simp

end Framed

end WorkerPool

/-! ## Calls of the engine -/

namespace Dispatcher

variable {d d' : Dispatcher}

@[simp] theorem pool_ended (d : Dispatcher) (id : RequestId) (status : TaskStatus)
    (message : String) : (d.ended id status message).pool = d.pool := by
  unfold ended; split <;> rfl

theorem pool_hears {now : Millis} {message : Except DecodeError WireMessage} {o : IngestOutcome}
    (h : d.Hears now message o d') : d'.pool = d.pool := by
  cases h with
  | more _ _ _ => exact pool_absorb _ _
  | last _ _ _ => exact pool_absorb _ _
  | failed _ _ _ => exact pool_ended ..
  | late _ _ => rfl
  | undecodable => rfl
  | orphan _ => rfl
  | stray _ _ => rfl
  | unnamed _ => rfl
  | status => rfl
  | heartbeat => rfl
  | request => rfl
  | task => rfl

/-- Of a line the pool notes that its worker was heard of, and what it says of itself. -/
theorem pool_ingest (d : Dispatcher) (now : Millis) (worker : Nat) (line : String) :
    ∃ note : WorkerSlot → WorkerSlot,
      (d.ingest now worker line).2.pool = d.pool.modifySlot worker note ∧
        ∀ s, (note s).link = s.link ∧ (note s).connected = s.connected ∧
          (note s).buffer = s.buffer := by
  -- but for a status it is only noted that the worker was heard of
  have touched : ∀ {p : WorkerPool}, p = d.pool.touch worker now →
      ∃ note : WorkerSlot → WorkerSlot, p = d.pool.modifySlot worker note ∧
        ∀ s, (note s).link = s.link ∧ (note s).connected = s.connected ∧
          (note s).buffer = s.buffer :=
    fun hp => ⟨_, hp, fun _ => ⟨rfl, rfl, rfl⟩⟩
  unfold ingest
  cases WireMessage.decode line with
  | error e =>
    refine ⟨id, ?_, fun _ => ⟨rfl, rfl, rfl⟩⟩
    rw [WorkerPool.modifySlot, List.modify_id]
  | ok message =>
    cases message with
    | response r => exact touched (pool_hears (hears_ingestResponse _ now r))
    | error e => exact touched (pool_hears (hears_ingestError _ now e))
    | status s =>
      exact ⟨_, WorkerPool.modifySlot_modifySlot d.pool worker _ _, fun _ => ⟨rfl, rfl, rfl⟩⟩
    | heartbeat => exact touched rfl
    | request r => exact touched rfl
    | task t => exact touched rfl

theorem reports_ingest (now : Millis) (worker : Nat) (line : String) :
    d.pool.Reports (d.ingest now worker line).2.pool := by
  obtain ⟨note, he, hnote⟩ := d.pool_ingest now worker line
  rw [he]
  exact .modifySlot fun s => ⟨(hnote s).1, (hnote s).2.1⟩

theorem pool_endEach {q : Dispatcher → TaskRecord → Bool} {status : TaskStatus} {message : String}
    {now : Millis} (records : List TaskRecord) :
    (d.endEach q status message now records).2.pool = d.pool := by
  refine endEach_induction (P := fun d' => d'.pool = d.pool) (fun d₁ d₂ id h he => ?_) records rfl
  obtain ⟨-, rfl⟩ := endTask?_eq_some_iff.mp he
  rw [pool_ended, h]

theorem pool_draws {id : RequestId} {o : Drain} (h : d.Draws id o d') : d'.pool = d.pool := by
  cases h <;> rfl

theorem pool_commitAssign (id : RequestId) : (d.commitAssign id).pool = d.pool := by
  simp only [commitAssign]
  split
  · split <;> rfl
  · rfl

/-! ## Assignments -/

theorem attempt?_of_chosen {id : RequestId} {rest : List RequestId} {r : TaskRecord} {worker : Nat}
    {pool : WorkerPool} (hsat : d.queue.isSaturated = false) (hp : d.queue.pending = id :: rest)
    (hr : d.cache.get? id = some r) (hst : r.status = .pending)
    (hsel : d.pool.select? = some (worker, pool)) :
    d.attempt? = (pool.write? worker (taskMessage r).encode).map fun (link, outcome) =>
      ⟨id, worker, link, (taskMessage r).encode, outcome⟩ := by
  simp only [attempt?, hsat, Bool.false_eq_true, if_false, hp, List.head?_cons, hr, hst, if_true,
    hsel, Option.bind_eq_bind, Option.bind_some]
  cases pool.write? worker (taskMessage r).encode <;> rfl

/-- Of the pool an assignment asks nothing, or to send a line to the next worker in turn. -/
theorem begins_sends {now : Millis} {step : AssignStep} (hb : d.Begins now step d') :
    (d.attempt? = none ∧ d'.pool = d.pool) ∨
      ∃ id worker pool line write sent, d.pool.select? = some (worker, pool) ∧
        pool.Sends worker line write sent d'.pool ∧
        d.attempt? = write.map fun (link, outcome) => ⟨id, worker, link, line, outcome⟩ := by
  have chosen : ∀ {id rest r worker pool sent pool'}, d.queue.isSaturated = false →
      d.queue.pending = id :: rest → d.cache.get? id = some r → r.status = .pending →
      d.pool.select? = some (worker, pool) →
      pool.send worker (taskMessage r).encode = (sent, pool') →
      ∃ id worker pool line write sent, d.pool.select? = some (worker, pool) ∧
        pool.Sends worker line write sent pool' ∧
        d.attempt? = write.map fun (link, outcome) => ⟨id, worker, link, line, outcome⟩ := by
    intro id rest r worker pool sent pool' hsat hp hr hst hsel hsend
    have hs := pool.sends_send worker (taskMessage r).encode
    rw [hsend] at hs
    exact ⟨id, worker, pool, _, _, sent, hsel, hs, attempt?_of_chosen hsat hp hr hst hsel⟩
  cases hb with
  | saturated hsat => exact .inl ⟨by simp [attempt?, hsat], rfl⟩
  | idle hsat hp => exact .inl ⟨by simp [attempt?, hsat, hp], rfl⟩
  | @skipped id rest hsat hp hno =>
    refine .inl ⟨?_, rfl⟩
    cases hr : d.cache.get? id with
    | none => simp [attempt?, hsat, hp, hr]
    | some r => simp [attempt?, hsat, hp, hr, hno r hr]
  | unserved hsat hp hr hst hsel =>
    exact .inl ⟨by simp [attempt?, hsat, hp, hsel], pool_ended ..⟩
  | undelivered hsat hp hr hst hsel hsend => exact .inr (chosen hsat hp hr hst hsel hsend)
  | sent hsat hp hr hst hsel hsend => exact .inr (chosen hsat hp hr hst hsel hsend)

theorem begins_pool {now : Millis} {step : AssignStep} (hb : d.Begins now step d') :
    (d.attempt? = none ∧ d.pool.Reports d'.pool) ∨
      ∃ a, d.attempt? = some a ∧ d.pool.Writes a d'.pool := by
  rcases begins_sends hb with ⟨hatt, hp⟩ | ⟨id, worker, pool, line, write, sent, hsel, hs, hatt⟩
  · exact .inl ⟨hatt, hp ▸ .refl⟩
  · cases write with
    | none => exact .inl ⟨hatt, (WorkerPool.reports_select hsel).trans (hs.eq_of_none ▸ .refl)⟩
    | some w => exact .inr ⟨_, hatt, (WorkerPool.writes_sends hs id).of_select hsel⟩

end Dispatcher

end PromptGateway
