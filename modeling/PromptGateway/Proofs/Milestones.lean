import PromptGateway.Proofs.Attempts
import PromptGateway.Proofs.Pairing
import PromptGateway.Proofs.Working

/-
  How far a request has come.

  A request passes three milestones: it is admitted, its line is written to a worker as a
  whole, and the end of its answer is taken in. The second and the third are not bound to come
  in this order, since whatever a worker says of a request is taken in as soon as the request
  has a record. The log of a run lists the milestones, and `life` reads off it what has
  happened to a request since it was admitted for the last time.

    1. `Turn` lists what a dealing does to the records, with the milestone that it is
       (`turn_deal`). All but three of its cases come to nothing as far as status, worker and
       the end of the stream go (`Continues`).
    2. `Matches` says what a record and its stream tell of the life of their request, and
       `Chronicled` that they do so for all requests; a run keeps it (`Chronicled.dealt`).
-/

namespace PromptGateway

/-- A thing that happens to a request once at most. -/
inductive Milestone where
  | admitted (record : TaskRecord)
  /-- The line of the task has been written to a worker as a whole. -/
  | written (a : Attempt)
  /-- The end of the answer has been taken in, and this was the status of the record. -/
  | answered (id : RequestId) (status : TaskStatus)

/-- The request of a milestone. -/
def Milestone.id : Milestone → RequestId
  | admitted record => record.id
  | written a => a.id
  | answered id _ => id

namespace Dispatcher

/-- The milestone that the outcome of a line is. -/
def lastAnswer (d : Dispatcher) : IngestOutcome → List Milestone
  | .finished id => ((d.cache.get? id).map fun r => .answered id r.status).toList
  | _ => []

/-- The milestone that a dealing is. -/
def milestones (d : Dispatcher) : Dealing → List Milestone
  | .submit m r owner =>
    match d.admitRequest m r owner with
    | .ok (record, _) => [.admitted record]
    | .error _ => []
  | .backend (.assign _) => (d.attempt?.filter Attempt.complete).toList.map .written
  | .backend (.hear now worker line) => d.lastAnswer (d.ingest now worker line).1
  | _ => []

/-- The milestones of a list of dealings. -/
def milestoneLog (d : Dispatcher) (dealings : List Dealing) : List Milestone :=
  journal deal milestones d dealings

end Dispatcher

/-! ## The life of a request -/

/-- What has happened to a request since it was admitted. -/
structure Life where
  record : TaskRecord
  written : Option Attempt := none
  /-- The status of its record when the end of its answer was taken in. -/
  answered : Option TaskStatus := none

/-- The life of a request after one more milestone. An admission begins a new one. -/
def Life.note (id : RequestId) (l : Option Life) : Milestone → Option Life
  | .admitted record => if record.id = id then some { record := record } else l
  | .written a => if a.id = id then l.map fun l => { l with written := some a } else l
  | .answered i status =>
    if i = id then l.map fun l => { l with answered := some status } else l

/-- What has happened to a request since it was admitted for the last time. -/
def life (id : RequestId) (log : List Milestone) : Option Life := log.foldl (Life.note id) none

theorem life_concat (id : RequestId) (log : List Milestone) (m : Milestone) :
    life id (log ++ [m]) = Life.note id (life id log) m :=
  List.foldl_concat ..

/-- What is no milestone of a request leaves its life as it was. -/
theorem life_concat_of_ne {id : RequestId} {m : Milestone} (h : m.id ≠ id)
    (log : List Milestone) : life id (log ++ [m]) = life id log := by
  rw [life_concat]
  cases m with
  | admitted record => exact if_neg h
  | written a => exact if_neg h
  | answered i status => exact if_neg h

theorem life_admitted (record : TaskRecord) (log : List Milestone) :
    life record.id (log ++ [.admitted record]) = some { record := record } := by
  rw [life_concat]
  exact if_pos rfl

theorem life_written {a : Attempt} {log : List Milestone} {l : Life}
    (h : life a.id log = some l) :
    life a.id (log ++ [.written a]) = some { l with written := some a } := by
  rw [life_concat, h]
  exact if_pos rfl

theorem life_answered {id : RequestId} {log : List Milestone} {l : Life}
    (h : life id log = some l) (status : TaskStatus) :
    life id (log ++ [.answered id status]) = some { l with answered := some status } := by
  rw [life_concat, h]
  exact if_pos rfl

namespace Dispatcher

/-! ## What a dealing does -/

/-- Every record was there before, with the same status, worker and task, and its stream has
ended if it had. -/
def Continues (d d' : Dispatcher) : Prop :=
  ∀ id r', d'.cache.get? id = some r' → ∃ r, d.cache.get? id = some r ∧ r'.status = r.status ∧
    r'.worker = r.worker ∧ taskMessage r' = taskMessage r ∧
    d'.streamFinished id = d.streamFinished id

namespace Continues

variable {d d' d'' : Dispatcher}

theorem of_eq (hc : d'.cache = d.cache) (hs : d'.streams = d.streams) : Continues d d' := by
  intro id r' hr'
  rw [hc] at hr'
  exact ⟨r', hr', rfl, rfl, rfl, streamFinished_congr (by rw [hs])⟩

theorem refl : Continues d d := of_eq rfl rfl

theorem trans (h : Continues d d') (h' : Continues d' d'') : Continues d d'' := by
  intro id r'' hr''
  obtain ⟨r', hr', hst', hw', hm', hfin'⟩ := h' id r'' hr''
  obtain ⟨r, hr, hst, hw, hm, hfin⟩ := h id r' hr'
  exact ⟨r, hr, hst'.trans hst, hw'.trans hw, hm'.trans hm, hfin'.trans hfin⟩

theorem of_modify {id : RequestId} {f : TaskRecord → TaskRecord}
    (hc : d'.cache = d.cache.modify id f)
    (hf : ∀ r, d.cache.get? id = some r → (f r).status = r.status ∧ (f r).worker = r.worker ∧
      taskMessage (f r) = taskMessage r)
    (hs : ∀ j, d'.streamFinished j = d.streamFinished j) : Continues d d' := by
  intro j r' hr'
  rw [hc, TaskCache.get?_modify] at hr'
  split at hr'
  · next hj =>
    subst hj
    obtain ⟨r, hr, rfl⟩ := Option.map_eq_some_iff.mp hr'
    obtain ⟨hst, hw, hm⟩ := hf r hr
    exact ⟨r, hr, hst, hw, hm, hs j⟩
  · exact ⟨r', hr', rfl, rfl, rfl, hs j⟩

theorem of_remove {id : RequestId} (hc : d'.cache = d.cache.remove id)
    (hs : ∀ j, j ≠ id → d'.streamFinished j = d.streamFinished j) : Continues d d' := by
  intro j r' hr'
  rw [hc, TaskCache.get?_remove] at hr'
  split at hr'
  · cases hr'
  · next hj => exact ⟨r', hr', rfl, rfl, rfl, hs j hj⟩

theorem ended (id : RequestId) (status : TaskStatus) (message : String) :
    Continues d (d.ended id status message) :=
  .of_remove (cache_ended ..) fun _ hj => streamFinished_ended_of_ne hj _ _

theorem endEach {q : Dispatcher → TaskRecord → Bool} {status : TaskStatus} {message : String}
    {now : Millis} (records : List TaskRecord) :
    Continues d (d.endEach q status message now records).2 := by
  apply endEach_induction (P := fun d' => Continues d d') _ _ refl
  intro d₁ d₂ id h he
  obtain ⟨-, rfl⟩ := endTask?_eq_some_iff.mp he
  exact h.trans (.ended id status message)

/-- Between calls no record is being assigned, and so an answer moves none. -/
theorem progress {b : Bounds} (h : Listed b d.cache d.queue) (id : RequestId) (now : Millis) :
    Continues d (d.progress id now) := by
  refine .of_modify (f := TaskRecord.progressed now) rfl ?_ fun _ => rfl
  intro r hr
  refine ⟨?_, rfl, rfl⟩
  rcases h.live id r hr with hst | hst
  · simp [TaskRecord.progressed, hst]
  · simp [TaskRecord.progressed, hst]

theorem draws {id : RequestId} {o : Drain} (h : d.Pairs) (hd : d.Draws id o d') :
    Continues d d' := by
  cases hd with
  | untracked _ _ => exact refl
  | unanswered _ _ => exact refl
  | finished _ _ _ _ => exact refl
  | unread _ _ _ _ => exact refl
  | @failed s reason hs hfailure =>
    have hgone : d.cache.get? id = none := by
      have hid := h id
      rw [hs] at hid
      exact hid.record_of_failure hfailure
    intro j r' hr'
    have hj : j ≠ id := by
      intro he
      have hfound : d.cache.get? j = some r' := hr'
      rw [he, hgone] at hfound
      cases hfound
    refine ⟨r', hr', rfl, rfl, rfl, ?_⟩
    rw [streamFinished_clearStream, if_neg hj]
  | @fragment s f hs _ _ =>
    refine @of_modify _ _ id (fun r => { r with delivered := r.delivered + 1 }) rfl
      (fun _ _ => ⟨rfl, rfl, rfl⟩) ?_
    intro j
    show (d.setStream id { s with cursor := s.cursor + 1 }).streamFinished j = _
    rw [streamFinished_setStream]
    split
    · next hj =>
      subst hj
      rw [streamFinished, hs]
    · rfl

theorem finishDelivery (id : RequestId) (now : Millis) :
    Continues d (d.finishDelivery id now) := by
  rw [finishDelivery_eq]
  refine @of_remove _ _ id rfl ?_
  intro j hj
  rw [streamFinished_clearStream, if_neg hj]
  rfl

end Continues

/-- Everything a dealing can come to, as far as records and the ends of streams go, and the
milestone that it is. -/
inductive Turn (d : Dispatcher) : List Milestone → Dispatcher → Prop where
  | admitted {record d'} : record.status = .pending → d.cache.get? record.id = none →
      d.streams.find? record.id = none →
      (∀ j, d'.cache.get? j = if j = record.id then some record else d.cache.get? j) →
      d'.streams = d.streams → Turn d [.admitted record] d'
  | written {a r now d'} : a.complete = true → d.cache.get? a.id = some r →
      r.status = .pending → a.line = (taskMessage r).encode →
      d'.cache = d.cache.modify a.id (fun _ => r.sent a.worker now) → d'.streams = d.streams →
      Turn d [.written a] d'
  | answered {id r d'} : d.cache.get? id = some r → d.streamFinished id = false →
      (∀ j r', d'.cache.get? j = some r' → ∃ r, d.cache.get? j = some r ∧
        r'.status = r.status ∧ r'.worker = r.worker ∧ taskMessage r' = taskMessage r ∧
        d'.streamFinished j = if j = id then true else d.streamFinished j) →
      Turn d [.answered id r.status] d'
  | other {d'} : Continues d d' → Turn d [] d'

variable {d d' : Dispatcher}

theorem turn_assign (d : Dispatcher) (now : Millis) :
    d.Turn (d.milestones (.backend (.assign now))) (d.assignNext now).2 := by
  have ha := d.assigns_assignNext now
  have hiff := @assigned_iff d now
  generalize (d.assignNext now).1 = o at ha hiff
  generalize (d.assignNext now).2 = d' at ha
  -- what is not assigned is no milestone
  have none_written : (∀ id worker, o ≠ .assigned id worker) →
      d.milestones (.backend (.assign now)) = [] := by
    intro hno
    have hnone : d.attempt?.filter Attempt.complete = none := by
      rw [Option.filter_eq_none_iff]
      intro a hatt hcomplete
      exact hno a.id a.worker (hiff.mpr ⟨a, hatt, rfl, rfl, hcomplete⟩)
    rw [milestones, hnone]
    rfl
  have dequeued : ∀ rest, Continues d (d.dequeued rest) := fun rest => .of_eq rfl rfl
  cases ha with
  | saturated _ =>
    rw [none_written fun _ _ => Assignment.noConfusion]
    exact .other .refl
  | idle _ =>
    rw [none_written fun _ _ => Assignment.noConfusion]
    exact .other .refl
  | skipped _ _ =>
    rw [none_written fun _ _ => Assignment.noConfusion]
    exact .other (dequeued _)
  | @unserved id rest _ _ _ _ _ =>
    rw [none_written fun _ _ => Assignment.noConfusion]
    exact .other ((dequeued rest).trans (.ended id .failed _))
  | @undelivered id rest _ _ _ e pool _ _ _ _ _ =>
    rw [none_written fun _ _ => Assignment.noConfusion]
    have hended := (dequeued rest).trans (.ended id .failed e.message)
    exact .other (hended.trans (.of_eq rfl rfl))
  | @assigned id rest r worker pool _ _ hp hr hst hsel _ =>
    obtain ⟨a, hatt, hid, hworker, hcomplete⟩ := hiff.mp rfl
    have hlog : d.milestones (.backend (.assign now)) = [.written a] := by
      rw [milestones, hatt, Option.filter, if_pos hcomplete]
      rfl
    obtain ⟨-, _, r', _, -, hr', -, -, hline, -⟩ := attempt?_eq_some_iff.mp hatt
    subst hid hworker
    cases hr.symm.trans hr'
    rw [hlog]
    exact @Turn.written _ a r now _ hcomplete hr hst hline rfl rfl

theorem finished_streamOf (d : Dispatcher) (id : RequestId) :
    (d.streamOf id).finished = d.streamFinished id := by
  rw [streamOf, streamFinished]
  cases d.streams.find? id with
  | none => rfl
  | some s => rfl

/-- A response that is taken in ends the stream exactly if it is the last one. -/
theorem streamFinished_absorb {r : TokenResponse} (hopen : d.streamFinished r.id = false)
    (j : RequestId) :
    (d.absorb r).streamFinished j = if j = r.id then r.finished else d.streamFinished j := by
  unfold absorb
  split
  · next hr =>
    split
    · next hj => rw [hj, hopen, hr.2]
    · rfl
  · rw [streamFinished_setStream]
    have hstream : (d.streamOf r.id).finished = false := by rw [finished_streamOf, hopen]
    rw [TokenStream.absorb_eq hstream]

theorem turn_hears {b : Bounds} (h : Listed b d.cache d.queue) {now : Millis}
    {message : Except DecodeError WireMessage} {o : IngestOutcome}
    (hh : d.Hears now message o d') :
    d.Turn (d.lastAnswer o) d' := by
  -- the record after a response is that of before, and its stream has ended if this was the last
  have absorbed : ∀ {r : TokenResponse}, d.streamFinished r.id = false → ∀ j r',
      ((d.progress r.id now).absorb r).cache.get? j = some r' → ∃ r₀, d.cache.get? j = some r₀ ∧
        r'.status = r₀.status ∧ r'.worker = r₀.worker ∧ taskMessage r' = taskMessage r₀ ∧
        ((d.progress r.id now).absorb r).streamFinished j =
          if j = r.id then r.finished else d.streamFinished j := by
    intro r hopen j r' hr'
    rw [cache_absorb] at hr'
    obtain ⟨r₀, hr₀, hst, hw, hm, -⟩ := Continues.progress h r.id now j r' hr'
    exact ⟨r₀, hr₀, hst, hw, hm, streamFinished_absorb (d := d.progress r.id now) hopen j⟩
  cases hh with
  | late _ _ => exact .other (.progress h _ now)
  | @more r t ht hopen hr =>
    apply Turn.other
    intro j r' hr'
    obtain ⟨r₀, hr₀, hst, hw, hm, hfin⟩ := absorbed hopen j r' hr'
    refine ⟨r₀, hr₀, hst, hw, hm, ?_⟩
    rw [hfin, hr]
    split
    · next hj => rw [hj, hopen]
    · rfl
  | @last r t ht hopen hr =>
    have hturn := absorbed hopen
    rw [hr] at hturn
    rw [lastAnswer, ht]
    exact .answered ht hopen hturn
  | failed _ _ _ => exact .other (.ended _ _ _)
  | undecodable => exact .other .refl
  | orphan _ => exact .other .refl
  | stray _ _ => exact .other .refl
  | unnamed _ => exact .other .refl
  | status => exact .other .refl
  | heartbeat => exact .other .refl
  | request => exact .other .refl
  | task => exact .other .refl

theorem Turn.withPool {ms : List Milestone} (h : d.Turn ms d') (p : WorkerPool) :
    d.Turn ms (d'.withPool p) := by
  cases h with
  | admitted hst hfresh hunread hc hs => exact .admitted hst hfresh hunread hc hs
  | written hcomplete hr hst hline hc hs => exact .written hcomplete hr hst hline hc hs
  | answered hr hopen hd => exact .answered hr hopen hd
  | other hd => exact .other hd

theorem turn_admits {m : Moment} {r : InferenceRequest} {owner : ConnectionId}
    {record : TaskRecord} (ha : d.Admits m r owner record d') : d.Turn [.admitted record] d' := by
  obtain ⟨generated, rfl⟩ := ha.engine_eq
  have hst : record.status = .pending := by
    rw [ha.record_eq]
    rfl
  exact .admitted hst ha.fresh ha.unread (fun _ => Table.find?_insert _ _ _ _) rfl

theorem turn_deal {b : Bounds} (h : Listed b d.cache d.queue) (hp : d.Pairs) (x : Dealing) :
    d.Turn (d.milestones x) (d.deal x) := by
  cases x with
  | submit m r owner =>
    cases ha : d.admitRequest m r owner with
    | ok a =>
      obtain ⟨record, d'⟩ := a
      simpa only [milestones, deal, apply, ha] using turn_admits (admits_of_admitRequest ha)
    | error e => simpa only [milestones, deal, apply, ha] using Turn.other .refl
  | draw id => exact .other (.draws hp (d.draws_nextFragment id))
  | close id now =>
    rcases d.deal_close id now with ⟨-, he⟩ | ⟨-, he⟩
    · rw [he]
      exact .other (.finishDelivery id now)
    · rw [he]
      exact .other (.draws hp (d.draws_nextFragment id))
  | cancel owner now => exact .other (.endEach _)
  | backend call =>
    cases call with
    | assign now => exact d.turn_assign now
    | hear now worker line =>
      obtain ⟨p, hpool⟩ := d.ingest_eq_heard now worker line
      have hturn := (turn_hears h (d.hears_heard now (WireMessage.decode line))).withPool p
      simpa only [milestones, deal, applyBackend, hpool] using hturn
    | failWorker worker now => exact .other (.endEach _)
    | sweep now timeoutMs clock => exact .other (.endEach _)
    | pool p => exact .other (.of_eq rfl rfl)

/-! ## Runs -/

/-- What a record and its stream tell of the life of their request. -/
structure Matches (d : Dispatcher) (id : RequestId) (r : TaskRecord) (l : Life) : Prop where
  /-- The task is processing if its line has been written, and waits if not. -/
  sent : (r.status = .processing ∧ ∃ a, l.written = some a ∧ a.complete = true ∧
      r.worker = some a.worker ∧ a.line = (taskMessage r).encode) ∨
    (r.status = .pending ∧ l.written = none)
  /-- The stream has ended if the end of the answer has been taken in. -/
  finished : d.streamFinished id = true ↔ l.answered ≠ none
  /-- A task that waits waited when the end of its answer was taken in. -/
  early : r.status = .pending → ∀ status, l.answered = some status → status = .pending

/-- Every record tells of the life of its request. -/
def Chronicled (d : Dispatcher) (log : List Milestone) : Prop :=
  ∀ id r, d.cache.get? id = some r → ∃ l, life id log = some l ∧ d.Matches id r l

theorem Matches.continues {id : RequestId} {r r' : TaskRecord} {l : Life}
    (h : d.Matches id r l) (hst : r'.status = r.status) (hw : r'.worker = r.worker)
    (hm : taskMessage r' = taskMessage r) (hfin : d'.streamFinished id = d.streamFinished id) :
    d'.Matches id r' l where
  sent := by
    rw [hst, hw, hm]
    exact h.sent
  finished := by
    rw [hfin]
    exact h.finished
  early := by
    rw [hst]
    exact h.early

namespace Chronicled

variable {log ms : List Milestone}

theorem turn (h : d.Chronicled log) (ht : d.Turn ms d') : d'.Chronicled (log ++ ms) := by
  intro id r' hr'
  cases ht with
  | @admitted record _ hst _ hunread hc hs =>
    have hfin : d'.streamFinished id = d.streamFinished id := streamFinished_congr (by rw [hs])
    rw [hc] at hr'
    by_cases hid : id = record.id
    · subst hid
      rw [if_pos rfl] at hr'
      obtain rfl : record = r' := Option.some.inj hr'
      have hopen : d.streamFinished record.id = false := by rw [streamFinished, hunread]
      refine ⟨_, life_admitted record log, .inr ⟨hst, rfl⟩, ?_, fun _ _ hstatus => by cases hstatus⟩
      simp [hfin, hopen]
    · rw [if_neg hid] at hr'
      obtain ⟨l, hl, hmatches⟩ := h id r' hr'
      rw [life_concat_of_ne (Ne.symm hid)]
      exact ⟨l, hl, hmatches.continues rfl rfl rfl hfin⟩
  | @written a r now _ hcomplete hr hst hline hc hs =>
    have hfin : d'.streamFinished id = d.streamFinished id := streamFinished_congr (by rw [hs])
    rw [hc, TaskCache.get?_modify] at hr'
    by_cases hid : id = a.id
    · subst hid
      rw [if_pos rfl, hr] at hr'
      cases hr'
      obtain ⟨l, hl, hmatches⟩ := h a.id r hr
      refine ⟨_, life_written hl, .inl ⟨rfl, a, rfl, hcomplete, rfl, hline⟩, ?_, fun hpending => by cases hpending⟩
      rw [hfin]
      exact hmatches.finished
    · rw [if_neg hid] at hr'
      obtain ⟨l, hl, hmatches⟩ := h id r' hr'
      rw [life_concat_of_ne (Ne.symm hid)]
      exact ⟨l, hl, hmatches.continues rfl rfl rfl hfin⟩
  | @answered i r _ hr hopen hd =>
    obtain ⟨r₀, hr₀, hst, hw, hm, hfin⟩ := hd id r' hr'
    obtain ⟨l, hl, hmatches⟩ := h id r₀ hr₀
    by_cases hid : id = i
    · subst hid
      cases hr.symm.trans hr₀
      rw [if_pos rfl] at hfin
      refine ⟨_, life_answered hl r.status, ?_, ?_, ?_⟩
      · rw [hst, hw, hm]
        exact hmatches.sent
      · simp [hfin]
      · intro hpending status hstatus
        cases hstatus
        rw [← hst, hpending]
    · rw [if_neg hid] at hfin
      rw [life_concat_of_ne (Ne.symm hid)]
      exact ⟨l, hl, hmatches.continues hst hw hm hfin⟩
  | other hd =>
    obtain ⟨r, hr, hst, hw, hm, hfin⟩ := hd id r' hr'
    obtain ⟨l, hl, hmatches⟩ := h id r hr
    rw [List.append_nil]
    exact ⟨l, hl, hmatches.continues hst hw hm hfin⟩

end Chronicled

/-- The engine after a run, and the log of it. -/
structure Recounted (d : Dispatcher) (log : List Milestone) : Prop where
  listed : ∃ b, Listed b d.cache d.queue
  pairs : d.Pairs
  chronicled : d.Chronicled log

namespace Recounted

variable {log : List Milestone}

theorem create (maxTasks maxPending maxProcessing maxWorkers : Nat) :
    Recounted (Dispatcher.create maxTasks maxPending maxProcessing maxWorkers) [] where
  listed := ⟨_, Listed.create ..⟩
  pairs := Pairs.create _ _ _ _
  chronicled := fun _ _ h => nomatch h

theorem deal (h : Recounted d log) (x : Dealing) :
    Recounted (d.deal x) (log ++ d.milestones x) := by
  obtain ⟨b, hb⟩ := h.listed
  exact ⟨⟨b, hb.deal x⟩, h.pairs.deal x, h.chronicled.turn (turn_deal hb h.pairs x)⟩

theorem dealt (h : Recounted d log) (dealings : List Dealing) :
    Recounted (d.dealt dealings) (log ++ d.milestoneLog dealings) := by
  induction dealings generalizing d log with
  | nil => rwa [milestoneLog, journal, List.append_nil]
  | cons x dealings ih =>
    rw [milestoneLog, journal, ← List.append_assoc]
    exact ih (h.deal x)

end Recounted

end Dispatcher

end PromptGateway
