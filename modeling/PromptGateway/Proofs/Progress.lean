import PromptGateway.Proofs.Dispatch
import PromptGateway.Proofs.Endings
import PromptGateway.Proofs.Working

/-
  A time-out is for a task that makes no progress.

  A task makes progress when it is admitted, when it is chosen for a worker and when an answer
  for it is taken in. Each of these stamps its record, and `stampLog` lists the stamps of a run
  with the clock of the act they belong to. The clock may do what it likes.

    1. `Carries` says what one act does to the records: they were there before and bear the
       last stamp that the act gives to their id, or the act has admitted them
       (`carries_act`).
    2. `Stamped` says that every record bears the last stamp of its id; it holds after every
       run (`Stamped.perform`).
    3. `sweepTimeouts_eq`: a sweep ends the tasks that are overdue, and no others.
    4. `stalled_task_times_out` puts the two together: what a sweep does to a task depends on
       the moment of its last stamp.
-/

namespace PromptGateway

/-! ## Moments in 64 bits -/

theorem toInt_saturatingSub (a b : Millis) :
    (saturatingSub a b).toInt =
      max Int64.minValue.toInt (min Int64.maxValue.toInt (a.toInt - b.toInt)) := by
  have hmin : Int64.minValue.toInt = -2 ^ 63 := Int64.toInt_minValue
  have hmax : Int64.maxValue.toInt = 2 ^ 63 - 1 := Int64.toInt_maxValue
  unfold saturatingSub
  apply Int64.toInt_ofInt_of_le
  · omega
  · omega

/-! ## Stamps -/

/-- The last stamp of an id. -/
def lastStamp (id : RequestId) (log : List (RequestId × Millis)) : Option Millis :=
  ((log.filter (·.1 == id)).map (·.2)).getLast?

theorem lastStamp_append (id : RequestId) (log more : List (RequestId × Millis)) :
    lastStamp id (log ++ more) = (lastStamp id more).or (lastStamp id log) := by
  simp [lastStamp, List.getLast?_append]

theorem lastStamp_self (id : RequestId) (now : Millis) : lastStamp id [(id, now)] = some now := by
  simp [lastStamp]

theorem lastStamp_of_ne {id j : RequestId} (hj : j ≠ id) (now : Millis) :
    lastStamp j [(id, now)] = none := by
  simp [lastStamp, Ne.symm hj]

theorem lastStamp_eq_none {id : RequestId} {log : List (RequestId × Millis)}
    (h : ∀ now, (id, now) ∉ log) : lastStamp id log = none := by
  have hnone : log.filter (·.1 == id) = [] := by
    rw [List.filter_eq_nil_iff]
    intro x hx hid
    obtain ⟨j, now⟩ := x
    rw [beq_iff_eq] at hid
    subst hid
    exact h now hx
  rw [lastStamp, hnone]
  rfl

/-- The request that an answer is taken in for. An answer that comes after the end of its
stream is taken in, too. -/
def answered? : Except DecodeError WireMessage → IngestOutcome → Option RequestId
  | .ok (.response r), .appended _ => some r.id
  | .ok (.response r), .finished _ => some r.id
  | .ok (.response r), .ignored => some r.id
  | _, _ => none

/-- The request that an assignment has moved to where it is being assigned: it has been given
to a worker, or could not be given to one. -/
def Assignment.chosen? : Assignment → Option RequestId
  | assigned id _ | failed id _ => some id
  | idle | saturated | skipped _ => none

/-- The request that the first step of an assignment has moved on. -/
def AssignStep.chosen? : AssignStep → Option RequestId
  | sent id _ => some id
  | done result => result.chosen?

namespace Dispatcher

/-- The stamps that an act gives. -/
def stamps (d : Dispatcher) : Act → List (RequestId × Millis)
  | .submit m r owner =>
    match d.admitRequest m r owner with
    | .ok (record, _) => [(record.id, m.now)]
    | .error _ => []
  | .assign now => (d.assignNext now).1.chosen?.toList.map (·, now)
  | .beginAssign now => (d.beginAssign now).1.chosen?.toList.map (·, now)
  | .hear now worker line =>
    (answered? (WireMessage.decode line) (d.ingest now worker line).1).toList.map (·, now)
  | _ => []

/-- The stamps that are given in a run. -/
def stampLog (d : Dispatcher) (acts : List Act) : List (RequestId × Millis) :=
  journal act stamps d acts

/-! ## What one act does to the records -/

/-- Every record was there before and bears the last of these stamps, or its own of before if
there is none for it; or else it is new and bears the stamp of its admission. -/
def Carries (d d' : Dispatcher) (log : List (RequestId × Millis)) : Prop :=
  ∀ id r', d'.cache.get? id = some r' →
    (∃ r, d.cache.get? id = some r ∧ r'.id = r.id ∧
      (r.status.isTerminal = false → r'.status.isTerminal = false) ∧
      r'.lastProgressAt = (lastStamp id log).getD r.lastProgressAt) ∨
    (r'.id = id ∧ r'.status.isTerminal = false ∧ lastStamp id log = some r'.lastProgressAt)

namespace Carries

variable {d d' d'' : Dispatcher} {log more : List (RequestId × Millis)}

theorem of_cache_eq (h : d'.cache = d.cache) : Carries d d' [] := by
  intro id r' hr'
  rw [h] at hr'
  exact .inl ⟨r', hr', rfl, fun hlive => hlive, rfl⟩

theorem of_remove {id : RequestId} (hc : d'.cache = d.cache.remove id)
    (hlog : ∀ j, j ≠ id → lastStamp j log = none) : Carries d d' log := by
  intro j r' hr'
  rw [hc, TaskCache.get?_remove] at hr'
  split at hr'
  · cases hr'
  · next hj => exact .inl ⟨r', hr', rfl, fun hlive => hlive, by rw [hlog j hj]; rfl⟩

theorem of_modify {id : RequestId} {f : TaskRecord → TaskRecord}
    (hc : d'.cache = d.cache.modify id f)
    (hf : ∀ r, d.cache.get? id = some r → (f r).id = r.id ∧
      (r.status.isTerminal = false → (f r).status.isTerminal = false) ∧
      (f r).lastProgressAt = (lastStamp id log).getD r.lastProgressAt)
    (hlog : ∀ j, j ≠ id → lastStamp j log = none) : Carries d d' log := by
  intro j r' hr'
  rw [hc, TaskCache.get?_modify] at hr'
  split at hr'
  · next hj =>
    subst hj
    obtain ⟨r, hr, rfl⟩ := Option.map_eq_some_iff.mp hr'
    exact .inl ⟨r, hr, hf r hr⟩
  · next hj => exact .inl ⟨r', hr', rfl, fun hlive => hlive, by rw [hlog j hj]; rfl⟩

theorem trans (h : Carries d d' log) (h' : Carries d' d'' more) : Carries d d'' (log ++ more) := by
  intro id r'' hr''
  rw [lastStamp_append]
  rcases h' id r'' hr'' with ⟨r', hr', hid', hlive', hstamp'⟩ | ⟨hid', hlive', hstamp'⟩
  · rcases h id r' hr' with ⟨r, hr, hid, hlive, hstamp⟩ | ⟨hid, hlive, hstamp⟩
    · left
      refine ⟨r, hr, hid'.trans hid, fun hl => hlive' (hlive hl), ?_⟩
      rw [hstamp', hstamp, Option.getD_or]
    · right
      refine ⟨hid'.trans hid, hlive' hlive, ?_⟩
      rw [hstamp', hstamp]
      cases lastStamp id more <;> rfl
  · right
    refine ⟨hid', hlive', ?_⟩
    rw [hstamp']
    rfl

theorem then_nothing (h : Carries d d' log) (h' : Carries d' d'' []) : Carries d d'' log := by
  have htrans := h.trans h'
  rwa [List.append_nil] at htrans

end Carries

section Acts

variable {d d' : Dispatcher}

theorem carries_refl : Carries d d [] := .of_cache_eq rfl

theorem carries_ended (id : RequestId) (status : TaskStatus) (message : String) :
    Carries d (d.ended id status message) [] :=
  .of_remove (cache_ended ..) fun _ _ => rfl

theorem carries_endEach {q : Dispatcher → TaskRecord → Bool} {status : TaskStatus}
    {message : String} {now : Millis} (records : List TaskRecord) :
    Carries d (d.endEach q status message now records).2 [] := by
  apply endEach_induction (P := fun d' => Carries d d' []) _ _ carries_refl
  intro d₁ d₂ id h he
  obtain ⟨-, rfl⟩ := endTask?_eq_some_iff.mp he
  exact h.then_nothing (carries_ended id status message)

theorem carries_progress (id : RequestId) (now : Millis) :
    Carries d (d.progress id now) [(id, now)] := by
  refine .of_modify rfl ?_ fun j hj => lastStamp_of_ne hj now
  intro r _
  rw [lastStamp_self]
  refine ⟨rfl, fun hlive => ?_, rfl⟩
  unfold TaskRecord.progressed
  split
  · rfl
  · exact hlive

theorem carries_admits {m : Moment} {r : InferenceRequest} {owner : ConnectionId}
    {record : TaskRecord} (h : d.Admits m r owner record d') :
    Carries d d' [(record.id, m.now)] := by
  obtain ⟨generated, rfl⟩ := h.engine_eq
  intro j r' hr'
  have hfound : Table.find? (d.cache.tasks.insert record.id record) j = some r' := hr'
  rw [Table.find?_insert] at hfound
  split at hfound
  · next hj =>
    cases hfound
    right
    rw [hj, lastStamp_self, h.record_eq]
    exact ⟨rfl, rfl, rfl⟩
  · next hj =>
    left
    rw [lastStamp_of_ne hj]
    exact ⟨r', hfound, rfl, fun hlive => hlive, rfl⟩

theorem carries_begins {now : Millis} {step : AssignStep} (hb : d.Begins now step d') :
    Carries d d' (step.chosen?.toList.map (·, now)) := by
  -- the request that has been chosen is the only one that gets a stamp
  have others : ∀ id j, j ≠ id → lastStamp j [(id, now)] = none :=
    fun _ _ hj => lastStamp_of_ne hj now
  cases hb with
  | saturated _ => exact carries_refl
  | idle _ _ => exact carries_refl
  | skipped _ _ _ => exact .of_cache_eq rfl
  | @unserved id _ _ _ _ _ _ _ => exact .of_remove (cache_ended ..) (others id)
  | @undelivered id rest _ _ _ e pool _ _ _ _ _ _ =>
    have hcache : (((d.dequeued rest).ended id .failed e.message).withPool pool).cache =
        d.cache.remove id := cache_ended ..
    exact .of_remove hcache (others id)
  | @sent id _ r worker _ _ _ _ hr _ _ _ =>
    refine .of_modify rfl ?_ (others id)
    intro s hs
    cases hr.symm.trans hs
    refine ⟨rfl, fun _ => rfl, ?_⟩
    show now = (lastStamp id [(id, now)]).getD r.lastProgressAt
    rw [lastStamp_self]
    rfl

theorem chosen?_assignNext (now : Millis) :
    (d.assignNext now).1.chosen? = (d.beginAssign now).1.chosen? := by
  unfold assignNext
  rcases d.beginAssign now with ⟨step, d'⟩
  cases step with
  | done result => rfl
  | sent id worker => rfl

theorem carries_commitAssign (d : Dispatcher) (id : RequestId) :
    Carries d (d.commitAssign id) [] := by
  refine .of_modify (cache_commitAssign d id) ?_ fun _ _ => rfl
  intro r _
  split
  · exact ⟨rfl, fun _ => rfl, rfl⟩
  · exact ⟨rfl, fun hlive => hlive, rfl⟩

theorem carries_hears {now : Millis} {message : Except DecodeError WireMessage}
    {o : IngestOutcome} (hh : d.Hears now message o d') :
    Carries d d' ((answered? message o).toList.map (·, now)) := by
  cases hh with
  | late _ _ => exact carries_progress _ now
  | more _ _ _ => exact (carries_progress _ now).then_nothing (.of_cache_eq (cache_absorb ..))
  | last _ _ _ => exact (carries_progress _ now).then_nothing (.of_cache_eq (cache_absorb ..))
  | failed _ _ _ => exact carries_ended _ _ _
  | undecodable => exact carries_refl
  | orphan _ => exact carries_refl
  | stray _ _ => exact carries_refl
  | unnamed _ => exact carries_refl
  | status => exact carries_refl
  | heartbeat => exact carries_refl
  | request => exact carries_refl
  | task => exact carries_refl

theorem carries_draws {id : RequestId} {o : Drain} (h : d.Draws id o d') : Carries d d' [] := by
  cases h with
  | fragment _ _ _ =>
    exact .of_modify rfl (fun _ _ => ⟨rfl, fun hlive => hlive, rfl⟩) fun _ _ => rfl
  | untracked _ _ => exact carries_refl
  | unanswered _ _ => exact carries_refl
  | failed _ _ => exact .of_cache_eq rfl
  | finished _ _ _ _ => exact carries_refl
  | unread _ _ _ _ => exact carries_refl

theorem carries_act (d : Dispatcher) (act : Act) : Carries d (d.act act) (d.stamps act) := by
  cases act with
  | submit m r owner =>
    cases ha : d.admitRequest m r owner with
    | ok x =>
      obtain ⟨record, d'⟩ := x
      simpa only [Dispatcher.act, stamps, ha] using carries_admits (admits_of_admitRequest ha)
    | error e => simpa only [Dispatcher.act, stamps, ha] using carries_refl
  | assign now =>
    have hbegin := carries_begins (d.begins_beginAssign now)
    simp only [Dispatcher.act, stamps, chosen?_assignNext]
    rcases d.assignNext_eq now with he | ⟨id, he⟩
    · rwa [he]
    · rw [he]
      exact hbegin.then_nothing (carries_commitAssign _ id)
  | beginAssign now => exact carries_begins (d.begins_beginAssign now)
  | commitAssign id => exact carries_commitAssign d id
  | hear now worker line =>
    obtain ⟨p, hp⟩ := d.ingest_eq_heard now worker line
    have hheard := carries_hears (d.hears_heard now (WireMessage.decode line))
    simp only [Dispatcher.act, stamps, hp]
    exact hheard.then_nothing (.of_cache_eq rfl)
  | failWorker worker now => exact carries_endEach _
  | sweep now timeoutMs clock => exact carries_endEach _
  | nextFragment id => exact carries_draws (d.draws_nextFragment id)
  | finishDelivery id now =>
    rw [Dispatcher.act, finishDelivery_eq]
    exact @Carries.of_remove _ _ _ id rfl fun _ _ => rfl
  | cancelConnection owner now => exact carries_endEach _
  | clearStream id => exact .of_cache_eq rfl
  | pool call => exact .of_cache_eq rfl

end Acts

/-! ## Runs -/

/-- Every record bears the last stamp of its id. -/
structure Stamped (d : Dispatcher) (log : List (RequestId × Millis)) : Prop where
  keyed : d.Keyed
  last : ∀ id r, d.cache.get? id = some r → lastStamp id log = some r.lastProgressAt

namespace Stamped

variable {d d' : Dispatcher} {log more : List (RequestId × Millis)}

theorem create (maxTasks maxPending maxProcessing maxWorkers : Nat) :
    Stamped (Dispatcher.create maxTasks maxPending maxProcessing maxWorkers) [] where
  keyed := keyed_of_listed (Listed.create ..)
  last := fun _ _ h => nomatch h

theorem carries (h : Stamped d log) (hc : Carries d d' more) : Stamped d' (log ++ more) where
  keyed :=
    { own_id := by
        intro id r' hr'
        rcases hc id r' hr' with ⟨r, hr, hid, -, -⟩ | ⟨hid, -, -⟩
        · rw [hid, h.keyed.own_id id r hr]
        · exact hid
      live := by
        intro id r' hr'
        rcases hc id r' hr' with ⟨r, hr, -, hlive, -⟩ | ⟨-, hlive, -⟩
        · exact hlive (h.keyed.live id r hr)
        · exact hlive }
  last := by
    intro id r' hr'
    rw [lastStamp_append]
    rcases hc id r' hr' with ⟨r, hr, -, -, hstamp⟩ | ⟨-, -, hstamp⟩
    · rw [h.last id r hr, hstamp]
      cases lastStamp id more <;> rfl
    · rw [hstamp]
      rfl

theorem perform (h : Stamped d log) (acts : List Act) :
    Stamped (d.perform acts) (log ++ d.stampLog acts) := by
  induction acts generalizing d log with
  | nil => rwa [stampLog, journal, List.append_nil]
  | cons act acts ih =>
    rw [stampLog, journal, ← List.append_assoc]
    exact ih (h.carries (carries_act d act))

end Stamped

/-! ## Sweeps -/

/-- Whether a task is overdue at some moment: its stream has not ended, and its last progress
is longer ago than the limit. -/
def overdue (d : Dispatcher) (now : Millis) (timeoutMs : Nat) (r : TaskRecord) : Bool :=
  decide (min (timeoutMs : Int) Int64.maxValue.toInt < (r.idle now).toInt) &&
    !d.streamFinished r.id

/-- A sweep ends the tasks that are overdue, and no others. -/
theorem sweepTimeouts_eq {d : Dispatcher} (h : d.Keyed) (now : Millis) (timeoutMs : Nat)
    (clock : Millis) :
    (d.sweepTimeouts now timeoutMs clock).2 =
      d.endAll .timeout s!"no progress for {timeoutMs} ms"
        ((d.cache.records.filter (d.overdue now timeoutMs)).map (·.id)) := by
  have hlocal : Local fun d r => d.overdue now timeoutMs r := by
    intro d d' r hs
    simp only [overdue, streamFinished_congr hs]
  have hroll : d.Roll d.cache.records := by
    have hall := h.roll fun _ => true
    rwa [List.filter_true] at hall
  have hlive : ∀ r ∈ d.cache.records, r.status.isTerminal = false := by
    intro r hr
    exact h.live r.id r (hroll.found r hr)
  have htimeout : TaskStatus.timeout.isTerminal = true ∧ TaskStatus.timeout ≠ .completed := by
    decide
  exact endEach_eq_endAll hlocal htimeout.1 htimeout.2 clock hroll hlive

/-- A task that could move to a status has ended with it: its record is gone, and its stream
is left with the reason. -/
structure Ends (d d' : Dispatcher) (id : RequestId) (status : TaskStatus) (message : String) :
    Prop where
  moves : ∃ r, d.cache.get? id = some r ∧ r.status.canMove status = true
  gone : d'.cache.get? id = none
  told : d'.streams.find? id = some ((d.streamOf id).fail message)

theorem ends_sweepTimeouts {d : Dispatcher} (h : d.Keyed) (now : Millis) (timeoutMs : Nat)
    (clock : Millis) {id : RequestId} {r : TaskRecord} (hr : d.cache.get? id = some r) :
    let d' := (d.sweepTimeouts now timeoutMs clock).2
    if d.overdue now timeoutMs r then
      d.Ends d' id .timeout s!"no progress for {timeoutMs} ms"
    else d.Spared d' id := by
  intro d'
  have hids := (h.roll (d.overdue now timeoutMs)).once
  have hmem : id ∈ (d.cache.records.filter (d.overdue now timeoutMs)).map (·.id) ↔
      d.overdue now timeoutMs r = true := by
    rw [h.mem_filter]
    constructor
    · intro ⟨s, hs, hdue⟩
      cases hr.symm.trans hs
      exact hdue
    · intro hdue
      exact ⟨r, hr, hdue⟩
  have hsweep : d' = _ := sweepTimeouts_eq h now timeoutMs clock
  split
  · next hdue =>
    refine ⟨⟨r, hr, ?_⟩, ?_, ?_⟩
    · exact TaskStatus.canMove_of_live (h.live id r hr) rfl (by decide)
    · rw [hsweep, get?_endAll, if_pos (hmem.mpr hdue)]
    · rw [hsweep, streams_endAll d hids, if_pos (hmem.mpr hdue)]
      rfl
  · next hdue =>
    constructor
    · rw [hsweep, get?_endAll, if_neg (fun hm => hdue (hmem.mp hm))]
    · rw [hsweep, streams_endAll d hids, if_neg (fun hm => hdue (hmem.mp hm))]

end Dispatcher

/-! ## Time-outs -/

/-- A task times out exactly if it makes no progress. After any list of acts of an engine that
began empty, with any clock:

every record bears the moment of the last of its admission, of its move to where it is being
assigned, and of the answers that were taken in for it, be it before or after the end of its
stream;

whatever else is done to an engine leaves this moment as it was;

a sweep ends a task as timed out if its stream has not ended and more time than the limit has
passed since that moment, where the time that has passed stops at the ends of 64 bits and a
limit beyond the largest moment counts as that moment; and it leaves the task and its stream
as they were if not. -/
theorem stalled_task_times_out (maxTasks maxPending maxProcessing maxWorkers : Nat)
    (acts : List Act) :
    let start := Dispatcher.create maxTasks maxPending maxProcessing maxWorkers
    let d := start.perform acts
    let log := start.stampLog acts
    (∀ id r, d.cache.get? id = some r → lastStamp id log = some r.lastProgressAt) ∧
    (∀ act id r', (∀ now, (id, now) ∉ d.stamps act) → (d.act act).cache.get? id = some r' →
      ∃ r, d.cache.get? id = some r ∧ r'.lastProgressAt = r.lastProgressAt) ∧
    (∀ id r stamp, d.cache.get? id = some r → lastStamp id log = some stamp →
      ∀ (now : Millis) (timeoutMs : Nat) (clock : Millis),
        let passed : Int :=
          max Int64.minValue.toInt (min Int64.maxValue.toInt (now.toInt - stamp.toInt))
        let d' := (d.sweepTimeouts now timeoutMs clock).2
        if d.streamFinished id = false ∧ min (timeoutMs : Int) Int64.maxValue.toInt < passed then
          d.Ends d' id .timeout s!"no progress for {timeoutMs} ms"
        else d.Spared d' id) := by
  intro start d log
  have h : d.Stamped log := (Dispatcher.Stamped.create ..).perform acts
  refine ⟨h.last, ?_, ?_⟩
  · intro act id r' hact hr'
    have hnone : lastStamp id (d.stamps act) = none := lastStamp_eq_none hact
    rcases d.carries_act act id r' hr' with ⟨r, hr, -, -, hstamp⟩ | ⟨-, -, hstamp⟩
    · rw [hnone] at hstamp
      exact ⟨r, hr, hstamp⟩
    · rw [hnone] at hstamp
      cases hstamp
  · intro id r stamp hr hstamp now timeoutMs clock passed d'
    have hlast : r.lastProgressAt = stamp := by
      rw [h.last id r hr] at hstamp
      exact Option.some.inj hstamp
    have hpassed : (r.idle now).toInt = passed := by
      rw [TaskRecord.idle, toInt_saturatingSub, hlast]
    have hdue : d.overdue now timeoutMs r = true ↔
        d.streamFinished id = false ∧ min (timeoutMs : Int) Int64.maxValue.toInt < passed := by
      rw [Dispatcher.overdue, h.keyed.own_id id r hr, hpassed, Bool.and_eq_true,
        decide_eq_true_iff, Bool.not_eq_true', and_comm]
    have hends := Dispatcher.ends_sweepTimeouts h.keyed now timeoutMs clock hr
    simpa only [hdue] using hends

end PromptGateway
