import PromptGateway.Proofs.Attempts
import PromptGateway.Proofs.Exchange

/-
  Each request is sent to a worker at most once, over clean connections.

  An act is anything that can happen to an engine and to the connections of its workers:
  a call of the engine, a call of the pool that writes nothing, or whatever the other end
  of a connection does. The two steps of an assignment are acts of their own, so that
  others may come between them. The diary of a run has two kinds of entries, an admission
  and a write.

    1. `Retains`: but for an admission no act brings a record, and none brings one back to
       where it waits (`retains_act`).
    2. `Dispatched` ties the diary to the engine. A request that waits has not been written
       since its admission, and none has been written twice.
    3. `dispatched_once` is the diary of any run.
-/

namespace PromptGateway

/-! ## Acts -/

/-- A call of the pool that writes nothing, or whatever happens on a connection. -/
inductive PoolCall where
  | add (network : Network) (now : Millis) (address : String)
  | poll
  | drain
  | select
  | touch (index : Nat) (now : Millis)
  | status (index : Nat) (status : NodeStatus) (now : Millis)
  | closeAll
  | link (l : Nat) (change : Link → Link)

/-- One thing that can happen to an engine and to the connections of its workers. -/
inductive Act where
  | submit (m : Moment) (r : InferenceRequest) (owner : ConnectionId)
  | assign (now : Millis)
  | beginAssign (now : Millis)
  | commitAssign (id : RequestId)
  | hear (now : Millis) (worker : Nat) (line : String)
  | failWorker (worker : Nat) (now : Millis)
  | sweep (now : Millis) (timeoutMs : Nat) (clock : Millis)
  | nextFragment (id : RequestId)
  | finishDelivery (id : RequestId) (now : Millis)
  | cancelConnection (owner : ConnectionId) (now : Millis)
  | clearStream (id : RequestId)
  | pool (call : PoolCall)

namespace WorkerPool

/-- The pool after a call. -/
def apply (p : WorkerPool) : PoolCall → WorkerPool
  | .add network now address =>
    match p.addWorker network now address with
    | .ok (_, p) => p
    | .error _ => p
  | .poll => p.pollAll.2
  | .drain => p.drainDisconnected.2
  | .select =>
    match p.select? with
    | some (_, p) => p
    | none => p
  | .touch index now => p.touch index now
  | .status index status now => p.updateStatus index status now
  | .closeAll => p.closeAll
  | .link l change => p.modifyLink l change

variable {p p' : WorkerPool} {log : List Attempt}

/-- A call of the pool adds a worker, does something on a connection, or writes nothing and
leaves the slots. -/
theorem apply_cases (p : WorkerPool) (c : PoolCall) :
    (∃ index, p.Enlists index (p.apply c)) ∨ (∃ l change, c = .link l change) ∨
      p.Fades (p.apply c) := by
  cases c with
  | add network now address =>
    simp only [apply]
    split
    · next h => exact .inl ⟨_, enlists_addWorker h⟩
    · exact .inr (.inr .refl)
  | select =>
    simp only [apply]
    split
    · next h => exact .inr (.inr (reports_select h).toFades)
    · exact .inr (.inr .refl)
  | poll => exact .inr (.inr reports_pollAll.toFades)
  | drain => exact .inr (.inr fades_drainDisconnected)
  | touch index now => exact .inr (.inr (reports_touch index now).toFades)
  | status index status now => exact .inr (.inr (reports_updateStatus index status now).toFades)
  | closeAll => exact .inr (.inr fades_closeAll)
  | link l change => exact .inr (.inl ⟨l, change, rfl⟩)

theorem Framed.apply (h : Framed p log) (c : PoolCall) : Framed (p.apply c) log := by
  rcases p.apply_cases c with ⟨index, he⟩ | ⟨l, change, rfl⟩ | hf
  · exact h.enlists he
  · exact h.relinked rfl (List.length_modify ..)
  · exact h.fades hf

end WorkerPool

/-- An entry of a diary. -/
inductive Entry where
  | admitted (record : TaskRecord)
  | written (a : Attempt)

namespace Dispatcher

/-- The engine after an act. -/
def act (d : Dispatcher) : Act → Dispatcher
  | .submit m r owner =>
    match d.admitRequest m r owner with
    | .ok (_, d) => d
    | .error _ => d
  | .assign now => (d.assignNext now).2
  | .beginAssign now => (d.beginAssign now).2
  | .commitAssign id => d.commitAssign id
  | .hear now worker line => (d.ingest now worker line).2
  | .failWorker worker now => (d.failWorkerTasks worker now).2
  | .sweep now timeoutMs clock => (d.sweepTimeouts now timeoutMs clock).2
  | .nextFragment id => (d.nextFragment id).2
  | .finishDelivery id now => d.finishDelivery id now
  | .cancelConnection owner now => (d.cancelConnection owner now).2
  | .clearStream id => d.clearStream id
  | .pool call => d.withPool (d.pool.apply call)

/-- What is entered for an act. -/
def entries (d : Dispatcher) : Act → List Entry
  | .submit m r owner =>
    match d.admitRequest m r owner with
    | .ok (record, _) => [.admitted record]
    | .error _ => []
  | .assign _ | .beginAssign _ => d.attempt?.toList.map .written
  | _ => []

/-- The engine after a list of acts. -/
def perform (d : Dispatcher) (acts : List Act) : Dispatcher := acts.foldl act d

/-- What is entered for a list of acts. -/
def diary (d : Dispatcher) (acts : List Act) : List Entry := journal act entries d acts

end Dispatcher

/-! ## Diaries -/

/-- The write of an entry, if it is one. -/
def Entry.attempt? : Entry → Option Attempt
  | admitted _ => none
  | written a => some a

/-- The writes of a diary. -/
def attempts (log : List Entry) : List Attempt := log.filterMap Entry.attempt?

/-- The writes of a diary on one connection. -/
def attemptsOn (link : Nat) (log : List Entry) : List Attempt :=
  (attempts log).filter (·.link == link)

/-- A request since its admission: its record then, and the writes that were made for it. -/
structure Lifetime where
  record : TaskRecord
  attempts : List Attempt := []

/-- The lifetime of a request that is written. -/
def Lifetime.write (l : Lifetime) (a : Attempt) : Lifetime :=
  { l with attempts := l.attempts ++ [a] }

/-- The lifetime of a request after one more entry. An admission begins a new one. -/
def Lifetime.note (id : RequestId) (l : Option Lifetime) : Entry → Option Lifetime
  | .admitted record => if record.id = id then some { record := record } else l
  | .written a => if a.id = id then l.map (·.write a) else l

/-- The last lifetime of a request in a diary. -/
def lifetime (id : RequestId) (log : List Entry) : Option Lifetime :=
  log.foldl (Lifetime.note id) none

theorem lifetime_append (id : RequestId) (log more : List Entry) :
    lifetime id (log ++ more) = more.foldl (Lifetime.note id) (lifetime id log) :=
  List.foldl_append

theorem attempts_append (log more : List Entry) :
    attempts (log ++ more) = attempts log ++ attempts more :=
  List.filterMap_append

/-! ## Records -/

namespace Dispatcher

variable {d d' d'' : Dispatcher} {log : List Entry}

/-- Every record was there before, with the same task, and waits only if it waited. -/
def Retains (d d' : Dispatcher) : Prop :=
  ∀ id r', d'.cache.get? id = some r' → ∃ r, d.cache.get? id = some r ∧
    taskMessage r' = taskMessage r ∧ (r'.status = .pending → r.status = .pending)

namespace Retains

theorem of_cache_eq (h : d'.cache = d.cache) : Retains d d' :=
  fun _ r hr => ⟨r, h ▸ hr, rfl, id⟩

theorem refl : Retains d d := of_cache_eq rfl

theorem trans (h : Retains d d') (h' : Retains d' d'') : Retains d d'' := by
  intro id r'' hr''
  obtain ⟨r', hr', hm', hst'⟩ := h' id r'' hr''
  obtain ⟨r, hr, hm, hst⟩ := h id r' hr'
  exact ⟨r, hr, hm'.trans hm, fun h => hst (hst' h)⟩

theorem of_modify {id : RequestId} {f : TaskRecord → TaskRecord}
    (hc : d'.cache = d.cache.modify id f)
    (hf : ∀ r, d.cache.get? id = some r →
      taskMessage (f r) = taskMessage r ∧ ((f r).status = .pending → r.status = .pending)) :
    Retains d d' := by
  intro j r' hr'
  rw [hc, TaskCache.get?_modify] at hr'
  split at hr'
  · next hj =>
    subst hj
    obtain ⟨r, hr, rfl⟩ := Option.map_eq_some_iff.mp hr'
    exact ⟨r, hr, hf r hr⟩
  · exact ⟨r', hr', rfl, fun h => h⟩

theorem of_remove {id : RequestId} (hc : d'.cache = d.cache.remove id) : Retains d d' := by
  intro j r' hr'
  rw [hc, TaskCache.get?_remove] at hr'
  split at hr'
  · cases hr'
  · exact ⟨r', hr', rfl, fun h => h⟩

end Retains

theorem retains_begins {now : Millis} {step : AssignStep} (hb : d.Begins now step d') :
    d.Retains d' := by
  cases hb with
  | saturated _ => exact .refl
  | idle _ _ => exact .refl
  | skipped _ _ _ => exact .of_cache_eq rfl
  | unserved _ _ _ _ _ => exact .of_remove (cache_ended ..)
  | @undelivered id _ _ _ _ e _ _ _ _ _ _ _ =>
    exact @Retains.of_remove _ _ id (cache_ended _ id .failed e.message)
  | @sent id rest r worker _ _ _ _ hr _ _ _ =>
    refine @Retains.of_modify _ _ id (fun _ => { r.chosen now with worker := some worker }) rfl ?_
    intro s hs
    cases hr.symm.trans hs
    exact ⟨rfl, nofun⟩

theorem retains_commitAssign (d : Dispatcher) (id : RequestId) : d.Retains (d.commitAssign id) := by
  refine .of_modify (cache_commitAssign d id) fun r _ => ?_
  split
  · exact ⟨rfl, nofun⟩
  · exact ⟨rfl, fun h => h⟩

theorem retains_ended (id : RequestId) (status : TaskStatus) (message : String) :
    d.Retains (d.ended id status message) :=
  .of_remove (cache_ended ..)

theorem retains_endTask? {id : RequestId} {status : TaskStatus} {message : String} {now : Millis}
    (h : d.endTask? id status message now = some d') : d.Retains d' := by
  obtain ⟨-, rfl⟩ := endTask?_eq_some_iff.mp h
  exact retains_ended id status message

theorem retains_assigns {now : Millis} {o : Assignment} (ha : d.Assigns now o d') :
    d.Retains d' := by
  cases ha with
  | saturated _ => exact .refl
  | idle _ => exact .refl
  | skipped _ _ => exact .of_cache_eq rfl
  | unserved _ _ _ _ => exact .of_remove (cache_ended ..)
  | @undelivered id _ _ _ _ e _ _ _ _ _ _ =>
    exact @Retains.of_remove _ _ id (cache_ended _ id .failed e.message)
  | @assigned id rest r worker _ _ _ _ hr _ _ _ =>
    refine @Retains.of_modify _ _ id (fun _ => r.sent worker now) rfl ?_
    intro s hs
    cases hr.symm.trans hs
    exact ⟨rfl, nofun⟩

theorem retains_progress (id : RequestId) (now : Millis) : d.Retains (d.progress id now) := by
  refine .of_modify (f := TaskRecord.progressed now) rfl fun s _ => ⟨rfl, ?_⟩
  unfold TaskRecord.progressed
  split
  · exact nofun
  · exact fun h => h

theorem retains_applyBackend (call : BackendCall) : d.Retains (d.applyBackend call) := by
  refine applyBackend_induction (P := fun d' => d.Retains d') call ?pool ?ended ?progress ?absorb
    ?assigns .refl
  case pool => exact fun _ _ h => h.trans (.of_cache_eq rfl)
  case ended => exact fun _ _ _ _ _ h _ _ _ => h.trans (retains_ended _ _ _)
  case progress => exact fun _ id now _ h _ => h.trans (retains_progress id now)
  case absorb =>
    exact fun d₁ r _ h _ _ => h.trans (.of_cache_eq (cache_absorb d₁ r))
  case assigns => exact fun _ _ _ _ h ha => h.trans (retains_assigns ha)

theorem retains_draws {id : RequestId} {o : Drain} (h : d.Draws id o d') : d.Retains d' := by
  cases h with
  | fragment _ _ _ => exact .of_modify rfl fun _ _ => ⟨rfl, fun h => h⟩
  | untracked _ _ => exact .refl
  | unanswered _ _ => exact .refl
  | failed _ _ => exact .of_cache_eq rfl
  | finished _ _ _ _ => exact .refl
  | unread _ _ _ _ => exact .refl

theorem retains_act (d : Dispatcher) {act : Act} (h : ∀ m r owner, act ≠ .submit m r owner) :
    d.Retains (d.act act) := by
  cases act with
  | submit m r owner => exact absurd rfl (h m r owner)
  | assign now => exact retains_assigns (d.assigns_assignNext now)
  | beginAssign now => exact retains_begins (d.begins_beginAssign now)
  | commitAssign id => exact retains_commitAssign d id
  | hear now worker line => exact retains_applyBackend (.hear now worker line)
  | failWorker worker now => exact retains_applyBackend (.failWorker worker now)
  | sweep now timeoutMs clock => exact retains_applyBackend (.sweep now timeoutMs clock)
  | nextFragment id => exact retains_draws (d.draws_nextFragment id)
  | finishDelivery id now =>
    rw [Dispatcher.act, finishDelivery_eq]
    exact @Retains.of_remove _ _ id rfl
  | cancelConnection owner now =>
    exact endEach_induction (P := fun d' => d.Retains d')
      (fun _ _ _ hd he => hd.trans (retains_endTask? he)) _ .refl
  | clearStream id => exact .of_cache_eq rfl
  | pool call => exact .of_cache_eq rfl

/-- A request that was written waits no longer. -/
theorem begins_written {now : Millis} {step : AssignStep} {a : Attempt}
    (hb : d.Begins now step d') (ha : d.attempt? = some a) :
    ∀ r, d'.cache.get? a.id = some r → r.status ≠ .pending := by
  obtain ⟨hsat, rest, r, pool, hp, hr, hst, hsel, -, -⟩ := attempt?_eq_some_iff.mp ha
  intro r' hr'
  cases hb with
  | saturated h => rw [hsat] at h; cases h
  | idle _ h => rw [hp] at h; cases h
  | skipped _ hp' hno =>
    cases hp.symm.trans hp'
    exact absurd hst (hno r hr)
  | unserved _ _ _ _ hsel' => rw [hsel] at hsel'; cases hsel'
  | @undelivered _ _ _ _ _ e _ _ hp' _ _ _ _ =>
    cases hp.symm.trans hp'
    change ((d.dequeued rest).ended a.id .failed e.message).cache.get? a.id = some r' at hr'
    rw [cache_ended, TaskCache.get?_remove, if_pos rfl] at hr'
    cases hr'
  | sent _ hp' hr₀ _ _ _ =>
    cases hp.symm.trans hp'
    change (d.cache.modify a.id _).get? a.id = some r' at hr'
    rw [TaskCache.get?_modify, if_pos rfl, hr₀] at hr'
    cases hr'
    exact nofun

/-- A whole assignment differs from its first step by the second at most. -/
theorem assignNext_eq (d : Dispatcher) (now : Millis) :
    (d.assignNext now).2 = (d.beginAssign now).2 ∨
      ∃ id, (d.assignNext now).2 = (d.beginAssign now).2.commitAssign id := by
  unfold assignNext
  rcases d.beginAssign now with ⟨_ | ⟨id, worker⟩, d'⟩
  · exact .inl rfl
  · exact .inr ⟨id, rfl⟩

theorem pool_assignNext (now : Millis) : (d.assignNext now).2.pool = (d.beginAssign now).2.pool := by
  rcases d.assignNext_eq now with h | ⟨id, h⟩
  · rw [h]
  · rw [h, pool_commitAssign]

theorem sent_iff {now : Millis} {id : RequestId} {worker : Nat} :
    (d.beginAssign now).1 = .sent id worker ↔ (d.assignNext now).1 = .assigned id worker := by
  have hb := d.begins_beginAssign now
  unfold assignNext
  generalize d.beginAssign now = x at hb ⊢
  obtain ⟨step, d'⟩ := x
  dsimp only at hb ⊢
  cases hb <;> simp

end Dispatcher

/-! ## The diary -/

/-- The diary tells what the engine and its connections are like. -/
structure Dispatched (d : Dispatcher) (log : List Entry) : Prop where
  framed : d.pool.Framed (attempts log)
  truncated : ∀ a ∈ attempts log, a.broken = true → a.handed.length < a.line.length
  known : ∀ id r, d.cache.get? id = some r → ∃ l, lifetime id log = some l ∧
    Dispatcher.taskMessage r = Dispatcher.taskMessage l.record ∧ (r.status = .pending → l.attempts = [])
  once : ∀ id l, lifetime id log = some l → l.attempts.length ≤ 1 ∧
    ∀ a ∈ l.attempts, a.id = id ∧ a.line = (Dispatcher.taskMessage l.record).encode

namespace Dispatched

variable {d d' : Dispatcher} {log : List Entry}

theorem retains (h : Dispatched d log) (hr : d.Retains d')
    (hf : d'.pool.Framed (attempts log)) : Dispatched d' log where
  framed := hf
  truncated := h.truncated
  known := fun id r' hr' => by
    obtain ⟨r, hget, hm, hst⟩ := hr id r' hr'
    obtain ⟨l, hl, hml, hpending⟩ := h.known id r hget
    exact ⟨l, hl, hm.trans hml, fun h => hpending (hst h)⟩
  once := h.once

theorem admits {m : Moment} {r : InferenceRequest} {owner : ConnectionId} {record : TaskRecord}
    (h : Dispatched d log) (ha : d.Admits m r owner record d') :
    Dispatched d' (log ++ [.admitted record]) := by
  obtain ⟨generated, rfl⟩ := ha.engine_eq
  have hattempts : attempts (log ++ [.admitted record]) = attempts log := by
    rw [attempts_append]
    exact List.append_nil _
  have hlifetime : ∀ id, lifetime id (log ++ [.admitted record]) =
      if record.id = id then some { record := record } else lifetime id log := by
    intro id
    rw [lifetime_append]
    rfl
  refine ⟨hattempts ▸ h.framed, hattempts ▸ h.truncated, ?_, ?_⟩
  · intro id r' hr'
    change Table.find? (d.cache.tasks.insert record.id record) id = some r' at hr'
    rw [Table.find?_insert] at hr'
    rw [hlifetime]
    split at hr'
    · next hid =>
      cases hr'
      exact ⟨_, if_pos hid.symm, rfl, fun _ => rfl⟩
    · next hid =>
      rw [if_neg (Ne.symm hid)]
      exact h.known id r' hr'
  · intro id l hl
    rw [hlifetime] at hl
    split at hl
    · cases hl
      exact ⟨Nat.zero_le _, fun _ ha => absurd ha List.not_mem_nil⟩
    · exact h.once id l hl

/-- A write: the request it is for waited until then, so this is its first. -/
theorem written {now : Millis} {step : AssignStep} {a : Attempt} (h : Dispatched d log)
    (hb : d.Begins now step d') (ha : d.attempt? = some a) (hw : d.pool.Writes a d'.pool) :
    Dispatched d' (log ++ [.written a]) := by
  have hsettled := Dispatcher.begins_written hb ha
  have hretains := Dispatcher.retains_begins hb
  obtain ⟨hsat, rest, r, pool, hp, hr, hst, hsel, hline, -⟩ :=
    Dispatcher.attempt?_eq_some_iff.mp ha
  have hattempts : attempts (log ++ [.written a]) = attempts log ++ [a] := attempts_append ..
  have hlifetime : ∀ id, lifetime id (log ++ [.written a]) =
      if a.id = id then (lifetime id log).map (·.write a) else lifetime id log := by
    intro id
    rw [lifetime_append]
    rfl
  obtain ⟨l, hl, hm, hfirst⟩ := h.known a.id r hr
  refine ⟨hattempts ▸ h.framed.writes hw, ?_, ?_, ?_⟩
  · intro b hb' hbroken
    rw [hattempts, List.mem_append, List.mem_singleton] at hb'
    rcases hb' with hb' | rfl
    · exact h.truncated b hb' hbroken
    · -- a line ends with a newline at least, so a part of it is shorter
      obtain ⟨s, k, -, -, -, -, hout, -⟩ := hw.made
      refine Attempt.length_handed_lt hbroken ?_ fun n hn => Link.le_of_accepted (hout.trans hn)
      rw [hline]
      simp [WireMessage.encode]
  · intro id r' hr'
    obtain ⟨r₀, hr₀, hm₀, hst₀⟩ := hretains id r' hr'
    obtain ⟨l₀, hl₀, hml₀, hpending⟩ := h.known id r₀ hr₀
    rw [hlifetime]
    split
    · next hid =>
      subst hid
      exact ⟨l₀.write a, by rw [hl₀]; rfl, hm₀.trans hml₀, fun h => absurd h (hsettled r' hr')⟩
    · exact ⟨l₀, hl₀, hm₀.trans hml₀, fun h => hpending (hst₀ h)⟩
  · intro id l' hl'
    rw [hlifetime] at hl'
    split at hl'
    · next hid =>
      subst hid
      rw [hl] at hl'
      cases hl'
      -- the request waited, and who waits has not been written
      have hone : (l.write a).attempts = [a] := by
        rw [Lifetime.write, hfirst hst]
        rfl
      rw [hone]
      refine ⟨Nat.le_refl _, fun b hb' => ?_⟩
      rw [List.mem_singleton.mp hb']
      exact ⟨rfl, by rw [hline, hm]; rfl⟩
    · exact h.once id l' hl'

theorem beginAssign (h : Dispatched d log) (now : Millis) :
    Dispatched (d.beginAssign now).2 (log ++ d.entries (.beginAssign now)) := by
  have hb := d.begins_beginAssign now
  rcases Dispatcher.begins_pool hb with ⟨hatt, hreports⟩ | ⟨a, hatt, hw⟩
  · simp only [Dispatcher.entries, hatt, Option.toList_none, List.map_nil, List.append_nil]
    exact h.retains (Dispatcher.retains_begins hb) (h.framed.fades hreports.toFades)
  · simp only [Dispatcher.entries, hatt, Option.toList_some, List.map_cons, List.map_nil]
    exact h.written hb hatt hw

theorem act (h : Dispatched d log) (act : Act) :
    Dispatched (d.act act) (log ++ d.entries act) := by
  -- what is no admission and no assignment enters nothing
  have quiet : ∀ {d'}, d.Retains d' → d.pool.Reports d'.pool → Dispatched d' (log ++ []) := by
    intro d' hr hp
    rw [List.append_nil]
    exact h.retains hr (h.framed.fades hp.toFades)
  have hretains := @Dispatcher.retains_act d act
  cases act with
  | submit m r owner =>
    simp only [Dispatcher.act, Dispatcher.entries]
    split
    · next ha => exact h.admits (Dispatcher.admits_of_admitRequest ha)
    · rwa [List.append_nil]
  | assign now =>
    have hbegin := h.beginAssign now
    simp only [Dispatcher.act]
    rcases d.assignNext_eq now with he | ⟨id, he⟩
    · rwa [he]
    · rw [he]
      exact hbegin.retains (Dispatcher.retains_commitAssign _ id)
        (by rw [Dispatcher.pool_commitAssign]; exact hbegin.framed)
  | beginAssign now => exact h.beginAssign now
  | commitAssign id =>
    exact quiet (hretains nofun) (by rw [Dispatcher.act, Dispatcher.pool_commitAssign]; exact .refl)
  | hear now worker line => exact quiet (hretains nofun) (Dispatcher.reports_ingest now worker line)
  | failWorker worker now =>
    exact quiet (hretains nofun)
      (by rw [Dispatcher.act, Dispatcher.failWorkerTasks, Dispatcher.pool_endEach]; exact .refl)
  | sweep now timeoutMs clock =>
    exact quiet (hretains nofun)
      (by rw [Dispatcher.act, Dispatcher.sweepTimeouts, Dispatcher.pool_endEach]; exact .refl)
  | nextFragment id =>
    exact quiet (hretains nofun)
      (by rw [Dispatcher.act, Dispatcher.pool_draws (d.draws_nextFragment id)]; exact .refl)
  | finishDelivery id now =>
    exact quiet (hretains nofun) (by rw [Dispatcher.act, Dispatcher.finishDelivery_eq]; exact .refl)
  | cancelConnection owner now =>
    exact quiet (hretains nofun)
      (by rw [Dispatcher.act, Dispatcher.cancelConnection, Dispatcher.pool_endEach]; exact .refl)
  | clearStream id => exact quiet (hretains nofun) .refl
  | pool call =>
    show Dispatched (d.withPool (d.pool.apply call)) (log ++ [])
    rw [List.append_nil]
    exact h.retains (hretains nofun) (h.framed.apply call)

theorem perform (h : Dispatched d log) (acts : List Act) :
    Dispatched (d.perform acts) (log ++ d.diary acts) := by
  induction acts generalizing d log with
  | nil => rwa [Dispatcher.diary, journal, List.append_nil]
  | cons act acts ih =>
    rw [Dispatcher.diary, journal, ← List.append_assoc]
    exact ih (h.act act)

theorem create (maxTasks maxPending maxProcessing maxWorkers : Nat) :
    Dispatched (Dispatcher.create maxTasks maxPending maxProcessing maxWorkers) [] where
  framed := .create maxWorkers
  truncated := fun _ ha => absurd ha List.not_mem_nil
  known := fun _ _ h => nomatch h
  once := fun _ _ h => nomatch h

end Dispatched

/-! ## Connections -/

/-- Where nothing follows a write that broke the connection, only the last one can have. -/
theorem exists_cut {as : List Attempt} (h : as.Pairwise fun a _ => a.broken = false) :
    ∃ kept cut, as = kept ++ cut ∧ cut.length ≤ 1 ∧ (∀ a ∈ kept, a.broken = false) ∧
      ∀ a ∈ cut, a.broken = true := by
  induction as with
  | nil => exact ⟨[], [], rfl, Nat.zero_le _, by simp, by simp⟩
  | cons a as ih =>
    rw [List.pairwise_cons] at h
    cases hb : a.broken with
    | true =>
      -- nothing comes after it
      have hnone : as = [] := by
        refine List.eq_nil_iff_forall_not_mem.mpr fun b hb' => ?_
        rw [h.1 b hb'] at hb
        cases hb
      subst hnone
      exact ⟨[], [a], rfl, Nat.le_refl _, by simp, by simpa using hb⟩
    | false =>
      obtain ⟨kept, cut, rfl, hlen, hkept, hcut⟩ := ih h.2
      exact ⟨a :: kept, cut, rfl, hlen, by simpa [hb] using hkept, hcut⟩

/-- On a connection that is not spoilt there are the lines that were handed over as a
whole. -/
theorem flatMap_handed {as : List Attempt} (h : ∀ a ∈ as, a.broken = false) :
    as.flatMap Attempt.handed = (as.filter Attempt.complete).flatMap Attempt.line := by
  induction as with
  | nil => rfl
  | cons a as ih =>
    rw [List.flatMap_cons, ih fun b hb => h b (List.mem_cons_of_mem _ hb), List.filter_cons]
    cases hc : a.complete with
    | true => rw [if_pos rfl, List.flatMap_cons, Attempt.handed_of_complete hc]
    | false =>
      rw [if_neg Bool.false_ne_true,
        Attempt.handed_of_blocked hc (h a List.mem_cons_self), List.nil_append]

theorem Dispatched.cut {d : Dispatcher} {log : List Entry} (h : Dispatched d log) (link : Nat) :
    ∃ kept cut, attemptsOn link log = kept ++ cut ∧ cut.length ≤ 1 ∧
      (∀ a ∈ kept, a.broken = false) ∧
      (∀ a ∈ cut, a.broken = true ∧ a.handed.length < a.line.length) ∧
      (attemptsOn link log).flatMap Attempt.handed =
        (kept.filter Attempt.complete).flatMap Attempt.line ++ cut.flatMap Attempt.handed := by
  have hpairwise : (attemptsOn link log).Pairwise fun a _ => a.broken = false := by
    refine (h.framed.final.filter _).imp_of_mem fun {a b} ha hb hab => ?_
    have hlink : ∀ c ∈ attemptsOn link log, c.link = link := fun c hc => by
      simpa using (List.mem_filter.mp hc).2
    cases hbroken : a.broken with
    | false => rfl
    | true => exact absurd ((hlink b hb).trans (hlink a ha).symm) (hab hbroken)
  obtain ⟨kept, cut, he, hlen, hkept, hcut⟩ := exists_cut hpairwise
  refine ⟨kept, cut, he, hlen, hkept, fun a ha => ?_, ?_⟩
  · have hmem : a ∈ attemptsOn link log := by
      rw [he]
      exact List.mem_append_right _ ha
    exact ⟨hcut a ha, h.truncated a (List.mem_filter.mp hmem).1 (hcut a ha)⟩
  · rw [he, List.flatMap_append, flatMap_handed hkept]

namespace Dispatcher

variable {d d' : Dispatcher}

/-- What is on a connection after an act: what was on it, and what was handed over. -/
def Grows (d d' : Dispatcher) (as : List Attempt) : Prop :=
  ∀ l k, d.pool.links[l]? = some k → ∃ k', d'.pool.links[l]? = some k' ∧
    k'.outbound = k.outbound ++
      if k.farEnd = .present then (as.filter (·.link == l)).flatMap Attempt.handed else []

theorem Grows.of_outbounds (h : ∀ (l : Nat) (b : Bytes), d.pool.outbounds[l]? = some b →
    d'.pool.outbounds[l]? = some b) : Grows d d' [] := by
  intro l k hk
  have hl : d.pool.outbounds[l]? = some k.outbound := by
    rw [WorkerPool.outbounds, List.getElem?_map, hk]
    rfl
  have hl' := h l _ hl
  rw [WorkerPool.outbounds, List.getElem?_map] at hl'
  obtain ⟨k', hk', he⟩ := Option.map_eq_some_iff.mp hl'
  exact ⟨k', hk', by simp [he]⟩

theorem Grows.of_fades (h : d.pool.Fades d'.pool) : Grows d d' [] :=
  .of_outbounds fun l b hb => by rwa [h.outbounds]

theorem Grows.of_writes {a : Attempt} (h : d.pool.Writes a d'.pool) : Grows d d' [a] := by
  obtain ⟨s, k₀, -, -, -, hk₀, hout, hreports⟩ := h.made
  intro l k hk
  have hbefore : (d.pool.wrote a.link k₀ a.line).links[l]? =
      some (if a.link = l then (k₀.write a.line).2 else k) := by
    show (d.pool.links.modify a.link _)[l]? = _
    rw [List.getElem?_modify, hk]
    by_cases hl : a.link = l <;> simp [hl]
  have hafter : d'.pool.outbounds[l]? =
      some (if a.link = l then (k₀.write a.line).2 else k).outbound := by
    rw [hreports.outbounds, WorkerPool.outbounds, List.getElem?_map, hbefore]
    rfl
  rw [WorkerPool.outbounds, List.getElem?_map] at hafter
  obtain ⟨k', hk', he⟩ := Option.map_eq_some_iff.mp hafter
  refine ⟨k', hk', ?_⟩
  rw [he]
  by_cases hl : a.link = l
  · subst hl
    cases hk₀.symm.trans hk
    rw [if_pos rfl, Link.outbound_write, hout]
    simp [Attempt.handed]
  · simp [hl]

/-- Nothing is ever on a connection but what the entries say. -/
theorem grows_act (d : Dispatcher) (act : Act) (h : ∀ l change, act ≠ .pool (.link l change)) :
    d.Grows (d.act act) (attempts (d.entries act)) := by
  have begins : ∀ now, d.Grows (d.beginAssign now).2 (attempts (d.entries (.beginAssign now))) := by
    intro now
    rcases begins_pool (d.begins_beginAssign now) with ⟨hatt, hreports⟩ | ⟨a, hatt, hw⟩
    · simpa [entries, hatt, attempts] using Grows.of_fades hreports.toFades
    · simpa [entries, hatt, attempts, Entry.attempt?] using Grows.of_writes hw
  have same : ∀ {d'}, d'.pool = d.pool → d.Grows d' [] := fun hp => .of_fades (hp ▸ .refl)
  cases act with
  | submit m r owner =>
    simp only [Dispatcher.act, entries]
    split
    · next ha =>
      obtain ⟨generated, rfl⟩ := (admits_of_admitRequest ha).engine_eq
      exact same rfl
    · exact same rfl
  | assign now =>
    intro l k hk
    show ∃ k', (d.assignNext now).2.pool.links[l]? = some k' ∧ _
    rw [pool_assignNext]
    exact begins now l k hk
  | beginAssign now => exact begins now
  | commitAssign id => exact same (pool_commitAssign id)
  | hear now worker line => exact .of_fades (reports_ingest now worker line).toFades
  | failWorker worker now => exact same (pool_endEach _)
  | sweep now timeoutMs clock => exact same (pool_endEach _)
  | nextFragment id => exact same (pool_draws (d.draws_nextFragment id))
  | finishDelivery id now => exact same (by rw [Dispatcher.act, finishDelivery_eq]; rfl)
  | cancelConnection owner now => exact same (pool_endEach _)
  | clearStream id => exact same rfl
  | pool call =>
    rcases d.pool.apply_cases call with ⟨index, he⟩ | ⟨l, change, rfl⟩ | hf
    · refine .of_outbounds fun l b hb => ?_
      show (d.pool.apply call).outbounds[l]? = some b
      rw [WorkerPool.outbounds, he.links, List.map_append]
      exact List.getElem?_append_left (List.getElem?_eq_some_iff.mp hb).1 ▸ hb
    · exact absurd rfl (h l change)
    · exact .of_fades hf

end Dispatcher

/-! ## Runs -/

/-- Each request is sent to a worker at most once, over clean connections. After any list of
acts of an engine that began empty, and so at any moment of a run:

since its admission every request has been written at most once, and what was written is the
line of its task; the next assignment writes at most one line, that of a request that waits
and has not been written since its admission, on the connection of a connected worker;

a request is assigned exactly if its whole line was taken over by that connection;

on every connection there are the whole lines of the requests that were assigned to it, in
order, and then a part of at most one more line, after which nothing was written to it;

and nothing else is ever put on a connection: an act adds to what is on its way to the other
end what the writes that are entered for it have handed over, and nothing if the other end is
gone. -/
theorem dispatched_once (maxTasks maxPending maxProcessing maxWorkers : Nat) (acts : List Act) :
    let start := Dispatcher.create maxTasks maxPending maxProcessing maxWorkers
    let d := start.perform acts
    let log := start.diary acts
    (∀ id l, lifetime id log = some l → l.attempts.length ≤ 1 ∧
      ∀ a ∈ l.attempts, a.id = id ∧ a.line = (Dispatcher.taskMessage l.record).encode) ∧
    (∀ a, d.attempt? = some a → ∃ l r s k,
      lifetime a.id log = some l ∧ l.attempts = [] ∧
      a.line = (Dispatcher.taskMessage l.record).encode ∧
      d.cache.get? a.id = some r ∧ r.status = .pending ∧
      d.pool.slots[a.worker]? = some s ∧ s.connected = true ∧ s.link = a.link ∧
      d.pool.links[a.link]? = some k ∧ (k.write a.line).1 = a.outcome) ∧
    (∀ now id worker, (d.assignNext now).1 = .assigned id worker ↔
      ∃ a, d.attempt? = some a ∧ a.id = id ∧ a.worker = worker ∧ a.complete = true) ∧
    (∀ now id worker, (d.beginAssign now).1 = .sent id worker ↔
      (d.assignNext now).1 = .assigned id worker) ∧
    (∀ link, ∃ kept cut, attemptsOn link log = kept ++ cut ∧ cut.length ≤ 1 ∧
      (∀ a ∈ kept, a.broken = false) ∧
      (∀ a ∈ cut, a.broken = true ∧ a.handed.length < a.line.length) ∧
      (attemptsOn link log).flatMap Attempt.handed =
        (kept.filter Attempt.complete).flatMap Attempt.line ++ cut.flatMap Attempt.handed) ∧
    (∀ act, (∀ l change, act ≠ .pool (.link l change)) → ∀ l k, d.pool.links[l]? = some k →
      ∃ k', (d.act act).pool.links[l]? = some k' ∧
        k'.outbound = k.outbound ++
          if k.farEnd = .present then (attemptsOn l (d.entries act)).flatMap Attempt.handed
          else []) := by
  intro start d log
  have h : Dispatched d log := (Dispatched.create ..).perform acts
  refine ⟨h.once, ?_, fun now id worker => Dispatcher.assigned_iff,
    fun now id worker => Dispatcher.sent_iff, h.cut, fun act hact => d.grows_act act hact⟩
  intro a ha
  obtain ⟨hsat, rest, r, pool, hp, hr, hst, hsel, hline, hwrite⟩ :=
    Dispatcher.attempt?_eq_some_iff.mp ha
  obtain ⟨l, hl, hm, hfirst⟩ := h.known a.id r hr
  -- the write does not depend on the time of the assignment
  rcases Dispatcher.begins_pool (d.begins_beginAssign 0) with ⟨hnone, -⟩ | ⟨b, hb, hw⟩
  · rw [ha] at hnone
    cases hnone
  · cases ha.symm.trans hb
    obtain ⟨s, k, hs, hc, hlink, hk, hout, -⟩ := hw.made
    exact ⟨l, r, s, k, hl, hfirst hst, by rw [hline, hm], hr, hst, hs, hc, hlink, hk, hout⟩

end PromptGateway
