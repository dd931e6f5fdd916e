import PromptGateway.Proofs.Milestones
import PromptGateway.Proofs.Progress

/-
  Records end through the lifecycle, unless an answer comes too early.

  A dealing changes the cache step by step: a task is moved to where it is being assigned, a
  task that ends is moved to the status in which it ends, and then it is taken out. `stages`
  lists the caches that a dealing passes through, and `history` those of a run. Such a step is
  lawful if every record enters as waiting, moves as the lifecycle allows and leaves when its
  task has ended.

  One of these steps is not looked at. When an answer is closed out, its record is to move to
  completed, and it is taken out whether it could move or not. It cannot if it still waits,
  and it waits if the end of the answer was taken in before the task was given to a worker.

    1. `isChain_exits_iff`: tasks that end one after the other end lawfully exactly if each of
       them may move to the status in which it ends.
    2. `isChain_stages_iff` and `isChain_history_iff`: a dealing is lawful in all its steps
       unless it is `Hasty`, and a run is if none of its dealings is hasty.
-/

namespace PromptGateway

theorem getLastD_append {α : Type} (l l' : List α) (a : α) :
    (l ++ l').getLastD a = l'.getLastD (l.getLastD a) := by
  induction l generalizing a with
  | nil => rfl
  | cons b l ih => rw [List.cons_append, List.getLastD_cons, List.getLastD_cons, ih]

theorem isChain_append_iff {α : Type} {R : α → α → Prop} (a : α) (l l' : List α) :
    List.IsChain R (a :: (l ++ l')) ↔
      List.IsChain R (a :: l) ∧ List.IsChain R (l.getLastD a :: l') := by
  induction l generalizing a with
  | nil => simp
  | cons b l ih =>
    rw [List.cons_append, List.isChain_cons_cons, List.isChain_cons_cons, ih, List.getLastD_cons,
      and_assoc]

/-! ## Lawful changes -/

/-- A lawful change of what there is under one id. -/
inductive Lawful : Option TaskRecord → Option TaskRecord → Prop where
  | absent : Lawful none none
  | enters {r} : r.status = .pending → Lawful none (some r)
  | stays {r r'} : r'.status = r.status → Lawful (some r) (some r')
  | moves {r r'} : r.status.canMove r'.status = true → Lawful (some r) (some r')
  | leaves {r} : r.status.isTerminal = true → Lawful (some r) none

theorem Lawful.refl (o : Option TaskRecord) : Lawful o o := by
  cases o with
  | none => exact .absent
  | some r => exact .stays rfl

theorem TaskRecord.status_stamp (r : TaskRecord) (now : Millis) : (r.stamp now).status = r.status := by
  unfold stamp
  split <;> rfl

/-- The status of a record that was to move. -/
theorem TaskRecord.status_move? (r : TaskRecord) (next : TaskStatus) (now : Millis) :
    ((r.move? next now).getD r).status = if r.status.canMove next then next else r.status := by
  unfold move?
  split
  · rw [Option.getD_some, status_stamp]
  · rfl

namespace TaskCache

/-- Every record changes lawfully. -/
def Lawfully (c c' : TaskCache) : Prop := ∀ id, Lawful (c.get? id) (c'.get? id)

variable {c : TaskCache} {id : RequestId} {status : TaskStatus} {now : Millis}

theorem Lawfully.refl (c : TaskCache) : c.Lawfully c := fun id => .refl (c.get? id)

theorem get?_updateStatus (c : TaskCache) (id : RequestId) (next : TaskStatus) (now : Millis)
    (j : RequestId) :
    (c.updateStatus id next now).get? j =
      if j = id then (c.get? id).map fun r => (r.move? next now).getD r else c.get? j := by
  cases hr : c.get? id with
  | none =>
    have ht : c.transition? id next now = none := by simp [transition?, hr]
    simp only [updateStatus, ht]
    split
    · next hj => rw [hj, hr]; rfl
    · rfl
  | some r =>
    cases hm : r.move? next now with
    | none =>
      have ht : c.transition? id next now = none := by simp [transition?, hr, hm]
      simp only [updateStatus, ht]
      split
      · next hj => rw [hj, hr]; simp [hm]
      · rfl
    | some moved =>
      have ht : c.transition? id next now = some (moved, c.modify id fun _ => moved) :=
        transition?_eq_some_iff.mpr ⟨r, hr, hm, rfl⟩
      simp only [updateStatus, ht]
      rw [get?_modify, hr]
      simp [hm]

theorem lawfully_updateStatus (c : TaskCache) (id : RequestId) (next : TaskStatus)
    (now : Millis) : c.Lawfully (c.updateStatus id next now) := by
  intro j
  rw [get?_updateStatus]
  split
  · next hj =>
    subst hj
    cases c.get? j with
    | none => exact .absent
    | some r =>
      have hst := r.status_move? next now
      rw [Option.map_some]
      cases hmove : r.status.canMove next with
      | true =>
        rw [hmove, if_pos rfl] at hst
        exact .moves (by rw [hst, hmove])
      | false =>
        rw [hmove, if_neg Bool.false_ne_true] at hst
        exact .stays hst
  · exact .refl _

/-! ## Tasks that end one after the other -/

/-- The caches in between: each record is moved to the status in which its task ends, and
then it is taken out. -/
def exits (status : TaskStatus) (now : Millis) : TaskCache → List RequestId → List TaskCache
  | _, [] => []
  | c, id :: ids =>
    let moved := c.updateStatus id status now
    moved :: moved.remove id :: exits status now (moved.remove id) ids

theorem get?_exit (c : TaskCache) (id : RequestId) (status : TaskStatus) (now : Millis)
    (j : RequestId) :
    ((c.updateStatus id status now).remove id).get? j = if j = id then none else c.get? j := by
  rw [get?_remove, get?_updateStatus]
  split
  · rfl
  · rfl

theorem get?_getLastD_exits (c : TaskCache) (ids : List RequestId) (j : RequestId) :
    ((exits status now c ids).getLastD c).get? j = if j ∈ ids then none else c.get? j := by
  induction ids generalizing c with
  | nil => rfl
  | cons id ids ih =>
    rw [exits, List.getLastD_cons, List.getLastD_cons, ih, get?_exit]
    by_cases hj : j = id
    · simp [hj]
    · simp [hj]

/-- A live record leaves lawfully exactly if it could move to the status in which its task
ends. -/
theorem lawfully_exit_iff {r : TaskRecord} (hr : c.get? id = some r)
    (hlive : r.status.isTerminal = false) (hstatus : status.isTerminal = true) :
    (c.updateStatus id status now).Lawfully ((c.updateStatus id status now).remove id) ↔
      r.status.canMove status = true := by
  have hmoved : (c.updateStatus id status now).get? id = some ((r.move? status now).getD r) := by
    rw [get?_updateStatus, if_pos rfl, hr]
    rfl
  have hst := r.status_move? status now
  constructor
  · intro h
    have hid := h id
    rw [get?_remove, if_pos rfl, hmoved] at hid
    cases hid with
    | leaves hended =>
      cases hmove : r.status.canMove status with
      | true => rfl
      | false =>
        rw [hmove, if_neg Bool.false_ne_true] at hst
        rw [hst, hlive] at hended
        cases hended
  · intro hmove j
    rw [get?_remove]
    split
    · next hj =>
      rw [hmove, if_pos rfl] at hst
      rw [hj, hmoved]
      exact .leaves (by rw [hst, hstatus])
    · exact .refl _

theorem isChain_exits_iff {ids : List RequestId} (hids : ids.Nodup)
    (hstatus : status.isTerminal = true)
    (hlive : ∀ id ∈ ids, ∃ r, c.get? id = some r ∧ r.status.isTerminal = false) :
    List.IsChain Lawfully (c :: exits status now c ids) ↔
      ∀ id ∈ ids, ∀ r, c.get? id = some r → r.status.canMove status = true := by
  induction ids generalizing c with
  | nil => simp [exits]
  | cons id ids ih =>
    rw [List.nodup_cons] at hids
    obtain ⟨r, hr, hrlive⟩ := hlive id List.mem_cons_self
    -- the others are there as before when this one has been taken out
    have hrest : ∀ j ∈ ids, ((c.updateStatus id status now).remove id).get? j = c.get? j := by
      intro j hj
      have hne : j ≠ id := by
        intro he
        exact hids.1 (he ▸ hj)
      rw [get?_exit, if_neg hne]
    have htail := ih (c := (c.updateStatus id status now).remove id) hids.2 (by
      intro j hj
      rw [hrest j hj]
      exact hlive j (List.mem_cons_of_mem id hj))
    rw [exits, List.isChain_cons_cons, List.isChain_cons_cons, lawfully_exit_iff hr hrlive hstatus,
      htail]
    constructor
    · intro h j hj s hs
      obtain ⟨-, hmove, hothers⟩ := h
      rcases List.mem_cons.mp hj with rfl | hj
      · cases hr.symm.trans hs
        exact hmove
      · exact hothers j hj s (by rw [hrest j hj, hs])
    · intro h
      refine ⟨lawfully_updateStatus _ _ _ _, h id List.mem_cons_self r hr, ?_⟩
      intro j hj s hs
      rw [hrest j hj] at hs
      exact h j (List.mem_cons_of_mem id hj) s hs

end TaskCache

/-! ## The stages of a dealing -/

/-- The status in which a dealing ends tasks, if it ends any, and the clock it goes by. -/
def Dealing.ending? : Dealing → Option (TaskStatus × Millis)
  | backend (.assign now) | backend (.hear now _ _) | backend (.failWorker _ now) =>
    some (.failed, now)
  | backend (.sweep _ _ clock) => some (.timeout, clock)
  | close _ now => some (.completed, now)
  | cancel _ now => some (.cancelled, now)
  | backend (.pool _) | submit _ _ _ | draw _ => none

namespace Dispatcher

variable {d d' : Dispatcher}

/-- The cache when the task that a dealing assigns has been moved to where it is being
assigned. -/
def begun (d : Dispatcher) : Dealing → TaskCache
  | .backend (.assign now) =>
    match (d.assignNext now).1.chosen? with
    | some id => d.cache.updateStatus id .assigning now
    | none => d.cache
  | _ => d.cache

/-- The requests whose records a dealing takes out. -/
def gone (d : Dispatcher) (x : Dealing) : List RequestId :=
  d.cache.tasks.keys.filter fun id => !(d.deal x).cache.contains id

/-- The caches that a dealing passes through while tasks end. -/
def exitStages (d : Dispatcher) (x : Dealing) : List TaskCache :=
  match x.ending? with
  | some (status, now) => TaskCache.exits status now (d.begun x) (d.gone x)
  | none => []

/-- The caches that a dealing passes through. -/
def stages (d : Dispatcher) (x : Dealing) : List TaskCache :=
  d.begun x :: (d.exitStages x ++ [(d.deal x).cache])

/-- The caches that a run passes through. -/
def history (d : Dispatcher) (dealings : List Dealing) : List TaskCache :=
  journal deal stages d dealings

/-- An answer is closed out while its record still waits. -/
def Hasty (d : Dispatcher) (x : Dealing) : Prop :=
  ∃ id now r, x = .close id now ∧ (d.nextFragment id).1 = .finished ∧
    d.cache.get? id = some r ∧ r.status = .pending

theorem mem_gone (d : Dispatcher) (x : Dealing) (id : RequestId) :
    id ∈ d.gone x ↔ (∃ r, d.cache.get? id = some r) ∧ (d.deal x).cache.get? id = none := by
  unfold gone
  rw [List.mem_filter, Table.mem_keys_iff]
  have hcontains : (d.deal x).cache.contains id = false ↔ (d.deal x).cache.get? id = none :=
    Table.contains_eq_false_iff _ _
  rw [Bool.not_eq_true', hcontains]
  rfl

theorem nodup_gone (d : Dispatcher) (x : Dealing) : (d.gone x).Nodup :=
  d.cache.tasks.nodup.sublist List.filter_sublist

theorem getLastD_stages (d : Dispatcher) (x : Dealing) (c : TaskCache) :
    (d.stages x).getLastD c = (d.deal x).cache := by
  rw [stages, List.getLastD_cons, List.getLastD_concat]

/-- At most one task is moved to where it is being assigned. -/
theorem begun_cases (d : Dispatcher) (x : Dealing) :
    d.begun x = d.cache ∨ ∃ id now, d.begun x = d.cache.updateStatus id .assigning now := by
  cases x with
  | backend call =>
    cases call with
    | assign now =>
      rw [begun]
      cases (d.assignNext now).1.chosen? with
      | none => exact .inl rfl
      | some id => exact .inr ⟨id, now, rfl⟩
    | hear now worker line => exact .inl rfl
    | failWorker worker now => exact .inl rfl
    | sweep now timeoutMs clock => exact .inl rfl
    | pool p => exact .inl rfl
  | submit m r owner => exact .inl rfl
  | draw id => exact .inl rfl
  | close id now => exact .inl rfl
  | cancel owner now => exact .inl rfl

theorem lawfully_begun (d : Dispatcher) (x : Dealing) : d.cache.Lawfully (d.begun x) := by
  rcases d.begun_cases x with he | ⟨id, now, he⟩
  · rw [he]
    exact .refl _
  · rw [he]
    exact TaskCache.lawfully_updateStatus _ _ _ _

theorem live_begun (h : d.Keyed) (x : Dealing) {id : RequestId} {r : TaskRecord}
    (hr : d.cache.get? id = some r) :
    ∃ r', (d.begun x).get? id = some r' ∧ r'.status.isTerminal = false := by
  have hlive := h.live id r hr
  rcases d.begun_cases x with he | ⟨i, now, he⟩
  · rw [he]
    exact ⟨r, hr, hlive⟩
  · rw [he, TaskCache.get?_updateStatus]
    split
    · next hid =>
      rw [← hid, hr]
      refine ⟨_, rfl, ?_⟩
      rw [TaskRecord.status_move?]
      split
      · rfl
      · exact hlive
    · exact ⟨r, hr, hlive⟩

theorem get?_begun_of_none (x : Dealing) {id : RequestId} (hid : d.cache.get? id = none) :
    (d.begun x).get? id = none := by
  rcases d.begun_cases x with he | ⟨i, now, he⟩
  · rw [he, hid]
  · rw [he, TaskCache.get?_updateStatus]
    split
    · next hi => rw [← hi, hid]; rfl
    · exact hid

/-- To ask for an answer takes no record out. -/
theorem draws_keeps {i : RequestId} {o : Drain} (hd : d.Draws i o d') {id : RequestId}
    {r : TaskRecord} (hr : d.cache.get? id = some r) : ∃ r', d'.cache.get? id = some r' := by
  cases hd with
  | fragment _ _ _ =>
    refine Option.isSome_iff_exists.mp ?_
    show ((d.cache.modify i _).get? id).isSome = true
    rw [TaskCache.get?_modify]
    split
    · next hid => rw [← hid, hr]; rfl
    · rw [hr]; rfl
  | untracked _ _ => exact ⟨r, hr⟩
  | unanswered _ _ => exact ⟨r, hr⟩
  | failed _ _ => exact ⟨r, hr⟩
  | finished _ _ _ _ => exact ⟨r, hr⟩
  | unread _ _ _ _ => exact ⟨r, hr⟩

/-- A record that is taken out is that of a task that ends, or that of an answer that is closed
out. -/
theorem ending_of_gone {x : Dealing} {id : RequestId} (hid : id ∈ d.gone x) :
    (∃ status now, x.ending? = some (status, now) ∧ status.isTerminal = true ∧
      status ≠ .completed) ∨
    ∃ now, x = .close id now ∧ (d.nextFragment id).1 = .finished := by
  obtain ⟨⟨r, hr⟩, hgone⟩ := (d.mem_gone x id).mp hid
  cases x with
  | backend call =>
    cases call with
    | assign now => exact .inl ⟨.failed, now, rfl, rfl, TaskStatus.noConfusion⟩
    | hear now worker line => exact .inl ⟨.failed, now, rfl, rfl, TaskStatus.noConfusion⟩
    | failWorker worker now => exact .inl ⟨.failed, now, rfl, rfl, TaskStatus.noConfusion⟩
    | sweep now timeoutMs clock =>
      exact .inl ⟨.timeout, clock, rfl, rfl, TaskStatus.noConfusion⟩
    | pool p =>
      have hkept : d.cache.get? id = none := hgone
      rw [hr] at hkept
      cases hkept
  | cancel owner now => exact .inl ⟨.cancelled, now, rfl, rfl, TaskStatus.noConfusion⟩
  | submit m r' owner =>
    simp only [deal, apply] at hgone
    split at hgone
    · next ha =>
      obtain ⟨generated, rfl⟩ := (admits_of_admitRequest ha).engine_eq
      change Table.find? (d.cache.tasks.insert _ _) id = none at hgone
      rw [Table.find?_insert] at hgone
      split at hgone
      · cases hgone
      · exact absurd (hr.symm.trans hgone) (by simp)
    · rw [hr] at hgone
      cases hgone
  | draw i =>
    obtain ⟨r', hr'⟩ := draws_keeps (d.draws_nextFragment i) hr
    rw [deal, hr'] at hgone
    cases hgone
  | close i now =>
    rcases d.deal_close i now with ⟨hfin, he⟩ | ⟨-, he⟩
    · rw [he, finishDelivery_eq] at hgone
      change (d.cache.remove i).get? id = none at hgone
      rw [TaskCache.get?_remove] at hgone
      split at hgone
      · next hi =>
        subst hi
        exact .inr ⟨now, rfl, hfin⟩
      · rw [hr] at hgone
        cases hgone
    · obtain ⟨r', hr'⟩ := draws_keeps (d.draws_nextFragment i) hr
      rw [he, hr'] at hgone
      cases hgone

/-- What is left when the tasks that end have been taken out. -/
theorem get?_getLastD_exitStages (d : Dispatcher) (x : Dealing) (j : RequestId) :
    ((d.exitStages x).getLastD (d.begun x)).get? j =
      if j ∈ d.gone x then none else (d.begun x).get? j := by
  unfold exitStages
  cases hx : x.ending? with
  | some e => exact TaskCache.get?_getLastD_exits (d.begun x) (d.gone x) j
  | none =>
    have hnot : j ∉ d.gone x := by
      intro hj
      rcases ending_of_gone hj with ⟨status, now, he, -⟩ | ⟨now, rfl, -⟩
      · rw [hx] at he
        cases he
      · cases hx
    rw [if_neg hnot]
    rfl

/-- Only an assignment writes. -/
theorem not_written {x : Dealing} (hx : ∀ now, x ≠ .backend (.assign now)) (a : Attempt) :
    d.milestones x ≠ [.written a] := by
  cases x with
  | backend call =>
    cases call with
    | assign now => exact absurd rfl (hx now)
    | hear now worker line =>
      show d.lastAnswer _ ≠ _
      unfold lastAnswer
      split
      · cases d.cache.get? _ with
        | none => simp
        | some r => simp
      · simp
    | failWorker worker now => simp [milestones]
    | sweep now timeoutMs clock => simp [milestones]
    | pool p => simp [milestones]
  | submit m r owner =>
    cases ha : d.admitRequest m r owner with
    | ok x => simp [milestones, ha]
    | error e => simp [milestones, ha]
  | draw id => simp [milestones]
  | close id now => simp [milestones]
  | cancel owner now => simp [milestones]

theorem begun_of_not_assign {x : Dealing} (hx : ∀ now, x ≠ .backend (.assign now)) :
    d.begun x = d.cache := by
  unfold begun
  split
  · next now => exact absurd rfl (hx now)
  · rfl

/-- What remains is as it was, or was chosen and has been given to a worker, or is new. -/
theorem lawful_assign (d : Dispatcher) (now : Millis) {j : RequestId} {r' : TaskRecord}
    (hr' : (d.assignNext now).2.cache.get? j = some r') :
    Lawful ((d.begun (.backend (.assign now))).get? j) (some r') := by
  have ha := d.assigns_assignNext now
  rw [begun]
  generalize (d.assignNext now).1 = o at ha
  generalize (d.assignNext now).2 = d' at ha hr'
  -- a task that could not be given to a worker is gone
  have failed : ∀ id, d'.cache = d.cache.remove id →
      Lawful ((d.cache.updateStatus id .assigning now).get? j) (some r') := by
    intro id hc
    rw [hc, TaskCache.get?_remove] at hr'
    rw [TaskCache.get?_updateStatus]
    split at hr'
    · cases hr'
    · next hj =>
      rw [if_neg hj, hr']
      exact .refl _
  cases ha with
  | saturated _ => rw [← hr']; exact .refl _
  | idle _ => rw [← hr']; exact .refl _
  | skipped _ _ => rw [← hr']; exact .refl _
  | @unserved id rest _ _ _ _ _ => exact failed id (cache_ended ..)
  | @undelivered id rest _ _ _ e _ _ _ _ _ _ =>
    exact failed id (cache_ended (d.dequeued rest) id .failed e.message)
  | @assigned id _ r worker _ _ _ _ hr hst _ _ =>
    show Lawful ((d.cache.updateStatus id .assigning now).get? j) (some r')
    change (d.cache.modify id fun _ => r.sent worker now).get? j = some r' at hr'
    rw [TaskCache.get?_modify] at hr'
    rw [TaskCache.get?_updateStatus]
    split at hr'
    · next hj =>
      rw [hr] at hr'
      cases hr'
      rw [if_pos hj, hr]
      refine .moves ?_
      rw [TaskRecord.status_move?, hst]
      rfl
    · next hj =>
      rw [if_neg hj, hr']
      exact .refl _

theorem lawful_deal {b : Bounds} (h : Listed b d.cache d.queue) (hp : d.Pairs) (x : Dealing)
    {j : RequestId} {r' : TaskRecord} (hr' : (d.deal x).cache.get? j = some r') :
    Lawful ((d.begun x).get? j) (some r') := by
  by_cases hx : ∃ now, x = .backend (.assign now)
  · obtain ⟨now, rfl⟩ := hx
    exact d.lawful_assign now hr'
  · have hx : ∀ now, x ≠ .backend (.assign now) := fun now he => hx ⟨now, he⟩
    have hturn := turn_deal h hp x
    have hwritten := not_written (d := d) hx
    rw [begun_of_not_assign hx]
    generalize d.milestones x = ms at hturn hwritten
    generalize d.deal x = d' at hturn hr'
    cases hturn with
    | @admitted record _ hst hfresh _ hc _ =>
      rw [hc] at hr'
      split at hr'
      · next hj =>
        obtain rfl : record = r' := Option.some.inj hr'
        rw [hj, hfresh]
        exact .enters hst
      · rw [hr']
        exact .refl _
    | @written a r now _ _ _ _ _ _ _ => exact absurd rfl (hwritten a)
    | answered _ _ hd =>
      obtain ⟨r, hr, hst, -⟩ := hd j r' hr'
      rw [hr]
      exact .stays hst
    | other hd =>
      obtain ⟨r, hr, hst, -⟩ := hd j r' hr'
      rw [hr]
      exact .stays hst

/-- What is left when the tasks that end have been taken out changes lawfully into what there
is after the dealing. -/
theorem lawfully_last {b : Bounds} (h : Listed b d.cache d.queue) (hp : d.Pairs) (x : Dealing) :
    ((d.exitStages x).getLastD (d.begun x)).Lawfully (d.deal x).cache := by
  intro j
  rw [get?_getLastD_exitStages]
  cases hj : (d.deal x).cache.get? j with
  | some r' =>
    have hnot : j ∉ d.gone x := by
      rw [mem_gone, hj]
      exact fun hgone => nomatch hgone.2
    rw [if_neg hnot]
    exact lawful_deal h hp x hj
  | none =>
    split
    · exact .absent
    · next hnot =>
      have hnone : d.cache.get? j = none := by
        rw [← Option.not_isSome_iff_eq_none]
        intro hsome
        exact hnot ((d.mem_gone x j).mpr ⟨Option.isSome_iff_exists.mp hsome, hj⟩)
      rw [get?_begun_of_none x hnone]
      exact .absent

/-- What is there is still there when a task has been chosen, and it has not ended. -/
theorem live_of_gone {b : Bounds} (h : Listed b d.cache d.queue) {x : Dealing} {id : RequestId}
    (hid : id ∈ d.gone x) : ∃ r, (d.begun x).get? id = some r ∧ r.status.isTerminal = false := by
  obtain ⟨⟨r, hr⟩, -⟩ := (d.mem_gone x id).mp hid
  exact live_begun (keyed_of_listed h) x hr

/-- A record goes when its answer is closed out. -/
theorem mem_gone_close {id : RequestId} {r : TaskRecord} (hr : d.cache.get? id = some r)
    (hfin : (d.nextFragment id).1 = .finished) (now : Millis) : id ∈ d.gone (.close id now) := by
  rw [mem_gone]
  refine ⟨⟨r, hr⟩, ?_⟩
  rcases d.deal_close id now with ⟨-, he⟩ | ⟨hno, -⟩
  · rw [he, finishDelivery_eq]
    show (d.cache.remove id).get? id = none
    rw [TaskCache.get?_remove, if_pos rfl]
  · exact absurd hfin hno

/-- Of the tasks that end otherwise, each may end so whatever it has come to. -/
theorem isChain_exitStages {b : Bounds} (h : Listed b d.cache d.queue) {x : Dealing}
    (hx : ∀ id now, x ≠ .close id now) :
    List.IsChain TaskCache.Lawfully (d.begun x :: d.exitStages x) := by
  unfold exitStages
  cases he : x.ending? with
  | none => exact .singleton _
  | some e =>
    obtain ⟨status, now⟩ := e
    dsimp only
    cases hgone : d.gone x with
    | nil => exact .singleton _
    | cons i ids =>
      have hi : i ∈ d.gone x := by
        rw [hgone]
        exact List.mem_cons_self
      rcases ending_of_gone hi with ⟨status', now', he', hterminal, hne⟩ | ⟨now', he', -⟩
      · rw [he] at he'
        cases he'
        rw [← hgone, TaskCache.isChain_exits_iff (d.nodup_gone x) hterminal
          fun _ hid => live_of_gone h hid]
        intro j hj r hr
        obtain ⟨r', hr', hlive⟩ := live_of_gone h hj
        cases hr.symm.trans hr'
        exact TaskStatus.canMove_of_live hlive hterminal hne
      · exact absurd he' (hx i now')

/-- The tasks that end in a dealing end lawfully unless it closes out the answer of a task that
still waits. -/
theorem isChain_exitStages_iff {b : Bounds} (h : Listed b d.cache d.queue) (x : Dealing) :
    List.IsChain TaskCache.Lawfully (d.begun x :: d.exitStages x) ↔ ¬ d.Hasty x := by
  by_cases hclose : ∃ id now, x = .close id now
  · obtain ⟨id, now, rfl⟩ := hclose
    show List.IsChain TaskCache.Lawfully (d.begun (.close id now) ::
      TaskCache.exits .completed now (d.begun (.close id now)) (d.gone (.close id now))) ↔ _
    rw [TaskCache.isChain_exits_iff (d.nodup_gone _) rfl fun _ hid => live_of_gone h hid]
    constructor
    · intro hall hhasty
      obtain ⟨i, now', r, he, hfin, hr, hst⟩ := hhasty
      cases he
      have hmove := hall id (mem_gone_close hr hfin now) r hr
      rw [hst] at hmove
      cases hmove
    · intro hhasty i hi r hr
      rcases ending_of_gone hi with ⟨status, now', he, -, hne⟩ | ⟨now', he, hfin⟩
      · cases he
        exact absurd rfl hne
      · cases he
        rcases h.live id r hr with hst | hst
        · exact absurd ⟨id, now, r, rfl, hfin, hr, hst⟩ hhasty
        · rw [hst]
          rfl
  · have hno : ∀ id now, x ≠ .close id now := fun id now he => hclose ⟨id, now, he⟩
    have hhasty : ¬ d.Hasty x := by
      intro hhasty
      obtain ⟨id, now, -, he, -⟩ := hhasty
      exact hno id now he
    rw [iff_true_right hhasty]
    exact isChain_exitStages h hno

/-- A dealing is lawful in all its steps unless it is hasty. -/
theorem isChain_stages_iff {b : Bounds} (h : Listed b d.cache d.queue) (hp : d.Pairs)
    (x : Dealing) : List.IsChain TaskCache.Lawfully (d.cache :: d.stages x) ↔ ¬ d.Hasty x := by
  have hlast : List.IsChain TaskCache.Lawfully
      [(d.exitStages x).getLastD (d.begun x), (d.deal x).cache] :=
    List.isChain_cons_cons.mpr ⟨lawfully_last h hp x, .singleton _⟩
  rw [stages, List.isChain_cons_cons, isChain_append_iff, isChain_exitStages_iff h]
  constructor
  · intro hchain
    exact hchain.2.1
  · intro hhasty
    exact ⟨d.lawfully_begun x, hhasty, hlast⟩

/-- A run is lawful in all its steps if and only if none of its dealings is hasty. -/
theorem isChain_history_iff {b : Bounds} (h : Listed b d.cache d.queue) (hp : d.Pairs)
    (dealings : List Dealing) :
    List.IsChain TaskCache.Lawfully (d.cache :: d.history dealings) ↔
      ∀ early x late, dealings = early ++ x :: late → ¬ (d.dealt early).Hasty x := by
  induction dealings generalizing d with
  | nil => simp [history, journal]
  | cons x dealings ih =>
    rw [history, journal, isChain_append_iff, isChain_stages_iff h hp, getLastD_stages,
      ← history, ih (h.deal x) (hp.deal x)]
    constructor
    · intro hchain early y late he
      cases early with
      | nil =>
        cases he
        exact hchain.1
      | cons z early =>
        cases he
        exact hchain.2 early y late rfl
    · intro hall
      refine ⟨hall [] x dealings rfl, ?_⟩
      intro early y late he
      exact hall (x :: early) y late (by rw [he]; rfl)

/-- The last of the caches that a run passes through is the one at its end. -/
theorem getLastD_history (d : Dispatcher) (dealings : List Dealing) :
    (d.history dealings).getLastD d.cache = (d.dealt dealings).cache := by
  induction dealings generalizing d with
  | nil => rfl
  | cons x dealings ih =>
    rw [history, journal, getLastD_append, getLastD_stages, ← history, ih]
    rfl

end Dispatcher

end PromptGateway
