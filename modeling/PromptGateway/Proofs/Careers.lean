import Mathlib.Data.List.Chain
import PromptGateway.Proofs.Exchange

/-
  The career of a record.

  The cache is called in four ways: a record is created, moved to another status with an
  answer or without one, or taken out. Any calls may come in any order, with any ids and any
  statuses; only the clock has to be positive and must not go backwards. The log of a run has
  an entry for every record that was created, moved or taken out, and `career` reads off it
  the states of the record that has an id, from its creation on.

    1. `canMove_iff`: the lifecycle allows the moves that `Moves` lists, and no others.
    2. `Career` is what such a list of states looks like: a new record, and then one move
       after another. What holds of every career is proved by induction on it, one move at a
       time: `isChain`, `count_assigning_le`, `assignedAt_eq_zero_iff`, `ordered`.
    3. `Kept.run`: after any calls every record has a career that ends with it.
    4. `careers_lawful` puts this together, with what a refused move and a call about another
       id leave as they are.
-/

namespace PromptGateway

/-! ## Moves -/

namespace TaskStatus

/-- The moves of the lifecycle. -/
inductive Moves : TaskStatus → TaskStatus → Prop where
  | chosen : Moves .pending .assigning
  | sent : Moves .assigning .processing
  | answered : Moves .processing .processing
  | completed : Moves .processing .completed
  /-- A live task may stop at any time. -/
  | stopped {s t : TaskStatus} : s ∈ [pending, assigning, processing] →
      t ∈ [failed, timeout, cancelled] → Moves s t

theorem isTerminal_eq_false_iff {s : TaskStatus} :
    s.isTerminal = false ↔ s ∈ [pending, assigning, processing] := by
  cases s <;> decide

theorem canMove_iff {s t : TaskStatus} : s.canMove t = true ↔ Moves s t := by
  constructor
  · intro h
    have hlive : s ∈ [pending, assigning, processing] := by
      simp only [canMove, Bool.and_eq_true, Bool.not_eq_true'] at h
      exact isTerminal_eq_false_iff.mp h.1
    cases t with
    | pending => simp [canMove] at h
    | assigning =>
      obtain rfl : s = pending := And.right (by simpa [canMove] using h)
      exact .chosen
    | processing =>
      have hfrom : s = assigning ∨ s = processing := And.right (by simpa [canMove] using h)
      rcases hfrom with rfl | rfl
      · exact .sent
      · exact .answered
    | completed =>
      obtain rfl : s = processing := And.right (by simpa [canMove] using h)
      exact .completed
    | failed => exact .stopped hlive (by decide)
    | timeout => exact .stopped hlive (by decide)
    | cancelled => exact .stopped hlive (by decide)
  · intro h
    cases h with
    | chosen => rfl
    | sent => rfl
    | answered => rfl
    | completed => rfl
    | stopped hs ht =>
      simp only [List.mem_cons, List.not_mem_nil, or_false] at hs ht
      rcases hs with rfl | rfl | rfl <;> rcases ht with rfl | rfl | rfl <;> rfl

namespace Moves

variable {s t : TaskStatus}

theorem live (h : Moves s t) : s.isTerminal = false := by
  cases h with
  | stopped hs _ => exact isTerminal_eq_false_iff.mpr hs
  | chosen => rfl
  | sent => rfl
  | answered => rfl
  | completed => rfl

theorem ne_pending (h : Moves s t) : t ≠ .pending := by
  rintro rfl
  cases h with
  | stopped _ ht => simp at ht

theorem eq_pending_of_assigning (h : Moves s .assigning) : s = .pending := by
  cases h with
  | chosen => rfl
  | stopped hs ht => simp at ht

end Moves

end TaskStatus

namespace TaskRecord

open TaskStatus (Moves)

/-- A move sets the status and at most one stamp, which is the time of the move. -/
structure Moved (r : TaskRecord) (now : Millis) (r' : TaskRecord) : Prop where
  legal : Moves r.status r'.status
  id : r'.id = r.id
  createdAt : r'.createdAt = r.createdAt
  assignedAt : r'.assignedAt = if r'.status = .assigning then now else r.assignedAt
  completedAt : r'.completedAt = if r'.status.isTerminal then now else r.completedAt

theorem moved_of_move? {r r' : TaskRecord} {next : TaskStatus} {now : Millis}
    (h : r.move? next now = some r') : r'.status = next ∧ r.Moved now r' := by
  obtain ⟨hlegal, rfl⟩ := move?_eq_some_iff.mp h
  have hmoves := TaskStatus.canMove_iff.mp hlegal
  cases next <;> exact ⟨rfl, hmoves, rfl, rfl, rfl, rfl⟩

end TaskRecord

/-! ## Careers -/

open TaskStatus (Moves) in
/-- A record from its creation on: all the states it has had, the last of them, and when it got
there. -/
inductive Career : List TaskRecord → TaskRecord → Millis → Prop where
  | created {r : TaskRecord} : r.status = .pending → r.assignedAt = 0 → r.completedAt = 0 →
      0 < r.createdAt → Career [r] r r.createdAt
  | moved {states : List TaskRecord} {r r' : TaskRecord} {t now : Millis} :
      Career states r t → t ≤ now → r.Moved now r' → Career (states ++ [r']) r' now

namespace Career

open TaskStatus (Moves)

variable {states : List TaskRecord} {r : TaskRecord} {t : Millis}

theorem getLast? (h : Career states r t) : states.getLast? = some r := by
  cases h with
  | created _ _ _ _ => rfl
  | moved _ _ _ => exact List.getLast?_concat

theorem positive (h : Career states r t) : 0 < t := by
  induction h with
  | created _ _ _ hpos => exact hpos
  | moved _ hle _ ih => exact Int64.lt_of_lt_of_le ih hle

theorem head? (h : Career states r t) : (states.map (·.status)).head? = some .pending := by
  induction h with
  | created hst _ _ _ => simp [hst]
  | moved h _ _ ih =>
    rw [List.map_append, List.head?_append, ih]
    rfl

theorem isChain (h : Career states r t) : List.IsChain Moves (states.map (·.status)) := by
  induction h with
  | created _ _ _ _ => exact List.isChain_singleton _
  | moved h _ hm ih =>
    rw [List.map_append, List.isChain_append]
    refine ⟨ih, List.isChain_singleton _, ?_⟩
    intro s hs s' hs'
    rw [List.getLast?_map, h.getLast?] at hs
    cases hs
    cases hs'
    exact hm.legal

/-- A record that waits has done nothing else. -/
theorem eq_singleton_of_pending (h : Career states r t) (hst : r.status = .pending) :
    states = [r] := by
  cases h with
  | created _ _ _ _ => rfl
  | moved _ _ hm => exact absurd hst hm.legal.ne_pending

theorem count_pending (h : Career states r t) : (states.map (·.status)).count .pending = 1 := by
  induction h with
  | created hst _ _ _ => simp [hst]
  | moved _ _ hm ih =>
    have hne := hm.legal.ne_pending
    simp [List.count_append, ih, hne]

theorem count_assigning_le (h : Career states r t) :
    (states.map (·.status)).count .assigning ≤ 1 := by
  induction h with
  | created hst _ _ _ => simp [hst]
  | @moved states r r' _ _ h _ hm ih =>
    rw [List.map_append, List.count_append]
    by_cases hto : r'.status = .assigning
    · -- it waited until now
      have hfrom := (hto ▸ hm.legal).eq_pending_of_assigning
      simp [h.eq_singleton_of_pending hfrom, hfrom, hto]
    · simpa [hto] using ih

/-- Nothing comes after the end of a task. -/
theorem live_of_mem_dropLast (h : Career states r t) :
    ∀ s ∈ states.dropLast, s.status.isTerminal = false := by
  induction h with
  | created _ _ _ _ => exact fun _ hs => nomatch hs
  | @moved states r r' _ _ h _ hm ih =>
    intro s hs
    rw [List.dropLast_concat] at hs
    have hsplit := List.dropLast_append_getLast? r h.getLast?
    rw [← hsplit, List.mem_append, List.mem_singleton] at hs
    rcases hs with hs | rfl
    · exact ih s hs
    · exact hm.legal.live

/-! ### Stamps -/

theorem assignedAt_eq_zero_iff (h : Career states r t) :
    r.assignedAt = 0 ↔ .assigning ∉ states.map (·.status) := by
  induction h with
  | created hst hzero _ _ => simp [hst, hzero]
  | @moved states r r' _ _ h hle hm ih =>
    have hpos := (h.moved hle hm).positive
    rw [List.map_append, List.mem_append, hm.assignedAt]
    by_cases hto : r'.status = .assigning
    · rw [if_pos hto]
      simp [hto, (Int64.ne_of_lt hpos).symm]
    · rw [if_neg hto, ih]
      simp [Ne.symm hto]

theorem completedAt_eq_zero_iff (h : Career states r t) :
    r.completedAt = 0 ↔ r.status.isTerminal = false := by
  induction h with
  | created hst _ hzero _ => simp [hst, hzero, TaskStatus.isTerminal]
  | @moved states r r' _ _ h hle hm ih =>
    have hpos := (h.moved hle hm).positive
    rw [hm.completedAt]
    cases hend : r'.status.isTerminal with
    | true => simp [(Int64.ne_of_lt hpos).symm]
    | false => simpa [hm.legal.live] using ih

/-- A later state keeps what has been stamped. -/
def Keeps (s s' : TaskRecord) : Prop :=
  s'.id = s.id ∧ s'.createdAt = s.createdAt ∧
    (s.assignedAt ≠ 0 → s'.assignedAt = s.assignedAt) ∧
    (s.completedAt ≠ 0 → s'.completedAt = s.completedAt)

theorem keeps_moved {r' : TaskRecord} {now : Millis} (h : Career states r t)
    (hm : r.Moved now r') : Keeps r r' := by
  refine ⟨hm.id, hm.createdAt, fun hset => ?_, fun hset => ?_⟩
  · -- who is assigned now waited so far, and had no stamp
    rw [hm.assignedAt, if_neg]
    intro hto
    have hfrom := (hto ▸ hm.legal).eq_pending_of_assigning
    refine hset (h.assignedAt_eq_zero_iff.mpr ?_)
    simp [h.eq_singleton_of_pending hfrom, hfrom]
  · exact absurd (h.completedAt_eq_zero_iff.mpr hm.legal.live) hset

theorem Keeps.trans {s s' s'' : TaskRecord} (h : Keeps s s') (h' : Keeps s' s'') :
    Keeps s s'' := by
  obtain ⟨hid, hcreated, hassigned, hcompleted⟩ := h
  obtain ⟨hid', hcreated', hassigned', hcompleted'⟩ := h'
  refine ⟨hid'.trans hid, hcreated'.trans hcreated, fun hset => ?_, fun hset => ?_⟩
  · have := hassigned hset
    rw [hassigned' (this ▸ hset), this]
  · have := hcompleted hset
    rw [hcompleted' (this ▸ hset), this]

theorem pairwise_keeps (h : Career states r t) : states.Pairwise Keeps := by
  induction h with
  | created _ _ _ _ => exact List.pairwise_singleton _ _
  | @moved states r r' _ _ h _ hm ih =>
    have hstep := h.keeps_moved hm
    rw [List.pairwise_append]
    refine ⟨ih, List.pairwise_singleton _ _, ?_⟩
    intro s hs s' hs'
    rw [List.mem_singleton] at hs'
    subst hs'
    have hsplit := List.dropLast_append_getLast? r h.getLast?
    rw [← hsplit, List.pairwise_append] at ih
    rw [← hsplit, List.mem_append, List.mem_singleton] at hs
    rcases hs with hs | rfl
    · exact (ih.2.2 s hs r (List.mem_singleton_self r)).trans hstep
    · exact hstep

/-- No stamp is later than the last move, and they are in order. -/
theorem ordered (h : Career states r t) :
    r.createdAt ≤ t ∧ r.assignedAt ≤ t ∧
      (r.assignedAt ≠ 0 → r.createdAt ≤ r.assignedAt) ∧
      (r.completedAt ≠ 0 → r.createdAt ≤ r.completedAt ∧ r.assignedAt ≤ r.completedAt) := by
  induction h with
  | created _ hzero hend hpos =>
    refine ⟨Int64.le_refl _, ?_, fun h => absurd hzero h, fun h => absurd hend h⟩
    rw [hzero]
    exact Int64.le_of_lt hpos
  | @moved states r r' t now h hle hm ih =>
    obtain ⟨hcreated, hassigned, hset, -⟩ := ih
    have hcreated' := Int64.le_trans hcreated hle
    have hassigned' : r'.assignedAt ≤ now := by
      rw [hm.assignedAt]
      split
      · exact Int64.le_refl _
      · exact Int64.le_trans hassigned hle
    rw [hm.createdAt]
    refine ⟨hcreated', hassigned', ?_, ?_⟩
    · rw [hm.assignedAt]
      split
      · exact fun _ => hcreated'
      · exact hset
    · rw [hm.completedAt]
      cases hend : r'.status.isTerminal with
      | true => exact fun _ => ⟨hcreated', hassigned'⟩
      | false => exact fun h' => absurd (h.completedAt_eq_zero_iff.mpr hm.legal.live) h'

end Career

/-! ## Calls of the cache -/

/-- A call of the cache, with the time at which it is made. -/
inductive CacheCall where
  | create (id : RequestId) (owner : ConnectionId) (payload : TaskPayload) (priority : Int32)
      (now : Millis)
  | transition (id : RequestId) (next : TaskStatus) (now : Millis)
  | updateStatus (id : RequestId) (next : TaskStatus) (now : Millis)
  | remove (id : RequestId)

namespace CacheCall

/-- The id that a call names. -/
def id : CacheCall → RequestId
  | create id _ _ _ _ | transition id _ _ | updateStatus id _ _ | remove id => id

/-- The time at which a call is made, if it looks at the clock. -/
def now? : CacheCall → Option Millis
  | create _ _ _ _ now | transition _ _ now | updateStatus _ _ now => some now
  | remove _ => none

/-- What is read off the clock during some calls. -/
def clock (calls : List CacheCall) : List Millis := calls.filterMap now?

end CacheCall

/-- What can be noted of a record: it has been created, it has moved and is now like this, or
it has been taken out. -/
inductive Passage where
  | created (r : TaskRecord)
  | moved (r : TaskRecord)
  | removed (r : TaskRecord)

/-- The states of the record of an id after one more entry of the log. -/
def Passage.note (id : RequestId) (states : List TaskRecord) : Passage → List TaskRecord
  | created r => if r.id = id then [r] else states
  | moved r => if r.id = id then states ++ [r] else states
  | removed r => if r.id = id then [] else states

/-- The states that the record of an id has had since it was created; none if there is no
record. -/
def career (id : RequestId) (log : List Passage) : List TaskRecord :=
  log.foldl (Passage.note id) []

theorem career_concat (id : RequestId) (log : List Passage) (x : Passage) :
    career id (log ++ [x]) = x.note id (career id log) :=
  List.foldl_concat ..

namespace TaskCache

/-- What a call answers, and the cache after it. -/
def call (c : TaskCache) : CacheCall → Option TaskRecord × TaskCache
  | .create id owner payload priority now =>
    let r : TaskRecord :=
      { id := id, owner := owner, payload := payload, priority := priority, createdAt := now }
    match c.insertNew r with
    | .ok c' => (some r, c')
    | .error _ => (none, c)
  | .transition id next now =>
    match c.transition? id next now with
    | some (r, c') => (some r, c')
    | none => (none, c)
  | .updateStatus id next now => (none, c.updateStatus id next now)
  | .remove id => (c.get? id, c.remove id)

/-- What is noted of a call. -/
def passages (c : TaskCache) : CacheCall → List Passage
  | .create id owner payload priority now =>
    ((c.call (.create id owner payload priority now)).1.map .created).toList
  | .transition id next now | .updateStatus id next now =>
    ((c.transition? id next now).map fun x => .moved x.1).toList
  | .remove id => ((c.get? id).map .removed).toList

/-- The cache after a list of calls. -/
def run (c : TaskCache) (calls : List CacheCall) : TaskCache :=
  calls.foldl (fun c x => (c.call x).2) c

/-- What is noted of a list of calls. -/
def log (c : TaskCache) (calls : List CacheCall) : List Passage :=
  journal (fun c x => (c.call x).2) passages c calls

/-- What a call does to the records there are, and what is noted of it. -/
inductive Does (c : TaskCache) (x : CacheCall) (c' : TaskCache) : List Passage → Prop where
  | nothing : (∀ j, c'.get? j = c.get? j) → Does c x c' []
  | created {r : TaskRecord} : r.id = x.id → x.now? = some r.createdAt → c.get? r.id = none →
      r.status = .pending → r.assignedAt = 0 → r.completedAt = 0 →
      (∀ j, c'.get? j = if j = x.id then some r else c.get? j) → Does c x c' [.created r]
  | moved {s r : TaskRecord} {now : Millis} : x.now? = some now → c.get? x.id = some s →
      s.Moved now r → (∀ j, c'.get? j = if j = x.id then some r else c.get? j) →
      Does c x c' [.moved r]
  | removed {r : TaskRecord} : x = .remove x.id → c.get? x.id = some r →
      (∀ j, c'.get? j = if j = x.id then none else c.get? j) → Does c x c' [.removed r]

variable {c : TaskCache}

theorem does_transition {x : CacheCall} {id : RequestId} {next : TaskStatus} {now : Millis}
    (hid : x.id = id) (hnow : x.now? = some now) :
    c.Does x (c.updateStatus id next now)
      ((c.transition? id next now).map fun x => .moved x.1).toList := by
  subst hid
  unfold updateStatus
  cases h : c.transition? x.id next now with
  | none => exact .nothing fun _ => rfl
  | some y =>
    obtain ⟨r, c'⟩ := y
    obtain ⟨s, hs, hmove, rfl⟩ := transition?_eq_some_iff.mp h
    refine .moved hnow hs (TaskRecord.moved_of_move? hmove).2 fun j => ?_
    rw [get?_modify, hs]
    rfl

theorem call_transition (c : TaskCache) (id : RequestId) (next : TaskStatus) (now : Millis) :
    (c.call (.transition id next now)).2 = c.updateStatus id next now := by
  rw [call, updateStatus]
  cases c.transition? id next now with
  | none => rfl
  | some _ => rfl

theorem does_call (c : TaskCache) (x : CacheCall) : c.Does x (c.call x).2 (c.passages x) := by
  cases x with
  | create id owner payload priority now =>
    rw [passages, call]
    cases h : c.insertNew _ with
    | error e => exact .nothing fun _ => rfl
    | ok c' => exact .created rfl rfl (insertNew_eq_ok h).1 rfl rfl rfl (get?_insertNew h)
  | transition id next now =>
    rw [call_transition]
    exact does_transition rfl rfl
  | updateStatus id next now => exact does_transition rfl rfl
  | remove id =>
    rw [passages, call]
    cases h : c.get? id with
    | none =>
      refine .nothing fun j => ?_
      rw [get?_remove]
      split
      · next hj => rw [hj, h]
      · rfl
    | some r => exact .removed rfl h (get?_remove c id)

/-- A call leaves the records of all other ids alone. -/
theorem get?_call_of_ne (x : CacheCall) {j : RequestId} (hj : j ≠ x.id) :
    (c.call x).2.get? j = c.get? j := by
  have hdoes := c.does_call x
  generalize c.passages x = log at hdoes
  cases hdoes with
  | nothing hall => exact hall j
  | created _ _ _ _ _ _ hall => rw [hall, if_neg hj]
  | moved _ _ _ hall => rw [hall, if_neg hj]
  | removed _ _ hall => rw [hall, if_neg hj]

/-- A record whose task has ended stays as it is until it is taken out. -/
theorem get?_call_of_isTerminal {id : RequestId} {r : TaskRecord} (hr : c.get? id = some r)
    (hend : r.status.isTerminal = true) {x : CacheCall} (hx : x ≠ .remove id) :
    (c.call x).2.get? id = some r := by
  by_cases hid : id = x.id
  · subst hid
    have hdoes := c.does_call x
    generalize c.passages x = log at hdoes
    cases hdoes with
    | nothing hall => rw [hall, hr]
    | created hid _ hfree _ _ _ _ =>
      rw [hid, hr] at hfree
      cases hfree
    | moved _ hs hm _ =>
      cases hr.symm.trans hs
      rw [hm.legal.live] at hend
      cases hend
    | removed hremove _ _ => exact absurd hremove hx
  · rw [get?_call_of_ne x hid, hr]

end TaskCache

namespace TaskCache

variable {c : TaskCache} {id : RequestId}

theorem get?_run_of_isTerminal {r : TaskRecord} (hr : c.get? id = some r)
    (hend : r.status.isTerminal = true) {calls : List CacheCall} (hkept : .remove id ∉ calls) :
    (c.run calls).get? id = some r := by
  induction calls generalizing c with
  | nil => exact hr
  | cons x calls ih =>
    rw [List.mem_cons, not_or] at hkept
    exact ih (get?_call_of_isTerminal hr hend (Ne.symm hkept.1)) hkept.2

/-- A transition is refused exactly if there is no record or the move is none of those of the
lifecycle. -/
theorem transition?_eq_none_iff {next : TaskStatus} {now : Millis} :
    c.transition? id next now = none ↔
      ∀ r, c.get? id = some r → ¬ TaskStatus.Moves r.status next := by
  rw [Option.eq_none_iff_forall_ne_some]
  constructor
  · intro hnone r hr hmove
    have hlegal := TaskStatus.canMove_iff.mpr hmove
    exact hnone _ (transition?_eq_some_iff.mpr
      ⟨r, hr, TaskRecord.move?_eq_some_iff.mpr ⟨hlegal, rfl⟩, rfl⟩)
  · rintro hall ⟨r', c'⟩ hsome
    obtain ⟨r, hr, hmove, -⟩ := transition?_eq_some_iff.mp hsome
    exact hall r hr (TaskStatus.canMove_iff.mp (TaskRecord.move?_eq_some_iff.mp hmove).1)

end TaskCache

/-! ## Runs -/

/-- Every record has a career that ends with it, and the clock has not been beyond a time. -/
structure Kept (c : TaskCache) (log : List Passage) (upTo : Millis) : Prop where
  absent : ∀ id, c.get? id = none → career id log = []
  present : ∀ id r, c.get? id = some r →
    r.id = id ∧ ∃ t, t ≤ upTo ∧ Career (career id log) r t

namespace Kept

variable {c c' : TaskCache} {log : List Passage} {upTo now : Millis}

theorem later (h : Kept c log upTo) (hle : upTo ≤ now) : Kept c log now where
  absent := h.absent
  present := by
    intro id r hr
    obtain ⟨hid, t, ht, hcareer⟩ := h.present id r hr
    exact ⟨hid, t, Int64.le_trans ht hle, hcareer⟩

/-- It is enough to look at the one id that a call is about. -/
theorem concat {x : Passage} {id : RequestId} {o : Option TaskRecord} (h : Kept c log upTo)
    (hc : ∀ j, c'.get? j = if j = id then o else c.get? j)
    (hothers : ∀ j, j ≠ id → ∀ states, x.note j states = states)
    (hnone : o = none → x.note id (career id log) = [])
    (hsome : ∀ r, o = some r →
      r.id = id ∧ ∃ t, t ≤ upTo ∧ Career (x.note id (career id log)) r t) :
    Kept c' (log ++ [x]) upTo where
  absent := by
    intro j hj
    rw [hc] at hj
    rw [career_concat]
    by_cases he : j = id
    · rw [if_pos he] at hj
      rw [he, hnone hj]
    · rw [if_neg he] at hj
      rw [hothers j he, h.absent j hj]
  present := by
    intro j r hj
    rw [hc] at hj
    rw [career_concat]
    by_cases he : j = id
    · rw [if_pos he] at hj
      rw [he]
      exact hsome r hj
    · rw [if_neg he] at hj
      rw [hothers j he]
      exact h.present j r hj

/-- What a call does, if the clock was not beyond the time at which it is made. -/
theorem does {x : CacheCall} {more : List Passage} (h : Kept c log upTo)
    (hclock : ∀ now, x.now? = some now → 0 < now ∧ upTo ≤ now) (hdoes : c.Does x c' more) :
    Kept c' (log ++ more) (x.now?.getD upTo) := by
  have hle : upTo ≤ x.now?.getD upTo := by
    cases hnow : x.now? with
    | none => exact Int64.le_refl _
    | some now => exact (hclock now hnow).2
  have hlater := h.later hle
  cases hdoes with
  | nothing hall =>
    rw [List.append_nil]
    refine ⟨fun id hid => hlater.absent id ?_, fun id r hr => hlater.present id r ?_⟩
    · rw [← hid, hall]
    · rw [← hr, hall]
  | @created r hid hnow _ hst hassigned hcompleted hall =>
    refine hlater.concat hall (fun j hj states => ?_) (fun he => nomatch he) ?_
    · rw [← hid] at hj
      exact if_neg (Ne.symm hj)
    · rintro _ ⟨⟩
      have hpos := (hclock _ hnow).1
      refine ⟨hid, r.createdAt, ?_, ?_⟩
      · rw [hnow]
        exact Int64.le_refl _
      · rw [Passage.note, if_pos hid]
        exact .created hst hassigned hcompleted hpos
  | @moved s r now hnow hs hm hall =>
    obtain ⟨hsid, t, ht, hcareer⟩ := h.present x.id s hs
    have hid : r.id = x.id := hm.id.trans hsid
    refine hlater.concat hall (fun j hj states => ?_) (fun he => nomatch he) ?_
    · rw [← hid] at hj
      exact if_neg (Ne.symm hj)
    · rintro _ ⟨⟩
      refine ⟨hid, now, ?_, ?_⟩
      · rw [hnow]
        exact Int64.le_refl _
      · rw [Passage.note, if_pos hid]
        exact hcareer.moved (Int64.le_trans ht (hclock now hnow).2) hm
  | @removed r _ hr hall =>
    have hid := (h.present x.id r hr).1
    refine hlater.concat hall (fun j hj states => ?_) (fun _ => ?_) (fun _ he => nomatch he)
    · rw [← hid] at hj
      exact if_neg (Ne.symm hj)
    · rw [Passage.note, if_pos hid]

theorem run (h : Kept c log upTo) {calls : List CacheCall}
    (hpos : ∀ t ∈ CacheCall.clock calls, 0 < t)
    (hclock : (upTo :: CacheCall.clock calls).Pairwise (· ≤ ·)) :
    ∃ t, Kept (c.run calls) (log ++ c.log calls) t := by
  induction calls generalizing c log upTo with
  | nil => exact ⟨upTo, by simpa [TaskCache.run, TaskCache.log, journal] using h⟩
  | cons x calls ih =>
    rw [List.pairwise_cons] at hclock
    have hx : ∀ now, x.now? = some now → now ∈ CacheCall.clock (x :: calls) := by
      intro now hnow
      rw [CacheCall.clock, List.filterMap_cons_some hnow]
      exact List.mem_cons_self
    have hnext := h.does (fun now hnow => ⟨hpos now (hx now hnow), hclock.1 now (hx now hnow)⟩)
      (c.does_call x)
    have hrest : (x.now?.getD upTo :: CacheCall.clock calls).Pairwise (· ≤ ·) := by
      cases hnow : x.now? with
      | none =>
        have hskip : CacheCall.clock (x :: calls) = CacheCall.clock calls :=
          List.filterMap_cons_none hnow
        rw [hskip] at hclock
        exact List.pairwise_cons.mpr hclock
      | some now =>
        have hread : CacheCall.clock (x :: calls) = now :: CacheCall.clock calls :=
          List.filterMap_cons_some hnow
        rw [hread] at hclock
        exact hclock.2
    have hpos' : ∀ t ∈ CacheCall.clock calls, 0 < t := by
      intro t ht
      refine hpos t ?_
      rw [CacheCall.clock, List.mem_filterMap] at ht ⊢
      obtain ⟨y, hy, hty⟩ := ht
      exact ⟨y, List.mem_cons_of_mem x hy, hty⟩
    obtain ⟨t, ht⟩ := ih hnext hpos' hrest
    refine ⟨t, ?_⟩
    rw [List.append_assoc] at ht
    exact ht

end Kept

open TaskStatus (Moves) in
/-- The records of a cache that began empty, after any calls with any ids and statuses, if the
clock is positive and does not go backwards. The states that a record has had since it was
created begin with pending and go on by moves of the lifecycle; it was pending once, assigning
at most once, and none but its last state is an end. Neither stamp is changed when it has been
set: it is assigned at 0 if it never was assigning, and completed at 0 if its task has not
ended, and otherwise created, assigned and completed follow in time.

A record whose task has ended stays as it is until it is taken out, whatever is called. A
transition has no answer exactly if there is no record or the move is not one of the
lifecycle; then it changes nothing, and an update of the status does what a transition does. No
call changes what there is under another id. -/
theorem careers_lawful (capacity : Nat) (calls : List CacheCall)
    (hpos : ∀ t ∈ CacheCall.clock calls, 0 < t)
    (hclock : (CacheCall.clock calls).Pairwise (· ≤ ·)) :
    let fresh : TaskCache := { capacity := capacity }
    let c := fresh.run calls
    (∀ id r, c.get? id = some r →
      let states := career id (fresh.log calls)
      let statuses := states.map (·.status)
      states.getLast? = some r ∧ statuses.head? = some .pending ∧ List.IsChain Moves statuses ∧
      statuses.count .pending = 1 ∧ statuses.count .assigning ≤ 1 ∧
      (∀ s ∈ states.dropLast, s.status.isTerminal = false) ∧
      states.Pairwise Career.Keeps ∧
      (r.assignedAt = 0 ↔ .assigning ∉ statuses) ∧
      (r.completedAt = 0 ↔ r.status.isTerminal = false) ∧
      (r.assignedAt ≠ 0 → r.createdAt ≤ r.assignedAt) ∧
      (r.completedAt ≠ 0 → r.createdAt ≤ r.completedAt ∧ r.assignedAt ≤ r.completedAt)) ∧
    (∀ id r, c.get? id = some r → r.status.isTerminal = true →
      ∀ more, .remove id ∉ more → (c.run more).get? id = some r) ∧
    (∀ id next now,
      ((c.call (.transition id next now)).1 = none ↔
        ∀ r, c.get? id = some r → ¬ Moves r.status next) ∧
      ((c.call (.transition id next now)).1 = none → (c.call (.transition id next now)).2 = c) ∧
      (c.call (.updateStatus id next now)).2 = (c.call (.transition id next now)).2) ∧
    (∀ x id, id ≠ x.id → (c.call x).2.get? id = c.get? id) := by
  intro fresh c
  have hempty : Kept fresh [] 0 := ⟨fun _ _ => rfl, fun _ _ h => nomatch h⟩
  obtain ⟨t, hkept⟩ := hempty.run hpos
    (List.pairwise_cons.mpr ⟨fun s hs => Int64.le_of_lt (hpos s hs), hclock⟩)
  rw [List.nil_append] at hkept
  refine ⟨?_, ?_, ?_, ?_⟩
  · intro id r hr
    obtain ⟨-, t, -, h⟩ := hkept.present id r hr
    obtain ⟨-, -, hassigned, hcompleted⟩ := h.ordered
    exact ⟨h.getLast?, h.head?, h.isChain, h.count_pending, h.count_assigning_le,
      h.live_of_mem_dropLast, h.pairwise_keeps, h.assignedAt_eq_zero_iff, h.completedAt_eq_zero_iff,
      hassigned, hcompleted⟩
  · intro id r hr hend more hmore
    exact TaskCache.get?_run_of_isTerminal hr hend hmore
  · intro id next now
    have hrefused : c.transition? id next now = none ↔ _ := TaskCache.transition?_eq_none_iff
    refine ⟨?_, ?_, (c.call_transition id next now).symm⟩
    · rw [← hrefused, TaskCache.call]
      cases c.transition? id next now <;> simp
    · intro hnone
      rw [TaskCache.call] at hnone ⊢
      cases h : c.transition? id next now with
      | none => rfl
      | some x => simp [h] at hnone
  · intro x id hid
    exact TaskCache.get?_call_of_ne x hid

namespace Careers

/-- A task is worked on and ends, and its id is used again for one that is cancelled while it
waits. What the lifecycle does not allow is tried on the way, and refused. -/
def reuse : List CacheCall :=
  [.create "p" 1 ⟨"", "", 1000, true⟩ 0 5, .transition "p" .completed 5,
    .transition "p" .assigning 6, .updateStatus "p" .processing 6, .updateStatus "p" .assigning 7,
    .transition "p" .completed 9, .updateStatus "p" .failed 9, .remove "p",
    .create "p" 2 ⟨"", "", 1000, true⟩ 0 9, .transition "p" .cancelled 12]

/-- A cache with room for one record. -/
def narrow : TaskCache := { capacity := 1 }

theorem careers_lawful_reuse :
    (∀ t ∈ CacheCall.clock reuse, 0 < t) ∧ (CacheCall.clock reuse).Pairwise (· ≤ ·) ∧
      (career "p" (narrow.log (reuse.take 7))).map (·.status) =
        [.pending, .assigning, .processing, .completed] ∧
      ∃ r, (narrow.run reuse).get? "p" = some r ∧ r.owner = 2 ∧ r.completedAt = 12 ∧
        .assigning ∉ (career "p" (narrow.log reuse)).map (·.status) := by
  have hall : (CacheCall.clock reuse).all (0 < ·) = true := by decide
  have hpos : ∀ t ∈ CacheCall.clock reuse, 0 < t := fun t ht =>
    of_decide_eq_true (List.all_eq_true.mp hall t ht)
  have hclock : (CacheCall.clock reuse).Pairwise (· ≤ ·) := by decide
  have hlast : ((narrow.run reuse).get? "p").map (fun r => (r.owner, r.completedAt, r.assignedAt)) =
      some (2, 12, 0) := by decide
  obtain ⟨r, hr, hstamps⟩ := Option.map_eq_some_iff.mp hlast
  simp only [Prod.mk.injEq] at hstamps
  obtain ⟨howner, hcompleted, hzero⟩ := hstamps
  obtain ⟨-, -, -, -, -, -, -, hassigned, -⟩ := (careers_lawful 1 reuse hpos hclock).1 "p" r hr
  exact ⟨hpos, hclock, by decide, r, hr, howner, hcompleted, hassigned.mp hzero⟩

end Careers

end PromptGateway
