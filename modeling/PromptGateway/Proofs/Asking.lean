import PromptGateway.Proofs.Endings
import PromptGateway.Proofs.Exchange
import Mathlib.Logic.Function.Iterate

/-
  Requests that are handed over do not get in each other's way.

  When the next part of an answer is asked for, and the answer is closed out if it has ended,
  only what there is of that one request is looked at and changed, and it is changed where it
  stands.

    1. `ask` is the engine after one such question, and it says what happens to the stream, to
       the record and to the id in the queues, each on its own (`handled`).
    2. Questions about different requests can be exchanged (`ask_comm`).
    3. A hand-over is a number of questions. How many they are, and what comes of them, depends
       on what there is of the request and on nothing else (`handOver_spared`), and so it can be
       exchanged with a question about another request (`handOver_ask`).
-/

namespace PromptGateway

/-! ## Tables -/

namespace Table

variable {κ α : Type} [DecidableEq κ]

/-- Changes the value under a name, or takes it out. -/
def alter (t : Table κ α) (k : κ) (f : α → Option α) : Table κ α where
  entries := t.entries.filterMap fun x => if x.1 = k then (f x.2).map (x.1, ·) else some x
  nodup := by
    refine t.nodup.sublist ?_
    induction t.entries with
    | nil => exact .slnil
    | cons x xs ih =>
      rw [List.filterMap_cons]
      split
      · exact ih.cons _
      · next y hy =>
        have hname : y.1 = x.1 := by
          split at hy
          · obtain ⟨a, -, rfl⟩ := Option.map_eq_some_iff.mp hy
            rfl
          · cases hy
            rfl
        rw [List.map_cons, List.map_cons, hname]
        exact ih.cons_cons _

theorem find?_alter (t : Table κ α) (k : κ) (f : α → Option α) (j : κ) :
    (t.alter k f).find? j = if j = k then (t.find? k).bind f else t.find? j := by
  refine Option.ext fun b => ?_
  rw [← mem_entries_iff, alter, List.mem_filterMap]
  by_cases hj : j = k
  · subst hj
    rw [if_pos rfl, Option.bind_eq_some_iff]
    constructor
    · intro h
      obtain ⟨⟨n, a⟩, hmem, hb⟩ := h
      dsimp only at hb
      split at hb
      · next hn =>
        subst hn
        obtain ⟨c, hc, hpair⟩ := Option.map_eq_some_iff.mp hb
        cases hpair
        exact ⟨a, (t.mem_entries_iff _ a).mp hmem, hc⟩
      · next hn =>
        cases hb
        exact absurd rfl hn
    · intro h
      obtain ⟨a, ha, hb⟩ := h
      exact ⟨(j, a), (t.mem_entries_iff j a).mpr ha, by simp [hb]⟩
  · rw [if_neg hj, ← mem_entries_iff]
    constructor
    · intro h
      obtain ⟨⟨n, a⟩, hmem, hb⟩ := h
      dsimp only at hb
      split at hb
      · next hn =>
        obtain ⟨c, -, hpair⟩ := Option.map_eq_some_iff.mp hb
        cases hpair
        exact absurd hn hj
      · cases hb
        exact hmem
    · intro h
      exact ⟨(j, b), h, by simp [hj]⟩

/-- Values under different names can be changed in either order. -/
theorem alter_comm (t : Table κ α) {k l : κ} (h : k ≠ l) (f g : α → Option α) :
    (t.alter k f).alter l g = (t.alter l g).alter k f := by
  simp only [alter, mk.injEq, List.filterMap_filterMap]
  refine List.filterMap_congr fun x _ => ?_
  by_cases hk : x.1 = k
  · cases hf : f x.2 <;> simp [hk, hf, h]
  · by_cases hl : x.1 = l
    · cases hg : g x.2 <;> simp [hl, hg, h.symm]
    · simp [hk, hl]

theorem alter_some (t : Table κ α) (k : κ) : t.alter k some = t := by
  obtain ⟨entries, nodup⟩ := t
  simp [alter]

theorem erase_eq_alter (t : Table κ α) (k : κ) : t.erase k = t.alter k fun _ => none := by
  simp only [erase, alter, mk.injEq]
  rw [← List.filterMap_eq_filter]
  refine List.filterMap_congr fun x _ => ?_
  by_cases hk : x.1 = k <;> simp [hk]

theorem modify_eq_alter (t : Table κ α) (k : κ) (f : α → α) :
    t.modify k f = t.alter k fun a => some (f a) := by
  simp only [modify, alter, mk.injEq]
  rw [← List.filterMap_eq_map]
  refine List.filterMap_congr fun x _ => ?_
  by_cases hk : x.1 = k <;> simp [hk]

end Table

/-! ## Questions -/

/-- What is done to a request when the next part of its answer is asked for. -/
inductive Handling where
  /-- There is nothing for now. -/
  | leave
  /-- A fragment is handed out. -/
  | read
  /-- A failure is told. -/
  | drop
  /-- The answer has ended and is closed out. -/
  | close

namespace Handling

/-- What becomes of the stream. -/
def stream : Handling → TokenStream → Option TokenStream
  | leave, s => some s
  | read, s => some { s with cursor := s.cursor + 1 }
  | drop, _ | close, _ => none

/-- What becomes of the record. -/
def record : Handling → TaskRecord → Option TaskRecord
  | read, r => some { r with delivered := r.delivered + 1 }
  | leave, r | drop, r => some r
  | close, _ => none

/-- What becomes of a queue in which the id stands. -/
def ids (x : Handling) (id : RequestId) (l : List RequestId) : List RequestId :=
  match x with
  | leave | read | drop => l
  | close => l.erase id

theorem ids_comm (x y : Handling) (i j : RequestId) (l : List RequestId) :
    y.ids j (x.ids i l) = x.ids i (y.ids j l) := by
  cases x <;> cases y <;> simp [ids, List.erase_comm]

end Handling

/-- What is to be done to a request, by what there is of its answer. -/
def TokenStream.handling (s : TokenStream) : Handling :=
  if s.failure.isSome then .drop
  else if s.cursor < s.fragments.length then .read
  else if s.isDrained then .close
  else .leave

namespace Dispatcher

variable {d d' d'' : Dispatcher} {i j id : RequestId}

/-- The engine when a request has been dealt with. -/
def handled (d : Dispatcher) (id : RequestId) (x : Handling) : Dispatcher :=
  { d with
    streams := d.streams.alter id x.stream
    cache := { d.cache with tasks := d.cache.tasks.alter id x.record }
    queue := { d.queue with
      pending := x.ids id d.queue.pending
      processing := x.ids id d.queue.processing } }

/-- What is to be done to a request. -/
def handlingOf (d : Dispatcher) (id : RequestId) : Handling :=
  ((d.streams.find? id).map TokenStream.handling).getD .leave

/-- The engine when the next part of an answer has been asked for, and the answer has been
closed out if it has ended. -/
def ask (id : RequestId) (d : Dispatcher) : Dispatcher := d.handled id (d.handlingOf id)

theorem handled_leave (d : Dispatcher) (id : RequestId) : d.handled id .leave = d := by
  show { d with
    streams := d.streams.alter id some
    cache := { d.cache with tasks := d.cache.tasks.alter id some } } = d
  rw [Table.alter_some, Table.alter_some]

theorem handled_drop (d : Dispatcher) (id : RequestId) :
    d.handled id .drop = d.clearStream id := by
  show { d with
    streams := d.streams.alter id fun _ => none
    cache := { d.cache with tasks := d.cache.tasks.alter id some } } = d.clearStream id
  rw [Table.alter_some, ← Table.erase_eq_alter]
  rfl

theorem handled_close (d : Dispatcher) (id : RequestId) :
    d.handled id .close = (d.release id).clearStream id := by
  show { d with
    streams := d.streams.alter id fun _ => none
    cache := { d.cache with tasks := d.cache.tasks.alter id fun _ => none }
    queue := (d.queue.removePending id).removeProcessing id } = (d.release id).clearStream id
  rw [← Table.erase_eq_alter, ← Table.erase_eq_alter]
  rfl

theorem handled_read {s : TokenStream} (hs : d.streams.find? id = some s) :
    d.handled id .read =
      { d.setStream id { s with cursor := s.cursor + 1 } with
        cache := d.cache.modify id fun r => { r with delivered := r.delivered + 1 } } := by
  have hstream : d.streams.insert id { s with cursor := s.cursor + 1 } =
      d.streams.modify id fun s => { s with cursor := s.cursor + 1 } := by
    have hcontains : ¬ d.streams.contains id = false := by simp [Table.contains, hs]
    rw [Table.insert, dif_neg hcontains]
    refine d.streams.modify_congr id fun a ha => ?_
    cases hs.symm.trans ha
    rfl
  rw [setStream, hstream, TaskCache.modify, Table.modify_eq_alter, Table.modify_eq_alter]
  rfl

theorem handled_comm (d : Dispatcher) (hij : i ≠ j) (x y : Handling) :
    (d.handled i x).handled j y = (d.handled j y).handled i x := by
  simp only [handled, Table.alter_comm _ hij, Handling.ids_comm x y]

/-- What a question leaves, by its answer. -/
theorem ask_of_draws {o : Drain} (h : d.Draws id o d') :
    d.ask id = if o = .finished then (d.release id).clearStream id else d' := by
  have hstream : ∀ s, d.streams.find? id = some s → d.ask id = d.handled id s.handling := by
    intro s hs
    rw [ask, handlingOf, hs]
    rfl
  cases h with
  | untracked hs _ =>
    rw [ask, handlingOf, hs]
    exact handled_leave d id
  | unanswered hs _ =>
    rw [ask, handlingOf, hs]
    exact handled_leave d id
  | @failed s reason hs hfailure =>
    have hdrop : s.handling = .drop := by simp [TokenStream.handling, hfailure]
    rw [hstream s hs, hdrop]
    exact handled_drop d id
  | @fragment s f hs hfailure hf =>
    have hread : s.handling = .read := by
      have hlt := (List.getElem?_eq_some_iff.mp hf).1
      simp [TokenStream.handling, hfailure, hlt]
    rw [hstream s hs, hread]
    exact handled_read hs
  | @finished s hs hfailure hfinished hcursor =>
    have hclose : s.handling = .close := by
      simp [TokenStream.handling, TokenStream.isDrained, hfailure, hfinished, hcursor]
    rw [hstream s hs, hclose]
    exact handled_close d id
  | @unread s hs hfailure hle hd =>
    have hleave : s.handling = .leave := by
      simp [TokenStream.handling, hfailure, hd, Nat.not_lt_of_le hle]
    rw [hstream s hs, hleave]
    exact handled_leave d id

theorem ask_nextFragment (d : Dispatcher) (id : RequestId) :
    d.ask id =
      if (d.nextFragment id).1 = .finished then (d.release id).clearStream id
      else (d.nextFragment id).2 :=
  ask_of_draws (d.draws_nextFragment id)

theorem ask_of_nothing (h : (d.nextFragment id).1 = .nothing) : d.ask id = d := by
  have hdraws := d.draws_nextFragment id
  rw [h] at hdraws
  rw [ask_of_draws hdraws, if_neg (by simp), hdraws.eq_of_nothing]

/-! ## Others and the same -/

theorem streams_ask (d : Dispatcher) (id j : RequestId) :
    (d.ask id).streams.find? j =
      if j = id then (d.streams.find? id).bind (d.handlingOf id).stream else d.streams.find? j :=
  Table.find?_alter _ _ _ _

theorem get?_ask (d : Dispatcher) (id j : RequestId) :
    (d.ask id).cache.get? j =
      if j = id then (d.cache.get? id).bind (d.handlingOf id).record else d.cache.get? j :=
  Table.find?_alter _ _ _ _

/-- A question leaves as much of the other requests as there was. -/
theorem spared_ask (h : j ≠ id) : d.Spared (d.ask id) j :=
  ⟨by rw [get?_ask, if_neg h], by rw [streams_ask, if_neg h]⟩

namespace Spared

theorem trans (h : d.Spared d' id) (h' : d'.Spared d'' id) : d.Spared d'' id :=
  ⟨h'.1.trans h.1, h'.2.trans h.2⟩

theorem handlingOf (h : d.Spared d' id) : d'.handlingOf id = d.handlingOf id := by
  simp only [Dispatcher.handlingOf, h.2]

/-- Where there is as much of a request, there is the same answer. -/
theorem answer (h : d.Spared d' id) : (d'.nextFragment id).1 = (d.nextFragment id).1 := by
  have hcontains : d'.cache.contains id = d.cache.contains id := congrArg Option.isSome h.1
  simp only [nextFragment, h.2, hcontains]
  cases d.streams.find? id with
  | none =>
    dsimp only
    split
    · rfl
    · rfl
  | some s =>
    dsimp only
    split
    · rfl
    · split
      · rfl
      · split
        · rfl
        · rfl

/-- Where there is as much of a request, a question about it leaves as much of it. -/
theorem ask (h : d.Spared d' id) : (d.ask id).Spared (d'.ask id) id := by
  constructor
  · rw [get?_ask, get?_ask, h.handlingOf, h.1]
  · rw [streams_ask, streams_ask, h.handlingOf, h.2]

end Spared

/-- Questions about different requests can be exchanged. -/
theorem ask_comm (hij : i ≠ j) : Function.Commute (ask i) (ask j) := by
  intro d
  have hi : (d.ask j).handlingOf i = d.handlingOf i := (spared_ask hij).handlingOf
  have hj : (d.ask i).handlingOf j = d.handlingOf j := (spared_ask hij.symm).handlingOf
  rw [ask, hi, ask, ask, hj, ask]
  exact (d.handled_comm hij _ _).symm

/-! ## Hand-overs -/

/-- A hand-over, one question at a time. -/
theorem handOver_succ (d : Dispatcher) (now : Millis) (cap : Nat) (w : WaitingRequest) :
    d.handOver now (cap + 1) w =
      match (d.nextFragment w.id).1 with
      | .fragment f =>
        let (h, d) := (d.ask w.id).handOver now cap (w.gather f)
        ({ h with messages := w.reply f ++ h.messages, moved := h.moved + 1 }, d)
      | .finished => ({ remaining := none, messages := [w.ending] }, d.ask w.id)
      | .failed reason => ({ remaining := none, messages := [.failure w.id reason] }, d.ask w.id)
      | .nothing => ({ remaining := some w }, d.ask w.id) := by
  have hdraws := d.draws_nextFragment w.id
  have hask := d.ask_nextFragment w.id
  rw [handOver]
  rcases hn : d.nextFragment w.id with ⟨answer, d₁⟩
  rw [hn] at hask hdraws
  cases answer with
  | fragment f => simp [hask]
  | finished =>
    obtain rfl : d₁ = d := hdraws.eq_of_finished
    simp [hask, finishDelivery_eq]
  | failed reason => simp [hask]
  | nothing => simp [hask]

/-- A hand-over is a number of questions. How many, and which messages come of it, depends on
nothing but what there is of the request. -/
theorem handOver_spared (now now' : Millis) (cap : Nat) (w : WaitingRequest)
    (h : d.Spared d' w.id) :
    ∃ n, (d.handOver now cap w).2 = (ask w.id)^[n] d ∧
      d'.handOver now' cap w = ((d.handOver now cap w).1, (ask w.id)^[n] d') := by
  induction cap generalizing w d d' with
  | zero => exact ⟨0, rfl, rfl⟩
  | succ cap ih =>
    rw [handOver_succ, handOver_succ, h.answer]
    cases (d.nextFragment w.id).1 with
    | fragment f =>
      have hspared : (d.ask w.id).Spared (d'.ask w.id) (w.gather f).id := by
        rw [w.id_gather]
        exact h.ask
      obtain ⟨n, hn, hn'⟩ := ih (w.gather f) hspared
      rw [w.id_gather] at hn hn'
      refine ⟨n + 1, hn, ?_⟩
      dsimp only
      rw [hn']
      rfl
    | finished => exact ⟨1, rfl, rfl⟩
    | failed reason => exact ⟨1, rfl, rfl⟩
    | nothing => exact ⟨1, rfl, rfl⟩

/-- A question about one request and a hand-over of another can be exchanged. -/
theorem handOver_ask (now : Millis) (cap : Nat) {w : WaitingRequest} (h : w.id ≠ id) :
    (d.ask id).handOver now cap w =
      ((d.handOver now cap w).1, (d.handOver now cap w).2.ask id) := by
  obtain ⟨n, hn, hask⟩ := handOver_spared now now cap w (spared_ask (d := d) h)
  rw [hask, hn]
  exact congrArg _ ((ask_comm h).iterate_left n d)

/-- A hand-over leaves as much of the other requests as there was. -/
theorem spared_handOver (now : Millis) (cap : Nat) {w : WaitingRequest} (h : w.id ≠ id) :
    d.Spared (d.handOver now cap w).2 id := by
  have hself : d.Spared d w.id := ⟨rfl, rfl⟩
  obtain ⟨n, hn, -⟩ := handOver_spared now now cap w hself
  rw [hn]
  exact Function.Iterate.rec (fun d' => d.Spared d' id) ⟨rfl, rfl⟩
    (fun _ he => he.trans (spared_ask h.symm)) n

end Dispatcher

end PromptGateway
