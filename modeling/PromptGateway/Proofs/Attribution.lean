import PromptGateway.Proofs.Accounts
import PromptGateway.Proofs.Custody

/-
  Which lines of workers touch a task, and which worker they come from.

  A record says which worker its task was given to. The line of a worker is not held
  against that: a response or a failure goes to the live record whose id it names,
  whoever sent it. As long as a cancelled id is not used again, what its worker still
  says of it has no record to go to and is dropped. Once another client has been
  admitted under the id, it goes to that client.

    1. `Dispatcher.Spares` says of a line, and of nothing else, whether it leaves a task
       alone, and `untouched_iff` that this is exact.
    2. `attribution`: for every run of a gateway, the number of the worker decides nothing
       but what the pool notes (`ingest_eq_heard`), which lines touch a task, and where a
       late response goes.
-/

namespace PromptGateway

namespace Dispatcher

/-- Of one request, the record, the entries in the queues and the stream are the same. -/
structure Untouched (d d' : Dispatcher) (id : RequestId) : Prop where
  record : d'.cache.get? id = d.cache.get? id
  pending : id ∈ d'.queue.pending ↔ id ∈ d.queue.pending
  processing : id ∈ d'.queue.processing ↔ id ∈ d.queue.processing
  stream : d'.streams.find? id = d.streams.find? id

/-- Whether a line leaves a task alone. A response that names it does so if it comes at
the very time of its last progress and either its stream has ended or there is nothing in
the response; a failure that names it does not. -/
def Spares (d : Dispatcher) (now : Millis) (r : TaskRecord) :
    Except DecodeError WireMessage → Prop
  | .ok (.response m) =>
    m.id = r.id → r.lastProgressAt = now ∧
      (d.streamFinished r.id = true ∨ (m.fragment? = none ∧ m.finished = false))
  | .ok (.error e) => e.id = r.id → e.id = ""
  | _ => True

/-! ## The task that a line names -/

theorem Untouched.of_eq {d d' : Dispatcher} {id : RequestId}
    (hc : d'.cache.get? id = d.cache.get? id) (hq : d'.queue = d.queue)
    (hs : d'.streams.find? id = d.streams.find? id) : d.Untouched d' id :=
  ⟨hc, by rw [hq], by rw [hq], hs⟩

theorem Untouched.trans {d d' d'' : Dispatcher} {id : RequestId} (h : d.Untouched d' id)
    (h' : d'.Untouched d'' id) : d.Untouched d'' id :=
  ⟨h'.record.trans h.record, h'.pending.trans h.pending, h'.processing.trans h.processing,
    h'.stream.trans h.stream⟩

/-- The end of another task. -/
theorem untouched_ended (d : Dispatcher) {id j : RequestId} (hne : id ≠ j) {status : TaskStatus}
    (hst : status ≠ .cancelled) (message : String) : d.Untouched (d.ended j status message) id where
  record := by rw [cache_ended, TaskCache.get?_remove, if_neg hne]
  pending := by
    rw [queue_ended]
    exact List.mem_erase_of_ne hne
  processing := by
    rw [queue_ended]
    exact List.mem_erase_of_ne hne
  stream := by rw [find?_ended hst, if_neg hne]

/-- The record of a task that has made progress is as it was only if it made the same
progress before. -/
theorem progressed_eq_iff {r : TaskRecord} (hr : r.status = .pending ∨ r.status = .processing)
    (now : Millis) : TaskRecord.progressed now r = r ↔ r.lastProgressAt = now := by
  obtain ⟨⟩ := r
  rcases hr with hr | hr
  all_goals
    dsimp only at hr
    subst hr
    simp [TaskRecord.progressed, eq_comm]

/-- A response leaves a stream as it was only if the stream had ended or the response has
nothing in it. -/
theorem find?_absorb_eq_iff {d : Dispatcher} {m : TokenResponse}
    (hopen : d.streamFinished m.id = false) :
    (d.absorb m).streams.find? m.id = d.streams.find? m.id ↔
      m.fragment? = none ∧ m.finished = false := by
  rw [find?_absorb, if_pos rfl]
  split
  · next h => exact iff_of_true rfl h
  · next h =>
    refine iff_of_false (fun he => h ?_) h
    cases hs : d.streams.find? m.id with
    | none =>
      rw [hs] at he
      cases he
    | some s =>
      have hfin : s.finished = false := by simpa only [streamFinished, hs] using hopen
      rw [streamOf, hs, Option.getD_some, TokenStream.absorb_eq hfin, Option.some.injEq] at he
      have hfragments : s.fragments ++ m.fragment?.toList = s.fragments :=
        congrArg TokenStream.fragments he
      refine ⟨?_, (congrArg TokenStream.finished he).trans hfin⟩
      simpa using hfragments

theorem untouched_progress_iff {b : Bounds} {d d' : Dispatcher} (h : Listed b d.cache d.queue)
    {r : TaskRecord} (hr : d.cache.get? r.id = some r) {now : Millis}
    (hc : d'.cache = (d.progress r.id now).cache) (hq : d'.queue = d.queue) :
    d.Untouched d' r.id ↔
      r.lastProgressAt = now ∧ d'.streams.find? r.id = d.streams.find? r.id := by
  have hget : d'.cache.get? r.id = some (r.progressed now) := by
    rw [hc, progress, TaskCache.get?_modify, if_pos rfl, hr]
    rfl
  constructor
  · intro hu
    have hrecord := hu.record
    rw [hget, hr, Option.some.injEq] at hrecord
    exact ⟨(progressed_eq_iff (h.live r.id r hr) now).mp hrecord, hu.stream⟩
  · rintro ⟨hnow, hs⟩
    refine .of_eq ?_ hq hs
    rw [hget, hr, (progressed_eq_iff (h.live r.id r hr) now).mpr hnow]

theorem untouched_absorb_iff {b : Bounds} {d : Dispatcher} (h : Listed b d.cache d.queue)
    {r : TaskRecord} (hr : d.cache.get? r.id = some r) {now : Millis} {m : TokenResponse}
    (hopen : d.streamFinished m.id = false) :
    d.Untouched ((d.progress m.id now).absorb m) r.id ↔ d.Spares now r (.ok (.response m)) := by
  have hcache : ((d.progress m.id now).absorb m).cache = (d.progress m.id now).cache :=
    cache_absorb _ _
  have hqueue : ((d.progress m.id now).absorb m).queue = d.queue := queue_absorb _ _
  by_cases hid : m.id = r.id
  · have hstream := find?_absorb_eq_iff (d := d.progress m.id now) (m := m) hopen
    have hu := untouched_progress_iff h hr
      (hcache.trans (congrArg (fun id => (d.progress id now).cache) hid)) hqueue
    rw [hid] at hstream hopen
    rw [hid] at hu ⊢
    refine hu.trans ⟨fun hu _ => ⟨hu.1, .inr (hstream.mp hu.2)⟩, fun hs => ?_⟩
    obtain ⟨hnow, hs⟩ := hs hid
    refine ⟨hnow, hstream.mpr (hs.resolve_left ?_)⟩
    rw [hopen]
    exact Bool.noConfusion
  · have hne : r.id ≠ m.id := fun e => hid e.symm
    refine iff_of_true (.of_eq ?_ hqueue ?_) fun e => absurd e hid
    · rw [hcache, progress, TaskCache.get?_modify, if_neg hne]
    · rw [find?_absorb, if_neg hne]
      rfl

/-- A line leaves a task alone exactly if it spares it. -/
theorem untouched_iff {b : Bounds} {d : Dispatcher} (h : Listed b d.cache d.queue)
    {r : TaskRecord} (hr : d.cache.get? r.id = some r) (now : Millis)
    (message : Except DecodeError WireMessage) :
    d.Untouched (d.heard now message).2 r.id ↔ d.Spares now r message := by
  have hh := hears_heard d now message
  generalize (d.heard now message).1 = outcome at hh
  generalize (d.heard now message).2 = d' at hh ⊢
  -- nothing happens to the engine, and the line is not about the task
  have spared : d.Spares now r message → d' = d → (d.Untouched d' r.id ↔ d.Spares now r message) :=
    fun hs hd => iff_of_true (hd ▸ .of_eq rfl rfl rfl) hs
  have other : ∀ {m : TokenResponse}, m.id ≠ r.id →
      (d.progress m.id now).cache.get? r.id = d.cache.get? r.id := by
    intro m hm
    rw [progress, TaskCache.get?_modify, if_neg fun e => hm e.symm]
  cases hh with
  | undecodable => exact spared trivial rfl
  | status => exact spared trivial rfl
  | heartbeat => exact spared trivial rfl
  | request => exact spared trivial rfl
  | task => exact spared trivial rfl
  | unnamed hn => exact spared (fun _ => hn) rfl
  | orphan hg =>
    refine spared (fun hid => ?_) rfl
    rw [hid, hr] at hg
    cases hg
  | stray hn hno =>
    -- a live task can always fail, so the failure is of another one
    refine spared (fun hid => ?_) rfl
    have hmove := hno r (hid ▸ hr)
    rcases h.live r.id r hr with hst | hst <;> rw [hst] at hmove <;> cases hmove
  | @failed e t hn hg hm =>
    by_cases hid : e.id = r.id
    · refine iff_of_false (fun hu => ?_) fun hs => hn (hs hid)
      have hrecord := hu.record
      rw [cache_ended, TaskCache.get?_remove, if_pos hid.symm, hr] at hrecord
      cases hrecord
    · exact iff_of_true (d.untouched_ended (fun e => hid e.symm) (by decide) _)
        fun e => absurd e hid
  | @late m t hg hfin =>
    by_cases hid : m.id = r.id
    · have hu : d.Untouched (d.progress m.id now) r.id ↔ _ := untouched_progress_iff h hr
        (congrArg (fun id => (d.progress id now).cache) hid) rfl
      rw [hid] at hfin
      exact hu.trans ⟨fun hu _ => ⟨hu.1, .inl hfin⟩, fun hs => ⟨(hs hid).1, rfl⟩⟩
    · exact iff_of_true (.of_eq (other hid) rfl rfl) fun e => absurd e hid
  | @more m t hg hopen hm => exact untouched_absorb_iff h hr hopen
  | @last m t hg hopen hm => exact untouched_absorb_iff h hr hopen

/-! ## Where a response goes -/

theorem streamFinished_eq (d : Dispatcher) (id : RequestId) :
    d.streamFinished id = (d.streamOf id).finished := by
  unfold streamFinished streamOf
  cases d.streams.find? id <;> rfl

/-- A response is dropped as orphaned exactly if no record has its id. -/
theorem ingestResponse_orphaned_iff (d : Dispatcher) (now : Millis) (m : TokenResponse) :
    (d.ingestResponse now m).1 = .orphaned m.id ↔ d.cache.get? m.id = none := by
  have hh := hears_ingestResponse d now m
  generalize (d.ingestResponse now m).1 = outcome at hh ⊢
  generalize (d.ingestResponse now m).2 = d' at hh
  cases hh with
  | orphan hg => exact iff_of_true rfl hg
  | late hg _ => simp [hg]
  | more hg _ _ => simp [hg]
  | last hg _ _ => simp [hg]

/-- A fragment goes to the end of the stream of the live request that it names, and the
request stays with its owner. -/
theorem ingestResponse_fragment {d : Dispatcher} {m : TokenResponse} {r : TaskRecord} {f : String}
    (hr : d.cache.get? m.id = some r) (hf : m.fragment? = some f)
    (hopen : d.streamFinished m.id = false) (now : Millis) :
    (d.ingestResponse now m).2.tokens m.id = d.tokens m.id ++ [f] ∧
      (d.ingestResponse now m).2.cache.get? m.id = some (r.progressed now) := by
  have hd : (d.ingestResponse now m).2 = (d.progress m.id now).absorb m := by
    rw [ingestResponse_eq hr, hopen, if_neg Bool.false_ne_true]
    split <;> rfl
  have hcarries : ¬ (m.fragment? = none ∧ m.finished = false) := by
    rw [hf]
    exact fun h => Option.some_ne_none f h.1
  constructor
  · have hfin : (d.streamOf m.id).finished = false := (d.streamFinished_eq m.id).symm.trans hopen
    rw [hd, tokens, streamOf, find?_absorb, if_pos rfl, if_neg hcarries, Option.getD_some]
    show ((d.streamOf m.id).absorb m).fragments = _
    rw [TokenStream.absorb_eq hfin, hf]
    rfl
  · rw [hd, absorb, if_neg hcarries]
    show (d.progress m.id now).cache.get? m.id = _
    rw [progress, TaskCache.get?_modify, if_pos rfl, hr]
    rfl

end Dispatcher

/-- Which lines touch a task. In every state that a gateway reaches and for every line:

what the line does to records, queues and streams does not depend on the worker that it
comes from, whichever worker the task was given to, if any;

a live task is left alone exactly if the line spares it, which is to say that it does not
name the task or has nothing to say about it;

and a response is dropped as orphaned exactly if no record has its id. Otherwise its
fragment goes into the stream of whoever owns the id by then. -/
theorem attribution (settings : Settings) (firstId : Nat) (events : List Event) (now : Millis)
    (line : String) :
    let d := ((Frontend.create (Gateway.create settings) firstId).run events).gateway.dispatcher
    (∀ worker worker', (d.ingest now worker line).1 = (d.ingest now worker' line).1 ∧
      ∃ p, (d.ingest now worker line).2 = (d.ingest now worker' line).2.withPool p) ∧
    (∀ id r, d.cache.get? id = some r → ∀ worker,
      (d.Untouched (d.ingest now worker line).2 id ↔
        d.Spares now r (WireMessage.decode line))) ∧
    ∀ m, WireMessage.decode line = .ok (.response m) → ∀ worker,
      ((d.ingest now worker line).1 = .orphaned m.id ↔ d.cache.get? m.id = none) ∧
      ∀ r f, d.cache.get? m.id = some r → m.fragment? = some f →
        d.streamFinished m.id = false →
        (d.ingest now worker line).2.tokens m.id = d.tokens m.id ++ [f] ∧
        ∃ r', (d.ingest now worker line).2.cache.get? m.id = some r' ∧ r'.owner = r.owner := by
  intro d
  have h : ((Frontend.create (Gateway.create settings) firstId).run events).exchange.Held :=
    Frontend.held_run settings firstId events
  obtain ⟨b, hb⟩ : ∃ b, Listed b d.cache d.queue := h.listed
  refine ⟨fun worker worker' => ?_, fun id r hr worker => ?_, fun m hm worker => ?_⟩
  · obtain ⟨p, hp⟩ := d.ingest_eq_heard now worker line
    obtain ⟨p', hp'⟩ := d.ingest_eq_heard now worker' line
    rw [hp, hp']
    exact ⟨rfl, p, rfl⟩
  · obtain ⟨p, hp⟩ := d.ingest_eq_heard now worker line
    obtain rfl := hb.own_id id r hr
    rw [hp]
    have hiff := Dispatcher.untouched_iff hb hr now (WireMessage.decode line)
    refine Iff.trans ⟨?_, ?_⟩ hiff
    · exact fun hu => ⟨hu.record, hu.pending, hu.processing, hu.stream⟩
    · exact fun hu => ⟨hu.record, hu.pending, hu.processing, hu.stream⟩
  · obtain ⟨p, hp⟩ := d.ingest_eq_heard now worker line
    rw [hp, hm]
    refine ⟨d.ingestResponse_orphaned_iff now m, fun r f hr hf hopen => ?_⟩
    obtain ⟨htokens, hrecord⟩ := Dispatcher.ingestResponse_fragment hr hf hopen now
    exact ⟨htokens, _, hrecord, rfl⟩

/-- A client asks for `p` and leaves while worker 0 is at it; another client asks for `p`,
which worker 1 is given. Then worker 0 answers, and the second client is served. -/
def reusedId : List Event :=
  let ask : Link :=
    { Link.fresh with
      inbound := Bytes.ofString "\x7b\"type\":\"request\",\"id\":\"p\",\"stream\":true\x7d\n" }
  let moment : Moment := { now := 0, newId := fun _ => "" }
  let workers : WorkerPool :=
    { maxWorkers := 2
      slots := [{ address := "a", link := 0, lastSeen := 0 },
        { address := "b", link := 1, lastSeen := 0 }]
      links := [.fresh, .fresh] }
  [.backend (.pool workers),
    .accept ask, .receive 3 moment, .assignmentTick 0, .disconnect 3 0,
    .accept ask, .receive 4 moment, .assignmentTick 0,
    .backend (.hear 0 0 "\x7b\"type\":\"response\",\"id\":\"p\",\"token\":\"late\"\x7d"),
    .deliver 4 8 0]

set_option maxRecDepth 100000 in
/-- The late answer of worker 0 is delivered to the client whose task worker 1 has. -/
theorem late_answer_reaches_next_owner :
    let start := Frontend.create (Gateway.create {}) 3
    ((start.run (reusedId.take 8)).gateway.dispatcher.cache.get? "p").map
        (fun r => (r.owner, r.worker)) = some (4, some 1) ∧
      start.runLog reusedId =
        [.admitted 3 "p" true, .admitted 4 "p" true, .ingested "p" (some "late") false,
          .queued 4 "p" (.token "p" "late")] := by
  decide +kernel

end PromptGateway
