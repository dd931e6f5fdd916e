import PromptGateway.Proofs.Engine

/-
  Runs of the dispatch engine.

  The engine is called from two sides. The loops that serve the workers assign,
  take in lines, fail the tasks of lost workers and sweep for timeouts; meanwhile
  anything may happen to the connections of the workers. The loop that serves the
  clients admits, draws answers, closes them out and cancels. A run is any list of
  these calls, one after the other, each with any arguments.
-/

namespace PromptGateway

/-- A call from the side of the workers. -/
inductive BackendCall where
  | assign (now : Millis)
  | hear (now : Millis) (worker : Nat) (line : String)
  | failWorker (worker : Nat) (now : Millis)
  | sweep (now : Millis) (timeoutMs : Nat) (clock : Millis)
  /-- Whatever may happen to the connections of the workers. -/
  | pool (p : WorkerPool)

/-- A call of the engine. -/
inductive Call where
  | backend (b : BackendCall)
  | submit (m : Moment) (r : InferenceRequest) (owner : ConnectionId)
  | nextFragment (id : RequestId)
  | finishDelivery (id : RequestId) (now : Millis)
  | cancelConnection (owner : ConnectionId) (now : Millis)

namespace Dispatcher

/-- The engine after a call from the side of the workers. -/
def applyBackend (d : Dispatcher) : BackendCall → Dispatcher
  | .assign now => (d.assignNext now).2
  | .hear now worker line => (d.ingest now worker line).2
  | .failWorker worker now => (d.failWorkerTasks worker now).2
  | .sweep now timeoutMs clock => (d.sweepTimeouts now timeoutMs clock).2
  | .pool p => d.withPool p

/-- The engine after a call. -/
def apply (d : Dispatcher) : Call → Dispatcher
  | .backend b => d.applyBackend b
  | .submit m r owner =>
    match d.admitRequest m r owner with
    | .ok (_, d) => d
    | .error _ => d
  | .nextFragment id => (d.nextFragment id).2
  | .finishDelivery id now => d.finishDelivery id now
  | .cancelConnection owner now => (d.cancelConnection owner now).2

/-- The engine after a list of calls. -/
def run (d : Dispatcher) (calls : List Call) : Dispatcher := calls.foldl apply d

/-- The engine after a list of calls from the side of the workers. -/
def runBackend (d : Dispatcher) (calls : List BackendCall) : Dispatcher :=
  calls.foldl applyBackend d

/-- What every call keeps, every run keeps. -/
theorem run_induction {P : Dispatcher → Prop} (step : ∀ d c, P d → P (d.apply c))
    {d : Dispatcher} (calls : List Call) (h : P d) : P (d.run calls) := by
  induction calls generalizing d with
  | nil => exact h
  | cons c calls ih => exact ih (step d c h)

/-- What a call from the side of the workers keeps, if it is no assignment: it is enough to
look at the four things such calls are made of. -/
theorem applyBackend_unassigned {P : Dispatcher → Prop} {b : BackendCall}
    (hb : ∀ now, b ≠ .assign now)
    (pool : ∀ d p, P d → P (d.withPool p))
    (ended : ∀ d id status message r, P d → d.cache.get? id = some r →
      r.status.canMove status = true → status ≠ .cancelled → P (d.ended id status message))
    (progress : ∀ d id now r, P d → d.cache.get? id = some r → P (d.progress id now))
    (absorb : ∀ d (r : TokenResponse) t, P d → d.cache.get? r.id = some t →
      d.streamFinished r.id = false → P (d.absorb r))
    {d : Dispatcher} (h : P d) : P (d.applyBackend b) := by
  cases b with
  | assign now => exact absurd rfl (hb now)
  | hear now worker line =>
    obtain ⟨p, hp⟩ := d.ingest_eq_heard now worker line
    show P (d.ingest now worker line).2
    rw [hp]
    refine pool _ p ?_
    have hh := d.hears_heard now (WireMessage.decode line)
    generalize (d.heard now (WireMessage.decode line)).1 = o at hh
    generalize (d.heard now (WireMessage.decode line)).2 = d' at hh ⊢
    generalize WireMessage.decode line = message at hh
    cases hh with
    | late hg hf => exact progress _ _ _ _ h hg
    | more hg hf hr =>
      exact absorb _ _ _ (progress _ _ _ _ h hg)
        (by rw [Dispatcher.progress, TaskCache.get?_modify, if_pos rfl, hg]; rfl) hf
    | last hg hf hr =>
      exact absorb _ _ _ (progress _ _ _ _ h hg)
        (by rw [Dispatcher.progress, TaskCache.get?_modify, if_pos rfl, hg]; rfl) hf
    | failed hn hg hm => exact ended _ _ _ _ _ h hg hm (by decide)
    | undecodable => exact h
    | orphan hg => exact h
    | stray hn hg => exact h
    | unnamed hn => exact h
    | status => exact h
    | heartbeat => exact h
    | request => exact h
    | task => exact h
  | failWorker worker now =>
    refine endEach_induction (fun d d' id hd he => ?_) _ h
    obtain ⟨⟨r, hr, hm⟩, rfl⟩ := endTask?_eq_some_iff.mp he
    exact ended _ _ _ _ r hd hr hm (by decide)
  | sweep now timeoutMs clock =>
    refine endEach_induction (fun d d' id hd he => ?_) _ h
    obtain ⟨⟨r, hr, hm⟩, rfl⟩ := endTask?_eq_some_iff.mp he
    exact ended _ _ _ _ r hd hr hm (by decide)
  | pool p => exact pool _ _ h

/-- What a call from the side of the workers keeps. -/
theorem applyBackend_induction {P : Dispatcher → Prop} (b : BackendCall)
    (pool : ∀ d p, P d → P (d.withPool p))
    (ended : ∀ d id status message r, P d → d.cache.get? id = some r →
      r.status.canMove status = true → status ≠ .cancelled → P (d.ended id status message))
    (progress : ∀ d id now r, P d → d.cache.get? id = some r → P (d.progress id now))
    (absorb : ∀ d (r : TokenResponse) t, P d → d.cache.get? r.id = some t →
      d.streamFinished r.id = false → P (d.absorb r))
    (assigns : ∀ d now o d', P d → d.Assigns now o d' → P d')
    {d : Dispatcher} (h : P d) : P (d.applyBackend b) := by
  by_cases hb : ∃ now, b = .assign now
  · obtain ⟨now, rfl⟩ := hb
    exact assigns _ _ _ _ h (assigns_assignNext d now)
  · exact applyBackend_unassigned (fun now he => hb ⟨now, he⟩) pool ended progress absorb h

end Dispatcher

end PromptGateway
