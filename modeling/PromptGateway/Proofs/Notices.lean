import PromptGateway.Proofs.Dispatch
import Mathlib.Data.List.Induction
import Mathlib.Data.List.Nodup

/-
  What is noted of the connections of a pool.

  A connection to a worker can be lost while a line is sent or while the worker is read from.
  The index of the worker is put on a list then, the list is handed out when the losses are
  asked for, and only after that may another worker take over the slot, with another connection
  under the same index. A notice tells of a worker that was added, of a loss, or of a report;
  a loss is whatever slot was connected before a message or a sweep and is not afterwards.

    1. `holder` and `outstanding` read off the notices which connection goes with an index, and
       which losses are still to be reported.
    2. `Follows` says what a notice may come after, and `Told` that all of them do.
    3. Of such notices it follows that what was lost has been reported, in that order and once,
       or is still to be reported (`Told.reported_append_outstanding`): the first report after
       a loss names it, and no other one does (`Told.first_report`).
-/

namespace PromptGateway

/-- One thing that can happen to a pool: a call that writes nothing, or whatever happens on a
connection, or a message to a worker. -/
inductive PoolAct where
  | call (c : PoolCall)
  | send (index : Nat) (payload : Bytes)

/-- What is noted of the connections of a pool. -/
inductive Notice where
  /-- A worker was added under an index, with a connection of its own. -/
  | added (index link : Nat)
  /-- A worker was lost, and with it the connection that its slot had. -/
  | lost (index link : Nat)
  /-- The losses were asked for: the indices that were handed out, and the connection that the
  slot of each had at that time. -/
  | reported (losses : List (Nat × Option Nat))
  deriving DecidableEq

namespace WorkerPool

/-- The pool after an act. -/
def act (p : WorkerPool) : PoolAct → WorkerPool
  | .call c => p.apply c
  | .send index payload => (p.send index payload).2

/-- The pool after a list of acts. -/
def perform (p : WorkerPool) (acts : List PoolAct) : WorkerPool := acts.foldl act p

/-- The connection of a slot. -/
def linkAt? (p : WorkerPool) (i : Nat) : Option Nat := (p.slots[i]?).map (·.link)

/-- The loss of the connection of a slot, if it was connected and is not any more. -/
def lossAt? (p p' : WorkerPool) (i : Nat) : Option Notice :=
  (p.slots[i]?).bind fun s =>
    if s.connected && !p'.isConnected i then some (.lost i s.link) else none

/-- The connections that have been lost from one pool to a later one. -/
def losses (p p' : WorkerPool) : List Notice :=
  (List.range p.slots.length).filterMap (p.lossAt? p')

/-- What is noted of an act. -/
def notices (p : WorkerPool) : PoolAct → List Notice
  | .call (.add network now address) =>
    match p.addWorker network now address with
    | .ok (index, _) => [.added index p.links.length]
    | .error _ => []
  | .call .drain => [.reported (p.drainDisconnected.1.map fun i => (i, p.linkAt? i))]
  | .call .poll => p.losses p.pollAll.2
  | .send index payload => p.losses (p.send index payload).2
  | .call _ => []

/-- What is noted of a list of acts. -/
def record (p : WorkerPool) (acts : List PoolAct) : List Notice := journal act notices p acts

end WorkerPool

/-! ## Notices -/

/-- The connection of the worker that was added last under an index. -/
def holder (i : Nat) (log : List Notice) : Option Nat :=
  log.foldl (fun held n => match n with
    | .added j c => if j = i then some c else held
    | .lost _ _ | .reported _ => held) none

/-- The losses since the last report, each with its index and its connection. -/
def outstanding (log : List Notice) : List (Nat × Nat) :=
  log.foldl (fun losses n => match n with
    | .added _ _ => losses
    | .lost i c => losses ++ [(i, c)]
    | .reported _ => []) []

/-- All connections that were lost. -/
def lostLinks (log : List Notice) : List Nat :=
  log.flatMap fun
    | .lost _ c => [c]
    | .added _ _ | .reported _ => []

/-- All connections that were reported. -/
def reportedLinks (log : List Notice) : List (Option Nat) :=
  log.flatMap fun
    | .reported losses => losses.map (·.2)
    | .added _ _ | .lost _ _ => []

/-- Whether a notice reports the loss of a connection. -/
def Notice.reports (c : Nat) : Notice → Bool
  | reported losses => losses.any (·.2 == some c)
  | added _ _ | lost _ _ => false

/-- Whether a notice is a report. -/
def Notice.isReport : Notice → Bool
  | reported _ => true
  | added _ _ | lost _ _ => false

/-- A notice that may come after others: a worker gets a new connection, under an index of which
no loss is outstanding; the connection that is lost is the one of its index, and it was not lost
before; and a report names what is outstanding. -/
def Follows (before : List Notice) : Notice → Prop
  | .added i c => (∀ x ∈ outstanding before, x.1 ≠ i) ∧ ∀ j, .added j c ∉ before
  | .lost i c => holder i before = some c ∧ c ∉ lostLinks before
  | .reported losses => losses = (outstanding before).map fun x => (x.1, some x.2)

/-- Every notice follows those before it. -/
def Told (log : List Notice) : Prop :=
  ∀ before n after, log = before ++ n :: after → Follows before n

theorem holder_append (i : Nat) (log : List Notice) (n : Notice) :
    holder i (log ++ [n]) = match n with
      | .added j c => if j = i then some c else holder i log
      | .lost _ _ | .reported _ => holder i log := by
  rw [holder, List.foldl_append]
  rfl

theorem outstanding_append (log : List Notice) (n : Notice) :
    outstanding (log ++ [n]) = match n with
      | .added _ _ => outstanding log
      | .lost i c => outstanding log ++ [(i, c)]
      | .reported _ => [] := by
  rw [outstanding, List.foldl_append]
  rfl

theorem added_of_holder {i c : Nat} {log : List Notice} (h : holder i log = some c) :
    .added i c ∈ log := by
  induction log using List.reverseRecOn with
  | nil => cases h
  | append_singleton log n ih =>
    rw [holder_append] at h
    rw [List.mem_append, List.mem_singleton]
    cases n with
    | added j c' =>
      dsimp only at h
      split at h
      · next hj =>
        cases h
        exact .inr (hj ▸ rfl)
      · exact .inl (ih h)
    | lost j c' => exact .inl (ih h)
    | reported losses => exact .inl (ih h)

/-- A loss is outstanding until the next report. -/
theorem mem_outstanding {i c : Nat} (before : List Notice) {mid : List Notice}
    (h : ∀ n ∈ mid, n.isReport = false) : (i, c) ∈ outstanding (before ++ .lost i c :: mid) := by
  induction mid using List.reverseRecOn with
  | nil =>
    rw [outstanding_append]
    exact List.mem_append_right _ (List.mem_singleton_self _)
  | append_singleton mid n ih =>
    have hmid := ih fun n hn => h n (List.mem_append_left _ hn)
    rw [← List.cons_append, ← List.append_assoc, outstanding_append]
    cases n with
    | added j c' => exact hmid
    | lost j c' => exact List.mem_append_left _ hmid
    | reported losses => cases h (.reported losses) (by simp)

theorem mem_lostLinks {c : Nat} {log : List Notice} : c ∈ lostLinks log ↔ ∃ i, .lost i c ∈ log := by
  rw [lostLinks, List.mem_flatMap]
  constructor
  · rintro ⟨n, hn, hc⟩
    cases n with
    | lost i c' =>
      cases List.mem_singleton.mp hc
      exact ⟨i, hn⟩
    | added j c' => cases hc
    | reported losses => cases hc
  · rintro ⟨i, hi⟩
    exact ⟨_, hi, List.mem_singleton_self c⟩

theorem lost_of_outstanding {log : List Notice} {x : Nat × Nat} (hx : x ∈ outstanding log) :
    .lost x.1 x.2 ∈ log := by
  induction log using List.reverseRecOn with
  | nil => cases hx
  | append_singleton log n ih =>
    rw [outstanding_append] at hx
    rw [List.mem_append, List.mem_singleton]
    cases n with
    | added j c => exact .inl (ih hx)
    | lost j c =>
      rcases List.mem_append.mp hx with hx | hx
      · exact .inl (ih hx)
      · cases List.mem_singleton.mp hx
        exact .inr rfl
    | reported losses => cases hx

theorem length_reports_le (c : Nat) (log : List Notice) :
    (log.filter (Notice.reports c)).length ≤ (reportedLinks log).count (some c) := by
  induction log with
  | nil => exact Nat.le_refl _
  | cons n log ih =>
    rw [reportedLinks, List.flatMap_cons, List.count_append, ← reportedLinks, List.filter_cons]
    cases n with
    | added j c' => simpa [Notice.reports] using ih
    | lost j c' => simpa [Notice.reports] using ih
    | reported losses =>
      dsimp only
      split
      · next hr =>
        have hpos : 0 < (losses.map (·.2)).count (some c) := by
          rw [List.count_pos_iff]
          simpa [Notice.reports] using hr
        rw [List.length_cons]
        omega
      · omega

namespace Told

variable {log : List Notice}

theorem concat (h : Told log) {n : Notice} (hn : Follows log n) : Told (log ++ [n]) := by
  intro before m after hsplit
  rcases List.eq_nil_or_concat after with rfl | ⟨after, last, rfl⟩
  · obtain ⟨rfl, hm⟩ := List.append_inj' hsplit rfl
    cases hm
    exact hn
  · rw [List.concat_eq_append, ← List.cons_append, ← List.append_assoc] at hsplit
    exact h before m after (List.append_inj' hsplit rfl).1

theorem left {before after : List Notice} (h : Told (before ++ after)) : Told before := by
  intro b n a hsplit
  exact h b n (a ++ after) (by rw [hsplit, List.append_assoc]; rfl)

/-- Only a connection that was made is lost. -/
theorem added_of_lost (h : Told log) {c : Nat} (hc : c ∈ lostLinks log) :
    ∃ i, .added i c ∈ log := by
  obtain ⟨i, hi⟩ := mem_lostLinks.mp hc
  obtain ⟨before, after, rfl⟩ := List.append_of_mem hi
  exact ⟨i, List.mem_append_left _ (added_of_holder (h before _ after rfl).1)⟩

/-- What was lost has been reported, in that order, or is outstanding. -/
theorem reported_append_outstanding (h : Told log) :
    reportedLinks log ++ (outstanding log).map (fun x => some x.2) = (lostLinks log).map some := by
  induction log using List.reverseRecOn with
  | nil => rfl
  | append_singleton log n ih =>
    have ih := ih h.left
    have hn := h log n [] rfl
    rw [outstanding_append, lostLinks, reportedLinks, List.flatMap_append, List.flatMap_append,
      ← lostLinks, ← reportedLinks]
    cases n with
    | added j c => simpa using ih
    | lost j c => simp [← ih]
    | reported losses =>
      rw [Follows] at hn
      simp [hn, ← ih, Function.comp_def]

/-- No connection is lost twice. -/
theorem nodup_lostLinks (h : Told log) : (lostLinks log).Nodup := by
  induction log using List.reverseRecOn with
  | nil => exact List.nodup_nil
  | append_singleton log n ih =>
    have ih := ih h.left
    have hn := h log n [] rfl
    rw [lostLinks, List.flatMap_append, ← lostLinks]
    cases n with
    | added j c => simpa using ih
    | lost j c =>
      have hnew : c ∉ lostLinks log := hn.2
      simp only [List.flatMap_singleton, List.nodup_append, List.mem_singleton, List.nodup_singleton,
        true_and]
      exact ⟨ih, fun a ha b hb hab => hnew (by rw [← hb, ← hab]; exact ha)⟩
    | reported losses => simpa using ih

/-- Of all that was lost nothing is reported twice, or reported and outstanding. -/
theorem nodup_reported_append_outstanding (h : Told log) :
    (reportedLinks log ++ (outstanding log).map fun x => some x.2).Nodup := by
  rw [h.reported_append_outstanding]
  exact h.nodup_lostLinks.map fun _ _ => Option.some.inj

theorem count_reportedLinks_le (h : Told log) (c : Nat) : (reportedLinks log).count (some c) ≤ 1 :=
  List.nodup_iff_count_le_one.mp (List.nodup_append.mp h.nodup_reported_append_outstanding).1 _

theorem length_reports_le_one (h : Told log) (c : Nat) :
    (log.filter (Notice.reports c)).length ≤ 1 :=
  Nat.le_trans (length_reports_le c log) (h.count_reportedLinks_le c)

/-- The report of a connection is the only one. -/
theorem reports_eq_of_mem (h : Told log) {c : Nat} {n : Notice} (hn : n ∈ log)
    (hr : n.reports c = true) : log.filter (Notice.reports c) = [n] := by
  have hmem : n ∈ log.filter (Notice.reports c) := List.mem_filter.mpr ⟨hn, hr⟩
  obtain ⟨m, hm⟩ := List.length_eq_one_iff.mp
    (Nat.le_antisymm (h.length_reports_le_one c) (List.length_pos_of_mem hmem))
  rw [hm, List.mem_singleton] at hmem
  rw [hm, hmem]

/-- A connection is not reported while it is outstanding, nor if it was not lost. -/
theorem reports_eq_nil (h : Told log) {c : Nat}
    (hc : c ∈ lostLinks log → ∃ i, (i, c) ∈ outstanding log) :
    log.filter (Notice.reports c) = [] := by
  have hcount : (reportedLinks log).count (some c) = 0 := by
    rw [List.count_eq_zero]
    intro hmem
    have hlost : some c ∈ (lostLinks log).map some := by
      rw [← h.reported_append_outstanding]
      exact List.mem_append_left _ hmem
    obtain ⟨i, hi⟩ := hc (by simpa using hlost)
    have hdisjoint := (List.nodup_append.mp h.nodup_reported_append_outstanding).2.2
    exact hdisjoint _ hmem _ (List.mem_map_of_mem hi) rfl
  have hlen := length_reports_le c log
  rw [hcount] at hlen
  exact List.eq_nil_of_length_eq_zero (Nat.le_zero.mp hlen)

/-- As long as a loss is outstanding no worker is added under its index. -/
theorem added_not_mem (h : Told log) {before mid : List Notice} {i c c' : Nat}
    (hlog : log = before ++ .lost i c :: mid) (hmid : ∀ n ∈ mid, n.isReport = false) :
    .added i c' ∉ mid := by
  intro hmem
  obtain ⟨early, late, rfl⟩ := List.append_of_mem hmem
  have hfollows : Follows (before ++ .lost i c :: early) (.added i c') :=
    h _ _ late (by rw [hlog]; simp)
  refine hfollows.1 (i, c) (mem_outstanding before fun n hn => hmid n ?_) rfl
  exact List.mem_append_left _ hn

/-- A loss is of a connection that was made under its index. -/
theorem added_before_lost (h : Told log) {before after : List Notice} {i c : Nat}
    (hlog : log = before ++ .lost i c :: after) : .added i c ∈ before :=
  added_of_holder (h before _ after hlog).1

/-- What is in a report was lost before it, and nothing is in it twice. -/
theorem of_reported (h : Told log) {before after : List Notice} {losses : List (Nat × Option Nat)}
    (hlog : log = before ++ .reported losses :: after) :
    losses.Nodup ∧ ∀ x ∈ losses, ∃ c, x.2 = some c ∧ .lost x.1 c ∈ before := by
  have hfollows : losses = _ := h before _ after hlog
  rw [hfollows]
  refine ⟨?_, ?_⟩
  · have hbefore : Told before := left (hlog ▸ h)
    have hlinks := (List.nodup_append.mp hbefore.nodup_reported_append_outstanding).2.1
    refine List.Nodup.of_map (·.2) ?_
    rwa [List.map_map]
  · intro x hx
    obtain ⟨y, hy, rfl⟩ := List.mem_map.mp hx
    exact ⟨y.2, rfl, lost_of_outstanding hy⟩

/-- As long as no report follows a loss it is not reported, and its index is not given to
another worker. -/
theorem unreported (h : Told log) {before after : List Notice} {i c : Nat}
    (hlog : log = before ++ .lost i c :: after) (hafter : ∀ n ∈ after, n.isReport = false) :
    log.filter (Notice.reports c) = [] ∧ ∀ c', .added i c' ∉ after := by
  refine ⟨h.reports_eq_nil fun _ => ⟨i, ?_⟩, fun c' => h.added_not_mem hlog hafter⟩
  rw [hlog]
  exact mem_outstanding before hafter

/-- The first report after a loss names it, and is the only one to do so; before it the index is
not given to another worker. -/
theorem first_report (h : Told log) {before mid late : List Notice} {i c : Nat}
    {losses : List (Nat × Option Nat)}
    (hlog : log = before ++ .lost i c :: (mid ++ .reported losses :: late))
    (hmid : ∀ n ∈ mid, n.isReport = false) :
    losses.count (i, some c) = 1 ∧ log.filter (Notice.reports c) = [.reported losses] ∧
      ∀ c', .added i c' ∉ mid := by
  have hsplit : log = (before ++ .lost i c :: mid) ++ .reported losses :: late := by
    rw [hlog, List.append_assoc, List.cons_append]
  have hfollows : losses = _ := h _ _ late hsplit
  have hmem : (i, some c) ∈ losses := by
    rw [hfollows]
    exact List.mem_map.mpr ⟨(i, c), mem_outstanding before hmid, rfl⟩
  have hbefore : Told (before ++ .lost i c :: mid) := left (hsplit ▸ h)
  refine ⟨List.count_eq_one_of_mem (h.of_reported hsplit).1 hmem, ?_,
    (hbefore.unreported rfl hmid).2⟩
  refine h.reports_eq_of_mem (n := .reported losses) (by rw [hlog]; simp) ?_
  exact List.any_eq_true.mpr ⟨_, hmem, beq_self_eq_true _⟩

end Told

end PromptGateway
