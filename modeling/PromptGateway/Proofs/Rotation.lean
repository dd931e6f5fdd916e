import PromptGateway.Proofs.Losses
import Mathlib.Data.List.Perm.Subperm

/-
  Workers are chosen in turn.

  The search for a worker begins behind the one that was chosen last and goes round at the end
  of the table. The table may grow in the meantime, slots may be taken over, and workers come
  and go, so the place where a search ends says nothing by itself. What can be followed through
  a run is an order (`Before`): of two places, the one that a search from a given place comes to
  first. It does not depend on the size of the table.

    1. A search finds the first of the workers that can be given a task, in that order
       (`before_of_select`), from wherever it begins, and it finds one if there is one
       (`select?_isSome_iff`).
    2. After a worker was chosen every other one comes before it, and as long as it can be given
       a task it does so until it is chosen (`mem_picks_or_before`).
    3. `round_robin` puts this together: no worker is chosen twice while another one waits for
       its turn, so as many choices as there are workers go round once.
-/

namespace PromptGateway

/-- Whether an act is the choice of a worker. -/
def PoolAct.isChoice : PoolAct → Bool
  | .call .select => true
  | .call _ | .send _ _ => false

namespace WorkerPool

/-- The worker that is chosen by an act. -/
def picked (p : WorkerPool) : PoolAct → List Nat
  | .call .select => (p.select?.map (·.1)).toList
  | .call _ | .send _ _ => []

/-- The workers that are chosen in the course of a list of acts. -/
def picks (p : WorkerPool) (acts : List PoolAct) : List Nat := journal act picked p acts

/-- The workers that can be given a task. -/
def selectable (p : WorkerPool) : List Nat := (List.range p.slots.length).filter p.isSelectableAt

variable {p p' q : WorkerPool} {i j k : Nat} {acts : List PoolAct}

/-! ## One search -/

theorem isSelectableAt_iff : p.isSelectableAt i = true ↔
    ∃ s, p.slots[i]? = some s ∧ s.connected = true ∧ s.available = true := by
  unfold isSelectableAt
  cases p.slots[i]? <;> simp [WorkerSlot.isSelectable]

theorem lt_of_isSelectableAt (h : p.isSelectableAt i = true) : i < p.slots.length := by
  obtain ⟨s, hs, -⟩ := isSelectableAt_iff.mp h
  exact (List.getElem?_eq_some_iff.mp hs).1

theorem mem_selectable : i ∈ p.selectable ↔ p.isSelectableAt i = true := by
  rw [selectable, List.mem_filter, List.mem_range, and_iff_right_iff_imp]
  exact lt_of_isSelectableAt

theorem nodup_selectable (p : WorkerPool) : p.selectable.Nodup :=
  List.nodup_range.filter _

/-- A search comes to every place of the table, wherever it begins. -/
theorem mem_searchOrder (hi : i < p.slots.length) : i ∈ p.searchOrder := by
  have hn : 0 < p.slots.length := Nat.zero_lt_of_lt hi
  have hstart := Nat.mod_lt p.next hn
  refine List.mem_map.mpr ⟨(i + (p.slots.length - p.next % p.slots.length)) % p.slots.length,
    List.mem_range.mpr (Nat.mod_lt _ hn), ?_⟩
  calc (p.next + (i + (p.slots.length - p.next % p.slots.length)) % p.slots.length) %
        p.slots.length
      = (p.next % p.slots.length + (i + (p.slots.length - p.next % p.slots.length))) %
        p.slots.length := by rw [Nat.add_mod_mod, Nat.mod_add_mod]
    _ = (i + p.slots.length) % p.slots.length := by congr 1; omega
    _ = i := by rw [Nat.add_mod_right, Nat.mod_eq_of_lt hi]

theorem select?_isSome_iff : p.select?.isSome = true ↔ ∃ i, p.isSelectableAt i = true := by
  rw [select?, Option.isSome_map, List.find?_isSome]
  constructor
  · rintro ⟨i, -, hi⟩
    exact ⟨i, hi⟩
  · rintro ⟨i, hi⟩
    exact ⟨i, mem_searchOrder (lt_of_isSelectableAt hi), hi⟩

theorem isSelectableAt_of_select (h : p.select? = some (i, p')) : p.isSelectableAt i = true := by
  obtain ⟨k, hk, he⟩ := Option.map_eq_some_iff.mp h
  cases he
  exact List.find?_some hk

theorem eq_of_select (h : p.select? = some (i, p')) : p' = { p with next := i + 1 } := by
  obtain ⟨k, -, he⟩ := Option.map_eq_some_iff.mp h
  cases he
  rfl

/-- A search that begins at a place and goes round at the end of the table comes to `j` before
it comes to `i`. -/
def Before (start j i : Nat) : Prop :=
  (start ≤ j ∧ i < start) ∨ (j < i ∧ (start ≤ j ∨ i < start))

namespace Before

variable {start : Nat}

theorem asymm (h : Before start j i) : ¬ Before start i j := by
  unfold Before at *
  omega

/-- Whoever was chosen comes last. -/
theorem of_ne (h : j ≠ i) : Before (i + 1) j i := by
  unfold Before
  omega

/-- After the choice of one that comes before both, the order of the two is the same. -/
theorem behind (hk : Before start k j) (h : Before start j i) : Before (k + 1) j i := by
  unfold Before at *
  omega

end Before

/-- A search finds the first of the workers that can be given a task. -/
theorem before_of_select (hn : p.next ≤ p.slots.length) (h : p.select? = some (k, p'))
    (hj : p.isSelectableAt j = true) : j = k ∨ Before p.next k j := by
  obtain ⟨x, hx, he⟩ := Option.map_eq_some_iff.mp h
  cases he
  rw [searchOrder, List.find?_map] at hx
  obtain ⟨t, ht, rfl⟩ := Option.map_eq_some_iff.mp hx
  obtain ⟨-, ht, hearlier⟩ := List.find?_range_eq_some.mp ht
  obtain ⟨u, hu, hju⟩ := List.mem_map.mp (mem_searchOrder (lt_of_isSelectableAt hj))
  rw [List.mem_range] at ht hu
  -- the search comes to `j` after `u` steps, and would have ended there
  have htu : t ≤ u := by
    rw [← Nat.not_lt]
    intro hut
    have := hearlier u hut
    rw [Function.comp_apply, hju, hj] at this
    cases this
  have place : ∀ v, v < p.slots.length → (p.next + v) % p.slots.length =
      if p.next + v < p.slots.length then p.next + v else p.next + v - p.slots.length := by
    intro v hv
    split
    · next hlt => exact Nat.mod_eq_of_lt hlt
    · next hge => rw [Nat.mod_eq_sub_mod (Nat.le_of_not_lt hge), Nat.mod_eq_of_lt (by omega)]
  rw [← hju, place t ht, place u hu, Before]
  split <;> split <;> omega

/-! ## A run -/

theorem perform_append (p : WorkerPool) (acts more : List PoolAct) :
    p.perform (acts ++ more) = (p.perform acts).perform more :=
  List.foldl_append

theorem picks_cons (p : WorkerPool) (a : PoolAct) (acts : List PoolAct) :
    p.picks (a :: acts) = p.picked a ++ (p.act a).picks acts :=
  rfl

theorem picks_append (p : WorkerPool) (acts more : List PoolAct) :
    p.picks (acts ++ more) = p.picks acts ++ (p.perform acts).picks more :=
  journal_append act picked p acts more

theorem act_select (h : p.select? = some (i, p')) : p.act (.call .select) = p' := by
  rw [act, apply, h]

theorem picked_select (h : p.select? = some (i, p')) : p.picked (.call .select) = [i] := by
  rw [picked, h]
  rfl

theorem picked_of_ne {a : PoolAct} (ha : a ≠ .call .select) : p.picked a = [] := by
  cases a with
  | send index payload => rfl
  | call c =>
    cases c with
    | select => exact absurd rfl ha
    | _ => rfl

/-- A worker that comes before another one and can be given a task is chosen, or it still comes
before the other one. -/
theorem mem_picked_or_before {a : PoolAct} (hn : p.next ≤ p.slots.length)
    (hb : Before p.next j i) (hj : p.isSelectableAt j = true) :
    j ∈ p.picked a ∨
      ((p.act a).next ≤ (p.act a).slots.length ∧ Before (p.act a).next j i) := by
  by_cases ha : a = .call .select
  · subst ha
    obtain ⟨⟨k, q⟩, hsel⟩ := Option.isSome_iff_exists.mp (select?_isSome_iff.mpr ⟨j, hj⟩)
    have hlt := lt_of_select? hsel
    rw [picked_select hsel, act_select hsel, eq_of_select hsel]
    rcases before_of_select hn hsel hj with rfl | hk
    · exact .inl (List.mem_singleton_self _)
    · exact .inr ⟨hlt, hk.behind hb⟩
  · have harranges := p.arranges_act ha
    rw [harranges.next]
    exact .inr ⟨Nat.le_trans hn harranges.grows, hb⟩

theorem mem_picks_or_before (hn : p.next ≤ p.slots.length) (hb : Before p.next j i)
    (hj : ∀ front, front <+: acts → (p.perform front).isSelectableAt j = true) :
    j ∈ p.picks acts ∨ ((p.perform acts).next ≤ (p.perform acts).slots.length ∧
      Before (p.perform acts).next j i) := by
  induction acts generalizing p with
  | nil => exact .inr ⟨hn, hb⟩
  | cons a acts ih =>
    rw [picks_cons, List.mem_append]
    rcases mem_picked_or_before (a := a) hn hb (hj [] List.nil_prefix) with hpicked | ⟨hn', hb'⟩
    · exact .inl (.inl hpicked)
    · refine (ih hn' hb' fun front hfront => ?_).imp .inr id
      exact hj (a :: front) (List.cons_prefix_cons.mpr ⟨rfl, hfront⟩)

/-- Between two choices of one worker every other one that can be given a task is chosen. -/
theorem mem_picks_between (h : p.select? = some (i, p'))
    (hagain : (p'.perform acts).select? = some (i, q)) (hij : j ≠ i)
    (hj : ∀ front, front <+: acts → (p'.perform front).isSelectableAt j = true) :
    j ∈ p'.picks acts := by
  have hp' := eq_of_select h
  have hlt := lt_of_select? h
  have hn : p'.next ≤ p'.slots.length := by
    rw [hp']
    exact hlt
  have hb : Before p'.next j i := by
    rw [hp']
    exact .of_ne hij
  rcases mem_picks_or_before hn hb hj with hmem | ⟨hn', hb'⟩
  · exact hmem
  · rcases before_of_select hn' hagain (hj acts List.prefix_rfl) with heq | hb''
    · exact absurd heq hij
    · exact absurd hb'' hb'.asymm

/-! ## Once around -/

/-- Whoever was chosen was chosen at some time. -/
theorem exists_select_of_mem_picks (h : i ∈ p.picks acts) : ∃ front back q,
    acts = front ++ .call .select :: back ∧ (p.perform front).select? = some (i, q) := by
  induction acts generalizing p with
  | nil => cases h
  | cons a acts ih =>
    rw [picks_cons, List.mem_append] at h
    rcases h with h | h
    · by_cases ha : a = .call .select
      · subst ha
        obtain ⟨x, hx, rfl⟩ := Option.map_eq_some_iff.mp (Option.mem_toList.mp h)
        exact ⟨[], acts, x.2, rfl, hx⟩
      · rw [picked_of_ne ha] at h
        cases h
    · obtain ⟨front, back, q, rfl, hq⟩ := ih h
      exact ⟨a :: front, back, q, rfl, hq⟩

theorem isChoice_iff {a : PoolAct} : a.isChoice = true ↔ a = .call .select := by
  cases a with
  | send index payload => simp [PoolAct.isChoice]
  | call c => cases c <;> simp [PoolAct.isChoice]

theorem length_picked_le (p : WorkerPool) (a : PoolAct) :
    (p.picked a).length ≤ [a].countP PoolAct.isChoice := by
  by_cases ha : a = .call .select
  · subst ha
    rw [picked]
    cases p.select? <;> simp [PoolAct.isChoice]
  · rw [picked_of_ne ha]
    exact Nat.zero_le _

/-- At most one worker is chosen with each choice. -/
theorem length_picks_le (p : WorkerPool) (acts : List PoolAct) :
    (p.picks acts).length ≤ acts.countP PoolAct.isChoice := by
  induction acts generalizing p with
  | nil => exact Nat.le_refl _
  | cons a acts ih =>
    rw [picks_cons, List.length_append, ← List.singleton_append, List.countP_append]
    exact Nat.add_le_add (p.length_picked_le a) (ih (p.act a))

/-- A worker is chosen with each choice as long as there is one. -/
theorem length_picks (h : ∀ front, front <+: acts → (p.perform front).select?.isSome = true) :
    (p.picks acts).length = acts.countP PoolAct.isChoice := by
  induction acts generalizing p with
  | nil => rfl
  | cons a acts ih =>
    have hrest := ih (p := p.act a) fun front hfront =>
      h (a :: front) (List.cons_prefix_cons.mpr ⟨rfl, hfront⟩)
    rw [picks_cons, List.length_append, ← List.singleton_append, List.countP_append]
    refine congrArg₂ _ ?_ hrest
    by_cases ha : a = .call .select
    · have hsome : p.select?.isSome = true := h [] List.nil_prefix
      obtain ⟨⟨i, q⟩, hsel⟩ := Option.isSome_iff_exists.mp hsome
      rw [ha, picked_select hsel]
      rfl
    · rw [picked_of_ne ha, List.countP_singleton, if_neg fun hc => ha (isChoice_iff.mp hc)]
      rfl

/-- The same workers can be given a task all the time. -/
def Steady (p : WorkerPool) (acts : List PoolAct) : Prop :=
  ∀ front, front <+: acts → ∀ i, (p.perform front).isSelectableAt i = p.isSelectableAt i

namespace Steady

theorem left {more : List PoolAct} (h : p.Steady (acts ++ more)) : p.Steady acts :=
  fun front hfront => h front (hfront.trans (List.prefix_append acts more))

theorem picks_subset (h : p.Steady acts) : p.picks acts ⊆ p.selectable := by
  intro i hi
  obtain ⟨front, back, q, rfl, hq⟩ := exists_select_of_mem_picks hi
  rw [mem_selectable, ← h front (List.prefix_append front _)]
  exact isSelectableAt_of_select hq

/-- To choose a worker again all of them must have been chosen. -/
theorem selectable_subset (h : p.Steady acts) (hi : i ∈ p.picks acts)
    (hagain : (p.perform acts).select? = some (i, q)) : p.selectable ⊆ p.picks acts := by
  intro j hj
  rw [mem_selectable] at hj
  by_cases hij : j = i
  · exact hij ▸ hi
  · obtain ⟨front, back, p', rfl, hfirst⟩ := exists_select_of_mem_picks hi
    have later : ∀ more, p.perform (front ++ .call .select :: more) = p'.perform more := by
      intro more
      rw [perform_append]
      exact congrArg (perform · more) (act_select hfirst)
    rw [later] at hagain
    rw [picks_append, picks_cons, act_select hfirst, List.mem_append, List.mem_append]
    refine .inr (.inr (mem_picks_between hfirst hagain hij fun more hmore => ?_))
    have hprefix : front ++ .call .select :: more <+: front ++ .call .select :: back :=
      (List.prefix_append_right_inj front).mpr (List.cons_prefix_cons.mpr ⟨rfl, hmore⟩)
    rwa [← later, h _ hprefix]

/-- No worker is chosen twice before all of them were chosen. -/
theorem nodup_picks (h : p.Steady acts)
    (hc : acts.countP PoolAct.isChoice ≤ p.selectable.length) : (p.picks acts).Nodup := by
  induction acts using List.reverseRecOn with
  | nil => exact List.nodup_nil
  | append_singleton acts a ih =>
    rw [List.countP_append] at hc
    have hbefore := ih h.left (by omega)
    have hlast : ((p.perform acts).picks [a]) = (p.perform acts).picked a := List.append_nil _
    rw [picks_append, hlast]
    by_cases ha : a = .call .select
    · subst ha
      cases hsel : (p.perform acts).select? with
      | none =>
        rw [picked, hsel]
        exact (List.append_nil _).symm ▸ hbefore
      | some x =>
        rw [picked_select hsel, ← List.concat_eq_append]
        refine hbefore.concat fun hi => ?_
        have hall := (nodup_selectable p).length_le_of_subset (h.left.selectable_subset hi hsel)
        have hle := p.length_picks_le acts
        have hone : [PoolAct.call .select].countP PoolAct.isChoice = 1 := rfl
        omega
    · rw [picked_of_ne ha, List.append_nil]
      exact hbefore

/-- As many choices as there are workers go round once. -/
theorem picks_perm (h : p.Steady acts)
    (hc : acts.countP PoolAct.isChoice = p.selectable.length) :
    (p.picks acts).Perm p.selectable := by
  refine (List.subperm_of_subset (h.nodup_picks (Nat.le_of_eq hc)) h.picks_subset).perm_of_length_le ?_
  by_cases hnone : p.selectable = []
  · rw [hnone]
    exact Nat.zero_le _
  · obtain ⟨i, hi⟩ := List.exists_mem_of_ne_nil _ hnone
    have hsome : ∀ front, front <+: acts → (p.perform front).select?.isSome = true := by
      intro front hfront
      refine select?_isSome_iff.mpr ⟨i, ?_⟩
      rw [h front hfront]
      exact mem_selectable.mp hi
    exact Nat.le_of_eq ((length_picks hsome).trans hc).symm

end Steady

end WorkerPool

open WorkerPool in
/-- Workers are chosen in turn. Whatever the pool, one is chosen exactly if one is connected and
available, and it is such a one. Whatever happens between two choices of the same worker, every
other one that was connected and available all the time has been chosen between them. And if the
same workers are connected and available all the time, as many choices as there are of them choose
each of them once. -/
theorem round_robin (p : WorkerPool) :
    ((p.select?.isSome = true ↔ ∃ s ∈ p.slots, s.connected = true ∧ s.available = true) ∧
      ∀ i p', p.select? = some (i, p') →
        ∃ s : WorkerSlot, p.slots[i]? = some s ∧ s.connected = true ∧ s.available = true) ∧
    (∀ i p', p.select? = some (i, p') →
      ∀ between q, (p'.perform between).select? = some (i, q) →
      ∀ j, j ≠ i → (∀ front, front <+: between → (p'.perform front).isSelectableAt j = true) →
        j ∈ p'.picks between) ∧
    ∀ acts, (∀ front, front <+: acts → ∀ i,
        (p.perform front).isSelectableAt i = p.isSelectableAt i) →
      acts.countP PoolAct.isChoice = p.selectable.length → (p.picks acts).Perm p.selectable := by
  refine ⟨⟨?_, fun i p' h => isSelectableAt_iff.mp (isSelectableAt_of_select h)⟩, ?_, ?_⟩
  · rw [select?_isSome_iff]
    constructor
    · rintro ⟨i, hi⟩
      obtain ⟨s, hs, hready⟩ := isSelectableAt_iff.mp hi
      exact ⟨s, List.mem_of_getElem? hs, hready⟩
    · rintro ⟨s, hs, hready⟩
      obtain ⟨i, hi⟩ := List.getElem?_of_mem hs
      exact ⟨i, isSelectableAt_iff.mpr ⟨s, hi, hready⟩⟩
  · intro i p' h between q hagain j hij hj
    exact mem_picks_between h hagain hij hj
  · intro acts hsteady hc
    exact Steady.picks_perm hsteady hc

-- The search goes round at the end of the table and passes over a worker that is not available.
example :
    let slot (available : Bool) (link : Nat) : WorkerSlot :=
      { address := "", link := link, available := available, lastSeen := 0 }
    let p : WorkerPool :=
      { maxWorkers := 3, slots := [slot true 0, slot false 1, slot true 2], next := 2 }
    p.picks [.call .select, .call .select, .call .select] = [2, 0, 2] := by
  decide

end PromptGateway
