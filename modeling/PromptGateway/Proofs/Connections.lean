import PromptGateway.Proofs.Events

/-
  The ids of connections.

  `Frontend.Follows` relates a front end to a later one and lists the ids that were
  given out in between: in ascending order, each from the front end's own count, and
  with no other id is a client registered. The relation is closed under composition
  (`Follows.trans`), every event is an instance of it (`follows_apply`), and so is
  every run (`follows_run`).
-/

namespace PromptGateway

namespace Frontend

/-- The ids that an event gives out. -/
def issued (f : Frontend) : Event → List ConnectionId
  | .accept link => (f.accept link).1.toList
  | _ => []

/-- The ids that a list of events gives out, in the order in which they are given out. -/
def runIssued (f : Frontend) (events : List Event) : List ConnectionId :=
  journal apply issued f events

/-- A later state of a front end, and the ids that were given out until then. -/
structure Follows (f : Frontend) (ids : List ConnectionId) (g : Frontend) : Prop where
  settings : g.gateway.settings = f.gateway.settings
  nextId_le : f.nextId ≤ g.nextId
  between : ∀ o ∈ ids, f.nextId ≤ o.toNat ∧ o.toNat < g.nextId
  ascending : ids.Pairwise fun o o' => o.toNat < o'.toNat
  registered : ∀ o ∈ g.clients.keys, o ∈ f.clients.keys ∨ o ∈ ids
  bounded : f.clients.size ≤ f.gateway.settings.server.maxClients →
    g.clients.size ≤ f.gateway.settings.server.maxClients

theorem Follows.of_quiet {f g : Frontend} (hs : g.gateway.settings = f.gateway.settings)
    (hn : g.nextId = f.nextId) (hk : ∀ o ∈ g.clients.keys, o ∈ f.clients.keys)
    (hc : g.clients.size ≤ f.clients.size) : f.Follows [] g where
  settings := hs
  nextId_le := Nat.le_of_eq hn.symm
  between := fun _ h => absurd h List.not_mem_nil
  ascending := .nil
  registered := fun o ho => .inl (hk o ho)
  bounded := Nat.le_trans hc

theorem Follows.refl (f : Frontend) : f.Follows [] f :=
  .of_quiet rfl rfl (fun _ h => h) (Nat.le_refl _)

theorem Follows.trans {f g h : Frontend} {ids ids' : List ConnectionId} (hfg : f.Follows ids g)
    (hgh : g.Follows ids' h) : f.Follows (ids ++ ids') h where
  settings := hgh.settings.trans hfg.settings
  nextId_le := Nat.le_trans hfg.nextId_le hgh.nextId_le
  between := by
    intro o ho
    have hle := hfg.nextId_le
    have hle' := hgh.nextId_le
    rcases List.mem_append.mp ho with ho | ho
    · have := hfg.between o ho
      omega
    · have := hgh.between o ho
      omega
  ascending := by
    refine List.pairwise_append.mpr ⟨hfg.ascending, hgh.ascending, ?_⟩
    intro o ho o' ho'
    exact Nat.lt_of_lt_of_le (hfg.between o ho).2 (hgh.between o' ho').1
  registered := by
    intro o ho
    rcases hgh.registered o ho with ho | ho
    · exact (hfg.registered o ho).imp_right (List.mem_append_left _)
    · exact .inr (List.mem_append_right _ ho)
  bounded := by
    intro hsize
    have := hgh.bounded
    rw [hfg.settings] at this
    exact this (hfg.bounded hsize)

theorem follows_update (f : Frontend) (o : ConnectionId) (c : Client) (d : Dispatcher) :
    f.Follows [] (f.update o c d) := by
  refine .of_quiet rfl rfl ?_ ?_
  · intro i hi
    rwa [update, Table.keys_modify] at hi
  · exact Nat.le_of_eq (Table.size_modify _ _ _)

theorem follows_accept (f : Frontend) (link : Link) :
    f.Follows (f.accept link).1.toList (f.accept link).2 := by
  unfold accept
  split
  · next h =>
    simp only [hasRoom, Bool.and_eq_true, decide_eq_true_eq] at h
    have hid : (UInt64.ofNat f.nextId).toNat = f.nextId := UInt64.toNat_ofNat_of_lt' h.2
    have hnew : f.clients.contains (UInt64.ofNat f.nextId) = false :=
      (f.clients.contains_eq_false_iff _).mpr
        ((Table.find?_eq_none_iff _ _).mpr (f.nextId_not_mem h.2))
    refine ⟨rfl, Nat.le_succ _, ?_, List.pairwise_singleton _ _, ?_, ?_⟩
    · intro o ho
      rw [Option.toList_some, List.mem_singleton] at ho
      rw [ho, hid]
      exact ⟨Nat.le_refl _, Nat.lt_succ_self _⟩
    · intro o ho
      rw [Table.keys_insert_of_not_contains _ _ _ hnew, List.mem_append] at ho
      exact ho
    · intro _
      rw [Table.size_insert_of_not_contains _ _ _ hnew]
      exact h.1
  · exact .refl f

theorem follows_disconnect (f : Frontend) (o : ConnectionId) (now : Millis) :
    f.Follows [] (f.disconnect o now) := by
  unfold disconnect
  split
  · exact .refl f
  · refine .of_quiet rfl rfl ?_ (Table.size_erase_le _ _)
    intro i hi
    rw [Table.keys_erase] at hi
    exact (List.mem_filter.mp hi).1

theorem follows_apply (f : Frontend) (e : Event) : f.Follows (f.issued e) (f.apply e) := by
  cases e with
  | accept link => exact f.follows_accept link
  | link o change =>
    simp only [apply, issued]
    split
    · exact .refl f
    · exact f.follows_update _ _ _
  | receive o m =>
    simp only [apply, issued, receiveFrom]
    split
    · exact .refl f
    · exact f.follows_update _ _ _
  | deliver o cap now =>
    simp only [apply, issued]
    split
    · exact .refl f
    · exact f.follows_update _ _ _
  | flush o =>
    simp only [apply, issued]
    split
    · exact .refl f
    · exact f.follows_update _ _ _
  | disconnect o now => exact f.follows_disconnect o now
  | assignmentTick now =>
    refine .of_quiet ?_ rfl (fun _ h => h) (Nat.le_refl _)
    simp only [apply, Gateway.assignmentTick_eq]
  | deliveryTick now => exact .of_quiet rfl rfl (fun _ h => h) (Nat.le_refl _)
  | backend call => exact .of_quiet rfl rfl (fun _ h => h) (Nat.le_refl _)

/-- Every run gives out ids in ascending order, and registers no client without one. -/
theorem follows_run (f : Frontend) (events : List Event) :
    f.Follows (f.runIssued events) (f.run events) := by
  induction events generalizing f with
  | nil => exact .refl f
  | cons e events ih => exact (f.follows_apply e).trans (ih (f.apply e))

end Frontend

end PromptGateway
