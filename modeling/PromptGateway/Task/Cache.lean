import PromptGateway.Table
import PromptGateway.Task.Record

/-
  The store of the requests in flight.

  Every record lives here and nowhere else, under its own id; the rest of the
  gateway refers to it by that id. The store is bounded, and refuses a new record
  rather than to grow beyond its capacity.

  `get?` is its view: `get?_insertNew`, `get?_modify` and `get?_remove` say what
  each operation does to it, and `transition?_eq_some_iff` when a record moves.
-/

namespace PromptGateway

/-- Why a request is not admitted. -/
inductive AdmissionError where
  | rejected (capacity : Nat)
  | duplicate (id : RequestId)
  | queueFull (capacity : Nat)
  deriving DecidableEq, Repr

/-- The wording of a refusal. -/
def AdmissionError.message : AdmissionError → String
  | rejected capacity => s!"task cache is full ({capacity} tasks in flight)"
  | duplicate id => s!"request id '{id}' is already in flight"
  | queueFull capacity => s!"pending queue is full ({capacity} tasks waiting)"

/-- The records of the requests in flight. -/
structure TaskCache where
  capacity : Nat
  tasks : Table RequestId TaskRecord := .empty

namespace TaskCache

/-- The record of an id. -/
def get? (c : TaskCache) (id : RequestId) : Option TaskRecord := c.tasks.find? id

/-- Whether an id has a record. -/
def contains (c : TaskCache) (id : RequestId) : Bool := c.tasks.contains id

/-- The number of records. -/
def size (c : TaskCache) : Nat := c.tasks.size

/-- Adds a record, unless its id has one already or there is no room. -/
def insertNew (c : TaskCache) (r : TaskRecord) : Except AdmissionError TaskCache :=
  if c.contains r.id then .error (.duplicate r.id)
  else if c.capacity ≤ c.size then .error (.rejected c.capacity)
  else .ok { c with tasks := c.tasks.insert r.id r }

/-- Changes the record of an id, if there is one. -/
def modify (c : TaskCache) (id : RequestId) (f : TaskRecord → TaskRecord) : TaskCache :=
  { c with tasks := c.tasks.modify id f }

/-- Moves the record of an id to another status. There is none, and nothing
changes, when the id has no record or the lifecycle does not allow the move. -/
def transition? (c : TaskCache) (id : RequestId) (next : TaskStatus) (now : Millis) :
    Option (TaskRecord × TaskCache) := do
  let r ← c.get? id
  let moved ← r.move? next now
  return (moved, c.modify id fun _ => moved)

/-- `transition?`, the cache unchanged where there is none. -/
def updateStatus (c : TaskCache) (id : RequestId) (next : TaskStatus) (now : Millis) : TaskCache :=
  match c.transition? id next now with
  | some (_, c) => c
  | none => c

/-- Takes the record of an id out. -/
def remove (c : TaskCache) (id : RequestId) : TaskCache := { c with tasks := c.tasks.erase id }

/-- All records. -/
def records (c : TaskCache) : List TaskRecord := c.tasks.values

/-- The records with a status. -/
def withStatus (c : TaskCache) (s : TaskStatus) : List TaskRecord :=
  c.records.filter (·.status == s)

/-- The records of a connection. -/
def ownedBy (c : TaskCache) (owner : ConnectionId) : List TaskRecord :=
  c.records.filter (·.owner == owner)

/-- The records that a worker has been given. -/
def givenTo (c : TaskCache) (worker : Nat) : List TaskRecord :=
  c.records.filter (·.worker == some worker)

theorem get?_modify (c : TaskCache) (id : RequestId) (f : TaskRecord → TaskRecord)
    (j : RequestId) :
    (c.modify id f).get? j = if j = id then (c.get? id).map f else c.get? j :=
  Table.find?_modify _ _ _ _

theorem get?_remove (c : TaskCache) (id j : RequestId) :
    (c.remove id).get? j = if j = id then none else c.get? j :=
  Table.find?_erase _ _ _

/-- A new record is found under its own id, and every other id is untouched. -/
theorem get?_insertNew {c c' : TaskCache} {r : TaskRecord} (h : c.insertNew r = .ok c')
    (j : RequestId) : c'.get? j = if j = r.id then some r else c.get? j := by
  unfold insertNew at h
  split at h
  · cases h
  · split at h
    · cases h
    · cases h
      exact Table.find?_insert _ _ _ _

/-- A refused record leaves a reason: its id is taken, or there is no room. -/
theorem insertNew_eq_ok_iff {c : TaskCache} {r : TaskRecord} :
    (∃ c', c.insertNew r = .ok c') ↔ c.contains r.id = false ∧ c.size < c.capacity := by
  unfold insertNew
  constructor
  · rintro ⟨c', h⟩
    split at h
    · cases h
    · next hid =>
      split at h
      · cases h
      · next hroom => exact ⟨by simpa using hid, Nat.lt_of_not_le hroom⟩
  · rintro ⟨hid, hroom⟩
    rw [if_neg (by simp [hid]), if_neg (Nat.not_le_of_lt hroom)]
    exact ⟨_, rfl⟩

/-- What a record that is taken in needs, and what it does to the store. -/
theorem insertNew_eq_ok {c c' : TaskCache} {r : TaskRecord} (h : c.insertNew r = .ok c') :
    c.get? r.id = none ∧ c.size < c.capacity ∧ c' = { c with tasks := c.tasks.insert r.id r } := by
  have hn := insertNew_eq_ok_iff.mp ⟨c', h⟩
  refine ⟨(c.tasks.contains_eq_false_iff r.id).mp hn.1, hn.2, ?_⟩
  rw [insertNew, if_neg (by simp [hn.1]), if_neg (Nat.not_le_of_lt hn.2)] at h
  cases h
  rfl

theorem mem_records_iff (c : TaskCache) (r : TaskRecord) :
    r ∈ c.records ↔ ∃ id, c.get? id = some r :=
  c.tasks.mem_values_iff r

theorem contains_iff (c : TaskCache) (id : RequestId) :
    c.contains id = true ↔ ∃ r, c.get? id = some r :=
  Option.isSome_iff_exists

theorem size_modify (c : TaskCache) (id : RequestId) (f : TaskRecord → TaskRecord) :
    (c.modify id f).size = c.size :=
  Table.size_modify _ _ _

theorem size_remove_le (c : TaskCache) (id : RequestId) : (c.remove id).size ≤ c.size :=
  Table.size_erase_le _ _

/-- What is done to a record before it is taken out does not matter. -/
theorem remove_modify (c : TaskCache) (id : RequestId) (f : TaskRecord → TaskRecord) :
    (c.modify id f).remove id = c.remove id :=
  congrArg (fun t => { c with tasks := t }) (c.tasks.erase_modify id f)

theorem modify_modify (c : TaskCache) (id : RequestId) (f g : TaskRecord → TaskRecord) :
    (c.modify id f).modify id g = c.modify id fun r => g (f r) :=
  congrArg (fun t => { c with tasks := t }) (c.tasks.modify_modify id f g)

theorem modify_congr (c : TaskCache) (id : RequestId) {f g : TaskRecord → TaskRecord}
    (h : ∀ r, c.get? id = some r → f r = g r) : c.modify id f = c.modify id g :=
  congrArg (fun t => { c with tasks := t }) (c.tasks.modify_congr id h)

/-- A record moves exactly when there is one and the lifecycle allows the move. -/
theorem transition?_eq_some_iff {c c' : TaskCache} {id : RequestId} {next : TaskStatus}
    {now : Millis} {r : TaskRecord} :
    c.transition? id next now = some (r, c') ↔
      ∃ s, c.get? id = some s ∧ s.move? next now = some r ∧ c' = c.modify id fun _ => r := by
  unfold transition?
  constructor
  · intro h
    cases hg : c.get? id with
    | none => simp [hg] at h
    | some s =>
      cases hm : s.move? next now with
      | none => simp [hg, hm] at h
      | some m =>
        simp only [hg, hm, Option.bind_eq_bind, Option.bind_some, Option.pure_def,
          Option.some.injEq, Prod.mk.injEq] at h
        obtain ⟨rfl, rfl⟩ := h
        exact ⟨s, rfl, hm, rfl⟩
  · rintro ⟨s, hg, hm, rfl⟩
    simp [hg, hm]

end TaskCache

end PromptGateway
