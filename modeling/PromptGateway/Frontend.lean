import PromptGateway.Gateway

/-
  The gateway and the clients that are connected to it.

  Every connection gets an id of its own. Ids are given out in order and never
  again (`nextId_not_mem`), and a connection beyond the largest number of clients
  is turned away without one. What a client sends is read when it arrives; what
  there is for the clients is handed out in sweeps, which go over all of them. A
  client whose link has ended is dropped, and everything it waited for is
  cancelled.
-/

namespace PromptGateway

/-- A gateway and its clients. -/
structure Frontend where
  gateway : Gateway
  clients : Table ConnectionId Client := .empty
  /-- The id of the next connection. -/
  nextId : Nat := 2
  /-- Every id that is in use was given out before. -/
  ids_lt : ∀ id ∈ clients.keys, id.toNat < nextId

namespace Frontend

/-- A gateway without clients, which gives out ids from a first one. -/
def create (g : Gateway) (firstId : Nat) : Frontend where
  gateway := g
  nextId := firstId
  ids_lt := by simp [Table.empty, Table.keys]

/-- Whether another client may connect. -/
def hasRoom (f : Frontend) : Bool :=
  decide (f.clients.size < f.gateway.settings.server.maxClients) &&
    decide (f.nextId < UInt64.size)

/-- The id of the next connection is not in use. -/
theorem nextId_not_mem (f : Frontend) (h : f.nextId < UInt64.size) :
    UInt64.ofNat f.nextId ∉ f.clients.keys := by
  intro hm
  have := f.ids_lt _ hm
  rw [UInt64.toNat_ofNat_of_lt' h] at this
  exact Nat.lt_irrefl _ this

/-- Takes in a new connection and gives its id, none if it is turned away. -/
def accept (f : Frontend) (link : Link) : Option ConnectionId × Frontend :=
  if h : f.hasRoom then
    let id := UInt64.ofNat f.nextId
    (some id,
      { f with
        clients := f.clients.insert id { link := link }
        nextId := f.nextId + 1
        ids_lt := by
          have hr : f.nextId < UInt64.size := by
            simp only [hasRoom, Bool.and_eq_true, decide_eq_true_eq] at h
            exact h.2
          have hk : f.clients.contains (UInt64.ofNat f.nextId) = false := by
            have := (Table.find?_eq_none_iff f.clients _).mpr (f.nextId_not_mem hr)
            simp [Table.contains, this]
          intro i hi
          rw [Table.keys_insert_of_not_contains _ _ _ hk, List.mem_append,
            List.mem_singleton] at hi
          rcases hi with hi | rfl
          · exact Nat.lt_succ_of_lt (f.ids_lt i hi)
          · rw [UInt64.toNat_ofNat_of_lt' hr]
            exact Nat.lt_succ_self _ })
  else (none, f)

/-- Puts a client and the dispatch engine in place of those there. -/
def update (f : Frontend) (id : ConnectionId) (c : Client) (d : Dispatcher) : Frontend :=
  { f with
    gateway := { f.gateway with dispatcher := d }
    clients := f.clients.modify id fun _ => c
    ids_lt := by simpa using f.ids_lt }

/-- Drops a client. -/
def disconnect (f : Frontend) (id : ConnectionId) (now : Millis) : Frontend :=
  match f.clients.find? id with
  | none => f
  | some c =>
    let (_, d) := c.release f.gateway.dispatcher id now
    { f with
      gateway := { f.gateway with dispatcher := d }
      clients := f.clients.erase id
      ids_lt := fun i hi => by
        rw [Table.keys_erase] at hi
        exact f.ids_lt i ((List.mem_filter.mp hi).1) }

/-- Reads from a client, and whether its link is over. -/
def receiveFrom (f : Frontend) (m : Moment) (id : ConnectionId) : Bool × Frontend :=
  match f.clients.find? id with
  | none => (false, f)
  | some c =>
    let (ended, c, d) := c.receive f.gateway.dispatcher m id
    (ended, f.update id c d)

/-- Hands out what there is for a client, writes it, and says whether that failed. -/
def deliverTo (f : Frontend) (now : Millis) (id : ConnectionId) : Bool × Frontend :=
  match f.clients.find? id with
  | none => (false, f)
  | some c =>
    let cap := f.gateway.settings.dispatch.maxFragmentsPerSweep
    let (_, c, d) := c.deliver f.gateway.dispatcher cap now
    let (ended, c) := c.flush
    (ended, f.update id c d)

/-- Does something for every client, and drops those whose link is over when all
have had their turn. -/
def forEach (f : Frontend) (now : Millis)
    (step : Frontend → ConnectionId → Bool × Frontend) : Frontend :=
  let (gone, f) := f.clients.keys.foldl
    (fun (gone, f) id =>
      let (ended, f) := step f id
      (if ended then gone ++ [id] else gone, f))
    ([], f)
  gone.foldl (fun f id => f.disconnect id now) f

/-- Reads from every client. -/
def receive (f : Frontend) (m : Moment) : Frontend :=
  f.forEach m.now fun f id => f.receiveFrom m id

/-- Hands out what there is for every client, and writes it. -/
def sweep (f : Frontend) (now : Millis) : Frontend :=
  f.forEach now fun f id => f.deliverTo now id

/-- Drops every client. -/
def disconnectAll (f : Frontend) (now : Millis) : Frontend :=
  f.clients.keys.foldl (fun f id => f.disconnect id now) f

end Frontend

end PromptGateway
