import PromptGateway.Proofs.Hearing
import PromptGateway.Proofs.Service

/-
  The story of a connection.

  It begins when a worker is added. What happens on the connection of the worker and the turns
  of the gateway come in any order, and what the story comes to, as far as the worker is
  concerned, is its `Course`: nothing that was sent is taken back, and whoever has left sends no
  more (`Course.foldl_note`).

  A delivery tick is taken apart into its calls, so that one can look between two of them. The
  events that a list of turns is made of come to the same as the turns (`run_unrolled`).

  A worker is added with a connection that no other slot has, and no loss of it is on the list
  (`listens_addWorker`): every slot has a connection that has been made before, and only workers
  are on the list, after any turns (`orderly_serve`).
-/

namespace PromptGateway

/-! ## The story of a connection -/

/-- One thing that can happen on a connection, but for what this end does. Whoever has left
sends no more. -/
inductive LinkMove where
  | send (bytes : Bytes)
  | take
  | close
  | reset
  | stuff
  | unstuff
  | interrupt (times : Nat)

/-- A connection after a move. -/
def Link.moved (m : LinkMove) (k : Link) : Link :=
  match m with
  | .send bytes => if k.farEnd = .present then k.arrive bytes else k
  | .take => k.take.2.2
  | .close => if k.farEnd = .present then k.closeFar else k
  | .reset => k.resetFar
  | .stuff => k.stuff
  | .unstuff => k.unstuff
  | .interrupt times => { k with interruptions := k.interruptions + times }

/-- One thing that can happen while a worker is connected: a move on its connection, or a
turn of the gateway. -/
inductive Happening where
  | link (m : LinkMove)
  | turn (t : Turn)

/-- The turn that a happening is, when a connection has a number. -/
def Happening.asTurn (l : Nat) : Happening → Turn
  | link m => .workerLink l (Link.moved m)
  | turn t => t

/-- The turns of a story. -/
def turnsOn (l : Nat) (story : List Happening) : List Turn := story.map (Happening.asTurn l)

/-- What a story comes to. -/
structure Course where
  /-- What the far end has sent. -/
  sent : Bytes := []
  /-- Whether it has left. -/
  left : Bool := false
  /-- How many calls were to be interrupted. -/
  interruptions : Nat := 0
  /-- How many delivery ticks there were since it left. -/
  ticks : Nat := 0

namespace Course

/-- The course after one more happening. -/
def note (c : Course) : Happening → Course
  | .link (.send bytes) => if c.left then c else { c with sent := c.sent ++ bytes }
  | .link .close | .link .reset => { c with left := true }
  | .link (.interrupt times) => { c with interruptions := c.interruptions + times }
  | .link .take | .link .stuff | .link .unstuff => c
  | .turn (.deliveryTick _) => if c.left then { c with ticks := c.ticks + 1 } else c
  | .turn _ => c

/-- How many reads it takes at most until the end of the connection is found. -/
def reads (c : Course) : Nat := c.interruptions + c.sent.length / Link.readChunk + 1

end Course

/-- The course of a story. -/
def course (story : List Happening) : Course := story.foldl Course.note {}

namespace Course

theorem sent_note (c : Course) (x : Happening) :
    c.sent <+: (c.note x).sent ∧
      (c.left = true → (c.note x).sent = c.sent ∧ (c.note x).left = true) := by
  have same : c.note x = c → c.sent <+: (c.note x).sent ∧
      (c.left = true → (c.note x).sent = c.sent ∧ (c.note x).left = true) := by
    intro he
    rw [he]
    exact ⟨List.prefix_rfl, fun hleft => ⟨rfl, hleft⟩⟩
  cases x with
  | link m =>
    cases m with
    | send bytes =>
      by_cases hleft : c.left = true
      · exact same (if_pos hleft)
      · rw [note, if_neg hleft]
        exact ⟨List.prefix_append _ _, fun h => absurd h hleft⟩
    | close => exact ⟨List.prefix_rfl, fun _ => ⟨rfl, rfl⟩⟩
    | reset => exact ⟨List.prefix_rfl, fun _ => ⟨rfl, rfl⟩⟩
    | interrupt _ => exact ⟨List.prefix_rfl, fun hleft => ⟨rfl, hleft⟩⟩
    | take => exact same rfl
    | stuff => exact same rfl
    | unstuff => exact same rfl
  | turn t =>
    cases t with
    | deliveryTick now =>
      by_cases hleft : c.left = true
      · rw [note, if_pos hleft]
        exact ⟨List.prefix_rfl, fun _ => ⟨rfl, hleft⟩⟩
      · exact same (if_neg hleft)
    | _ => exact same rfl

/-- Nothing that was sent is taken back, and nothing more is sent by who has left. -/
theorem foldl_note (c : Course) (story : List Happening) :
    c.sent <+: (story.foldl note c).sent ∧
      (c.left = true → (story.foldl note c).sent = c.sent ∧ (story.foldl note c).left = true) := by
  induction story generalizing c with
  | nil => exact ⟨List.prefix_rfl, fun hleft => ⟨rfl, hleft⟩⟩
  | cons x story ih =>
    obtain ⟨hone, hsame⟩ := c.sent_note x
    obtain ⟨hpre, hleft⟩ := ih (c.note x)
    refine ⟨hone.trans hpre, fun hgone => ?_⟩
    obtain ⟨hsent, hstill⟩ := hsame hgone
    exact ⟨(hleft hstill).1.trans hsent, (hleft hstill).2⟩

end Course

theorem course_split (early late : List Happening) :
    (course early).sent <+: (course (early ++ late)).sent ∧
      ((course early).left = true → (course (early ++ late)).sent = (course early).sent ∧
        (course (early ++ late)).left = true) := by
  unfold course
  rw [List.foldl_append]
  exact Course.foldl_note _ late

/-! ## Events -/

/-- The call that an event is, if it is one. -/
def Event.call? : Event → Option BackendCall
  | backend call => some call
  | accept _ | link _ _ | receive _ _ | deliver _ _ _ | flush _ | disconnect _ _
  | assignmentTick _ | deliveryTick _ => none

/-- The calls among some events. -/
def calls (events : List Event) : List BackendCall := events.filterMap Event.call?

theorem calls_append (events more : List Event) :
    calls (events ++ more) = calls events ++ calls more :=
  List.filterMap_append

theorem calls_backend (cs : List BackendCall) : calls (cs.map .backend) = cs := by
  rw [calls, List.filterMap_map]
  exact List.filterMap_some

namespace Frontend

/-- The events that a turn is made of. A delivery tick is made of its calls. -/
def unrolledTurn (f : Frontend) : Turn → List Event
  | .deliveryTick now => (f.gateway.deliveryCalls now).map .backend
  | t => [f.event t]

/-- The events that a list of turns is made of. -/
def unrolled (f : Frontend) (turns : List Turn) : List Event := journal turn unrolledTurn f turns

theorem run_backend (f : Frontend) (cs : List BackendCall) :
    f.run (cs.map .backend) = f.withEngine (f.gateway.dispatcher.runBackend cs) := by
  induction cs generalizing f with
  | nil => rfl
  | cons call cs ih => exact ih (f.apply (.backend call))

theorem run_unrolledTurn (f : Frontend) (t : Turn) : f.run (f.unrolledTurn t) = f.turn t := by
  cases t with
  | deliveryTick now =>
    show f.run ((f.gateway.deliveryCalls now).map .backend) = _
    rw [run_backend]
    show _ = { f with gateway := (f.gateway.deliveryTick now).2 }
    rw [Gateway.deliveryTick_eq]
    rfl
  | _ => rfl

/-- The events of a list of turns come to the same as the turns. -/
theorem run_unrolled (f : Frontend) (turns : List Turn) :
    f.run (f.unrolled turns) = f.serve turns := by
  induction turns generalizing f with
  | nil => rfl
  | cons t turns ih =>
    rw [unrolled, journal, run, List.foldl_append]
    show (f.run (f.unrolledTurn t)).run ((f.turn t).unrolled turns) = _
    rw [run_unrolledTurn, ih]
    rfl

end Frontend

/-! ## A worker that is added -/

namespace WorkerPool

variable {p p' : WorkerPool}

/-- Every slot has a connection that has been made, and the losses are those of workers. -/
structure Orderly (p : WorkerPool) : Prop where
  linked : ∀ (i : Nat) (s : WorkerSlot), p.slots[i]? = some s → s.link < p.links.length
  known : ∀ i ∈ p.lost, i < p.slots.length

namespace Orderly

theorem reports (h : p.Orderly) (hr : p.Reports p') : p'.Orderly where
  linked := fun i s' hs' => by
    obtain ⟨s, hs, hl, -⟩ := hr.kept i s' hs'
    rw [hl, hr.links]
    exact h.linked i s hs
  known := fun i hi => by
    rw [hr.slots]
    rcases hr.known i hi with hi | hi
    · exact h.known i hi
    · exact hi

theorem modifyLink (h : p.Orderly) (l : Nat) (f : Link → Link) : (p.modifyLink l f).Orderly where
  linked := fun i s hs => Nat.lt_of_lt_of_eq (h.linked i s hs) (List.length_modify ..).symm
  known := h.known

theorem enlists {index : Nat} (h : p.Orderly) (he : p.Enlists index p') : p'.Orderly := by
  obtain ⟨new, hnew, hslots⟩ := he.slots
  have hlinks : p'.links.length = p.links.length + 1 := by rw [he.links]; simp
  constructor
  · intro i s hs
    rw [hslots] at hs
    split at hs
    · cases hs
      omega
    · have := h.linked i s hs
      omega
  · intro i hi
    rw [he.lost] at hi
    have hold := List.getElem?_eq_getElem (h.known i hi)
    by_cases hindex : i = index
    · exact (List.getElem?_eq_some_iff.mp ((hslots i).trans (if_pos hindex))).1
    · exact (List.getElem?_eq_some_iff.mp (((hslots i).trans (if_neg hindex)).trans hold)).1

theorem writes {a : Attempt} (h : p.Orderly) (hw : p.Writes a p') : p'.Orderly := by
  obtain ⟨s, k, -, -, -, -, -, hreports⟩ := hw.made
  exact (h.modifyLink a.link _).reports hreports

end Orderly

/-- A worker that has just been added is listened to. -/
theorem listens_addWorker {network : Network} {now : Millis} {address : String} {w : Nat}
    (h : p.Orderly) (ha : p.addWorker network now address = .ok (w, p')) :
    ∃ s, p'.Listens w p.links.length s .fresh ∧ s.buffer = [] := by
  have he := enlists_addWorker ha
  obtain ⟨new, -, hslots⟩ := he.slots
  refine ⟨_, ⟨slots_addWorker ha, rfl, rfl, ?_, fun i t ht hl => ?_, fun hw => ?_⟩, rfl⟩
  · rw [he.links, List.getElem?_append_right (Nat.le_refl _), Nat.sub_self]
    rfl
  · by_contra hi
    rw [hslots, if_neg hi] at ht
    exact Nat.lt_irrefl _ (hl ▸ h.linked i t ht)
  · rw [he.lost] at hw
    exact (he.free _ (List.getElem?_eq_getElem (h.known w hw))).2 hw

end WorkerPool

namespace Frontend

open WorkerPool (Orderly)

theorem orderly_turn {f : Frontend} (hf : f.exchange.Held)
    (h : f.gateway.dispatcher.pool.Orderly) (t : Turn) :
    (f.turn t).gateway.dispatcher.pool.Orderly := by
  have client : t.ofClient = true → (f.turn t).gateway.dispatcher.pool.Orderly :=
    fun ht => (narrows_turn hf ht).2 ▸ h
  cases t with
  | accept _ => exact client rfl
  | clientLink _ _ => exact client rfl
  | flush _ => exact client rfl
  | receive _ _ => exact client rfl
  | deliver _ _ _ => exact client rfl
  | disconnect _ _ => exact client rfl
  | assignmentTick now =>
    simp only [turn, event, apply, Gateway.assignmentTick_eq]
    unfold Gateway.assignmentCalls
    split
    · exact h
    · show (f.gateway.dispatcher.assignNext now).2.pool.Orderly
      rw [Dispatcher.pool_assignNext]
      rcases Dispatcher.begins_pool (f.gateway.dispatcher.begins_beginAssign now) with
        ⟨-, hreports⟩ | ⟨a, -, hw⟩
      · exact h.reports hreports
      · exact h.writes hw
  | deliveryTick now =>
    show (f.gateway.deliveryTick now).2.dispatcher.pool.Orderly
    rw [Gateway.pool_deliveryTick]
    have hheard : (f.gateway.afterHearing now).pool.Orderly := by
      refine List.foldlRecOn _ _ (motive := fun d : Dispatcher => d.pool.Orderly)
        (h.reports WorkerPool.reports_pollAll) ?_
      exact fun d hd x _ => hd.reports (Dispatcher.reports_ingest now x.1 x.2)
    exact ⟨hheard.linked, fun i hi => absurd hi List.not_mem_nil⟩
  | addWorker network now address =>
    show (f.gateway.dispatcher.pool.apply (.add network now address)).Orderly
    simp only [WorkerPool.apply]
    split
    · next ha => exact h.enlists (WorkerPool.enlists_addWorker ha)
    · exact h
  | workerLink l change => exact h.modifyLink l change

theorem orderly_serve {f : Frontend} (hf : f.exchange.Held)
    (h : f.gateway.dispatcher.pool.Orderly) (turns : List Turn) :
    (f.serve turns).exchange.Held ∧ (f.serve turns).gateway.dispatcher.pool.Orderly := by
  induction turns generalizing f with
  | nil => exact ⟨hf, h⟩
  | cons t turns ih => exact ih (held_turn hf t) (orderly_turn hf h t)

/-- A worker has just been added, under an index and with a connection of its own, to a
gateway that began without clients and without workers. -/
inductive Engages : Frontend → Nat → Nat → Prop where
  | added {settings : Settings} {firstId : Nat} {before : List Turn} {f : Frontend}
      {network : Network} {now : Millis} {address : String} {w : Nat} {p : WorkerPool} :
      (create (Gateway.create settings) firstId).serve before = f →
      f.gateway.dispatcher.pool.addWorker network now address = .ok (w, p) →
      Engages (f.turn (.addWorker network now address)) w f.gateway.dispatcher.pool.links.length

theorem orderly_created (settings : Settings) (firstId : Nat) (turns : List Turn) :
    ((create (Gateway.create settings) firstId).serve turns).exchange.Held ∧
      ((create (Gateway.create settings) firstId).serve turns).gateway.dispatcher.pool.Orderly := by
  have hheld : (create (Gateway.create settings) firstId).exchange.Held := Held.create _ _ _ _
  refine orderly_serve hheld ⟨fun i s hs => ?_, fun i hi => ?_⟩ turns
  · cases hs
  · cases hi

theorem Engages.held {f : Frontend} {w l : Nat} (h : f.Engages w l) : f.exchange.Held := by
  obtain ⟨rfl, -⟩ := h
  exact held_turn (orderly_created _ _ _).1 _

end Frontend

end PromptGateway
