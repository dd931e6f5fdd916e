import PromptGateway.Proofs.Admission
import PromptGateway.Proofs.Faults
import PromptGateway.Proofs.Outflow
import PromptGateway.Proofs.Sources

/-
  What replies are composed of.

  A reply is put together from what has been read and from words of the gateway's own. If the
  lines that are read are bounded, by `n` say, so is each of these parts. The fragments of an
  answer are those that the lines of the workers have brought for it, whole and each at most once.

    1. `Composed n heard` lists what a reply can be put together from when the workers have said
       `heard`, and how long it can get (`Composed.size_le`).
    2. What a client has gathered of an answer, and what is still unread of it, are fragments that
       have been brought for it, in their order (`WaitingRequest.Light`). One lemma for each
       operation says that it stays so, and that the replies are composed.
    3. `Frontend.light_apply` is this for every event, and `Frontend.light_run` for every run.
-/

namespace PromptGateway

open Text (utf8Length)

/-! ## Replies -/

/-- What a reply is composed of, if nothing that was read is longer than `n` bytes and the workers
have said `heard`, and how long its line is at most. -/
inductive Composed (n : Nat) (heard : List String) : WireMessage → Nat → Prop where
  | token {id fragment} : textSize id + textSize fragment ≤ n →
      fragment ∈ fragmentsFor id heard → Composed n heard (.token id fragment) (n + 51)
  | streamEnd {id} : textSize id ≤ n → Composed n heard (.streamEnd id) (n + 41)
  /-- The more lines have brought a fragment, the longer the line may be. -/
  | fullResult {id} {fragments : List String} : textSize id ≤ n →
      (∀ f ∈ fragments, textSize id + textSize f ≤ n) →
      fragments.Sublist (fragmentsFor id heard) →
      Composed n heard (.fullResult id (String.join fragments)) ((fragments.length + 1) * n + 53)
  /-- A failure in the words of a worker. -/
  | relayed {id reason} : textSize id + textSize reason ≤ n → reason ∈ reasonsFor id heard →
      Composed n heard (.failure id reason) (n + 33)
  | own {id reason} : textSize id ≤ n → OwnWords reason →
      Composed n heard (.failure id reason) (n + textSize reason + 33)
  /-- The id stands in the line twice. -/
  | duplicate {id taken} : textSize id ≤ n → textSize taken ≤ n →
      Composed n heard (.failure id (AdmissionError.duplicate taken).message) (2 * n + 67)
  | unexpected (kind : MessageKind) :
      Composed n heard (.failure "" s!"unexpected '{kind.name}' message from client") 79
  | unreadable {e : DecodeError} : (∀ j, e ≠ .malformed j) →
      Composed n heard (.failure "" e.message) 64
  /-- A part of the line that could not be read may be quoted, and a character that is quoted may
  take seven bytes. -/
  | malformed {line : String} {e : Json.Error} : utf8Length line.toList ≤ n →
      WireMessage.decode line = .error (.malformed e) →
      Composed n heard (.failure "" (DecodeError.malformed e).message) (7 * n + 495)
  | heartbeat : Composed n heard .heartbeat 20

theorem textSize_foldl_le {n : Nat} {fragments : List String} (h : ∀ f ∈ fragments, textSize f ≤ n)
    (gathered : String) :
    textSize (fragments.foldl (· ++ ·) gathered) ≤ textSize gathered + fragments.length * n := by
  induction fragments generalizing gathered with
  | nil => simp
  | cons f fragments ih =>
    rw [List.forall_mem_cons] at h
    have happend := textSize_append gathered f
    calc textSize (fragments.foldl (· ++ ·) (gathered ++ f))
        ≤ textSize (gathered ++ f) + fragments.length * n := ih h.2 _
      _ ≤ textSize gathered + n + fragments.length * n := by omega
      _ = textSize gathered + (fragments.length + 1) * n := by rw [Nat.succ_mul]; omega

theorem textSize_duplicate (id : RequestId) :
    textSize (AdmissionError.duplicate id).message = textSize id + 34 := by
  have hfront : textSize "request id '" = 14 := by decide
  have hback : textSize "' is already in flight" = 24 := by decide
  have happend := textSize_append ("request id '" ++ id) "' is already in flight"
  have hid := textSize_append "request id '" id
  show textSize ("request id '" ++ id ++ "' is already in flight") = _
  omega

/-- A reply is no longer than what it is composed of. -/
theorem Composed.size_le {n k : Nat} {heard : List String} {m : WireMessage}
    (h : Composed n heard m k) : utf8Length m.line ≤ k := by
  cases h with
  | token h _ =>
    rw [WireMessage.size_token]
    omega
  | streamEnd h =>
    rw [WireMessage.size_streamEnd]
    omega
  | @fullResult id fragments hid h _ =>
    have hempty : textSize "" = 2 := by decide
    have hjoin : textSize (String.join fragments) ≤ 2 + fragments.length * n :=
      textSize_foldl_le (fun f hf => Nat.le_of_add_left_le (h f hf)) ""
    rw [WireMessage.size_fullResult, Nat.succ_mul]
    omega
  | relayed h _ =>
    rw [WireMessage.size_failure]
    omega
  | own hid _ =>
    rw [WireMessage.size_failure]
    omega
  | duplicate hid htaken =>
    rw [WireMessage.size_failure, textSize_duplicate]
    omega
  | unexpected kind => cases kind <;> decide
  | @unreadable e he =>
    cases e with
    | empty => decide
    | oversized => decide +kernel
    | invalidUtf8 => decide
    | malformed j => exact absurd rfl (he j)
  | @malformed line e hline hdecode =>
    have hempty : textSize "" = 2 := by decide
    have hreport := WireMessage.malformed_le hdecode
    have htrim := Text.utf8Length_le_of_sublist (Text.trim_sublist line.toList)
    rw [WireMessage.size_failure, hempty]
    omega
  | heartbeat => rw [WireMessage.size_heartbeat]

/-- No reply is of the one kind that is not always read back. -/
theorem Composed.kind_ne {n k : Nat} {heard : List String} {m : WireMessage}
    (h : Composed n heard m k) : m.kind ≠ .status := by
  cases h <;> exact nofun

/-- What has been heard since makes no difference. -/
theorem Composed.more {n k : Nat} {heard : List String} {m : WireMessage}
    (h : Composed n heard m k) (lines : List String) : Composed n (heard ++ lines) m k := by
  have hfragments : ∀ id, (fragmentsFor id heard).Sublist (fragmentsFor id (heard ++ lines)) := by
    intro id
    rw [fragmentsFor_append]
    exact List.sublist_append_left _ _
  cases h with
  | token hle hmem => exact .token hle ((hfragments _).subset hmem)
  | streamEnd hle => exact .streamEnd hle
  | fullResult hid hle hsub => exact .fullResult hid hle (hsub.trans (hfragments _))
  | relayed hle hmem =>
    refine .relayed hle ?_
    rw [reasonsFor_append]
    exact List.mem_append_left _ hmem
  | own hid hown => exact .own hid hown
  | duplicate hid htaken => exact .duplicate hid htaken
  | unexpected kind => exact .unexpected kind
  | unreadable he => exact .unreadable he
  | malformed hline hdecode => exact .malformed hline hdecode
  | heartbeat => exact .heartbeat

/-! ## Clients -/

variable {n : Nat} {heard : List String} {d d' : Dispatcher}

/-- What a client has of a request is fragments that have been brought for it, and what is unread
comes after them. -/
structure WaitingRequest.Light (n : Nat) (heard : List String) (d : Dispatcher)
    (w : WaitingRequest) : Prop where
  id_le : textSize w.id ≤ n
  gathered : ∃ fragments, w.gathered = String.join fragments ∧
    (fragments ++ d.unread w.id).Sublist (fragmentsFor w.id heard)

/-- A reply that is composed as it should be. -/
def WireMessage.Light (n : Nat) (heard : List String) (m : WireMessage) : Prop :=
  ∃ k, Composed n heard m k

namespace WaitingRequest.Light

variable {w : WaitingRequest}

theorem follows {lines : List String} (h : w.Light n heard d) (hd : d.Follows lines d') :
    w.Light n (heard ++ lines) d' := by
  obtain ⟨fragments, hgathered, hsub⟩ := h.gathered
  refine ⟨h.id_le, fragments, hgathered, ?_⟩
  rw [fragmentsFor_append]
  calc (fragments ++ d'.unread w.id).Sublist
        (fragments ++ (d.unread w.id ++ fragmentsFor w.id lines)) :=
          List.Sublist.append_left (hd.unread w.id) _
    _ = fragments ++ d.unread w.id ++ fragmentsFor w.id lines := (List.append_assoc ..).symm
    List.Sublist _ (fragmentsFor w.id heard ++ fragmentsFor w.id lines) :=
          List.Sublist.append_right hsub _

theorem keeps (h : w.Light n heard d) (hd : d.Follows [] d') : w.Light n heard d' := by
  have hnone := h.follows hd
  rwa [List.append_nil] at hnone

/-- A fragment that is handed out moves from what is unread to what is gathered. -/
theorem gather (h : w.Light n heard d) {f : String} (hf : d.Draws w.id (.fragment f) d') :
    (w.gather f).Light n heard d' := by
  cases hstream : w.stream with
  | true =>
    have hsame : w.gather f = w := by rw [WaitingRequest.gather, hstream]; rfl
    rw [hsame]
    exact h.keeps (.draws hf)
  | false =>
    have hmore : w.gather f = { w with gathered := w.gathered ++ f } := by
      rw [WaitingRequest.gather, hstream]
      rfl
    obtain ⟨fragments, hgathered, hsub⟩ := h.gathered
    rw [hf.unread_eq] at hsub
    rw [hmore]
    refine ⟨h.id_le, fragments ++ [f], ?_, ?_⟩
    · simp [hgathered, String.join]
    · rwa [List.append_assoc]

theorem reply {f : String} (hf : textSize w.id + textSize f ≤ n)
    (hmem : f ∈ fragmentsFor w.id heard) : ∀ m ∈ w.reply f, m.Light n heard := by
  intro m hm
  unfold WaitingRequest.reply at hm
  split at hm
  · rw [List.mem_singleton.mp hm]
    exact ⟨_, .token hf hmem⟩
  · exact absurd hm List.not_mem_nil

theorem ending (h : w.Light n heard d) (hheard : ∀ line ∈ heard, utf8Length line.toList ≤ n) :
    w.ending.Light n heard := by
  unfold WaitingRequest.ending
  split
  · exact ⟨_, .streamEnd h.id_le⟩
  · obtain ⟨fragments, hgathered, hsub⟩ := h.gathered
    have hbrought := (List.sublist_append_left fragments (d.unread w.id)).trans hsub
    rw [hgathered]
    exact ⟨_, .fullResult h.id_le
      (fun f hf => textSize_of_mem_fragmentsFor hheard (hbrought.subset hf)) hbrought⟩

/-- What is handed over of a request. -/
theorem handOver (hheard : ∀ line ∈ heard, utf8Length line.toList ≤ n) (hd : d.Sourced heard)
    (h : w.Light n heard d) (now : Millis) (cap : Nat) :
    (∀ m ∈ (d.handOver now cap w).1.messages, m.Light n heard) ∧
      (∀ v ∈ (d.handOver now cap w).1.remaining.toList,
        v.Light n heard (d.handOver now cap w).2) ∧
      d.Follows [] (d.handOver now cap w).2 := by
  induction cap generalizing w d with
  | zero => exact ⟨List.forall_mem_nil _, fun v hv => by rwa [List.mem_singleton.mp hv], .refl⟩
  | succ cap ih =>
    have hdraws := d.draws_nextFragment w.id
    simp only [Dispatcher.handOver]
    generalize d.nextFragment w.id = x at hdraws
    obtain ⟨answer, d'⟩ := x
    dsimp only at hdraws
    have hfollows : d.Follows [] d' := .draws hdraws
    cases answer with
    | fragment f =>
      have hmem : f ∈ fragmentsFor w.id heard := by
        refine (hd.unread w.id).subset ?_
        rw [hdraws.unread_eq]
        exact List.mem_cons_self
      have hpair := textSize_of_mem_fragmentsFor hheard hmem
      obtain ⟨hmessages, hremaining, hrest⟩ := ih (hd.keeps hfollows) (h.gather hdraws)
      refine ⟨fun m hm => ?_, hremaining, hfollows.before hrest⟩
      rcases List.mem_append.mp hm with hm | hm
      · exact reply hpair hmem m hm
      · exact hmessages m hm
    | finished =>
      refine ⟨fun m hm => ?_, List.forall_mem_nil _, hfollows.before (.finishDelivery d' w.id now)⟩
      rw [List.mem_singleton.mp hm]
      exact h.ending hheard
    | failed reason =>
      have hreason : reason ∈ reasonsFor w.id heard ∨ OwnWords reason := by
        cases hdraws with
        | untracked _ _ => exact .inr .untracked
        | failed hs hfailure =>
          exact hd.failure w.id reason (Dispatcher.failure?_eq_some_iff.mpr ⟨_, hs, hfailure⟩)
      refine ⟨fun m hm => ?_, List.forall_mem_nil _, hfollows⟩
      rw [List.mem_singleton.mp hm]
      rcases hreason with hmem | hown
      · exact ⟨_, .relayed (textSize_of_mem_reasonsFor hheard hmem) hmem⟩
      · exact ⟨_, .own h.id_le hown⟩
    | nothing =>
      refine ⟨List.forall_mem_nil _, fun v hv => ?_, hfollows⟩
      rw [List.mem_singleton.mp hv]
      exact h.keeps hfollows

end WaitingRequest.Light

namespace Client

/-- What is delivered to a client. -/
theorem light_deliver {c : Client} (hheard : ∀ line ∈ heard, utf8Length line.toList ≤ n)
    (hd : d.Sourced heard) (hc : ∀ w ∈ c.waiting, w.Light n heard d) (o : ConnectionId) (cap : Nat)
    (now : Millis) :
    (∀ m ∈ (c.deliverLog d o cap now).filterMap Observation.message?, m.Light n heard) ∧
      (∀ w ∈ (c.deliver d cap now).2.1.waiting, w.Light n heard (c.deliver d cap now).2.2) ∧
      d.Follows [] (c.deliver d cap now).2.2 := by
  rw [deliver_eq, deliverLog]
  -- what has had its turn is what the client keeps so far
  suffices key : ∀ (ws : List WaitingRequest) (s : Nat × Client × Dispatcher),
      (∀ w ∈ ws, w.Light n heard s.2.2) → (∀ w ∈ s.2.1.waiting, w.Light n heard s.2.2) →
      s.2.2.Sourced heard →
      (∀ m ∈ (journal (fun d w => (d.handOver now cap w).2)
        (fun d w => (d.handOver now cap w).1.messages.map (Observation.queued o w.id)) s.2.2
          ws).filterMap Observation.message?, m.Light n heard) ∧
      (∀ w ∈ (ws.foldl (deliverStep cap now) s).2.1.waiting,
        w.Light n heard (ws.foldl (deliverStep cap now) s).2.2) ∧
      s.2.2.Follows [] (ws.foldl (deliverStep cap now) s).2.2 from
    key c.waiting (0, { c with waiting := [] }, d) hc (List.forall_mem_nil _) hd
  intro ws
  induction ws with
  | nil => exact fun s _ hs _ => ⟨List.forall_mem_nil _, hs, .refl⟩
  | cons w ws ih =>
    intro s hws hs hd
    rw [List.forall_mem_cons] at hws
    obtain ⟨hmessages, hremaining, hfollows⟩ :=
      WaitingRequest.Light.handOver hheard hd hws.1 now cap
    obtain ⟨hrest, hwaiting, hlast⟩ := ih (deliverStep cap now s w)
      (fun v hv => (hws.2 v hv).keeps hfollows)
      (fun v hv => by
        rcases List.mem_append.mp hv with hv | hv
        · exact (hs v hv).keeps hfollows
        · exact hremaining v hv)
      (hd.keeps hfollows)
    refine ⟨fun m hm => ?_, hwaiting, hfollows.before hlast⟩
    rw [journal, List.filterMap_append] at hm
    rcases List.mem_append.mp hm with hm | hm
    · obtain ⟨e, he, hm⟩ := List.mem_filterMap.mp hm
      obtain ⟨m', hm', rfl⟩ := List.mem_map.mp he
      cases hm
      exact hmessages m hm'
    · exact hrest m hm

end Client

/-- A reaction that leaves nothing long behind. -/
def Reaction.Light (n : Nat) (heard : List String) (d : Dispatcher) : Reaction → Prop
  | waits w => w.Light n heard d
  | replies m => m.Light n heard

theorem Reaction.Light.keeps {a : Reaction} (h : a.Light n heard d) (hd : d.Follows [] d') :
    a.Light n heard d' := by
  cases a with
  | waits w => exact WaitingRequest.Light.keeps h hd
  | replies m => exact h

/-- An entry that was read from a line of at most `n` bytes, if it was read at all. -/
def EntryWithin (n : Nat) (e : Except DecodeError WireMessage) : Prop :=
  (∃ line, WireMessage.decode line = e ∧ utf8Length line.toList ≤ n) ∨
    ∃ fault, e = .error fault ∧ ∀ j, fault ≠ .malformed j

/-- What comes out of a stream of bytes is read from its lines. -/
theorem Frame.entry_within {buffer : Bytes}
    (hlines : ∀ line ∈ (drainLines buffer).1.filterMap Except.toOption,
      utf8Length line.toList ≤ n) :
    ∀ e ∈ (drainMessages buffer).1, EntryWithin n e := by
  have hfault : ∀ fault, .error fault ∈ (drainLines buffer).1 → ∀ j, fault ≠ .malformed j := by
    intro fault hmem
    unfold drainLines at hmem
    have hentry : ∀ l : Bytes, entry l = some (.error fault) → ∀ j, fault ≠ .malformed j := by
      intro l hl
      unfold entry at hl
      split at hl
      · cases hl
        exact nofun
      · split at hl <;> cases hl
    have hentries : ∀ ls : List Bytes, .error fault ∈ ls.filterMap entry →
        ∀ j, fault ≠ .malformed j := by
      intro ls hls
      obtain ⟨l, -, hl⟩ := List.mem_filterMap.mp hls
      exact hentry l hl
    dsimp only at hmem
    split at hmem
    · rcases List.mem_append.mp hmem with hmem | hmem
      · exact hentries _ hmem
      · cases List.mem_singleton.mp hmem
        exact nofun
    · exact hentries _ hmem
  intro e he
  obtain ⟨entry, hentry, rfl⟩ := List.mem_map.mp he
  cases entry with
  | error fault => exact .inr ⟨fault, rfl, hfault fault hentry⟩
  | ok line => exact .inl ⟨line, rfl, hlines line (List.mem_filterMap.mpr ⟨_, hentry, rfl⟩)⟩

theorem decode_requestedId_le {line : String} {r : InferenceRequest} {id : RequestId}
    (h : WireMessage.decode line = .ok (.request r)) (hline : utf8Length line.toList ≤ n)
    (hid : r.requestedId = some id) : textSize id ≤ n :=
  calc textSize id ≤ utf8Length (Text.trim line.toList) := decode_requestedId h hid
    _ ≤ utf8Length line.toList := Text.utf8Length_le_of_sublist (Text.trim_sublist _)
    _ ≤ n := hline

section

variable {m : Moment} {owner : ConnectionId}

/-- No stream is touched by what a client sends. -/
theorem Client.Reacts.follows {e : Except DecodeError WireMessage} {a : Reaction}
    (h : Reacts m owner d e a d') : d.Follows [] d' := by
  cases h with
  | admitted hplace =>
    have hadmits := Dispatcher.admits_of_admitRequest (Dispatcher.admitInPlace_ok_iff.mp hplace)
    obtain ⟨generated, rfl⟩ := hadmits.engine_eq
    exact .of_streams rfl
  | rejected _ => exact .refl
  | heartbeat => exact .refl
  | undecodable => exact .refl
  | unexpected _ _ => exact .refl

theorem Client.Reacts.light {e : Except DecodeError WireMessage} {a : Reaction}
    (h : Reacts m owner d e a d') (hd : d.Sourced heard) (hids : ∀ k, textSize (m.newId k) ≤ n)
    (he : EntryWithin n e) : a.Light n heard d' := by
  have hempty : textSize "" ≤ n := by
    have hnew := hids 0
    rw [textSize_eq] at hnew ⊢
    exact Nat.le_trans (Nat.le_add_left 2 _) hnew
  have hrequested : ∀ r, e = .ok (.request r) → ∀ id, r.requestedId = some id →
      textSize id ≤ n := by
    rintro r rfl id hid
    rcases he with ⟨line, hdecode, hline⟩ | ⟨fault, hfault, -⟩
    · exact decode_requestedId_le hdecode hline hid
    · cases hfault
  have hfor : ∀ r, e = .ok (.request r) → textSize (d.idFor m r) ≤ n := by
    intro r hr
    unfold Dispatcher.idFor
    cases hid : r.requestedId with
    | none => exact hids _
    | some id => exact hrequested r hr id hid
  have hfollows := h.follows
  cases h with
  | @admitted r record d' hplace =>
    have hadmits := Dispatcher.admits_of_admitRequest (Dispatcher.admitInPlace_ok_iff.mp hplace)
    refine ⟨?_, [], rfl, (hd.keeps hfollows).unread _⟩
    rw [hadmits.record_eq]
    exact hfor r rfl
  | @rejected r e hplace =>
    have hadmit := (Dispatcher.admitInPlace_error_iff.mp hplace).1
    have hid : textSize (Text.trimmed (r.id.getD "")) ≤ n := by
      rw [← Client.requestedId_getD]
      cases hid : r.requestedId with
      | none => exact hempty
      | some id => exact hrequested r rfl id hid
    by_cases hduplicate : ∃ i, e = .duplicate i
    · obtain ⟨i, rfl⟩ := hduplicate
      obtain ⟨rfl, -⟩ := Dispatcher.admitRequest_duplicate_iff.mp hadmit
      exact ⟨_, .duplicate hid (hfor r rfl)⟩
    · exact ⟨_, .own hid (.crowded fun i hi => hduplicate ⟨i, hi⟩)⟩
  | heartbeat => exact ⟨_, .heartbeat⟩
  | @undecodable fault =>
    by_cases hmalformed : ∃ j, fault = .malformed j
    · obtain ⟨j, rfl⟩ := hmalformed
      rcases he with ⟨line, hdecode, hline⟩ | ⟨fault, hfault, hother⟩
      · exact ⟨_, .malformed hline hdecode⟩
      · cases hfault
        exact absurd rfl (hother j)
    · exact ⟨_, .unreadable fun j hj => hmalformed ⟨j, hj⟩⟩
  | unexpected _ _ => exact ⟨_, .unexpected _⟩

theorem Client.ReactsAll.light {es : List (Except DecodeError WireMessage)} {as : List Reaction}
    (h : ReactsAll m owner d es as d') (hd : d.Sourced heard)
    (hids : ∀ k, textSize (m.newId k) ≤ n) (hes : ∀ e ∈ es, EntryWithin n e) :
    (∀ a ∈ as, a.Light n heard d') ∧ d.Follows [] d' := by
  induction h with
  | nil => exact ⟨List.forall_mem_nil _, .refl⟩
  | cons hreacts _ ih =>
    rw [List.forall_mem_cons] at hes
    have hnext := hreacts.follows
    obtain ⟨has, hlast⟩ := ih (hd.keeps hnext) hes.2
    have ha := (hreacts.light hd hids hes.1).keeps hlast
    exact ⟨List.forall_mem_cons.mpr ⟨ha, has⟩, hnext.before hlast⟩

end

/-! ## Runs -/

/-- What the clients wait for is light, when the workers have said `heard`. -/
structure Exchange.Light (n : Nat) (heard : List String) (x : Exchange) : Prop where
  lines : ∀ line ∈ heard, utf8Length line.toList ≤ n
  engine : x.engine.Sourced heard
  waiting : ∀ o, ∀ w ∈ x.waiting o, w.Light n heard x.engine

namespace Exchange.Light

variable {ws : ConnectionId → List WaitingRequest}

/-- Lines of workers are heard. -/
theorem follows {lines : List String} (h : Light n heard ⟨d, ws⟩)
    (hlines : ∀ line ∈ lines, utf8Length line.toList ≤ n) (hd : d.Follows lines d') :
    Light n (heard ++ lines) ⟨d', ws⟩ where
  lines := List.forall_mem_append.mpr ⟨h.lines, hlines⟩
  engine := h.engine.follows hd
  waiting o w hw := (h.waiting o w hw).follows hd

/-- What one client waits for is replaced. -/
theorem update {o : ConnectionId} {new : List WaitingRequest} (h : Light n heard ⟨d, ws⟩)
    (hd : d.Follows [] d') (hnew : ∀ w ∈ new, w.Light n heard d') :
    Light n heard ⟨d', Function.update ws o new⟩ where
  lines := h.lines
  engine := h.engine.keeps hd
  waiting := by
    intro i w hw
    change w ∈ Function.update ws o new i at hw
    rw [Function.update_apply] at hw
    split at hw
    · exact hnew w hw
    · exact (h.waiting i w hw).keeps hd

end Exchange.Light

namespace Frontend

/-- The lines of workers that are heard in an event. -/
def linesHeard (f : Frontend) : Event → List String
  | .assignmentTick now => (f.gateway.assignmentCalls now).filterMap BackendCall.line?
  | .deliveryTick now => (f.gateway.deliveryCalls now).filterMap BackendCall.line?
  | .backend call => [call].filterMap BackendCall.line?
  | .accept _ | .link _ _ | .receive _ _ | .deliver _ _ _ | .flush _ | .disconnect _ _ => []

/-- The lines that are read in an event, complete and without the blanks at their end. -/
def linesRead (f : Frontend) : Event → List String
  | .receive o _ =>
    match f.clients.find? o with
    | none => []
    | some c =>
      if c.link.isOver then []
      else (Frame.drainLines (c.inbox ++ c.link.inbound)).1.filterMap Except.toOption
  | .assignmentTick now => (f.gateway.assignmentCalls now).filterMap BackendCall.line?
  | .deliveryTick now => (f.gateway.deliveryCalls now).filterMap BackendCall.line?
  | .backend call => [call].filterMap BackendCall.line?
  | .accept _ | .link _ _ | .deliver _ _ _ | .flush _ | .disconnect _ _ => []

/-- The messages that are queued in an event for the client that it is about. -/
def queued (f : Frontend) : Event → List WireMessage
  | .receive o m =>
    match f.clients.find? o with
    | none => []
    | some c => c.queued (.receive c.link f.gateway.dispatcher m o)
  | .deliver o cap now =>
    match f.clients.find? o with
    | none => []
    | some c => c.queued (.deliver f.gateway.dispatcher o cap now)
  | .accept _ | .link _ _ | .flush _ | .disconnect _ _ | .assignmentTick _ | .deliveryTick _
  | .backend _ => []

/-- They are what the outbox of that client gains. -/
theorem outbox_queued {f : Frontend} {o : ConnectionId} {c : Client}
    (hc : f.clients.find? o = some c) {e : Event}
    (he : (∃ m, e = .receive o m) ∨ ∃ cap now, e = .deliver o cap now) :
    ∃ c', (f.apply e).clients.find? o = some c' ∧
      c'.outbox = c.outbox ++ (f.queued e).flatMap WireMessage.encode := by
  have hupdate : ∀ (c' : Client) (d : Dispatcher), (f.update o c' d).clients.find? o = some c' := by
    intro c' d
    show (f.clients.modify o _).find? o = _
    rw [Table.find?_modify, if_pos rfl, hc]
    rfl
  rcases he with ⟨m, rfl⟩ | ⟨cap, now, rfl⟩
  · have hcall := c.outflow_call (.receive c.link f.gateway.dispatcher m o)
    simp only [apply, receiveFrom, queued, hc]
    exact ⟨_, hupdate _ _, hcall⟩
  · have hcall := c.outflow_call (.deliver f.gateway.dispatcher o cap now)
    simp only [apply, queued, hc]
    exact ⟨_, hupdate _ _, hcall⟩

variable {f : Frontend}

/-- What is heard is read. -/
theorem linesHeard_subset (f : Frontend) (e : Event) : f.linesHeard e ⊆ f.linesRead e := by
  cases e <;> first | exact List.nil_subset _ | exact List.Subset.refl _

theorem light_receive (h : f.exchange.Light n heard) {o : ConnectionId} {m : Moment}
    (hlines : ∀ line ∈ f.linesRead (.receive o m), utf8Length line.toList ≤ n)
    (hids : ∀ k, textSize (m.newId k) ≤ n) :
    (∀ message ∈ f.queued (.receive o m), message.Light n heard) ∧
      (f.apply (.receive o m)).exchange.Light n heard := by
  simp only [linesRead, queued, apply, receiveFrom] at hlines ⊢
  cases hc : f.clients.find? o with
  | none => exact ⟨List.forall_mem_nil _, h⟩
  | some c =>
    simp only [hc] at hlines ⊢
    have hreceive := c.receive_eq f.gateway.dispatcher m o
    have hwaiting : ∀ w ∈ c.waiting, w.Light n heard f.gateway.dispatcher := fun w hw =>
      h.waiting o w (mem_waitingIn.mpr ⟨c, hc, hw⟩)
    dsimp only at hreceive
    simp only [exchange_update hc, Client.queued]
    rw [hreceive]
    cases hover : c.link.isOver with
    | true =>
      simp only [if_true]
      exact ⟨List.forall_mem_nil _, h.update .refl hwaiting⟩
    | false =>
      simp only [hover, Bool.false_eq_true, if_false] at hlines ⊢
      have hentries := Frame.entry_within hlines
      generalize (Frame.drainMessages (c.inbox ++ c.link.inbound)).1 = entries at hentries ⊢
      have hreacts : Client.ReactsAll m o f.gateway.dispatcher entries
          (Client.reactions m o f.gateway.dispatcher entries)
          (Client.engineAfter m o f.gateway.dispatcher entries) :=
        Client.reactsAll_iff.mpr ⟨rfl, rfl⟩
      obtain ⟨hreactions, hfollows⟩ := hreacts.light h.engine hids hentries
      refine ⟨fun message hm => ?_, h.update hfollows fun w hw => ?_⟩
      · obtain ⟨a, ha, hm⟩ := List.mem_filterMap.mp hm
        cases a with
        | waits w => cases hm
        | replies reply =>
          cases hm
          exact hreactions _ ha
      · rcases List.mem_append.mp hw with hw | hw
        · exact (hwaiting w hw).keeps hfollows
        · obtain ⟨a, ha, hw⟩ := List.mem_filterMap.mp hw
          cases a with
          | replies reply => cases hw
          | waits v =>
            cases hw
            exact hreactions _ ha

/-- Every event keeps what is in the streams and with the clients light, and queues nothing that
is not composed as it should be. -/
theorem light_apply (h : f.exchange.Light n heard) {e : Event}
    (hlines : ∀ line ∈ f.linesRead e, utf8Length line.toList ≤ n)
    (hids : ∀ o m, e = .receive o m → ∀ k, textSize (m.newId k) ≤ n) :
    (∀ message ∈ f.queued e, message.Light n heard) ∧
      (f.apply e).exchange.Light n (heard ++ f.linesHeard e) := by
  have hheard : ∀ line ∈ f.linesHeard e, utf8Length line.toList ≤ n := fun line hline =>
    hlines line (f.linesHeard_subset e hline)
  -- in all but the ticks and the calls of the engine no worker is heard
  have hsilent : f.linesHeard e = [] → (f.apply e).exchange.Light n heard →
      (f.apply e).exchange.Light n (heard ++ f.linesHeard e) := by
    intro hnone hlight
    rwa [hnone, List.append_nil]
  cases e with
  | accept link =>
    refine ⟨List.forall_mem_nil _, hsilent rfl ?_⟩
    simpa only [apply, exchange_accept] using h
  | link o change =>
    refine ⟨List.forall_mem_nil _, hsilent rfl ?_⟩
    simp only [apply]
    cases hc : f.clients.find? o with
    | none => exact h
    | some c =>
      simp only [exchange_update hc]
      exact h.update .refl fun w hw => h.waiting o w (mem_waitingIn.mpr ⟨c, hc, hw⟩)
  | receive o m => exact (light_receive h hlines (hids o m rfl)).imp_right (hsilent rfl)
  | deliver o cap now =>
    refine And.imp_right (hsilent rfl) ?_
    simp only [queued, apply]
    cases hc : f.clients.find? o with
    | none => exact ⟨List.forall_mem_nil _, h⟩
    | some c =>
      have hwaiting : ∀ w ∈ c.waiting, w.Light n heard f.gateway.dispatcher := fun w hw =>
        h.waiting o w (mem_waitingIn.mpr ⟨c, hc, hw⟩)
      obtain ⟨hmessages, hrest, hfollows⟩ :=
        Client.light_deliver h.lines h.engine hwaiting o cap now
      simp only [exchange_update hc]
      exact ⟨hmessages, h.update hfollows hrest⟩
  | flush o =>
    refine ⟨List.forall_mem_nil _, hsilent rfl ?_⟩
    simp only [apply]
    cases hc : f.clients.find? o with
    | none => exact h
    | some c =>
      simp only [exchange_update hc, waiting_flush]
      exact h.update .refl fun w hw => h.waiting o w (mem_waitingIn.mpr ⟨c, hc, hw⟩)
  | disconnect o now =>
    refine ⟨List.forall_mem_nil _, hsilent rfl ?_⟩
    simp only [apply, disconnect]
    cases hc : f.clients.find? o with
    | none => exact h
    | some c =>
      have hcancelled : f.gateway.dispatcher.Follows []
          (f.gateway.dispatcher.cancelConnection o now).2 := .endEach (.inl rfl) _
      have hleft : f.gateway.dispatcher.Follows []
          (c.release f.gateway.dispatcher o now).2 :=
        List.foldlRecOn c.waiting _ (motive := Dispatcher.Follows [] f.gateway.dispatcher)
          hcancelled fun d hd w _ => hd.before (.clearStream d w.id)
      have hnone : Exchange.Light n heard ⟨_, Function.update (waitingIn f.clients) o []⟩ :=
        h.update hleft (List.forall_mem_nil _)
      rw [← waitingIn_erase] at hnone
      exact hnone
  | assignmentTick now =>
    refine ⟨List.forall_mem_nil _, ?_⟩
    simp only [apply, Gateway.assignmentTick_eq]
    exact h.follows hheard (.runBackend _ _)
  | deliveryTick now =>
    refine ⟨List.forall_mem_nil _, ?_⟩
    simp only [apply, Gateway.deliveryTick_eq]
    exact h.follows hheard (.runBackend _ _)
  | backend call =>
    exact ⟨List.forall_mem_nil _, h.follows hheard (.runBackend _ [call])⟩

theorem light_run (h : f.exchange.Light n heard) {events : List Event}
    (hlines : ∀ line ∈ journal apply linesRead f events, utf8Length line.toList ≤ n)
    (hids : ∀ o m, .receive o m ∈ events → ∀ k, textSize (m.newId k) ≤ n) :
    ∀ message ∈ journal apply queued f events,
      message.Light n (heard ++ journal apply linesHeard f events) := by
  induction events generalizing f heard with
  | nil => exact List.forall_mem_nil _
  | cons e events ih =>
    rw [journal, List.forall_mem_append] at hlines
    obtain ⟨hqueued, hnext⟩ :=
      light_apply h hlines.1 fun o m he => hids o m (he ▸ List.mem_cons_self)
    rw [journal, List.forall_mem_append]
    refine ⟨fun message hm => ?_, fun message hm => ?_⟩
    · obtain ⟨k, hk⟩ := hqueued message hm
      exact ⟨k, hk.more _⟩
    · rw [journal, ← List.append_assoc]
      exact ih hnext hlines.2 (fun o m hm => hids o m (List.mem_cons_of_mem _ hm)) message hm

end Frontend

end PromptGateway
