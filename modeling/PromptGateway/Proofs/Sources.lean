import PromptGateway.Proofs.Pairing
import PromptGateway.Proofs.Sizes

/-
  Where what a client gets comes from.

  A worker's line brings at most one fragment for a request, or a reason why it failed. What has
  not been read of a stream is made of such fragments, each taken from a line of its own and in
  the order of the lines. Nothing is cut into pieces or put together from pieces, and nothing is
  read twice.

    1. `fragmentsFor id lines` and `reasonsFor id lines` are what lines bring for a request, and
       each is no longer, together with the id, than its line.
    2. `Dispatcher.Follows lines d d'`: what is unread in `d'` was unread in `d` or is brought by
       the lines, in this order; and a failure is an earlier one, a reason that the lines bring,
       or in the gateway's own words.
    3. One lemma for each operation of the engine says which lines it follows, up to
       `Follows.runBackend`.
-/

namespace PromptGateway

open Text (utf8Length)

/-- A wording of the gateway's own. -/
inductive OwnWords : String → Prop where
  | unserved : OwnWords "no worker available"
  | undelivered (e : SendError) : OwnWords e.message
  | lost (worker : Nat) : OwnWords s!"worker {worker} disconnected"
  | idle (timeoutMs : Nat) : OwnWords s!"no progress for {timeoutMs} ms"
  | untracked : OwnWords "request is no longer tracked"
  | crowded {e : AdmissionError} : (∀ id, e ≠ .duplicate id) → OwnWords e.message

/-! ## What lines bring -/

/-- The fragment for a request that a line brings. -/
def fragmentFor? (id : RequestId) (line : String) : Option String :=
  match WireMessage.decode line with
  | .ok (.response r) => if r.id = id then r.fragment? else none
  | _ => none

/-- The reason that a line gives for the failure of a request. -/
def reasonFor? (id : RequestId) (line : String) : Option String :=
  match WireMessage.decode line with
  | .ok (.error e) => if e.id = id ∧ id ≠ "" then some e.message else none
  | _ => none

/-- The fragments for a request that lines bring, in their order. -/
def fragmentsFor (id : RequestId) (lines : List String) : List String :=
  lines.filterMap (fragmentFor? id)

/-- The reasons that lines give for the failure of a request. -/
def reasonsFor (id : RequestId) (lines : List String) : List String :=
  lines.filterMap (reasonFor? id)

section

variable {id : RequestId} {n : Nat} {lines : List String}

theorem fragmentsFor_append (id : RequestId) (lines more : List String) :
    fragmentsFor id (lines ++ more) = fragmentsFor id lines ++ fragmentsFor id more :=
  List.filterMap_append

theorem reasonsFor_append (id : RequestId) (lines more : List String) :
    reasonsFor id (lines ++ more) = reasonsFor id lines ++ reasonsFor id more :=
  List.filterMap_append

/-- A fragment is no longer, together with its id, than its line. -/
theorem textSize_of_mem_fragmentsFor (hlines : ∀ line ∈ lines, utf8Length line.toList ≤ n)
    {f : String} (hf : f ∈ fragmentsFor id lines) : textSize id + textSize f ≤ n := by
  obtain ⟨line, hline, hf⟩ := List.mem_filterMap.mp hf
  have htrim := Text.utf8Length_le_of_sublist (Text.trim_sublist line.toList)
  unfold fragmentFor? at hf
  split at hf
  · next r hr =>
    split at hf
    · next hid =>
      have hsize := decode_response hr hf
      rw [hid] at hsize
      exact Nat.le_trans hsize (Nat.le_trans htrim (hlines line hline))
    · cases hf
  · cases hf

theorem textSize_of_mem_reasonsFor (hlines : ∀ line ∈ lines, utf8Length line.toList ≤ n)
    {reason : String} (hreason : reason ∈ reasonsFor id lines) :
    textSize id + textSize reason ≤ n := by
  obtain ⟨line, hline, hreason⟩ := List.mem_filterMap.mp hreason
  have htrim := Text.utf8Length_le_of_sublist (Text.trim_sublist line.toList)
  unfold reasonFor? at hreason
  split at hreason
  · next e he =>
    split at hreason
    · next hid =>
      cases hreason
      have hsize := decode_report he (hid.1 ▸ hid.2)
      rw [hid.1] at hsize
      exact Nat.le_trans hsize (Nat.le_trans htrim (hlines line hline))
    · cases hreason
  · cases hreason

end

/-- The line of a call that hears one. -/
def BackendCall.line? : BackendCall → Option String
  | .hear _ _ line => some line
  | .assign _ | .failWorker _ _ | .sweep _ _ _ | .pool _ => none

/-! ## Streams -/

/-- What has not been read of a stream. -/
def TokenStream.unread (s : TokenStream) : List String := s.fragments.drop s.cursor

theorem TokenStream.unread_fail (s : TokenStream) (reason : String) :
    (s.fail reason).unread = [] := List.drop_length

/-- Nothing is taken in after the end. -/
theorem TokenStream.absorb_of_finished {s : TokenStream} (h : s.finished = true)
    (r : TokenResponse) : s.absorb r = s := by
  obtain ⟨fragments, cursor, finished, failure⟩ := s
  obtain rfl : finished = true := h
  unfold TokenStream.absorb TokenStream.append TokenStream.finish
  cases r.fragment? with
  | none => cases r.finished <;> rfl
  | some f => cases r.finished <;> rfl

theorem TokenStream.unread_absorb (s : TokenStream) (r : TokenResponse) :
    (s.absorb r).unread.Sublist (s.unread ++ r.fragment?.toList) := by
  cases hfin : s.finished with
  | true =>
    rw [absorb_of_finished hfin]
    exact List.sublist_append_left _ _
  | false =>
    rw [absorb_eq hfin]
    show ((s.fragments ++ r.fragment?.toList).drop s.cursor).Sublist _
    rw [List.drop_append]
    exact List.Sublist.append_left (List.drop_sublist _ _) _

namespace Dispatcher

/-- What has not been read of the stream of a request. -/
def unread (d : Dispatcher) (id : RequestId) : List String := (d.streamOf id).unread

/-- What is unread, and what has failed, after lines have been heard. -/
structure Follows (lines : List String) (d d' : Dispatcher) : Prop where
  unread : ∀ id, (d'.unread id).Sublist (d.unread id ++ fragmentsFor id lines)
  failure : ∀ id reason, d'.failure? id = some reason →
    d.failure? id = some reason ∨ reason ∈ reasonsFor id lines ∨ OwnWords reason

namespace Follows

variable {lines more : List String} {d d' d'' : Dispatcher} {id : RequestId}

theorem of_streams (h : d'.streams = d.streams) : Follows lines d d' where
  unread id := by
    simp only [Dispatcher.unread, streamOf, h]
    exact List.sublist_append_left _ _
  failure id reason hr := .inl (failure?_congr (congrArg (·.find? id) h) ▸ hr)

theorem refl : Follows lines d d := of_streams rfl

theorem trans (h : Follows lines d d') (h' : Follows more d' d'') :
    Follows (lines ++ more) d d'' where
  unread id := by
    rw [fragmentsFor_append, ← List.append_assoc]
    exact (h'.unread id).trans (List.Sublist.append_right (h.unread id) _)
  failure id reason hr := by
    rw [reasonsFor_append, List.mem_append]
    rcases h'.failure id reason hr with hr | hr | hr
    · exact (h.failure id reason hr).imp_right fun h => h.imp_left .inl
    · exact .inr (.inl (.inr hr))
    · exact .inr (.inr hr)

/-- An operation without lines, before or after others. -/
theorem before (h : Follows [] d d') (h' : Follows lines d' d'') : Follows lines d d'' :=
  h.trans h'

theorem after (h : Follows lines d d') (h' : Follows [] d' d'') : Follows lines d d'' := by
  have hboth := h.trans h'
  rwa [List.append_nil] at hboth

theorem setStream {s : TokenStream}
    (hunread : s.unread.Sublist (d.unread id ++ fragmentsFor id lines))
    (hfailure : ∀ reason, s.failure = some reason →
      d.failure? id = some reason ∨ reason ∈ reasonsFor id lines ∨ OwnWords reason) :
    Follows lines d (d.setStream id s) := by
  have hfind : ∀ j, (d.setStream id s).streams.find? j =
      if j = id then some s else d.streams.find? j := fun j => Table.find?_insert ..
  constructor
  · intro j
    simp only [Dispatcher.unread, streamOf, hfind]
    split
    · next hj =>
      subst hj
      exact hunread
    · exact List.sublist_append_left _ _
  · intro j reason hr
    rw [failure?, hfind] at hr
    split at hr
    · next hj =>
      subst hj
      exact hfailure reason hr
    · exact .inl hr

theorem clearStream (d : Dispatcher) (id : RequestId) : Follows lines d (d.clearStream id) := by
  have hfind : ∀ j, (d.clearStream id).streams.find? j =
      if j = id then none else d.streams.find? j := fun j => Table.find?_erase ..
  constructor
  · intro j
    simp only [Dispatcher.unread, streamOf, hfind]
    split
    · exact List.nil_sublist _
    · exact List.sublist_append_left _ _
  · intro j reason hr
    rw [failure?, hfind] at hr
    split at hr
    · cases hr
    · exact .inl hr

theorem ended {status : TaskStatus} {message : String}
    (hmessage : status = .cancelled ∨ message ∈ reasonsFor id lines ∨ OwnWords message) :
    Follows lines d (d.ended id status message) := by
  have hrelease : Follows [] d (d.release id) := of_streams rfl
  refine hrelease.before ?_
  unfold Dispatcher.ended
  split
  · exact clearStream _ id
  · next hstatus =>
    refine setStream ?_ fun reason hr => ?_
    · rw [TokenStream.unread_fail]
      exact List.nil_sublist _
    · simp only [TokenStream.fail, Option.some.injEq] at hr
      cases hfirst : (d.streamOf id).failure with
      | none =>
        rw [hfirst, Option.getD_none] at hr
        exact .inr (hr ▸ hmessage.resolve_left hstatus)
      | some first =>
        rw [hfirst, Option.getD_some] at hr
        subst hr
        refine .inl ?_
        unfold streamOf at hfirst
        show (d.streams.find? id).bind (·.failure) = _
        cases hs : d.streams.find? id with
        | none => rw [hs] at hfirst; cases hfirst
        | some s => rwa [hs] at hfirst

theorem endEach {q : Dispatcher → TaskRecord → Bool} {status : TaskStatus} {message : String}
    {now : Millis} (hmessage : status = .cancelled ∨ OwnWords message)
    (records : List TaskRecord) :
    Follows lines d (d.endEach q status message now records).2 := by
  refine endEach_induction (fun d₁ d₂ id hd he => ?_) records refl
  obtain ⟨-, rfl⟩ := endTask?_eq_some_iff.mp he
  exact hd.after (ended (hmessage.imp_right .inr))

/-- A line of a worker. -/
theorem heard (d : Dispatcher) (now : Millis) (line : String) :
    Follows [line] d (d.heard now (WireMessage.decode line)).2 := by
  have hheard := d.hears_heard now (WireMessage.decode line)
  generalize hmessage : WireMessage.decode line = message at hheard
  generalize (d.heard now message).1 = outcome at hheard
  generalize (d.heard now message).2 = d' at hheard ⊢
  have habsorb : ∀ r, message = .ok (.response r) →
      Follows [line] d ((d.progress r.id now).absorb r) := by
    rintro r rfl
    have hprogress : Follows [] d (d.progress r.id now) := of_streams rfl
    refine hprogress.before ?_
    unfold Dispatcher.absorb
    split
    · exact refl
    · have hbrings : fragmentsFor r.id [line] = r.fragment?.toList := by
        simp only [fragmentsFor, List.filterMap_cons, fragmentFor?, hmessage, if_true,
          List.filterMap_nil]
        cases r.fragment? <;> rfl
      refine setStream ?_ fun reason hr => .inl ?_
      · rw [hbrings]
        exact TokenStream.unread_absorb _ r
      · rw [failure_absorb] at hr
        unfold streamOf at hr
        cases hs : (d.progress r.id now).streams.find? r.id with
        | none => rw [hs] at hr; cases hr
        | some s => rw [hs] at hr; exact failure?_eq_some_iff.mpr ⟨s, hs, hr⟩
  cases hheard with
  | more _ _ _ => exact habsorb _ rfl
  | last _ _ _ => exact habsorb _ rfl
  | @failed e _ hid _ _ =>
    refine ended (.inr (.inl (List.mem_filterMap.mpr ⟨line, List.mem_singleton.mpr rfl, ?_⟩)))
    simp [reasonFor?, hmessage, hid]
  | late _ _ => exact of_streams rfl
  | undecodable => exact refl
  | orphan _ => exact refl
  | stray _ _ => exact refl
  | unnamed _ => exact refl
  | status => exact refl
  | heartbeat => exact refl
  | request => exact refl
  | task => exact refl

theorem applyBackend (d : Dispatcher) (call : BackendCall) :
    Follows call.line?.toList d (d.applyBackend call) := by
  cases call with
  | assign now =>
    have hassigns := d.assigns_assignNext now
    show Follows [] d (d.assignNext now).2
    generalize (d.assignNext now).1 = outcome at hassigns
    generalize (d.assignNext now).2 = d' at hassigns ⊢
    cases hassigns with
    | saturated _ => exact refl
    | idle _ => exact refl
    | skipped _ _ => exact of_streams rfl
    | @unserved _ rest _ _ _ _ _ =>
      have hdequeued : Follows [] d (d.dequeued rest) := of_streams rfl
      exact hdequeued.before (ended (.inr (.inr .unserved)))
    | @undelivered _ rest _ _ _ e _ _ _ _ _ _ =>
      have hdequeued : Follows [] d (d.dequeued rest) := of_streams rfl
      exact (hdequeued.before (ended (.inr (.inr (.undelivered e))))).before (of_streams rfl)
    | assigned _ _ _ _ _ _ => exact of_streams rfl
  | hear now worker line =>
    obtain ⟨p, hp⟩ := d.ingest_eq_heard now worker line
    show Follows [line] d (d.ingest now worker line).2
    rw [hp]
    exact (heard d now line).after (of_streams rfl)
  | failWorker worker now => exact endEach (.inr (.lost worker)) _
  | sweep now timeoutMs clock => exact endEach (.inr (.idle timeoutMs)) _
  | pool p => exact of_streams rfl

theorem runBackend (d : Dispatcher) (calls : List BackendCall) :
    Follows (calls.filterMap BackendCall.line?) d (d.runBackend calls) := by
  induction calls generalizing d with
  | nil => exact refl
  | cons call calls ih =>
    have hlines : (call :: calls).filterMap BackendCall.line? =
        call.line?.toList ++ calls.filterMap BackendCall.line? := by
      rw [List.filterMap_cons]
      cases call.line? <;> rfl
    rw [hlines]
    exact (applyBackend d call).trans (ih _)

theorem draws {o : Drain} (h : d.Draws id o d') : Follows lines d d' := by
  cases h with
  | untracked _ _ => exact refl
  | unanswered _ _ => exact refl
  | failed _ _ => exact clearStream d id
  | @fragment s f hs hfailure hf =>
    have hset : Follows [] d (d.setStream id { s with cursor := s.cursor + 1 }) := by
      refine setStream ?_ fun reason hr => ?_
      · have hunread : d.unread id = s.unread := by
          rw [Dispatcher.unread, streamOf, hs]
          rfl
        rw [hunread]
        exact (List.drop_sublist_drop_left _ (Nat.le_succ _)).trans (List.sublist_append_left _ _)
      · rw [show s.failure = some reason from hr] at hfailure
        cases hfailure
    exact hset.before (of_streams rfl)
  | finished _ _ _ _ => exact refl
  | unread _ _ _ _ => exact refl

theorem finishDelivery (d : Dispatcher) (id : RequestId) (now : Millis) :
    Follows lines d (d.finishDelivery id now) := by
  have hrelease : Follows [] d (d.release id) := of_streams rfl
  rw [finishDelivery_eq]
  exact hrelease.before (clearStream _ id)

end Follows

/-- What is unread, and what has failed, is accounted for by the lines heard so far. -/
structure Sourced (heard : List String) (d : Dispatcher) : Prop where
  unread : ∀ id, (d.unread id).Sublist (fragmentsFor id heard)
  failure : ∀ id reason, d.failure? id = some reason →
    reason ∈ reasonsFor id heard ∨ OwnWords reason

theorem Sourced.follows {heard lines : List String} {d d' : Dispatcher} (hd : d.Sourced heard)
    (h : Follows lines d d') : d'.Sourced (heard ++ lines) where
  unread id := by
    rw [fragmentsFor_append]
    exact (h.unread id).trans (List.Sublist.append_right (hd.unread id) _)
  failure id reason hr := by
    rw [reasonsFor_append, List.mem_append]
    rcases h.failure id reason hr with hr | hr | hr
    · exact (hd.failure id reason hr).imp_left .inl
    · exact .inl (.inr hr)
    · exact .inr hr

theorem Sourced.keeps {heard : List String} {d d' : Dispatcher} (hd : d.Sourced heard)
    (h : Follows [] d d') : d'.Sourced heard := by
  have hnone := hd.follows h
  rwa [List.append_nil] at hnone

/-- A fragment that is handed out was the first that had not been read. -/
theorem Draws.unread_eq {d d' : Dispatcher} {id : RequestId} {f : String}
    (h : d.Draws id (.fragment f) d') : d.unread id = f :: d'.unread id := by
  cases h with
  | @fragment s _ hs _ hf =>
    obtain ⟨hlt, hget⟩ := List.getElem?_eq_some_iff.mp hf
    have hnext : (d.setStream id { s with cursor := s.cursor + 1 }).streams.find? id =
        some { s with cursor := s.cursor + 1 } := by
      show (d.streams.insert id _).find? id = _
      rw [Table.find?_insert, if_pos rfl]
    have hold : d.unread id = s.fragments.drop s.cursor := by
      rw [Dispatcher.unread, streamOf, hs]
      rfl
    rw [hold, List.drop_eq_getElem_cons hlt, hget, Dispatcher.unread, streamOf, hnext]
    rfl

end Dispatcher

end PromptGateway
