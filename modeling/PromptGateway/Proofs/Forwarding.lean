import Mathlib.Data.Nat.Digits.Defs
import PromptGateway.Proofs.Dispatch
import PromptGateway.Proofs.Runaway
import PromptGateway.Proofs.Weights

/-
  Forwarding what has been admitted.

  A request is read from one line and sent on in another: the id may be a generated one,
  the defaults are written out and the client is added, while escapes may shrink. Both
  lines are bounded by the largest message where they are read, and neither where it is
  written.

    1. `decode_request`: the strings of a request are no longer in the new line than in
       the old one; `utf8Length_task` is what the new line comes to.
    2. `messages_iff_of_line`: among the lines of a stream the worker reads the one of a
       task exactly if it is no longer than the largest message.
    3. `admitted_request_forwarded` puts the request, the record, the bytes on the
       connection and what the worker reads side by side, for any run.
    4. `forwarded_line_refused`: a request of the largest size is admitted and assigned,
       and its task is refused.
-/

namespace PromptGateway

open Json (Content Takes weights)
open Text (utf8Length)

/-! ## The strings of a request -/

/-- The bytes that a string takes where it is written, none if it is left out. -/
def textWeight (s : Option String) : Nat := s.elim 0 fun s => utf8Length (Json.Write.text s)

theorem textWeight_some (s : String) : textWeight (some s) = utf8Length (Json.Write.text s) := rfl

theorem asText_weight {c : Content} {s : String} (h : c.asText = .ok s) :
    textWeight (some s) = c.weight := by
  unfold Content.asText at h
  split at h <;> cases h
  rfl

theorem asOptional_weight {c : Content} {s : Option String}
    (h : c.asOptional Content.asText = .ok s) : textWeight s = c.weight := by
  unfold Content.asOptional at h
  split at h
  · cases h
    rfl
  · cases ht : Content.asText c with
    | error e => rw [ht] at h; cases h
    | ok t =>
      simp only [ht, Json.map_ok, Except.ok.injEq] at h
      subst h
      exact asText_weight ht

theorem keeping_read {σ α : Type} {name : String} {get : σ → Option α} {set : σ → α → σ}
    {convert : Content → Except Json.Cause α} {required : Bool} {s s' : σ} {c : Content}
    (h : (Json.Slot.keeping name get set convert required).read s c = .ok s') :
    ∃ a, convert c = .ok a ∧ s' = set s a := by
  unfold Json.Slot.keeping at h
  dsimp only at h
  cases hc : convert c with
  | error e => rw [hc] at h; cases h
  | ok a =>
    simp only [hc, Json.map_ok, Except.ok.injEq] at h
    exact ⟨a, rfl, h.symm⟩

namespace InferenceRequest

/-- The strings of a request under construction. -/
def Draft.weight (d : Draft) : Nat :=
  textWeight (d.id.getD none) + textWeight d.model + textWeight d.prompt

theorem slots_read : ∀ slot ∈ slots, ∀ (d : Draft) c d', slot.read d c = .ok d' →
    d'.weight ≤ d.weight + c.weight := by
  intro slot hslot d c d' h
  simp only [slots, List.mem_cons, List.not_mem_nil, or_false] at hslot
  rcases hslot with rfl | rfl | rfl | rfl | rfl | rfl <;> obtain ⟨a, ha, rfl⟩ := keeping_read h
  · have := asOptional_weight ha
    simp only [Draft.weight, Option.getD_some]
    omega
  · have := asText_weight ha
    simp only [Draft.weight]
    omega
  · have := asText_weight ha
    simp only [Draft.weight]
    omega
  all_goals exact Nat.le_add_right _ _

theorem textWeight_getD_le (s : Option String) :
    textWeight (some (s.getD "")) ≤ textWeight s + 2 := by
  cases s with
  | none => exact Nat.le_refl 2
  | some s => exact Nat.le_add_right _ _

/-- A request weighs no more than the value it was read from. -/
theorem ofContent_weight {c : Content} {r : InferenceRequest} (h : ofContent c = .ok r) :
    textWeight r.id + textWeight (some r.model) + textWeight (some r.prompt) ≤ c.total + 4 := by
  unfold ofContent at h
  cases hd : Json.recordOf "InferenceRequest" slots {} c with
  | error e => rw [hd] at h; cases h
  | ok d =>
    rw [hd] at h
    cases h
    have hweight := Json.recordOf_le slots_read hd
    have hempty : Draft.weight {} = 0 := rfl
    have hmodel := textWeight_getD_le d.model
    have hprompt := textWeight_getD_le d.prompt
    simp only [Draft.weight] at hweight hempty
    dsimp only
    omega

end InferenceRequest

namespace WireMessage

theorem takes_readMember (s : Envelope) (key : String) (cs : List Char) :
    Takes (fun s : Envelope => weights s.2) (weights s.2 + utf8Length cs)
      (readMember s key cs) := by
  unfold readMember
  split
  · split
    · exact .error
    · refine Takes.after (fun rest h => Json.colon_le h) fun rest hrest => ?_
      refine (Json.takes_scalar _ rest).bind fun k rest' h => .ok ?_
      dsimp only
      omega
  · exact (Json.takes_keep (Json.takes_value _) s.2 key cs).bind fun ms rest h => .ok h

theorem takes_readEnvelope (cs : List Char) :
    Takes (fun x : MessageKind × Content => x.2.total) (utf8Length cs) (readEnvelope cs) := by
  have hs := Json.skipSpace_le cs
  unfold readEnvelope
  split
  · next rest hrest =>
    rw [hrest] at hs
    have := Json.utf8Length_cons_pos '{' rest
    refine (Json.takes_members takes_readMember (none, []) rest).bind fun s rest' h => ?_
    obtain ⟨_ | k, ms⟩ := s
    · exact .error
    · refine .ok ?_
      have hnil : weights [] = 0 := rfl
      have hreverse : weights ms.reverse = weights ms := by
        rw [weights, List.map_reverse, List.sum_reverse, ← weights]
      show weights ms.reverse + utf8Length rest' ≤ _
      dsimp only at h
      omega
  · next rest hrest =>
    rw [hrest] at hs
    have hbracket := Json.utf8Length_cons_pos '[' rest
    cases hnext : Json.nextItem true rest with
    | error e => exact .error
    | ok next =>
      cases next with
      | none => exact .error
      | some cs' =>
        have hle := Json.nextItem_le hnext
        refine (Json.takes_scalar _ cs').bind fun k rest₁ hk => ?_
        refine (Json.takes_moreItems (Json.takes_value _) _ [] rest₁).bind fun xs rest₂ hxs =>
          .ok ?_
        rw [Json.weightless] at hk
        rw [List.map_nil, List.sum_nil] at hxs
        show (xs.map Content.weight).sum + utf8Length rest₂ ≤ _
        omega
  · exact Json.takes_refused _

/-- A message is made from the record of its own kind. -/
theorem ofContent_parts {kind : MessageKind} {c : Content} {m : WireMessage}
    (h : ofContent kind c = .ok m) :
    match m with
    | .request r => InferenceRequest.ofContent c = .ok r
    | .response r => TokenResponse.ofContent c = .ok r
    | .error e => ErrorReport.ofContent c = .ok e
    | .task _ | .heartbeat | .status _ => True := by
  have hmap : ∀ {α : Type} {f : α → WireMessage} {x : Except Json.Cause α},
      f <$> x = .ok m → ∃ a, x = .ok a ∧ f a = m := by
    intro α f x hx
    cases x with
    | error e => cases hx
    | ok a => exact ⟨a, rfl, Except.ok.inj hx⟩
  unfold ofContent at h
  split at h
  · obtain ⟨r, hr, rfl⟩ := hmap h
    exact hr
  · obtain ⟨t, -, rfl⟩ := hmap h
    trivial
  · obtain ⟨r, hr, rfl⟩ := hmap h
    exact hr
  · obtain ⟨e, he, rfl⟩ := hmap h
    exact he
  · obtain ⟨s, -, rfl⟩ := hmap h
    trivial
  · cases h
    trivial
  · cases h
  · cases h
    trivial

/-- A message is made from a value that weighs no more than the text it was read from. -/
theorem read_content {cs : List Char} {m : WireMessage} (h : read cs = .ok m) :
    ∃ kind c, ofContent kind c = .ok m ∧ c.total ≤ utf8Length cs := by
  unfold read at h
  cases henvelope : readEnvelope cs with
  | error e => rw [henvelope] at h; cases h
  | ok x =>
    obtain ⟨⟨kind, c⟩, rest⟩ := x
    have htotal := (takes_readEnvelope cs).le (kind, c) rest henvelope
    rw [henvelope, Json.ok_bind] at h
    dsimp only at h
    cases hcontent : ofContent kind c with
    | error e => rw [hcontent] at h; cases h
    | ok m' =>
      rw [hcontent] at h
      change (Json.atEnd rest >>= fun _ => pure m') = Except.ok m at h
      cases hend : Json.atEnd rest with
      | error e => rw [hend] at h; cases h
      | ok u =>
        rw [hend] at h
        cases h
        exact ⟨kind, c, hcontent, Nat.le_of_add_right_le htotal⟩

theorem decode_content {line : String} {m : WireMessage} (h : decode line = .ok m) :
    ∃ kind c, ofContent kind c = .ok m ∧ c.total ≤ utf8Length (Text.trim line.toList) := by
  unfold decode at h
  dsimp only at h
  split at h
  · cases h
  · split at h
    · cases h
    · cases hread : read (Text.trim line.toList) with
      | error f => rw [hread] at h; cases h
      | ok m' =>
        rw [hread] at h
        cases h
        exact read_content hread

/-- The strings of a request that has been read are no longer where they are written again. -/
theorem decode_request {line : String} {r : InferenceRequest}
    (h : decode line = .ok (.request r)) :
    textWeight r.id + textWeight (some r.model) + textWeight (some r.prompt) ≤
      utf8Length (Text.trim line.toList) + 4 := by
  obtain ⟨kind, c, hcontent, htotal⟩ := decode_content h
  have hstrings := InferenceRequest.ofContent_weight (ofContent_parts hcontent)
  omega

end WireMessage

/-! ## The line of a task -/

namespace Json.Write

theorem utf8Size_of_isDigit {c : Char} (h : c.isDigit = true) : c.utf8Size = 1 := by
  simp only [Char.isDigit, Bool.and_eq_true, decide_eq_true_eq] at h
  have hascii : c.val ≤ 0x7f := Nat.le_trans h.2 (by decide)
  simp [Char.utf8Size, hascii]

theorem utf8Length_of_isDigit {cs : List Char} (h : ∀ c ∈ cs, c.isDigit = true) :
    utf8Length cs = cs.length := by
  induction cs with
  | nil => rfl
  | cons c cs ih =>
    rw [List.forall_mem_cons] at h
    rw [Text.utf8Length_cons, utf8Size_of_isDigit h.1, ih h.2, List.length_cons, Nat.add_comm]

theorem utf8Length_nat_le {n e : Nat} (he : 0 < e) (hn : n < 10 ^ e) : utf8Length (nat n) ≤ e := by
  rw [nat, utf8Length_of_isDigit fun _ hc => isDigit_of_mem_natText hc]
  exact Nat.toDigits_length 10 n e he hn

theorem utf8Length_boolean_le (b : Bool) : utf8Length (boolean b) ≤ 5 := by
  cases b <;> decide

theorem utf8Length_member (key : String) (value : List Char) :
    utf8Length (member key value) = utf8Length (text key) + 1 + utf8Length value := by
  rw [member, Text.utf8Length_append, Text.utf8Length_cons, ← Nat.add_assoc]
  rfl

/-- Around and between the members of an object there is one more than there are members. -/
theorem utf8Length_object {members : List (List Char)} (h : members ≠ []) :
    utf8Length (object members) = (members.map utf8Length).sum + members.length + 1 := by
  have hcommas : utf8Length (commaSeparated members) + 1 =
      (members.map utf8Length).sum + members.length := by
    induction members with
    | nil => exact absurd rfl h
    | cons x xs ih =>
      cases xs with
      | nil => rfl
      | cons y ys =>
        have hrest := ih (List.cons_ne_nil y ys)
        have hcomma : (',' : Char).utf8Size = 1 := rfl
        show utf8Length (x ++ ',' :: commaSeparated (y :: ys)) + 1 = _
        rw [Text.utf8Length_append, Text.utf8Length_cons, List.map_cons, List.sum_cons,
          List.length_cons, hcomma]
        omega
  rw [object, Text.utf8Length_append, Text.utf8Length_cons]
  show 1 + utf8Length (commaSeparated members) + 1 = _
  omega

end Json.Write

namespace Json

/-- Characters that are left out take nothing. -/
theorem written_le_of_sublist {a b : List Char} (h : a.Sublist b) : written a ≤ written b := by
  induction h with
  | slnil => exact Nat.le_refl _
  | cons c _ ih =>
    rw [written_cons]
    exact Nat.le_add_left_of_le ih
  | cons_cons c _ ih =>
    rw [written_cons, written_cons]
    exact Nat.add_le_add_left ih _

end Json

theorem textWeight_requestedId_le (r : InferenceRequest) :
    textWeight r.requestedId ≤ textWeight r.id := by
  unfold InferenceRequest.requestedId
  cases r.id with
  | none => exact Nat.le_refl _
  | some s =>
    rw [Option.map_some, Option.filter_some]
    split
    · rw [textWeight_some, textWeight_some, Json.utf8Length_text, Json.utf8Length_text,
        Text.trimmed, String.toList_ofList]
      exact Nat.add_le_add_right (Json.written_le_of_sublist (Text.trim_sublist _)) 2
    · exact Nat.zero_le _

namespace WireMessage

open Json.Write

/-- The bytes of the line of a task: its values, and what stands between them. -/
theorem utf8Length_task (t : TaskAssignment) :
    utf8Length (task t).line =
      utf8Length (text t.id) + utf8Length (nat t.clientSocket.toNat) + utf8Length (text t.model) +
        utf8Length (text t.prompt) + utf8Length (nat t.maxTokens.toNat) +
        utf8Length (boolean t.stream) + 81 := by
  have htype : utf8Length (member "type" (text (task t).kind.name)) = 13 := by
    show utf8Length (member "type" (text MessageKind.task.name)) = 13
    decide
  have hid : utf8Length (text "id") = 4 := by decide
  have hsocket : utf8Length (text "client_socket") = 15 := by decide
  have hmodel : utf8Length (text "model") = 7 := by decide
  have hprompt : utf8Length (text "prompt") = 8 := by decide
  have htokens : utf8Length (text "max_tokens") = 12 := by decide
  have hstream : utf8Length (text "stream") = 8 := by decide
  rw [line, utf8Length_object (List.cons_ne_nil _ _)]
  simp only [fields, List.map_cons, List.map_nil, List.sum_cons, List.sum_nil, List.length_cons,
    List.length_nil, utf8Length_member "id", utf8Length_member "client_socket",
    utf8Length_member "model", utf8Length_member "prompt", utf8Length_member "max_tokens",
    utf8Length_member "stream", htype, hid, hsocket, hmodel, hprompt, htokens, hstream]
  omega

end WireMessage

/-- The task that is made of a request. -/
def InferenceRequest.task (r : InferenceRequest) (id : RequestId) (owner : ConnectionId) :
    TaskAssignment :=
  { id := id, clientSocket := owner, model := r.model, prompt := r.prompt
    maxTokens := r.maxTokens, stream := r.stream }

open Json.Write in
/-- The line of a task is hardly longer than the line its request was read from, unless its id
was generated and is long. -/
theorem InferenceRequest.length_encode_task_le {line : String} {r : InferenceRequest}
    (h : WireMessage.decode line = .ok (.request r)) (newId : RequestId) (owner : ConnectionId) :
    (WireMessage.task (r.task (r.requestedId.getD newId) owner)).encode.length ≤
      utf8Length (Text.trim line.toList) + 121 +
        if r.requestedId = none then textWeight (some newId) else 0 := by
  have hstrings := WireMessage.decode_request h
  have hrequested := textWeight_requestedId_le r
  have hid : textWeight (some (r.requestedId.getD newId)) ≤
      textWeight r.id + if r.requestedId = none then textWeight (some newId) else 0 := by
    cases hr : r.requestedId with
    | none => exact Nat.le_add_left _ _
    | some id =>
      rw [hr] at hrequested
      exact Nat.le_add_right_of_le hrequested
  have hsocket : utf8Length (nat owner.toNat) ≤ 20 :=
    utf8Length_nat_le (by decide) (Nat.lt_of_lt_of_le owner.toNat_lt (by decide))
  have htokens : utf8Length (nat r.maxTokens.toNat) ≤ 10 :=
    utf8Length_nat_le (by decide) (Nat.lt_of_lt_of_le r.maxTokens.toNat_lt (by decide))
  have hstream := utf8Length_boolean_le r.stream
  rw [WireMessage.length_encode, WireMessage.utf8Length_task]
  simp only [textWeight_some] at hstrings hid ⊢
  dsimp only [task]
  omega

/-! ## What a worker reads -/

namespace Frame

theorem overlong_line {m : WireMessage} (h : maxMessageBytes < utf8Length m.line) :
    Overlong (Bytes.ofChars m.line) := by
  refine ⟨String.ofList m.line, ?_, ?_⟩
  · rw [← Bytes.text?_ofString, Bytes.ofString, String.toList_ofList]
  · rwa [String.toList_ofList, m.trim_line]

/-- A message that is too long and comes in one chunk is refused. -/
theorem feed_encode_of_long {m : WireMessage} (hkind : m.kind ≠ .status)
    (h : maxMessageBytes + 1 < m.encode.length) :
    feed drainMessages [] [m.encode] = ([.error .oversized], []) := by
  rw [m.length_encode] at h
  exact feed_of_overlong (newline_not_mem_ofChars (m.newline_not_mem_line hkind))
    (overlong_line (Nat.lt_of_add_lt_add_right h))

/-- In whatever pieces a line comes, its message is read exactly if it is no longer than the
largest message. -/
theorem messages_iff_of_line {l : Line} {m : WireMessage} (hkind : m.kind ≠ .status)
    (hbytes : l.bytes = Bytes.ofChars m.line) :
    l.messages = [.ok m] ↔ utf8Length m.line ≤ maxMessageBytes := by
  constructor
  · intro hread
    by_contra hlong
    have hfault := error_mem_overlong (hbytes ▸ overlong_line (Nat.lt_of_not_le hlong))
    rw [hread, List.mem_singleton] at hfault
    cases hfault
  · intro hsize
    have hpieces : l.pieces.flatten.length ≤ maxMessageBytes := by
      have hlength := congrArg List.length hbytes
      rw [Line.bytes, List.length_append, Text.length_ofChars] at hlength
      omega
    rw [messages_of_le hpieces, hbytes, message_line hkind hsize]

/-- The same where other lines come before it, none of them too long. -/
theorem feed_drainMessages_iff {earlier : List Bytes} {m : WireMessage} {chunks : List Bytes}
    (hkind : m.kind ≠ .status) (hlines : ∀ l ∈ earlier, newline ∉ l)
    (hsizes : ∀ l ∈ earlier, l.length ≤ maxMessageBytes)
    (hchunks : chunks.flatten = join earlier [] ++ m.encode) :
    feed drainMessages [] chunks = (earlier.flatMap message ++ [.ok m], []) ↔
      m.encode.length ≤ maxMessageBytes + 1 := by
  have hline : newline ∉ Bytes.ofChars m.line :=
    newline_not_mem_ofChars (m.newline_not_mem_line hkind)
  have hsplit : splitLines chunks.flatten = (earlier ++ [Bytes.ofChars m.line], []) := by
    rw [hchunks, join_rest_append, List.nil_append]
    have hjoin : join earlier m.encode = join (earlier ++ [Bytes.ofChars m.line]) [] := by
      rw [join_append]
      rfl
    rw [hjoin]
    refine splitLines_of_join (fun l hl => ?_) List.not_mem_nil
    rcases List.mem_append.mp hl with hl | hl
    · exact hlines l hl
    · rwa [List.mem_singleton.mp hl]
  have hbytes := cut_bytes chunks
  rw [hsplit, Prod.mk.injEq] at hbytes
  obtain ⟨front, back, hcut, hfront, hback⟩ := List.map_eq_append_iff.mp hbytes.1
  obtain ⟨l, rfl, hl⟩ := List.map_eq_singleton_iff.mp hback
  have hhold : hold [] (cut chunks).2 = (0, []) := by
    rw [hold_of_le (by rw [hbytes.2]; exact Nat.zero_le _), hbytes.2]
    rfl
  have hearlier : front.flatMap Line.messages = earlier.flatMap message := by
    rw [← hfront, List.flatMap_map]
    refine List.flatMap_congr fun l' hl' => messages_of_le ?_
    have hsize := hsizes l'.bytes (hfront ▸ List.mem_map_of_mem hl')
    rw [Line.bytes, List.length_append] at hsize
    omega
  rw [feed_drainMessages_pieces, hcut, hhold, List.flatMap_append, hearlier, List.flatMap_singleton,
    List.replicate_zero, List.append_nil, Prod.mk.injEq, and_iff_left rfl, List.append_cancel_left_eq,
    messages_iff_of_line hkind hl, WireMessage.length_encode, Nat.add_le_add_iff_right]

end Frame

/-! ## From the admission to the worker -/

/-- Nothing but another admission under its id puts the record of a lifetime aside. -/
theorem record_lifetime_append {id : RequestId} {log more : List Entry} {l : Lifetime}
    (hl : lifetime id log = some l) (hmore : ∀ later, .admitted later ∈ more → later.id ≠ id) :
    ∃ l', lifetime id (log ++ more) = some l' ∧ l'.record = l.record := by
  rw [lifetime_append, hl]
  clear hl
  induction more generalizing l with
  | nil => exact ⟨l, rfl, rfl⟩
  | cons entry more ih =>
    have hrest : ∀ later, .admitted later ∈ more → later.id ≠ id :=
      fun later h => hmore later (List.mem_cons_of_mem _ h)
    rw [List.foldl_cons]
    cases entry with
    | admitted later =>
      rw [Lifetime.note, if_neg (hmore later List.mem_cons_self)]
      exact ih hrest
    | written a =>
      rw [Lifetime.note]
      split
      · exact @ih (l.write a) hrest
      · exact ih hrest

section

variable {maxTasks maxPending maxProcessing maxWorkers : Nat} {before between : List Act}
  {m : Moment} {r : InferenceRequest} {owner : ConnectionId} {record : TaskRecord}
  {d : Dispatcher}

/-- The line that is written for a request, whenever that is, is the line of its task. -/
theorem line_attempt_of_admitted
    (hadmitted : ((Dispatcher.create maxTasks maxPending maxProcessing maxWorkers).perform
      before).admitRequest m r owner = .ok (record, d))
    (hlast : ∀ later, .admitted later ∈ d.diary between → later.id ≠ record.id) {a : Attempt}
    (ha : (d.perform between).attempt? = some a) (hid : a.id = record.id) :
    a.line = (WireMessage.task (r.task record.id owner)).encode := by
  have hadmits := Dispatcher.admits_of_admitRequest hadmitted
  have hd : Dispatched d _ :=
    ((Dispatched.create maxTasks maxPending maxProcessing maxWorkers).perform before).admits hadmits
  obtain ⟨-, -, r', -, -, hr', -, -, hline, -⟩ := Dispatcher.attempt?_eq_some_iff.mp ha
  obtain ⟨l, hl, hm, -⟩ := (hd.perform between).known a.id r' hr'
  -- the lifetime that the diary tells of is the one that began here
  have hbegan : lifetime record.id (([] ++ (Dispatcher.create maxTasks maxPending maxProcessing
      maxWorkers).diary before) ++ [.admitted record]) = some { record := record } := by
    rw [lifetime_append, List.foldl_cons, List.foldl_nil, Lifetime.note, if_pos rfl]
  obtain ⟨l', hl', hrecord⟩ := record_lifetime_append hbegan hlast
  rw [hid, hl'] at hl
  cases hl
  rw [hline, hm, hrecord, hadmits.record_eq]
  rfl

/-- What becomes of a request that is read, admitted and assigned, in any run of an engine that
began empty. Its record has the id that was asked for, or the next generated one, and what is
put on the connection of its worker is the line of its task, with its client and the values of
the request. In any stream of lines that are not too long a worker reads that line as that one
task, however the stream is cut, if and only if the line is no longer than the largest message;
otherwise it refuses it. So it is always read if the line of the request left 120 bytes of the
largest message free, and as many more as a generated id takes. -/
theorem admitted_request_forwarded {now : Millis} {line : String} {worker : Nat}
    (hline : WireMessage.decode line = .ok (.request r))
    (hadmitted : ((Dispatcher.create maxTasks maxPending maxProcessing maxWorkers).perform
      before).admitRequest m r owner = .ok (record, d))
    (hlast : ∀ later, .admitted later ∈ d.diary between → later.id ≠ record.id)
    (hassign : ((d.perform between).assignNext now).1 = .assigned record.id worker) :
    let task := r.task record.id owner
    let sent := (WireMessage.task task).encode
    let newId := m.newId ((Dispatcher.create maxTasks maxPending maxProcessing maxWorkers).perform
      before).generated
    record.id = r.requestedId.getD newId ∧
    (∃ s k k', (d.perform between).pool.slots[worker]? = some s ∧ s.connected = true ∧
      (d.perform between).pool.links[s.link]? = some k ∧
      ((d.perform between).assignNext now).2.pool.links[s.link]? = some k' ∧
      (k.write sent).1 = .accepted sent.length ∧
      k'.outbound = k.outbound ++ if k.farEnd = .present then sent else []) ∧
    (∀ earlier chunks, (∀ l ∈ earlier, newline ∉ l) →
      (∀ l ∈ earlier, l.length ≤ maxMessageBytes) → chunks.flatten = Frame.join earlier [] ++ sent →
      (Frame.feed Frame.drainMessages [] chunks =
          (earlier.flatMap Frame.message ++ [.ok (.task task)], []) ↔
        sent.length ≤ maxMessageBytes + 1)) ∧
    (maxMessageBytes + 1 < sent.length →
      Frame.feed Frame.drainMessages [] [sent] = ([.error .oversized], [])) ∧
    sent.length ≤ utf8Length (Text.trim line.toList) + 121 +
      if r.requestedId = none then textWeight (some newId) else 0 := by
  intro task sent newId
  have hid : record.id = r.requestedId.getD newId := by
    rw [(Dispatcher.admits_of_admitRequest hadmitted).record_eq]
    rfl
  obtain ⟨a, ha, haid, rfl, hcomplete⟩ := Dispatcher.assigned_iff.mp hassign
  have hsent : a.line = sent := line_attempt_of_admitted hadmitted hlast ha haid
  refine ⟨hid, ?_, ?_, ?_, ?_⟩
  · rcases Dispatcher.begins_pool ((d.perform between).begins_beginAssign now) with
      ⟨hnone, -⟩ | ⟨b, hb, hw⟩
    · rw [ha] at hnone
      cases hnone
    · cases ha.symm.trans hb
      obtain ⟨s, k, hs, hc, hlink, hk, hout, -⟩ := hw.made
      obtain ⟨k', hk', hbytes⟩ := Dispatcher.Grows.of_writes hw a.link k hk
      rw [← Dispatcher.pool_assignNext] at hk'
      refine ⟨s, k, k', hs, hc, hlink ▸ hk, hlink ▸ hk', ?_, ?_⟩
      · rw [← hsent, hout, Attempt.complete_iff.mp hcomplete]
      · rw [hbytes, ← hsent, ← Attempt.handed_of_complete hcomplete]
        simp
  · intro earlier chunks hlines hsizes hchunks
    exact Frame.feed_drainMessages_iff nofun hlines hsizes hchunks
  · exact Frame.feed_encode_of_long nofun
  · have hlength := InferenceRequest.length_encode_task_le hline newId owner
    rwa [← hid] at hlength

end

/-! ## One request and one worker -/

/-- A line for which there is room is taken over as a whole. -/
theorem Link.write_of_room {k : Link} {line : Bytes} (hcalm : k.interruptions = 0)
    (hopen : k.shut = false) (hfar : k.farEnd = .present) (hroom : line.length ≤ k.room) :
    (k.write line).1 = .accepted line.length := by
  have hblocked : ¬ (k.room = 0 ∧ line ≠ []) := by
    rintro ⟨hfull, hne⟩
    rw [hfull, Nat.le_zero, List.length_eq_zero_iff] at hroom
    exact hne hroom
  simp only [write, hcalm, hopen, hfar, Bool.false_eq_true, if_false]
  rw [if_neg hblocked, Nat.min_eq_right hroom]

namespace Forwarding

/-- The first moment. -/
def dawn : Moment := { now := 0, newId := fun _ => "" }

/-- A request for `p` with a prompt. -/
def asking (prompt : String) : InferenceRequest := { id := some "p", prompt := prompt }

/-- The line it comes in. -/
def askingLine (prompt : String) : String :=
  String.ofList (WireMessage.request (asking prompt)).line

/-- Its task, if the first client sent it. -/
def asked (prompt : String) : WireMessage := .task ((asking prompt).task "p" 1)

/-- A worker is added. -/
def hiring : List Act := [.pool (.add ⟨true, ["a"]⟩ 0 "a")]

/-- An engine with one worker. -/
def staffed : Dispatcher := (Dispatcher.create 1 1 1 1).perform hiring

/-- The engine with the request. -/
def busy (prompt : String) : Dispatcher := staffed.act (.submit dawn (asking prompt) 1)

section

variable {prompt : String}

theorem admitRequest_asking :
    staffed.admitRequest dawn (asking prompt) 1 =
      .ok (staffed.newRecord dawn (asking prompt) 1, busy prompt) :=
  rfl

theorem assignNext_busy (h : (asked prompt).encode.length ≤ Link.capacity) :
    ((busy prompt).assignNext 0).1 = .assigned "p" 0 := by
  have hwrite : ({ (busy prompt).pool with next := 1 } : WorkerPool).write? 0 (asked prompt).encode =
      some (0, .accepted (asked prompt).encode.length) :=
    congrArg (fun o => some (0, o)) (@Link.write_of_room .fresh _ rfl rfl rfl h)
  exact Dispatcher.assigned_iff.mpr
    ⟨⟨"p", 0, 0, (asked prompt).encode, .accepted (asked prompt).encode.length⟩,
      Dispatcher.attempt?_eq_some_iff.mpr ⟨rfl, [], _, _, rfl, rfl, rfl, rfl, rfl, hwrite⟩, rfl, rfl,
      Attempt.complete_iff.mpr rfl⟩

open Json.Write in
theorem utf8Length_asking :
    utf8Length (askingLine prompt).toList = Json.written prompt.toList + 95 := by
  have hprompt : utf8Length (member "prompt" (text prompt)) = Json.written prompt.toList + 11 := by
    have hkey : utf8Length (text "prompt") = 8 := by decide
    rw [utf8Length_member, hkey, Json.utf8Length_text]
    omega
  rw [askingLine, String.toList_ofList, WireMessage.line, utf8Length_object (List.cons_ne_nil _ _)]
  show (utf8Length (member "type" (text MessageKind.request.name)) +
    (utf8Length (member "id" (text "p")) + (utf8Length (member "model" (text "")) +
    (utf8Length (member "prompt" (text prompt)) + (utf8Length (member "max_tokens" (nat 1000)) +
    (utf8Length (member "stream" (boolean true)) + (utf8Length (member "priority" (int 0)) + 0))))))) +
    7 + 1 = _
  have htype : utf8Length (member "type" (text MessageKind.request.name)) = 16 := by decide
  have hid : utf8Length (member "id" (text "p")) = 8 := by decide
  have hmodel : utf8Length (member "model" (text "")) = 10 := by decide
  have htokens : utf8Length (member "max_tokens" (nat 1000)) = 17 := by decide +kernel
  have hstream : utf8Length (member "stream" (boolean true)) = 13 := by decide
  have hpriority : utf8Length (member "priority" (int 0)) = 12 := by decide +kernel
  omega

theorem length_encode_asked :
    (asked prompt).encode.length = Json.written prompt.toList + 98 := by
  rw [WireMessage.length_encode, asked, WireMessage.utf8Length_task]
  show utf8Length (Json.Write.text "p") + utf8Length (Json.Write.nat 1) +
    utf8Length (Json.Write.text "") + utf8Length (Json.Write.text prompt) +
    utf8Length (Json.Write.nat 1000) + utf8Length (Json.Write.boolean true) + 81 + 1 = _
  have hid : utf8Length (Json.Write.text "p") = 3 := by decide
  have hsocket : utf8Length (Json.Write.nat 1) = 1 := by decide +kernel
  have hmodel : utf8Length (Json.Write.text "") = 2 := by decide
  have htokens : utf8Length (Json.Write.nat 1000) = 4 := by decide +kernel
  have hstream : utf8Length (Json.Write.boolean true) = 4 := by decide
  have hprompt := Json.utf8Length_text prompt
  omega

theorem decode_asking (h : Json.written prompt.toList + 95 ≤ maxMessageBytes) :
    WireMessage.decode (askingLine prompt) = .ok (.request (asking prompt)) := by
  rw [← utf8Length_asking, askingLine, String.toList_ofList] at h
  exact WireMessage.decode_line nofun h

end

theorem written_replicate (n : Nat) : Json.written (List.replicate n 'a') = n := by
  induction n with
  | zero => rfl
  | succ n ih =>
    rw [List.replicate_succ, Json.written_cons, ih, Nat.add_comm]
    rfl

/-- The longest prompt of one-byte characters such a request has room for. -/
def longest : String := String.ofList (List.replicate (maxMessageBytes - 95) 'a')

theorem written_longest : Json.written longest.toList = maxMessageBytes - 95 := by
  rw [longest, String.toList_ofList, written_replicate]

/-- The worker gets the task one byte at a time. -/
theorem admitted_request_forwarded_asking :
    WireMessage.decode (askingLine "hi") = .ok (.request (asking "hi")) ∧
      staffed.admitRequest dawn (asking "hi") 1 =
        .ok (staffed.newRecord dawn (asking "hi") 1, busy "hi") ∧
      ((busy "hi").assignNext 0).1 = .assigned "p" 0 ∧
      Frame.feed Frame.drainMessages [] ((asked "hi").encode.map ([·])) =
        ([.ok (asked "hi")], []) := by
  have hline : WireMessage.decode (askingLine "hi") = .ok (.request (asking "hi")) :=
    decode_asking (by decide)
  have hassign : ((busy "hi").assignNext 0).1 = .assigned "p" 0 :=
    assignNext_busy (by rw [length_encode_asked]; decide)
  have hlast : ∀ later, .admitted later ∈ (busy "hi").diary [] → later.id ≠ "p" :=
    fun _ h => absurd h List.not_mem_nil
  obtain ⟨-, -, hread, -, -⟩ := @admitted_request_forwarded 1 1 1 1 hiring [] dawn (asking "hi") 1
    _ _ 0 _ 0 hline admitRequest_asking hlast hassign
  have hchunks : ((asked "hi").encode.map ([·])).flatten =
      Frame.join [] [] ++ (asked "hi").encode := by
    rw [← List.flatMap_def, List.flatMap_singleton']
    rfl
  exact ⟨hline, admitRequest_asking, hassign,
    (hread [] _ nofun nofun hchunks).mpr (by
      show (asked "hi").encode.length ≤ _
      rw [length_encode_asked]
      decide)⟩

/-- A request of the largest size is read, admitted and assigned, and its task is refused. -/
theorem forwarded_line_refused :
    utf8Length (askingLine longest).toList = maxMessageBytes ∧
      WireMessage.decode (askingLine longest) = .ok (.request (asking longest)) ∧
      staffed.admitRequest dawn (asking longest) 1 =
        .ok (staffed.newRecord dawn (asking longest) 1, busy longest) ∧
      ((busy longest).assignNext 0).1 = .assigned "p" 0 ∧
      (asked longest).encode.length = maxMessageBytes + 3 ∧
      Frame.feed Frame.drainMessages [] [(asked longest).encode] = ([.error .oversized], []) := by
  have hsize : utf8Length (askingLine longest).toList = maxMessageBytes := by
    rw [utf8Length_asking, written_longest]
    rfl
  have hsent : (asked longest).encode.length = maxMessageBytes + 3 := by
    rw [length_encode_asked, written_longest]
    rfl
  refine ⟨hsize, decode_asking ?_, admitRequest_asking, assignNext_busy ?_, hsent, ?_⟩
  · rw [written_longest]
    decide
  · rw [hsent]
    decide
  · refine Frame.feed_encode_of_long nofun ?_
    rw [hsent]
    decide

end Forwarding

end PromptGateway
