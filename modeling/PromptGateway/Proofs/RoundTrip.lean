import PromptGateway.Proofs.Chunks
import PromptGateway.Proofs.Readback

/-
  Messages come back from the wire as they were sent.

    1. `ofContent_members`: the members a message is written with, once read, fill the
       record it was written from. Each kind of message is one case.
    2. `read_line`: a written line is read as its message. The `type` member stands first
       and tells the kind; the others are kept until then, last first.
    3. `splitLines_encode`: no newline is written inside a line, so a stream of messages
       splits into their lines.
    4. `messages_read_back`: however a stream of messages is cut into chunks, what is
       taken out of the buffer in the end is the messages.

  A status is left out: the load it tells is rounded when it is written.
-/

namespace PromptGateway

open Json (Content EndsMember Legible Member Reader)

namespace WireMessage

/-! ## Members -/

theorem toNat_le_maxSignificand (n : UInt64) : n.toNat ≤ Json.maxSignificand :=
  Nat.le_sub_one_of_lt n.toNat_lt

theorem toNat32_le_maxSignificand (n : UInt32) : n.toNat ≤ Json.maxSignificand := by
  have := n.toNat_lt
  simp only [Json.maxSignificand, UInt64.size]
  omega

theorem minValue_le_toInt32 (n : Int32) : Int64.minValue.toInt ≤ n.toInt :=
  Int.le_trans (by decide) n.minValue_le_toInt

theorem toInt32_le_maxSignificand (n : Int32) : n.toInt ≤ Json.maxSignificand :=
  Int.le_trans n.toInt_le (by decide)

/-- The members that a message is written with, `type` apart. Those of a status are left
out. -/
def members : WireMessage → List Member
  | request r =>
    (r.id.map (Member.ofText "id")).toList ++
    [.ofText "model" r.model, .ofText "prompt" r.prompt,
      .ofNat "max_tokens" r.maxTokens.toNat (toNat32_le_maxSignificand _),
      .ofBoolean "stream" r.stream,
      .ofInt "priority" r.priority.toInt (minValue_le_toInt32 _) (toInt32_le_maxSignificand _)]
  | task t =>
    [.ofText "id" t.id, .ofNat "client_socket" t.clientSocket.toNat (toNat_le_maxSignificand _),
      .ofText "model" t.model, .ofText "prompt" t.prompt,
      .ofNat "max_tokens" t.maxTokens.toNat (toNat32_le_maxSignificand _),
      .ofBoolean "stream" t.stream]
  | response r =>
    [.ofText "id" r.id] ++ (r.token.map (Member.ofText "token")).toList ++
    (r.result.map (Member.ofText "result")).toList ++ [.ofBoolean "finished" r.finished] ++
    (r.clientSocket.map fun n => .ofNat "client_socket" n.toNat (toNat_le_maxSignificand n)).toList
  | error e => [.ofText "id" e.id, .ofText "message" e.message]
  | heartbeat => []
  | status _ => []

theorem fields_eq {m : WireMessage} (h : m.kind ≠ .status) :
    m.fields = m.members.map Member.written := by
  cases m with
  | request r => rcases r with ⟨_ | id, _, _, _, _, _⟩ <;> rfl
  | task t => rfl
  | response r => rcases r with ⟨_, _ | token, _ | result, _, _ | socket⟩ <;> rfl
  | error e => rfl
  | heartbeat => rfl
  | status s => exact absurd rfl h

theorem key_ne_type (m : WireMessage) : ∀ e ∈ m.members, e.key ≠ "type" := by
  cases m with
  | request r =>
    rcases r with ⟨_ | id, _, _, _, _, _⟩ <;>
      simp [members, Member.ofText, Member.ofNat, Member.ofInt, Member.ofBoolean]
  | task t => simp [members, Member.ofText, Member.ofNat, Member.ofBoolean]
  | response r =>
    rcases r with ⟨_, _ | token, _ | result, _, _ | socket⟩ <;>
      simp [members, Member.ofText, Member.ofNat, Member.ofBoolean]
  | error e => simp [members, Member.ofText]
  | heartbeat => simp [members]
  | status s => simp [members]

/-! ## Records -/

theorem asUInt32_toNat (n : UInt32) : Content.asUInt32 (.number (.integer n.toNat)) = .ok n := by
  have := n.toNat_lt
  rw [Content.asUInt32, Content.asInteger, if_pos (by simp only [UInt32.size]; omega)]
  show Except.ok (UInt32.ofNat n.toNat) = _
  rw [UInt32.ofNat_toNat]

theorem asUSize_toNat (n : UInt64) :
    Content.asUSize (.number (.integer n.toNat)) = .ok n.toNat := by
  have := n.toNat_lt
  rw [Content.asUSize, Content.asInteger, if_pos (by simp only [UInt64.size]; omega)]
  rfl

theorem asInt32_toInt (n : Int32) : Content.asInt32 (.number (.integer n.toInt)) = .ok n := by
  have hlow := n.minValue_le_toInt
  have hhigh := n.toInt_le
  rw [Content.asInt32, Content.asInteger, if_pos ⟨hlow, hhigh⟩]
  show Except.ok (Int32.ofInt n.toInt) = _
  rw [Int32.ofInt_toInt]

/-- The contents of members, by their keys. -/
def contents (ms : List Member) : List (String × Content) := ms.map fun e => (e.key, e.content)

theorem request_ofContent (r : InferenceRequest) :
    InferenceRequest.ofContent (.object (contents (request r).members)) = .ok r := by
  rcases r with ⟨_ | id, model, prompt, maxTokens, stream, priority⟩
  all_goals
    simp [contents, members, Member.ofText, Member.ofNat, Member.ofInt, Member.ofBoolean,
      InferenceRequest.ofContent, Json.recordOf, Json.fillByName, InferenceRequest.slots,
      Json.Slot.keeping, Content.asOptional, Content.asText, Content.asBoolean, asUInt32_toNat,
      asInt32_toInt, pure, Except.pure]

theorem task_ofContent (t : TaskAssignment) :
    TaskAssignment.ofContent (.object (contents (task t).members)) = .ok t := by
  simp [contents, members, Member.ofText, Member.ofNat, Member.ofBoolean,
    TaskAssignment.ofContent, Json.recordOf, Json.fillByName, TaskAssignment.slots,
    Json.Slot.keeping, Json.require, Content.asText, Content.asBoolean, asUInt32_toNat,
    asUSize_toNat, pure, Except.pure]

theorem response_ofContent (r : TokenResponse) :
    TokenResponse.ofContent (.object (contents (response r).members)) = .ok r := by
  rcases r with ⟨id, _ | token, _ | result, finished, _ | socket⟩
  all_goals
    simp [contents, members, Member.ofText, Member.ofNat, Member.ofBoolean,
      TokenResponse.ofContent, Json.recordOf, Json.fillByName, TokenResponse.slots,
      Json.Slot.keeping, Json.require, Content.asOptional, Content.asText, Content.asBoolean,
      asUSize_toNat, pure, Except.pure]

theorem ofContent_members {m : WireMessage} (h : m.kind ≠ .status) :
    ofContent m.kind (.object (contents m.members)) = .ok m := by
  cases m with
  | request r =>
    show request <$> InferenceRequest.ofContent _ = _
    rw [request_ofContent]
    rfl
  | task t =>
    show task <$> TaskAssignment.ofContent _ = _
    rw [task_ofContent]
    rfl
  | response r =>
    show response <$> TokenResponse.ofContent _ = _
    rw [response_ofContent]
    rfl
  | error e => rfl
  | heartbeat => rfl
  | status s => exact absurd rfl h

/-! ## Lines -/

/-- The member that tells the kind of a message. -/
def typeMember (m : WireMessage) : Member := .ofText "type" m.kind.name

theorem line_eq {m : WireMessage} (h : m.kind ≠ .status) :
    m.line = Json.Write.object ((m.typeMember :: m.members).map Member.written) := by
  rw [line, fields_eq h]
  rfl

theorem readKind_typeMember (m : WireMessage) {rest : List Char} (hr : EndsMember rest) :
    readKind (m.typeMember.text ++ rest) = .ok (m.kind, rest) := by
  have hspace : Json.skipSpace (m.typeMember.text ++ rest) = m.typeMember.text ++ rest :=
    Json.skipSpace_of_not_isSpace rfl _
  have hcontent : m.typeMember.content = .text m.kind.name := rfl
  unfold readKind Json.scalar
  rw [hspace]
  show (Json.value 0 (m.typeMember.text ++ rest) >>= fun x => _) = _
  rw [m.typeMember.legible 0 rest hr]
  simp only [Json.ok_bind, hcontent, MessageKind.ofName?_name]
  rfl

theorem readMember_type (m : WireMessage) (ms : List (String × Content)) {rest : List Char}
    (hr : EndsMember rest) :
    readMember (none, ms) "type" (':' :: (m.typeMember.text ++ rest)) =
      .ok ((some m.kind, ms), rest) := by
  show (readKind (m.typeMember.text ++ rest) >>= fun x => .ok ((some x.1, ms), x.2)) = _
  rw [readKind_typeMember m hr]
  rfl

/-- What a member that is no `type` adds to a message under construction. -/
def kept (s : Envelope) (e : Member) : Envelope := (s.1, (e.key, e.content) :: s.2)

theorem readMember_kept {e : Member} (hkey : e.key ≠ "type") (s : Envelope) {rest : List Char}
    (hr : EndsMember rest) :
    readMember s e.key (':' :: (e.text ++ rest)) = .ok (kept s e, rest) := by
  rw [readMember, if_neg hkey]
  show (Json.value (Json.maxDepth - 1) (e.text ++ rest) >>= fun x =>
    .ok ((e.key, x.1) :: s.2, x.2)) >>= _ = _
  rw [e.legible _ rest hr]
  rfl

theorem foldl_kept (es : List Member) (s : Envelope) :
    es.foldl kept s = (s.1, (contents es).reverse ++ s.2) := by
  induction es generalizing s with
  | nil => rfl
  | cons e es ih =>
    rw [List.foldl_cons, ih]
    simp [kept, contents]

theorem readEnvelope_line {m : WireMessage} (h : m.kind ≠ .status) :
    readEnvelope m.line = .ok ((m.kind, .object (contents m.members)), []) := by
  have hmembers := @Json.members_written _ readMember kept m.typeMember m.members (none, []) _
    (fun rest hr => readMember_type m [] hr)
    (fun e he s rest hr => readMember_kept (key_ne_type m e he) s hr) []
  rw [foldl_kept, List.append_nil] at hmembers
  rw [line_eq h]
  show Json.members readMember (none, []) (Json.Write.commaSeparated _ ++ ['}']) >>= _ = _
  rw [hmembers]
  show Except.ok ((m.kind, Content.object (contents m.members).reverse.reverse), ([] : List Char)) = _
  rw [List.reverse_reverse]

theorem read_line {m : WireMessage} (h : m.kind ≠ .status) : read m.line = .ok m := by
  rw [read, readEnvelope_line h]
  show ((ofContent m.kind (.object (contents m.members))).mapError Json.Fault.inValue >>= _) = _
  rw [ofContent_members h]
  rfl

theorem trimEnd_line (m : WireMessage) : Text.trimEnd m.line = m.line := by
  rw [Text.trimEnd, line, Json.Write.object, List.reverse_append, List.reverse_singleton,
    List.singleton_append, List.dropWhile_cons_of_neg (by decide), List.reverse_cons,
    List.reverse_reverse]

theorem trim_line (m : WireMessage) : Text.trim m.line = m.line := by
  have hstart : Text.trimStart m.line = m.line := List.dropWhile_cons_of_neg (by decide)
  rw [Text.trim, hstart, trimEnd_line]

theorem decode_line {m : WireMessage} (h : m.kind ≠ .status)
    (hsize : Text.utf8Length m.line ≤ maxMessageBytes) :
    decode (String.ofList m.line) = .ok m := by
  have hcons : m.line.isEmpty = false := rfl
  unfold decode
  dsimp only
  rw [String.toList_ofList, trim_line, hcons, if_neg (by decide), if_neg (Nat.not_lt_of_le hsize),
    read_line h]
  rfl

/-! ## Streams -/

theorem newline_not_mem_line {m : WireMessage} (h : m.kind ≠ .status) : '\n' ∉ m.line := by
  rw [line_eq h, Json.Write.object, List.map_cons, Json.commaSeparated_cons]
  have htype := m.typeMember.newline_not_mem_written
  have hmembers : '\n' ∉ (m.members.map Member.written).flatMap (',' :: ·) := by
    simp only [List.mem_flatMap, List.mem_map, List.mem_cons]
    rintro ⟨_, ⟨e, -, rfl⟩, hc | hc⟩
    · cases hc
    · exact e.newline_not_mem_written hc
  simp [htype, hmembers]

end WireMessage

/-- A byte below 128 stands for one character, and in no other character. -/
theorem toNat_eq_of_mem_utf8EncodeChar {c : Char} {b : UInt8} (hb : b ∈ String.utf8EncodeChar c)
    (h : b.toNat < 128) : c.toNat = b.toNat := by
  have hval : c.toNat = c.val.toNat := rfl
  simp only [String.utf8EncodeChar] at hb
  split at hb
  · simp only [List.mem_singleton] at hb
    subst hb
    simp
    omega
  · -- where a character takes more bytes than one, none of them is below 128
    exfalso
    split at hb
    · simp at hb
      rcases hb with rfl | rfl <;> simp at h <;> omega
    · split at hb <;> simp at hb
      · rcases hb with rfl | rfl | rfl <;> simp at h <;> omega
      · rcases hb with rfl | rfl | rfl | rfl <;> simp at h <;> omega

theorem newline_not_mem_ofChars {cs : List Char} (h : '\n' ∉ cs) : newline ∉ Bytes.ofChars cs := by
  intro hmem
  obtain ⟨c, hc, hb⟩ := List.mem_flatMap.mp hmem
  have heq : c.toNat = '\n'.toNat := toNat_eq_of_mem_utf8EncodeChar hb (by decide)
  rw [← Char.toNat_inj.mp heq] at h
  exact h hc

namespace WireMessage

theorem entry_line (m : WireMessage) :
    Frame.entry (Bytes.ofChars m.line) = some (.ok (String.ofList m.line)) := by
  have htext : (Bytes.ofChars m.line).text? = some (String.ofList m.line) := by
    rw [← Bytes.text?_ofString, Bytes.ofString, String.toList_ofList]
  have hblank : Text.isBlankText m.line = false := rfl
  unfold Frame.entry
  rw [htext]
  dsimp only
  rw [String.toList_ofList, hblank, if_neg (by decide), trimEnd_line]

theorem flatMap_encode (ms : List WireMessage) :
    ms.flatMap encode = Frame.join (ms.map fun m => Bytes.ofChars m.line) [] := by
  induction ms with
  | nil => rfl
  | cons m ms ih =>
    rw [List.flatMap_cons, ih, encode, List.append_assoc]
    rfl

theorem splitLines_encode {ms : List WireMessage} (h : ∀ m ∈ ms, m.kind ≠ .status) :
    Frame.splitLines (ms.flatMap encode) = (ms.map fun m => Bytes.ofChars m.line, []) := by
  rw [flatMap_encode]
  refine Frame.splitLines_of_join ?_ (List.not_mem_nil)
  intro l hl
  obtain ⟨m, hm, rfl⟩ := List.mem_map.mp hl
  exact newline_not_mem_ofChars (newline_not_mem_line (h m hm))

theorem length_encode (m : WireMessage) : m.encode.length = Text.utf8Length m.line + 1 := by
  rw [encode, List.length_append, Text.length_ofChars, List.length_singleton]

theorem utf8Length_line_le {m : WireMessage} (h : m.encode.length ≤ maxMessageBytes + 1) :
    Text.utf8Length m.line ≤ maxMessageBytes := by
  rw [length_encode] at h
  exact Nat.le_of_succ_le_succ h

theorem filterMap_entry_lines (ms : List WireMessage) :
    (ms.map fun m => Bytes.ofChars m.line).filterMap Frame.entry =
      ms.map fun m => .ok (String.ofList m.line) := by
  rw [List.filterMap_map, ← List.filterMap_eq_map]
  exact congrFun (congrArg _ (funext entry_line)) ms

/-- Messages that are written one after the other come back in order and unchanged, however
their bytes were cut into chunks, and nothing is left in the buffer. -/
theorem messages_read_back (ms : List WireMessage) (chunks : List Bytes)
    (hkind : ∀ m ∈ ms, m.kind ≠ .status)
    (hsize : ∀ m ∈ ms, m.encode.length ≤ maxMessageBytes + 1)
    (hcut : chunks.flatten = ms.flatMap encode) :
    Frame.feed Frame.drainMessages [] chunks = (ms.map .ok, []) := by
  have hsplit := splitLines_encode hkind
  have hfits : Frame.Fits chunks.flatten := by
    rw [hcut, Frame.Fits, hsplit]
    refine ⟨fun l hl => ?_, Nat.zero_le _⟩
    obtain ⟨m, hm, rfl⟩ := List.mem_map.mp hl
    rw [Text.length_ofChars]
    exact utf8Length_line_le (hsize m hm)
  rw [Frame.feed_drainMessages, Frame.feed_drainLines hfits, hcut, hsplit]
  rw [filterMap_entry_lines, List.map_map]
  refine Prod.ext (List.map_congr_left fun m hm => ?_) rfl
  exact decode_line (hkind m hm) (utf8Length_line_le (hsize m hm))

/-- One byte at a time, so that characters and escapes are cut too. -/
theorem messages_read_back_bytewise :
    let ms : List WireMessage := [
      .request { id := some "\"q\\\"\n", prompt := "\x00\x1f\r\té😀\u2028", maxTokens := 4294967295,
                 stream := false, priority := -2147483648 },
      .task { id := "", clientSocket := 18446744073709551615 },
      .response { id := "q", token := some "", finished := true, clientSocket := some 0 },
      .error { message := "\x7b\"type\":\"heartbeat\"\x7d\n" },
      .heartbeat]
    (∀ m ∈ ms, m.kind ≠ .status) ∧ (∀ m ∈ ms, m.encode.length ≤ maxMessageBytes + 1) ∧
      Frame.feed Frame.drainMessages [] ((ms.flatMap encode).map ([·])) = (ms.map .ok, []) := by
  intro ms
  have hkind : ∀ m ∈ ms, m.kind ≠ .status := by decide
  have hsize : ∀ m ∈ ms, m.encode.length ≤ maxMessageBytes + 1 := by decide +kernel
  have hcut : ((ms.flatMap encode).map ([·])).flatten = ms.flatMap encode := by
    rw [← List.flatMap_def, List.flatMap_singleton']
  exact ⟨hkind, hsize, messages_read_back ms _ hkind hsize hcut⟩

end WireMessage

end PromptGateway
