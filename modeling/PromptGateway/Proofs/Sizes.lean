import PromptGateway.Proofs.Forwarding

/-
  What a worker says, and how long the lines for a client are.

  A line that is read is at least as long as the strings in it are where they are written
  again (`decode_response`, `decode_report`, `decode_requestedId`). And the line of each kind of
  reply is its strings and a number of bytes that depends on the kind only (`size_token`,
  `size_streamEnd`, `size_fullResult`, `size_failure`).
-/

namespace PromptGateway

open Json (Content)
open Text (utf8Length)

/-- The bytes of a string where it is written as a value. -/
def textSize (s : String) : Nat := utf8Length (Json.Write.text s)

theorem textSize_eq (s : String) : textSize s = Json.written s.toList + 2 := Json.utf8Length_text s

theorem textSize_append (s t : String) : textSize (s ++ t) + 2 = textSize s + textSize t := by
  simp only [textSize_eq, String.toList_append, Json.written_append]
  omega

/-- Characters that are left out take nothing. -/
theorem Text.utf8Length_le_of_sublist {a b : List Char} (h : a.Sublist b) :
    utf8Length a ≤ utf8Length b := by
  induction h with
  | slnil => exact Nat.le_refl _
  | cons c _ ih =>
    rw [Text.utf8Length_cons]
    exact Nat.le_add_left_of_le ih
  | cons_cons c _ ih =>
    rw [Text.utf8Length_cons, Text.utf8Length_cons]
    exact Nat.add_le_add_left ih _

/-! ## What a worker says -/

namespace TokenResponse

/-- The strings of a response under construction. -/
def Draft.weight (d : Draft) : Nat :=
  textWeight d.id + textWeight (d.token.getD none) + textWeight (d.result.getD none)

theorem slots_read : ∀ slot ∈ slots, ∀ (d : Draft) c d', slot.read d c = .ok d' →
    d'.weight ≤ d.weight + c.weight := by
  intro slot hslot d c d' h
  simp only [slots, List.mem_cons, List.not_mem_nil, or_false] at hslot
  rcases hslot with rfl | rfl | rfl | rfl | rfl <;> obtain ⟨a, ha, rfl⟩ := keeping_read h
  · have := asText_weight ha
    simp only [Draft.weight]
    omega
  · have := asOptional_weight ha
    simp only [Draft.weight, Option.getD_some]
    omega
  · have := asOptional_weight ha
    simp only [Draft.weight, Option.getD_some]
    omega
  all_goals exact Nat.le_add_right _ _

/-- A response weighs no more than the value it was read from. -/
theorem ofContent_weight {c : Content} {r : TokenResponse} (h : ofContent c = .ok r) :
    textSize r.id + textWeight r.token + textWeight r.result ≤ c.total := by
  unfold ofContent at h
  cases hd : Json.recordOf "TokenResponse" slots {} c with
  | error e => rw [hd] at h; cases h
  | ok d =>
    rw [hd, Json.ok_bind] at h
    cases hid : d.id with
    | none => rw [hid] at h; cases h
    | some id =>
      rw [hid] at h
      cases h
      have hweight := Json.recordOf_le slots_read hd
      have hempty : Draft.weight {} = 0 := rfl
      simp only [Draft.weight, hid] at hweight hempty
      show textWeight (some id) + textWeight (d.token.getD none) +
        textWeight (d.result.getD none) ≤ _
      omega

end TokenResponse

namespace ErrorReport

/-- The strings of a report under construction. -/
def Draft.weight (d : Draft) : Nat := textWeight d.id + textWeight d.message

theorem slots_read : ∀ slot ∈ slots, ∀ (d : Draft) c d', slot.read d c = .ok d' →
    d'.weight ≤ d.weight + c.weight := by
  intro slot hslot d c d' h
  simp only [slots, List.mem_cons, List.not_mem_nil, or_false] at hslot
  rcases hslot with rfl | rfl <;> obtain ⟨a, ha, rfl⟩ := keeping_read h
  · have := asText_weight ha
    simp only [Draft.weight]
    omega
  · have := asText_weight ha
    simp only [Draft.weight]
    omega

/-- A report that names a request weighs no more than the value it was read from. -/
theorem ofContent_weight {c : Content} {e : ErrorReport} (h : ofContent c = .ok e)
    (hid : e.id ≠ "") : textSize e.id + textSize e.message ≤ c.total := by
  unfold ofContent at h
  cases hd : Json.recordOf "ErrorReport" slots {} c with
  | error e => rw [hd] at h; cases h
  | ok d =>
    rw [hd, Json.ok_bind] at h
    cases hmessage : d.message with
    | none => rw [hmessage] at h; cases h
    | some message =>
      rw [hmessage] at h
      cases h
      have hweight := Json.recordOf_le slots_read hd
      have hempty : Draft.weight {} = 0 := rfl
      cases hd : d.id with
      | none => simp [hd] at hid
      | some id =>
        simp only [Draft.weight, hd, hmessage] at hweight hempty
        show textWeight (some id) + textWeight (some message) ≤ _
        omega

end ErrorReport

/-- A line that names a request and has something for it is at least as long as the two are. -/
theorem decode_response {line : String} {r : TokenResponse} {f : String}
    (h : WireMessage.decode line = .ok (.response r)) (hf : r.fragment? = some f) :
    textSize r.id + textSize f ≤ utf8Length (Text.trim line.toList) := by
  obtain ⟨kind, c, hcontent, htotal⟩ := WireMessage.decode_content h
  have hstrings := TokenResponse.ofContent_weight (WireMessage.ofContent_parts hcontent)
  have hfragment : textSize f ≤ textWeight r.token + textWeight r.result := by
    unfold TokenResponse.fragment? at hf
    cases htoken : r.token with
    | none =>
      rw [htoken, Option.none_or] at hf
      rw [hf]
      exact Nat.le_add_left _ _
    | some token =>
      rw [htoken, Option.some_or, Option.some.injEq] at hf
      rw [hf]
      exact Nat.le_add_right _ _
  omega

theorem decode_report {line : String} {e : ErrorReport}
    (h : WireMessage.decode line = .ok (.error e)) (hid : e.id ≠ "") :
    textSize e.id + textSize e.message ≤ utf8Length (Text.trim line.toList) := by
  obtain ⟨kind, c, hcontent, htotal⟩ := WireMessage.decode_content h
  have hstrings := ErrorReport.ofContent_weight (WireMessage.ofContent_parts hcontent) hid
  omega

theorem decode_requestedId {line : String} {r : InferenceRequest} {id : RequestId}
    (h : WireMessage.decode line = .ok (.request r)) (hid : r.requestedId = some id) :
    textSize id ≤ utf8Length (Text.trim line.toList) := by
  have hstrings := WireMessage.decode_request h
  have hrequested := textWeight_requestedId_le r
  have hmodel := textSize_eq r.model
  have hprompt := textSize_eq r.prompt
  rw [hid] at hrequested
  simp only [textWeight_some, textSize] at *
  omega

/-! ## The lines of replies -/

namespace WireMessage

open Json.Write

theorem utf8Length_member_text (key s : String) :
    utf8Length (member key (text s)) = textSize key + 1 + textSize s :=
  utf8Length_member key (text s)

/-- A string that may be left out, with the comma before it. -/
theorem utf8Length_memberIfSome (key : String) (s : Option String) :
    ((memberIfSome key text s).map utf8Length).sum + (memberIfSome key text s).length =
      s.elim 0 fun s => textSize key + 2 + textSize s := by
  cases s with
  | none => rfl
  | some s =>
    simp only [memberIfSome, List.map_cons, List.map_nil, List.sum_cons, List.sum_nil,
      List.length_cons, List.length_nil, utf8Length_member_text, Option.elim_some]
    omega

theorem utf8Length_response (id : RequestId) (token result : Option String) (finished : Bool) :
    utf8Length (response ⟨id, token, result, finished, none⟩).line =
      textSize id + (token.elim 0 fun s => textSize "token" + 2 + textSize s) +
        (result.elim 0 fun s => textSize "result" + 2 + textSize s) +
        utf8Length (boolean finished) + 37 := by
  have htype : utf8Length (member "type" (text MessageKind.response.name)) = 17 := by decide
  have hid : textSize "id" = 4 := by decide
  have hfinished : utf8Length (text "finished") = 10 := by decide
  rw [← utf8Length_memberIfSome, ← utf8Length_memberIfSome, line,
    utf8Length_object (List.cons_ne_nil _ _)]
  simp only [fields, kind, memberIfSome, List.append_nil, List.map_cons, List.map_append,
    List.map_nil, List.sum_cons, List.sum_append, List.sum_nil, List.length_cons,
    List.length_append, List.length_nil, utf8Length_member "finished", utf8Length_member_text "id",
    htype, hid, hfinished]
  omega

theorem size_token (id : RequestId) (fragment : String) :
    utf8Length (token id fragment).line = textSize id + textSize fragment + 51 := by
  have hkey : textSize "token" = 7 := by decide
  have hflag : utf8Length (boolean false) = 5 := by decide
  rw [token, utf8Length_response, Option.elim_some, Option.elim_none, hkey, hflag]
  omega

theorem size_streamEnd (id : RequestId) : utf8Length (streamEnd id).line = textSize id + 41 := by
  have hflag : utf8Length (boolean true) = 4 := by decide
  rw [streamEnd, utf8Length_response, Option.elim_none, Option.elim_none, hflag]

theorem size_fullResult (id : RequestId) (result : String) :
    utf8Length (fullResult id result).line = textSize id + textSize result + 51 := by
  have hkey : textSize "result" = 8 := by decide
  have hflag : utf8Length (boolean true) = 4 := by decide
  rw [fullResult, utf8Length_response, Option.elim_some, Option.elim_none, hkey, hflag]
  omega

theorem size_failure (id : RequestId) (reason : String) :
    utf8Length (failure id reason).line = textSize id + textSize reason + 33 := by
  have htype : utf8Length (member "type" (text MessageKind.error.name)) = 14 := by decide
  have hid : textSize "id" = 4 := by decide
  have hmessage : textSize "message" = 9 := by decide
  rw [failure, line, utf8Length_object (List.cons_ne_nil _ _)]
  simp only [fields, kind, List.map_cons, List.map_nil, List.sum_cons, List.sum_nil,
    List.length_cons, List.length_nil, utf8Length_member_text "id",
    utf8Length_member_text "message", htype, hid, hmessage]
  omega

theorem size_heartbeat : utf8Length heartbeat.line = 20 := by decide

end WireMessage

end PromptGateway
