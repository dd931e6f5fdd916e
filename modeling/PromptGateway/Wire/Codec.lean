import PromptGateway.Json.Record
import PromptGateway.Json.Writer
import PromptGateway.Text.Blank
import PromptGateway.Wire.Message

/-
  Messages as lines of JSON.

  `WireMessage.encode` writes a message as one line; `WireMessage.decode` reads
  a line. A message is an object whose `type` member says which kind it is,
  wherever it stands, or a list that begins with it; the rest of the message is
  kept until the kind is known and then read as a record of that kind. So a fault
  of the document, or of the `type` member, has a place in the line, and a fault
  of a field has none.
-/

namespace PromptGateway

open Json (Cause Content Fault Reader Slot)

/-- The largest message, in bytes, without its newline. -/
def maxMessageBytes : Nat := 64 * 1024

/-! ## Fields -/

namespace InferenceRequest

/-- A request under construction. -/
structure Draft where
  id : Option (Option String) := none
  model : Option String := none
  prompt : Option String := none
  maxTokens : Option UInt32 := none
  stream : Option Bool := none
  priority : Option Int32 := none

/-- The fields of a request. -/
def slots : List (Slot Draft (Content → Except Cause Draft)) := [
  .keeping "id" (·.id) (fun s a => { s with id := some a }) (·.asOptional Content.asText) false,
  .keeping "model" (·.model) (fun s a => { s with model := some a }) Content.asText false,
  .keeping "prompt" (·.prompt) (fun s a => { s with prompt := some a }) Content.asText false,
  .keeping "max_tokens" (·.maxTokens) (fun s a => { s with maxTokens := some a })
    Content.asUInt32 false,
  .keeping "stream" (·.stream) (fun s a => { s with stream := some a }) Content.asBoolean false,
  .keeping "priority" (·.priority) (fun s a => { s with priority := some a })
    Content.asInt32 false]

/-- A request from a value; every field has a default. -/
def ofContent (c : Content) : Except Cause InferenceRequest := do
  let d ← Json.recordOf "InferenceRequest" slots {} c
  return { id := d.id.getD none, model := d.model.getD "", prompt := d.prompt.getD ""
           maxTokens := d.maxTokens.getD 1000, stream := d.stream.getD true
           priority := d.priority.getD 0 }

end InferenceRequest

namespace TaskAssignment

/-- A task under construction. -/
structure Draft where
  id : Option String := none
  clientSocket : Option Nat := none
  model : Option String := none
  prompt : Option String := none
  maxTokens : Option UInt32 := none
  stream : Option Bool := none

/-- The fields of a task. -/
def slots : List (Slot Draft (Content → Except Cause Draft)) := [
  .keeping "id" (·.id) (fun s a => { s with id := some a }) Content.asText true,
  .keeping "client_socket" (·.clientSocket) (fun s a => { s with clientSocket := some a })
    Content.asUSize true,
  .keeping "model" (·.model) (fun s a => { s with model := some a }) Content.asText false,
  .keeping "prompt" (·.prompt) (fun s a => { s with prompt := some a }) Content.asText false,
  .keeping "max_tokens" (·.maxTokens) (fun s a => { s with maxTokens := some a })
    Content.asUInt32 false,
  .keeping "stream" (·.stream) (fun s a => { s with stream := some a }) Content.asBoolean false]

/-- A task from a value; it names its request and its client. -/
def ofContent (c : Content) : Except Cause TaskAssignment := do
  let d ← Json.recordOf "TaskAssignment" slots {} c
  return { id := ← Json.require "id" d.id
           clientSocket := .ofNat (← Json.require "client_socket" d.clientSocket)
           model := d.model.getD "", prompt := d.prompt.getD ""
           maxTokens := d.maxTokens.getD 1000, stream := d.stream.getD true }

end TaskAssignment

namespace TokenResponse

/-- A response under construction. -/
structure Draft where
  id : Option String := none
  token : Option (Option String) := none
  result : Option (Option String) := none
  finished : Option Bool := none
  clientSocket : Option (Option Nat) := none

/-- The fields of a response. -/
def slots : List (Slot Draft (Content → Except Cause Draft)) := [
  .keeping "id" (·.id) (fun s a => { s with id := some a }) Content.asText true,
  .keeping "token" (·.token) (fun s a => { s with token := some a })
    (·.asOptional Content.asText) false,
  .keeping "result" (·.result) (fun s a => { s with result := some a })
    (·.asOptional Content.asText) false,
  .keeping "finished" (·.finished) (fun s a => { s with finished := some a })
    Content.asBoolean false,
  .keeping "client_socket" (·.clientSocket) (fun s a => { s with clientSocket := some a })
    (·.asOptional Content.asUSize) false]

/-- A response from a value; it names its request. -/
def ofContent (c : Content) : Except Cause TokenResponse := do
  let d ← Json.recordOf "TokenResponse" slots {} c
  return { id := ← Json.require "id" d.id, token := d.token.getD none
           result := d.result.getD none, finished := d.finished.getD false
           clientSocket := (d.clientSocket.getD none).map .ofNat }

end TokenResponse

namespace ErrorReport

/-- A report under construction. -/
structure Draft where
  id : Option String := none
  message : Option String := none

/-- The fields of a report. -/
def slots : List (Slot Draft (Content → Except Cause Draft)) := [
  .keeping "id" (·.id) (fun s a => { s with id := some a }) Content.asText false,
  .keeping "message" (·.message) (fun s a => { s with message := some a }) Content.asText true]

/-- A report from a value; it has a message. -/
def ofContent (c : Content) : Except Cause ErrorReport := do
  let d ← Json.recordOf "ErrorReport" slots {} c
  return { id := d.id.getD "", message := ← Json.require "message" d.message }

end ErrorReport

namespace NodeStatus

/-- A status under construction. -/
structure Draft where
  nodeId : Option String := none
  available : Option Bool := none
  load : Option (Number.Floating Number.binary32) := none

/-- The fields of a status. -/
def slots : List (Slot Draft (Content → Except Cause Draft)) := [
  .keeping "node_id" (·.nodeId) (fun s a => { s with nodeId := some a }) Content.asText false,
  .keeping "available" (·.available) (fun s a => { s with available := some a })
    Content.asBoolean false,
  .keeping "load" (·.load) (fun s a => { s with load := some a }) Content.asFloat32 false]

/-- A status from a value; every field has a default. -/
def ofContent (c : Content) : Except Cause NodeStatus := do
  let d ← Json.recordOf "NodeStatus" slots {} c
  return { nodeId := d.nodeId.getD "", available := d.available.getD false
           load := d.load.getD (.zero _) }

end NodeStatus

namespace WireMessage

/-! ## Reading -/

/-- The wording of what a line has to hold. -/
def wanted : String := "internally tagged enum WireMessage"

/-- Reads the value of the `type` member. -/
def readKind : Reader MessageKind := Json.scalar fun
  | .text s =>
    match MessageKind.ofName? s with
    | some k => .ok k
    | none => .error (.unknownVariant s (MessageKind.all.map MessageKind.name))
  | c => .error (.mismatch c.found "variant identifier")

/-- The kind of a message, if its member has been met, and the other members so
far, last first. -/
abbrev Envelope := Option MessageKind × List (String × Content)

/-- Reads a member of a message. -/
def readMember (s : Envelope) (key : String) : Reader Envelope := fun cs =>
  if key = "type" then
    if s.1.isSome then .error (.here (.duplicateField "type") (Json.afterObject cs))
    else do
      let (k, rest) ← readKind (← Json.colon cs)
      .ok ((some k, s.2), rest)
  else do
    let (ms, rest) ← Json.keep (Json.value (Json.maxDepth - 1)) s.2 key cs
    .ok ((s.1, ms), rest)

/-- Reads the kind of a message and the rest of it. -/
def readEnvelope : Reader (MessageKind × Content) := fun cs =>
  match Json.skipSpace cs with
  | '{' :: rest => do
    let ((kind, ms), rest) ← Json.members readMember (none, []) rest
    match kind with
    | none => .error (.here (.missingField "type") rest)
    | some k => .ok ((k, .object ms.reverse), rest)
  | '[' :: rest => do
    match ← Json.nextItem true rest with
    | none => .error (.here (.missingField "type") (Json.afterList rest))
    | some cs => do
      let (k, rest) ← readKind cs
      let (xs, rest) ← Json.itemsAfterFirst (Json.value (Json.maxDepth - 1)) rest
      .ok ((k, .list xs), rest)
  | rest => Json.scalar (fun c => .error (.mismatch c.found wanted)) rest

/-- A message of a known kind from the rest of its members. A heartbeat has no
fields: as an object it may hold anything, as a list nothing. -/
def ofContent : MessageKind → Content → Except Cause WireMessage
  | .request, c => request <$> InferenceRequest.ofContent c
  | .task, c => task <$> TaskAssignment.ofContent c
  | .response, c => response <$> TokenResponse.ofContent c
  | .error, c => error <$> ErrorReport.ofContent c
  | .status, c => status <$> NodeStatus.ofContent c
  | .heartbeat, .list [] => .ok heartbeat
  | .heartbeat, .list xs =>
    .error (.wrongLength xs.length (Json.elements 0 ++ " in sequence"))
  | .heartbeat, _ => .ok heartbeat

/-- Reads a message and nothing after it. -/
def read (cs : List Char) : Except Fault WireMessage := do
  let ((kind, c), rest) ← readEnvelope cs
  let m ← (ofContent kind c).mapError .inValue
  Json.atEnd rest
  return m

end WireMessage

/-- Why a line is refused. -/
inductive DecodeError where
  | empty
  | oversized
  | invalidUtf8
  | malformed (error : Json.Error)
  deriving DecidableEq, Repr

/-- The wording of a refusal. -/
def DecodeError.message : DecodeError → String
  | empty => "empty message"
  | oversized => s!"message exceeds {maxMessageBytes} bytes"
  | invalidUtf8 => "message is not valid UTF-8"
  | malformed e => "malformed message: " ++ e.message

/-- Reads a line. Blanks around it do not count. -/
def WireMessage.decode (line : String) : Except DecodeError WireMessage :=
  let cs := Text.trim line.toList
  if cs.isEmpty then .error .empty
  else if maxMessageBytes < Text.utf8Length cs then .error .oversized
  else (WireMessage.read cs).mapError fun f => .malformed (f.locate cs)

/-! ## Writing -/

namespace WireMessage

open Json.Write

/-- The members of a message after `type`. -/
def fields : WireMessage → List (List Char)
  | request r =>
    memberIfSome "id" text r.id ++
    [member "model" (text r.model), member "prompt" (text r.prompt),
      member "max_tokens" (nat r.maxTokens.toNat), member "stream" (boolean r.stream),
      member "priority" (int r.priority.toInt)]
  | task t =>
    [member "id" (text t.id), member "client_socket" (nat t.clientSocket.toNat),
      member "model" (text t.model), member "prompt" (text t.prompt),
      member "max_tokens" (nat t.maxTokens.toNat), member "stream" (boolean t.stream)]
  | response r =>
    [member "id" (text r.id)] ++ memberIfSome "token" text r.token ++
    memberIfSome "result" text r.result ++ [member "finished" (boolean r.finished)] ++
    memberIfSome "client_socket" (fun n => nat n.toNat) r.clientSocket
  | error e => [member "id" (text e.id), member "message" (text e.message)]
  | heartbeat => []
  | status s =>
    [member "node_id" (text s.nodeId), member "available" (boolean s.available),
      member "load" (float32 s.load)]

/-- The line of a message, without its newline. -/
def line (m : WireMessage) : List Char :=
  object (member "type" (text m.kind.name) :: m.fields)

/-- The bytes of a message: its line and a newline. -/
def encode (m : WireMessage) : Bytes := Bytes.ofChars m.line ++ [10]

end WireMessage

end PromptGateway
