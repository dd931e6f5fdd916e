import PromptGateway.Number.Binary
import PromptGateway.Text.Blank

/-
  The messages of the wire protocol.

  A client sends requests, the gateway hands tasks to workers, workers answer
  with tokens or results, and the gateway passes those on. Heartbeats and errors
  go both ways; a status is what a worker says about itself.
-/

namespace PromptGateway

/-- Names a client connection. An id is given out once and only looked up. -/
abbrev ConnectionId := UInt64

/-- Names a request, as chosen by the client or generated. -/
abbrev RequestId := String

/-- What a client asks for. -/
structure InferenceRequest where
  id : Option String := none
  model : String := ""
  prompt : String := ""
  maxTokens : UInt32 := 1000
  stream : Bool := true
  priority : Int32 := 0
  deriving DecidableEq, Repr

/-- The id the client chose, without the blanks around it; none if nothing else
is there. -/
def InferenceRequest.requestedId (r : InferenceRequest) : Option RequestId :=
  (r.id.map Text.trimmed).filter (· ≠ "")

/-- What the gateway asks a worker to do. -/
structure TaskAssignment where
  id : RequestId
  clientSocket : ConnectionId
  model : String := ""
  prompt : String := ""
  maxTokens : UInt32 := 1000
  stream : Bool := true
  deriving DecidableEq, Repr

/-- A token of an answer, or a whole one. -/
structure TokenResponse where
  id : RequestId
  token : Option String := none
  result : Option String := none
  finished : Bool := false
  clientSocket : Option ConnectionId := none
  deriving DecidableEq, Repr

/-- A failure, of the request it names if it names one. -/
structure ErrorReport where
  id : RequestId := ""
  message : String
  deriving DecidableEq, Repr

/-- What a worker says about itself. -/
structure NodeStatus where
  nodeId : String := ""
  available : Bool := false
  load : Number.Floating Number.binary32 := .zero _
  deriving DecidableEq, Repr

/-- One line of the protocol. -/
inductive WireMessage where
  | request (request : InferenceRequest)
  | task (task : TaskAssignment)
  | response (response : TokenResponse)
  | error (report : ErrorReport)
  | heartbeat
  | status (status : NodeStatus)
  deriving DecidableEq, Repr

/-- What a message is, as its `type` field spells it. -/
inductive MessageKind where
  | request
  | task
  | response
  | error
  | heartbeat
  | status
  deriving DecidableEq, Repr

namespace MessageKind

/-- All kinds, in the order in which messages about them list them. -/
def all : List MessageKind := [request, task, response, error, heartbeat, status]

/-- The spelling of a kind. -/
def name : MessageKind → String
  | request => "request"
  | task => "task"
  | response => "response"
  | error => "error"
  | heartbeat => "heartbeat"
  | status => "status"

/-- The kind with a given spelling. -/
def ofName? (s : String) : Option MessageKind := all.find? (·.name == s)

theorem ofName?_name (k : MessageKind) : ofName? k.name = some k := by cases k <;> rfl

end MessageKind

namespace WireMessage

/-- The kind of a message. -/
def kind : WireMessage → MessageKind
  | request _ => .request
  | task _ => .task
  | response _ => .response
  | error _ => .error
  | heartbeat => .heartbeat
  | status _ => .status

/-- One token of a streamed answer. -/
def token (id : RequestId) (token : String) : WireMessage :=
  .response { id := id, token := some token }

/-- The end of a streamed answer. -/
def streamEnd (id : RequestId) : WireMessage := .response { id := id, finished := true }

/-- An answer in one piece. -/
def fullResult (id : RequestId) (result : String) : WireMessage :=
  .response { id := id, result := some result, finished := true }

/-- A failure. -/
def failure (id : RequestId) (message : String) : WireMessage :=
  .error { id := id, message := message }

end WireMessage

end PromptGateway
