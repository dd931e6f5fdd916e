import PromptGateway.Network
import PromptGateway.Startup
import PromptGateway.Wire.Frame

/-
  A stand-in for a worker.

  It says that it is available as soon as a gateway connects, and answers every
  task with the same text, cut off after as many words as the task allows, but
  never before the first. What is no task is passed over.
-/

namespace PromptGateway.Standin

/-- The answer to every task. -/
def completion : String :=
  "Artificial intelligence is a branch of computer science that builds machines " ++
    "able to perform tasks that normally require human intelligence."

/-- The words of a text, each with the blank that follows it. -/
def words : List Char → List (List Char)
  | [] => []
  | ' ' :: cs => [' '] :: words cs
  | c :: cs =>
    match words cs with
    | [] => [[c]]
    | w :: ws => (c :: w) :: ws

/-- No character of a text is lost between its words. -/
theorem flatten_words (cs : List Char) : (words cs).flatten = cs := by
  fun_induction words cs with
  | case1 => rfl
  | case2 cs ih => simpa using ih
  | case3 c cs _ hw ih => rw [hw] at ih; simpa using ih
  | case4 c cs _ w ws hw ih => rw [hw] at ih; simpa using ih

/-- The words of the answer to a task. -/
def output (t : TaskAssignment) : List String :=
  ((words completion.toList).take (max 1 t.maxTokens.toNat)).map String.ofList

/-- What answers a task: a message for every word, or one for all of them. -/
def replies (t : TaskAssignment) : List WireMessage :=
  let ws := output t
  if t.stream then
    ws.zipIdx.map fun (w, i) =>
      .response { id := t.id, token := some w, finished := i + 1 == ws.length
                  clientSocket := some t.clientSocket }
  else
    [.response { id := t.id, result := some (String.join ws), finished := true
                 clientSocket := some t.clientSocket }]

/-- What greets a gateway. -/
def greeting (nodeId : String) : WireMessage := .status { nodeId := nodeId, available := true }

/-- Takes in what one read brought, and gives the answers and the part of a line
that is left. -/
def receive (buffer chunk : Bytes) : List WireMessage × Bytes :=
  let (entries, rest) := Frame.drainMessages (buffer ++ chunk)
  (entries.flatMap fun e =>
    match e with
    | .ok (.task t) => replies t
    | _ => [],
    rest)

/-- What a gateway receives that connects and sends the given chunks. -/
def session (nodeId : String) (chunks : List Bytes) : Bytes :=
  let (messages, _) := chunks.foldl
    (fun (messages, buffer) chunk =>
      let (more, rest) := receive buffer chunk
      (messages ++ more, rest))
    ([greeting nodeId], [])
  messages.flatMap WireMessage.encode

/-- Starts a stand-in from its arguments: the address to listen on and its name. -/
def start (n : Network) : List String → Except Report String
  | address :: nodeId :: _ =>
    match n.listen address with
    | .ok () => .ok nodeId
    | .error e => .error ⟨s!"failed to bind {address}", [e.message]⟩
  | _ => .error ⟨"usage: mock_worker <listen-addr> <node-id>", []⟩

end PromptGateway.Standin
