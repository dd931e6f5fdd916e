import PromptGateway.Network
import PromptGateway.Settings.Source

/-
  Starting a gateway, and the report of a start that failed.

  A report says what was being attempted and then why it failed, one cause under
  the other, each the reason of the one above it. Several causes are numbered.
-/

namespace PromptGateway

/-- A failure with the chain of its causes. -/
structure Report where
  context : String
  causes : List String := []
  deriving DecidableEq, Repr

namespace Report

/-- A cause, its first line after a label and the others below it. -/
def indent (label : String) (margin : String) (cause : String) : String :=
  match cause.splitOn "\n" with
  | [] => label
  | l :: ls => label ++ l ++ String.join (ls.map fun l => "\n" ++ margin ++ l)

/-- The causes, numbered if there are several. -/
def causeLines : List String → List String
  | [] => []
  | [cause] => [indent "    " "    " cause]
  | causes => causes.zipIdx.map fun (cause, i) =>
    let n := toString i
    indent (String.ofList (List.replicate (5 - n.length) ' ') ++ n ++ ": ") "       " cause

/-- The text of a report. -/
def render (r : Report) : String :=
  let causes :=
    if r.causes.isEmpty then ""
    else "\n\nCaused by:\n" ++ "\n".intercalate (causeLines r.causes)
  "Error: " ++ r.context ++ causes ++ "\n"

end Report

/-- The causes of settings that cannot be taken. -/
def SettingsError.causes (e : SettingsError) : List String :=
  match e with
  | .unreadable _ cause => [e.message, cause.message]
  | .malformed _ | .unusable _ => [e.message]

/-- Why clients cannot be listened for. -/
inductive ListenError where
  | invalidAddress (address : String)
  | failed (error : NetworkError)
  deriving DecidableEq, Repr

/-- The wording of a listener that could not be opened. -/
def ListenError.message : ListenError → String
  | invalidAddress address => s!"invalid listen address '{address}'"
  | failed e => s!"I/O error: {e.message}"

/-- The causes of a listener that could not be opened. -/
def ListenError.causes (e : ListenError) : List String :=
  match e with
  | .invalidAddress _ => [e.message]
  | .failed cause => [e.message, cause.message]

/-- The report of settings that cannot be taken. -/
def SettingsError.report (e : SettingsError) : Report :=
  ⟨"failed to load gateway configuration", e.causes⟩

/-- The report of a listener that could not be opened. -/
def ListenError.report (e : ListenError) : Report := ⟨"failed to bind client listener", e.causes⟩

/-- The listener for clients, or the failure to open it. -/
def Settings.listening (s : Settings) : Except NetworkError α → Except ListenError α
  | .ok a => .ok a
  | .error (.address _) => .error (.invalidAddress s.listenAddress)
  | .error e => .error (.failed e)

/-- Opens the listener for clients. -/
def Settings.listen (s : Settings) (n : Network) : Except ListenError Unit :=
  s.listening (n.listen s.listenAddress)

/-- Starts a gateway in a tree of files: reads its settings and opens its listener. -/
def startGateway (t : FileTree) (n : Network) (arguments : List String)
    (environment : Option String) : Except Report Settings := do
  let s ← (Settings.resolve t arguments.head? environment).mapError (·.report)
  (s.listen n).mapError (·.report)
  return s

end PromptGateway
