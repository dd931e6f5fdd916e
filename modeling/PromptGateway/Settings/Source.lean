import PromptGateway.Settings.Reading
import PromptGateway.Text.Blank
import PromptGateway.Text.Utf8

/-
  Where the settings of a gateway come from.

  A path given on the command line comes before one from the environment, and
  without a path, or with a blank one, the settings are the default ones. A file
  is looked up in a tree of files from the working directory on. What lies outside
  that directory is not known: it has directories, but no files.
-/

namespace PromptGateway

/-! ## Files -/

/-- Why a file cannot be read as text. -/
inductive FileError where
  | notFound
  | notDirectory
  | isDirectory
  | nameTooLong
  | nulInName
  | notText
  /-- Any other failure, in the words of the system. -/
  | system (text : String)
  deriving DecidableEq, Repr

/-- The wording of a file that cannot be read. -/
def FileError.message : FileError → String
  | notFound => "No such file or directory (os error 2)"
  | notDirectory => "Not a directory (os error 20)"
  | isDirectory => "Is a directory (os error 21)"
  | nameTooLong => "File name too long (os error 36)"
  | nulInName => "file name contained an unexpected NUL byte"
  | notText => "stream did not contain valid UTF-8"
  | system text => text

/-- The files below the working directory, each under the names on its way. -/
abbrev FileTree := List (List String × Bytes)

/-- A place that a path leads to: so many directories above the working directory,
then down through names. -/
structure Place where
  above : Nat := 0
  names : List String := []
  deriving DecidableEq, Repr

namespace FileTree

/-- The longest name, in bytes. -/
def maxName : Nat := 255

/-- The longest path, in bytes. -/
def maxPath : Nat := 4095

/-- The content of the file at a place. -/
def file? (t : FileTree) (p : Place) : Option Bytes :=
  if p.above = 0 then t.lookup p.names else none

/-- Whether there is a directory at a place. -/
def hasDirectory (t : FileTree) (p : Place) : Bool :=
  p.names.isEmpty ||
    (p.above = 0 && t.any fun (names, _) =>
      names.length > p.names.length && names.take p.names.length == p.names)

/-- One step of a path. It starts in a directory. -/
def step (t : FileTree) (p : Place) (name : String) : Except FileError Place :=
  if (t.file? p).isSome then .error .notDirectory
  else if !t.hasDirectory p then .error .notFound
  else if name = "" ∨ name = "." then .ok p
  else if name = ".." then
    if p.names.isEmpty then .ok { p with above := p.above + 1 }
    else .ok { p with names := p.names.dropLast }
  else if maxName < name.utf8ByteSize then .error .nameTooLong
  else .ok { p with names := p.names ++ [name] }

/-- The content of the file that a path leads to. A path from the root leads out of
the tree. -/
def read (t : FileTree) (path : String) : Except FileError Bytes := do
  if path.toList.contains '\x00' then .error .nulInName
  else if path = "" then .error .notFound
  else if maxPath < path.utf8ByteSize then .error .nameTooLong
  else
    let start : Place := if path.toList.head? = some '/' then { above := 1 } else {}
    let p ← (path.splitOn "/").foldlM t.step start
    match t.file? p with
    | some bytes => .ok bytes
    | none => .error (if t.hasDirectory p then .isDirectory else .notFound)

end FileTree

/-! ## Settings -/

/-- Why there are no settings. -/
inductive SettingsError where
  | unreadable (path : String) (error : FileError)
  /-- The document is no TOML, or a value in it has the wrong type. -/
  | malformed (path : String)
  | unusable (fault : SettingFault)
  deriving DecidableEq, Repr

/-- The wording of settings that cannot be taken. -/
def SettingsError.message : SettingsError → String
  | unreadable path e => s!"failed to read config file '{path}': {e.message}"
  | malformed path => s!"failed to parse config file '{path}'"
  | unusable f => s!"invalid config value for '{f.key}': {f.reason}"

namespace Settings

/-- The variable of the environment that names a file with settings. -/
def environmentKey : String := "INFERENCE_GATEWAY_CONFIG"

/-- The settings that a document from some place spells, if they can be used. -/
def ofDocument (document path : String) : Except SettingsError Settings :=
  match Settings.parse document with
  | none => .error (.malformed path)
  | some s =>
    match s.firstFault? with
    | some fault => .error (.unusable fault)
    | none => .ok s

/-- The settings that a file holds, or the failure to read it. -/
def ofFile (path : String) : Except FileError Bytes → Except SettingsError Settings
  | .error e => .error (.unreadable path e)
  | .ok bytes =>
    match bytes.text? with
    | none => .error (.unreadable path .notText)
    | some document => ofDocument document path

/-- The path to read settings from, none for the default settings. -/
def chosenPath (argument environment : Option String) : Option String :=
  ((argument.or environment).map Text.trimmed).filter (· ≠ "")

/-- The settings of a file in a tree. -/
def load (t : FileTree) (path : String) : Except SettingsError Settings :=
  ofFile path (t.read path)

/-- The settings of a gateway that is started in a tree of files. -/
def resolve (t : FileTree) (argument environment : Option String) :
    Except SettingsError Settings :=
  match chosenPath argument environment with
  | none => .ok {}
  | some path => load t path

/-- The settings of a document can be used. -/
theorem firstFault?_of_ofDocument {document path : String} {s : Settings}
    (h : ofDocument document path = .ok s) : s.firstFault? = none := by
  unfold ofDocument at h
  split at h
  · cases h
  · split at h
    · cases h
    · next hf => cases h; exact hf

end Settings

end PromptGateway
