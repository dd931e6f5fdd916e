import PromptGateway.Json.Content
import PromptGateway.Number.Text
import PromptGateway.Text.Quoted
import PromptGateway.Text.Utf8

/-
  What can be wrong with a JSON document.

  A `Cause` is a reason, and `Cause.message` its wording. A `Fault` is a cause
  with the place where it was noticed, kept as the number of bytes that had not
  been read by then; `Fault.locate` turns that into a line and a column of the
  document. A fault found in a value that has already been read has no place.
-/

namespace PromptGateway.Json

/-- What was being read when the input ended. -/
inductive Construct where
  | value
  | string
  | list
  | object
  deriving DecidableEq, Repr

/-- The kind of value that stood where another kind was wanted. -/
inductive Found where
  | null
  | boolean (value : Bool)
  | number (value : Numeral)
  | text (value : String)
  | list
  | object
  deriving DecidableEq, Repr

/-- Why a document is refused. -/
inductive Cause where
  | endOfInput (inside : Construct)
  | expectedValue
  | expectedIdent
  | expectedColon
  | expectedListEnd
  | expectedObjectEnd
  | trailingComma
  | trailingCharacters
  | keyMustBeString
  | invalidNumber
  | numberOutOfRange
  | invalidEscape
  | controlCharacter
  | loneSurrogate
  | endOfHexEscape
  | tooDeep
  /-- A value of another type than the one wanted. -/
  | mismatch (found : Found) (wanted : String)
  /-- An integer that the wanted type cannot hold. -/
  | outOfRange (value : Int) (wanted : String)
  /-- A list of the wrong length. -/
  | wrongLength (length : Nat) (wanted : String)
  | missingField (name : String)
  | duplicateField (name : String)
  | unknownVariant (name : String) (known : List String)
  deriving DecidableEq, Repr

namespace Construct

/-- The wording of a construct. -/
def name : Construct → String
  | value => "a value"
  | string => "a string"
  | list => "a list"
  | object => "an object"

end Construct

namespace Found

/-- The numeral of a floating point number, as messages and values show it. -/
def floatText (x : Number.Floating Number.binary64) : String :=
  String.ofList ((x.text? Number.layout64).getD ['i', 'n', 'f'])

/-- The wording of a value that was not wanted. -/
def describe : Found → String
  | null => "null"
  | boolean b => s!"boolean `{b}`"
  | number (.integer n) => s!"integer `{n}`"
  | number (.float x) => s!"floating point `{floatText x}`"
  | text s => "string " ++ Text.quoted s
  | list => "sequence"
  | object => "map"

end Found

/-- What kind of value a content is. -/
def Content.found : Content → Found
  | .null => .null
  | .boolean b => .boolean b
  | .number n => .number n
  | .text s => .text s
  | .list _ => .list
  | .object _ => .object

namespace Cause

/-- A choice of names, as a message lists them. -/
def choices (names : List String) : String :=
  ", ".intercalate (names.map fun n => s!"`{n}`")

/-- The wording of a cause. -/
def message : Cause → String
  | endOfInput inside => "EOF while parsing " ++ inside.name
  | expectedValue => "expected value"
  | expectedIdent => "expected ident"
  | expectedColon => "expected `:`"
  | expectedListEnd => "expected `,` or `]`"
  | expectedObjectEnd => "expected `,` or `\x7d`"
  | trailingComma => "trailing comma"
  | trailingCharacters => "trailing characters"
  | keyMustBeString => "key must be a string"
  | invalidNumber => "invalid number"
  | numberOutOfRange => "number out of range"
  | invalidEscape => "invalid escape"
  | controlCharacter => "control character (\\u0000-\\u001F) found while parsing a string"
  | loneSurrogate => "lone leading surrogate in hex escape"
  | endOfHexEscape => "unexpected end of hex escape"
  | tooDeep => "recursion limit exceeded"
  | mismatch found wanted => s!"invalid type: {found.describe}, expected {wanted}"
  | outOfRange value wanted => s!"invalid value: integer `{value}`, expected {wanted}"
  | wrongLength length wanted => s!"invalid length {length}, expected {wanted}"
  | missingField name => s!"missing field `{name}`"
  | duplicateField name => s!"duplicate field `{name}`"
  | unknownVariant name known => s!"unknown variant `{name}`, expected one of {choices known}"

end Cause

/-- A cause, and how many bytes of the document were still unread. -/
structure Fault where
  cause : Cause
  left : Option Nat
  deriving DecidableEq, Repr

/-- A place in a document: the line from 1, and the bytes read in that line. -/
structure Position where
  line : Nat
  column : Nat
  deriving DecidableEq, Repr

/-- A refused document. -/
structure Error where
  cause : Cause
  position : Option Position
  deriving DecidableEq, Repr

namespace Fault

/-- A fault noticed where `rest` begins. -/
def here (cause : Cause) (rest : List Char) : Fault := ⟨cause, some (Text.utf8Length rest)⟩

/-- A fault of the byte with which `rest` begins; of the end of the input when
there is none. -/
def next (cause : Cause) (rest : List Char) : Fault := ⟨cause, some (Text.utf8Length rest - 1)⟩

/-- A fault of a value that has been read already. -/
def inValue (cause : Cause) : Fault := ⟨cause, none⟩

end Fault

/-- The place after the first bytes of a document. -/
def Position.after (bytes : Bytes) : Position :=
  bytes.foldl (fun p b => if b = 10 then ⟨p.line + 1, 0⟩ else ⟨p.line, p.column + 1⟩) ⟨1, 0⟩

/-- A fault with its place in the document. -/
def Fault.locate (document : List Char) (fault : Fault) : Error :=
  { cause := fault.cause
    position := fault.left.map fun left =>
      let bytes := Bytes.ofChars document
      .after (bytes.take (bytes.length - left)) }

/-- The wording of a refusal. -/
def Error.message (e : Error) : String :=
  match e.position with
  | none => e.cause.message
  | some p => s!"{e.cause.message} at line {p.line} column {p.column}"

end PromptGateway.Json
