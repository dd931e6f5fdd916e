import PromptGateway.Json.Numeral
import PromptGateway.Text.Hex

/-
  The tokens of a JSON document: blanks, the three words and strings.

  A reader takes the text that is left and gives what it read together with the
  text that is left then. Every place in a `Fault` is a number of bytes that
  are left, so no reader has to know where in the document it stands.
-/

namespace PromptGateway.Json

/-- Takes a value off the front of the text that is left. -/
abbrev Reader (α : Type) := List Char → Except Fault (α × List Char)

/-- The four blanks that may stand between tokens. -/
def isSpace (c : Char) : Bool := c == ' ' || c == '\n' || c == '\t' || c == '\r'

/-- The text after the blanks in front of it. -/
def skipSpace (cs : List Char) : List Char := cs.dropWhile isSpace

/-- Reads the rest of a word. -/
def word : List Char → List Char → Except Fault (List Char)
  | [], cs => .ok cs
  | _ :: _, [] => .error (.here (.endOfInput .value) [])
  | w :: ws, c :: cs => if c = w then word ws cs else .error (.next .expectedIdent (c :: cs))

/-- The fault of an escape that is not four hexadecimal digits. The digits are
taken together: a fault in one of them stands after all four, and fewer than four
bytes are the end. -/
def badHexEscape (cs : List Char) : Fault :=
  if Text.utf8Length cs < 4 then .here (.endOfInput .string) []
  else ⟨.invalidEscape, some (Text.utf8Length cs - 4)⟩

/-- Reads four hexadecimal digits. -/
def hexEscape (cs : List Char) : Except Fault (Nat × List Char) :=
  match cs with
  | a :: b :: c :: d :: rest =>
    match Text.hexNumber [a, b, c, d] with
    | some n => .ok (n, rest)
    | none => .error (badHexEscape cs)
  | _ => .error (badHexEscape cs)

/-- Whether a code unit is the first half of a surrogate pair. -/
def isLeadingHalf (n : Nat) : Bool := 0xD800 ≤ n && n ≤ 0xDBFF

/-- Whether a code unit is the second half of a surrogate pair. -/
def isTrailingHalf (n : Nat) : Bool := 0xDC00 ≤ n && n ≤ 0xDFFF

/-- Reads what follows `\u`: a code unit, and its other half if it is the first
half of a pair. -/
def unicodeEscape (cs : List Char) : Except Fault (Char × List Char) := do
  let (n, cs) ← hexEscape cs
  if isTrailingHalf n then .error (.here .loneSurrogate cs)
  else if !isLeadingHalf n then .ok (.ofNat n, cs)
  else match cs with
    | [] => .error (.here (.endOfInput .string) [])
    | '\\' :: [] => .error (.here (.endOfInput .string) [])
    | '\\' :: 'u' :: cs => do
      let (m, cs) ← hexEscape cs
      if isTrailingHalf m then .ok (.ofNat (0x10000 + (n - 0xD800) * 0x400 + (m - 0xDC00)), cs)
      else .error (.here .loneSurrogate cs)
    | '\\' :: cs => .error (.next .endOfHexEscape cs)
    | cs => .error (.next .endOfHexEscape cs)

/-- The character that a letter after a backslash stands for. -/
def plainEscape (c : Char) : Option Char :=
  match c with
  | '"' => some '"'
  | '\\' => some '\\'
  | '/' => some '/'
  | 'b' => some '\x08'
  | 'f' => some '\x0c'
  | 'n' => some '\n'
  | 'r' => some '\r'
  | 't' => some '\t'
  | _ => none

/-- Reads what follows a backslash. -/
def escape (cs : List Char) : Except Fault (Char × List Char) :=
  match cs with
  | [] => .error (.here (.endOfInput .string) [])
  | 'u' :: rest => unicodeEscape rest
  | c :: rest =>
    match plainEscape c with
    | some x => .ok (x, rest)
    | none => .error (.next .invalidEscape cs)

/-- Reads the rest of a string, `seen` being its characters so far, last first.
The fuel bounds the number of characters. -/
def stringRest : Nat → List Char → List Char → Except Fault (List Char × List Char)
  | 0, _, cs => .error (.here (.endOfInput .string) cs)
  | fuel + 1, seen, cs =>
    match cs with
    | [] => .error (.here (.endOfInput .string) [])
    | '"' :: rest => .ok (seen.reverse, rest)
    | '\\' :: rest => do
      let (c, rest) ← escape rest
      stringRest fuel (c :: seen) rest
    | c :: rest =>
      if c.toNat < 0x20 then .error (.next .controlCharacter cs)
      else stringRest fuel (c :: seen) rest

/-- Reads a string from after its opening quote. -/
def string : Reader String := fun cs => do
  let (s, rest) ← stringRest (cs.length + 1) [] cs
  .ok (String.ofList s, rest)

end PromptGateway.Json
