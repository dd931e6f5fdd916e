import PromptGateway.Number.Text

/-
  Writing JSON.

  A string is written between quotes; the quote, the backslash and the control
  characters below U+0020 are escaped, those with a letter of their own by that
  letter, and every other character stands for itself. An object is written
  without blanks, its members in the given order. An infinity is written as the
  word null.
-/

namespace PromptGateway.Json.Write

/-- A code unit below U+0100 as four lower case hexadecimal digits. -/
def fourDigits (n : Nat) : List Char :=
  ['0', '0', Nat.digitChar (n / 16), Nat.digitChar (n % 16)]

/-- One character of a string. -/
def escaped (c : Char) : List Char :=
  match c with
  | '"' => ['\\', '"']
  | '\\' => ['\\', '\\']
  | '\x08' => ['\\', 'b']
  | '\x0c' => ['\\', 'f']
  | '\n' => ['\\', 'n']
  | '\r' => ['\\', 'r']
  | '\t' => ['\\', 't']
  | _ => if c.toNat < 0x20 then '\\' :: 'u' :: fourDigits c.toNat else [c]

/-- A string. -/
def text (s : String) : List Char := '"' :: s.toList.flatMap escaped ++ ['"']

/-- A truth value. -/
def boolean (b : Bool) : List Char :=
  if b then ['t', 'r', 'u', 'e'] else ['f', 'a', 'l', 's', 'e']

/-- The word null. -/
def null : List Char := ['n', 'u', 'l', 'l']

/-- A natural number. -/
def nat (n : Nat) : List Char := Number.natText n

/-- An integer. -/
def int (n : Int) : List Char := Number.intText n

/-- A 32 bit floating point number. -/
def float32 (x : Number.Floating Number.binary32) : List Char :=
  (x.text? Number.layout32).getD null

/-- A value that may be absent. -/
def orNull (write : α → List Char) : Option α → List Char
  | none => null
  | some a => write a

/-- Texts with commas between them. -/
def commaSeparated : List (List Char) → List Char
  | [] => []
  | [x] => x
  | x :: xs => x ++ ',' :: commaSeparated xs

/-- A member of an object. -/
def member (key : String) (value : List Char) : List Char := text key ++ ':' :: value

/-- A member that is left out when there is no value. -/
def memberIfSome (key : String) (write : α → List Char) : Option α → List (List Char)
  | none => []
  | some a => [member key (write a)]

/-- An object. -/
def object (members : List (List Char)) : List Char := '{' :: commaSeparated members ++ ['}']

/-- A list. -/
def list (items : List (List Char)) : List Char := '[' :: commaSeparated items ++ [']']

end PromptGateway.Json.Write
