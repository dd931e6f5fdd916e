import PromptGateway.Number.Binary

/-
  What a JSON document holds.

  A number is an integer when it is written as one and fits 64 bits, with or
  without a sign, and a 64 bit floating point number otherwise. An object keeps
  its members in the order in which they are written, repeated keys included:
  what a repeated key means is for the reader of a particular record to say.
-/

namespace PromptGateway.Json

/-- A number as it is read. -/
inductive Numeral where
  | integer (value : Int)
  | float (value : Number.Floating Number.binary64)
  deriving DecidableEq, Repr

/-- A value of a JSON document. -/
inductive Content where
  | null
  | boolean (value : Bool)
  | number (value : Numeral)
  | text (value : String)
  | list (items : List Content)
  | object (members : List (String × Content))

end PromptGateway.Json
