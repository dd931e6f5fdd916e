import PromptGateway.Json.Token

/-
  Passing over a value nobody asks for.

  A value that is only skipped has to be well formed, but nothing is computed
  from it: numerals may be of any size, escapes may name halves of surrogate
  pairs, and brackets may nest to any depth. `Skipping` is the state between two
  steps, the brackets that are open and what may come next.
-/

namespace PromptGateway.Json

/-- A bracket that has been opened. -/
inductive Bracket where
  | list
  | object
  deriving DecidableEq, Repr

namespace Bracket

/-- The character that closes a bracket. -/
def closing : Bracket → Char
  | list => ']'
  | object => '}'

/-- The fault of an input that ends inside a bracket. -/
def atEnd : Bracket → Cause
  | list => .endOfInput .list
  | object => .endOfInput .object

/-- The fault of a value that neither a comma nor the closing bracket follows. -/
def unclosed : Bracket → Cause
  | list => .expectedListEnd
  | object => .expectedObjectEnd

end Bracket

/-- Passes over the exponent of a numeral, from after its `e`. -/
def skipExponent (cs : List Char) : Except Fault (List Char) :=
  let ds := match cs with
    | '+' :: r => r
    | '-' :: r => r
    | _ => cs
  match ds with
  | [] => .error (.here .invalidNumber [])
  | d :: r =>
    if d.isDigit then .ok (r.dropWhile Char.isDigit) else .error (.next .invalidNumber ds)

/-- Passes over the digits after the point of a numeral, and its exponent. -/
def skipFraction (cs : List Char) : Except Fault (List Char) :=
  match cs with
  | [] => .error (.next .invalidNumber cs)
  | d :: _ =>
    if !d.isDigit then .error (.next .invalidNumber cs)
    else match cs.dropWhile Char.isDigit with
      | 'e' :: r | 'E' :: r => skipExponent r
      | r => .ok r

/-- Passes over what follows the integral digits of a numeral. -/
def skipAfterDigits (cs : List Char) : Except Fault (List Char) :=
  match cs with
  | '.' :: r => skipFraction r
  | 'e' :: r | 'E' :: r => skipExponent r
  | _ => .ok cs

/-- Passes over a numeral, from after its sign. -/
def skipNumeral (cs : List Char) : Except Fault (List Char) :=
  match cs with
  | [] => .error (.here .invalidNumber [])
  | '0' :: r =>
    match r with
    | d :: _ => if d.isDigit then .error (.next .invalidNumber r) else skipAfterDigits r
    | [] => .ok []
  | d :: r =>
    if d.isDigit then skipAfterDigits (r.dropWhile Char.isDigit)
    else .error (.next .invalidNumber cs)

/-- Passes over the rest of a string. Only the form of an escape is looked at. -/
def skipString : Nat → List Char → Except Fault (List Char)
  | 0, cs => .error (.here (.endOfInput .string) cs)
  | fuel + 1, cs =>
    match cs with
    | [] => .error (.here (.endOfInput .string) [])
    | '"' :: rest => .ok rest
    | '\\' :: [] => .error (.here (.endOfInput .string) [])
    | '\\' :: 'u' :: rest => do
      let (_, rest) ← hexEscape rest
      skipString fuel rest
    | '\\' :: c :: rest =>
      if (plainEscape c).isSome then skipString fuel rest
      else .error (.next .invalidEscape (c :: rest))
    | c :: rest =>
      if c.toNat < 0x20 then .error (.here .controlCharacter cs) else skipString fuel rest

/-- What may come next. -/
inductive Awaiting where
  /-- A value. -/
  | value
  /-- The first item of a bracket, or its end. -/
  | first
  /-- Another item of a bracket, or its end. -/
  | more
  deriving DecidableEq, Repr

/-- The state between two steps. -/
structure Skipping where
  opened : List Bracket
  awaiting : Awaiting
  left : List Char

namespace Skipping

/-- Passes over what stands in front of the value of an item: nothing in a list,
a key and a colon in an object. -/
def item (b : Bracket) (cs : List Char) : Except Fault (List Char) :=
  match b with
  | .list => .ok cs
  | .object =>
    match skipSpace cs with
    | [] => .error (.next (.endOfInput .object) [])
    | '"' :: rest => do
      let rest ← skipString (rest.length + 1) rest
      match skipSpace rest with
      | [] => .error (.next (.endOfInput .object) [])
      | ':' :: rest => .ok rest
      | rest => .error (.next .expectedColon rest)
    | rest => .error (.next .keyMustBeString rest)

/-- Passes over a value without brackets, or opens a bracket. -/
def value (opened : List Bracket) (cs : List Char) : Except Fault Skipping :=
  match skipSpace cs with
  | [] => .error (.next (.endOfInput .value) [])
  | 'n' :: rest => return ⟨opened, .more, ← word ['u', 'l', 'l'] rest⟩
  | 't' :: rest => return ⟨opened, .more, ← word ['r', 'u', 'e'] rest⟩
  | 'f' :: rest => return ⟨opened, .more, ← word ['a', 'l', 's', 'e'] rest⟩
  | '-' :: rest => return ⟨opened, .more, ← skipNumeral rest⟩
  | '"' :: rest => return ⟨opened, .more, ← skipString (rest.length + 1) rest⟩
  | '[' :: rest => .ok ⟨.list :: opened, .first, rest⟩
  | '{' :: rest => .ok ⟨.object :: opened, .first, rest⟩
  | c :: rest =>
    if c.isDigit then return ⟨opened, .more, ← skipNumeral (c :: rest)⟩
    else .error (.next .expectedValue (c :: rest))

/-- One step inside the bracket `b`, which stands in the brackets `outer`. -/
def inside (b : Bracket) (outer : List Bracket) (first : Bool) (cs : List Char) :
    Except Fault Skipping :=
  match skipSpace cs with
  | [] => .error (.next b.atEnd [])
  | c :: rest =>
    if c = b.closing then .ok ⟨outer, .more, rest⟩
    else if first then return ⟨b :: outer, .value, ← item b (c :: rest)⟩
    else if c = ',' then return ⟨b :: outer, .value, ← item b rest⟩
    else .error (.next b.unclosed (c :: rest))

/-- Steps until no bracket is open and no value is missing. -/
def run : Nat → Skipping → Except Fault (List Char)
  | 0, s => .error (.here .tooDeep s.left)
  | fuel + 1, ⟨opened, awaiting, cs⟩ =>
    match awaiting, opened with
    | .value, _ => do run fuel (← value opened cs)
    | _, [] => .ok cs
    | .first, b :: outer => do run fuel (← inside b outer true cs)
    | .more, b :: outer => do run fuel (← inside b outer false cs)

end Skipping

/-- Passes over one value. Each step takes at least one character, and two steps
are made for an item of a list at most. -/
def skipValue (cs : List Char) : Except Fault (List Char) :=
  Skipping.run (2 * cs.length + 2) ⟨[], .value, cs⟩

end PromptGateway.Json
