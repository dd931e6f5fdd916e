import PromptGateway.Json.Token

/-
  Values of a JSON document.

  A list or an object is read item by item, with the reader of its items as a
  parameter; a value is then read by recursion on how many more brackets may be
  opened. `value n` opens at most `n` brackets inside each other.
-/

namespace PromptGateway.Json

/-- How many brackets a document may open inside each other. -/
def maxDepth : Nat := 127

/-- Reads the items of a list after the first one, `seen` being those so far,
last first. The fuel bounds their number. -/
def moreItems (item : Reader α) : Nat → List α → Reader (List α)
  | 0, _, cs => .error (.next (.endOfInput .list) cs)
  | fuel + 1, seen, cs =>
    match skipSpace cs with
    | [] => .error (.next (.endOfInput .list) [])
    | ']' :: rest => .ok (seen.reverse, rest)
    | ',' :: rest =>
      match skipSpace rest with
      | [] => .error (.next (.endOfInput .value) [])
      | ']' :: rest => .error (.next .trailingComma (']' :: rest))
      | rest => do
        let (x, rest) ← item rest
        moreItems item fuel (x :: seen) rest
    | rest => .error (.next .expectedListEnd rest)

/-- Reads the items of a list from after its opening bracket. -/
def items (item : Reader α) : Reader (List α) := fun cs =>
  match skipSpace cs with
  | [] => .error (.next (.endOfInput .list) [])
  | ']' :: rest => .ok ([], rest)
  | rest => do
    let (x, rest) ← item rest
    moreItems item (rest.length + 1) [x] rest

/-- Reads the items of a list of which one has been read and dropped. -/
def itemsAfterFirst (item : Reader α) : Reader (List α) := fun cs =>
  moreItems item (cs.length + 1) [] cs

/-- Reads the colon after a key. -/
def colon (cs : List Char) : Except Fault (List Char) :=
  match skipSpace cs with
  | [] => .error (.next (.endOfInput .object) [])
  | ':' :: rest => .ok rest
  | rest => .error (.next .expectedColon rest)

/-- Reads the members of an object after the first one. A member changes the
state `s` by its key and by what follows the key. -/
def moreMembers (member : σ → String → Reader σ) : Nat → σ → Reader σ
  | 0, _, cs => .error (.next (.endOfInput .object) cs)
  | fuel + 1, s, cs =>
    match skipSpace cs with
    | [] => .error (.next (.endOfInput .object) [])
    | '}' :: rest => .ok (s, rest)
    | ',' :: rest =>
      match skipSpace rest with
      | [] => .error (.next (.endOfInput .value) [])
      | '"' :: rest => do
        let (key, rest) ← string rest
        let (s, rest) ← member s key rest
        moreMembers member fuel s rest
      | '}' :: rest => .error (.next .trailingComma ('}' :: rest))
      | rest => .error (.next .keyMustBeString rest)
    | rest => .error (.next .expectedObjectEnd rest)

/-- Reads the members of an object from after its opening bracket. -/
def members (member : σ → String → Reader σ) (s : σ) : Reader σ := fun cs =>
  match skipSpace cs with
  | [] => .error (.next (.endOfInput .object) [])
  | '}' :: rest => .ok (s, rest)
  | '"' :: rest => do
    let (key, rest) ← string rest
    let (s, rest) ← member s key rest
    moreMembers member (rest.length + 1) s rest
  | rest => .error (.next .keyMustBeString rest)

/-- Reads a member by the reader of its value, in front of the members so far. -/
def keep (value : Reader Content) (seen : List (String × Content)) (key : String) :
    Reader (List (String × Content)) := fun cs => do
  let (v, rest) ← value (← colon cs)
  .ok ((key, v) :: seen, rest)

/-- Reads a value that opens at most `n` brackets inside each other. -/
def value (n : Nat) : Reader Content := fun cs =>
  match skipSpace cs with
  | [] => .error (.next (.endOfInput .value) [])
  | 'n' :: rest => do .ok (.null, ← word ['u', 'l', 'l'] rest)
  | 't' :: rest => do .ok (.boolean true, ← word ['r', 'u', 'e'] rest)
  | 'f' :: rest => do .ok (.boolean false, ← word ['a', 'l', 's', 'e'] rest)
  | '-' :: rest => do
    let (x, rest) ← numeral true rest
    .ok (.number x, rest)
  | '"' :: rest => do
    let (s, rest) ← string rest
    .ok (.text s, rest)
  | '[' :: rest =>
    match n with
    | 0 => .error (.next .tooDeep ('[' :: rest))
    | n + 1 => do
      let (xs, rest) ← items (value n) rest
      .ok (.list xs, rest)
  | '{' :: rest =>
    match n with
    | 0 => .error (.next .tooDeep ('{' :: rest))
    | n + 1 => do
      let (ms, rest) ← members (keep (value n)) [] rest
      .ok (.object ms.reverse, rest)
  | c :: rest =>
    if c.isDigit then do
      let (x, rest) ← numeral false (c :: rest)
      .ok (.number x, rest)
    else .error (.next .expectedValue (c :: rest))

/-- Checks that nothing but blanks is left. -/
def atEnd (cs : List Char) : Except Fault Unit :=
  match skipSpace cs with
  | [] => .ok ()
  | rest => .error (.next .trailingCharacters rest)

/-- The text left after the end of an object, for a fault of the object as a
whole that is noticed where `cs` begins. -/
def afterObject (cs : List Char) : List Char :=
  match skipSpace cs with
  | '}' :: rest => rest
  | rest => rest

/-- The text left after the end of a list, for a fault of the list as a whole
that is noticed where `cs` begins. -/
def afterList (cs : List Char) : List Char :=
  match skipSpace cs with
  | ']' :: rest => rest
  | ',' :: rest => skipSpace rest
  | rest => rest

end PromptGateway.Json
