import PromptGateway.Json.Skip
import PromptGateway.Json.Value

/-
  Records in a JSON document.

  A record is written as an object, its fields by name in any order, or as a
  list, its fields by position. A `Slot` is one field of a record that is being
  filled in; the slots of a record stand in the order of declaration. A field
  may be filled once; a name that no slot has is passed over.

  There are two readers over the same slots. `recordOf` fills a record from a
  value that has been read already, and its faults are causes without a place.
  `record` fills it while reading the document, so that the first fault in the
  document is the one that is reported, with its place.
-/

namespace PromptGateway.Json

/-! ## Values of a wanted type -/

/-- A string. -/
def Content.asText : Content → Except Cause String
  | .text s => .ok s
  | c => .error (.mismatch c.found "a string")

/-- A truth value. -/
def Content.asBoolean : Content → Except Cause Bool
  | .boolean b => .ok b
  | c => .error (.mismatch c.found "a boolean")

/-- An integer between two bounds. -/
def Content.asInteger (wanted : String) (low high : Int) : Content → Except Cause Int
  | .number (.integer n) =>
    if low ≤ n ∧ n ≤ high then .ok n else .error (.outOfRange n wanted)
  | c => .error (.mismatch c.found wanted)

/-- A natural number of 64 bits. -/
def Content.asUSize (c : Content) : Except Cause Nat :=
  Int.toNat <$> c.asInteger "usize" 0 (UInt64.size - 1)

/-- A natural number of 32 bits. -/
def Content.asUInt32 (c : Content) : Except Cause UInt32 :=
  (fun n => UInt32.ofNat n.toNat) <$> c.asInteger "u32" 0 (UInt32.size - 1)

/-- An integer of 32 bits. -/
def Content.asInt32 (c : Content) : Except Cause Int32 :=
  Int32.ofInt <$> c.asInteger "i32" Int32.minValue.toInt Int32.maxValue.toInt

/-- An integer of 64 bits. -/
def Content.asInt64 (c : Content) : Except Cause Int64 :=
  Int64.ofInt <$> c.asInteger "i64" Int64.minValue.toInt Int64.maxValue.toInt

/-- A 32 bit floating point number; an integer is rounded to one. -/
def Content.asFloat32 : Content → Except Cause (Number.Floating Number.binary32)
  | .number (.integer n) => .ok (.ofInt _ n)
  | .number (.float x) => .ok (x.convert _)
  | c => .error (.mismatch c.found "f32")

/-- A value that may be null. -/
def Content.asOptional (read : Content → Except Cause α) : Content → Except Cause (Option α)
  | .null => .ok none
  | c => some <$> read c

/-! ## Slots -/

/-- A field of a record under construction. `read` fills it from a source, and
`required` is whether a list has to reach it. -/
structure Slot (σ : Type) (ρ : Type) where
  name : String
  filled : σ → Bool
  read : σ → ρ
  required : Bool

/-- The slot that keeps the content it is given in a field of the record. -/
def Slot.keeping (name : String) (get : σ → Option α) (set : σ → α → σ)
    (convert : Content → Except Cause α) (required : Bool) :
    Slot σ (Content → Except Cause σ) :=
  ⟨name, fun s => (get s).isSome, fun s c => set s <$> convert c, required⟩

/-- The slot that keeps what its reader reads in a field of the record. -/
def Slot.reading (name : String) (get : σ → Option α) (set : σ → α → σ) (reader : Reader α) :
    Slot σ (Reader σ) :=
  ⟨name, fun s => (get s).isSome,
    fun s cs => do
      let (a, rest) ← reader cs
      .ok (set s a, rest),
    true⟩

/-- How a message counts the fields of a record. -/
def elements (n : Nat) : String := if n = 1 then "1 element" else s!"{n} elements"

/-- A field without which there is no record. -/
def require (name : String) : Option α → Except Cause α
  | none => .error (.missingField name)
  | some a => .ok a

/-! ## Records of values -/

/-- Fills slots from the members of an object. -/
def fillByName (slots : List (Slot σ (Content → Except Cause σ))) :
    σ → List (String × Content) → Except Cause σ
  | s, [] => .ok s
  | s, (key, c) :: rest =>
    match slots.find? (·.name == key) with
    | none => fillByName slots s rest
    | some slot =>
      if slot.filled s then .error (.duplicateField key)
      else do fillByName slots (← slot.read s c) rest

/-- Fills slots in order from the items of a list, after `n` slots that went before.
A list that ends too early is counted up to the slot it had to reach. -/
def fillByPosition (name : String) (count : Nat) :
    List (Slot σ (Content → Except Cause σ)) → Nat → σ → List Content → Except Cause σ
  | [], _, s, [] => .ok s
  | [], n, _, rest => .error (.wrongLength (n + rest.length) (elements n ++ " in sequence"))
  | slot :: slots, n, s, [] =>
    if slot.required then .error (.wrongLength n s!"struct {name} with {elements count}")
    else fillByPosition name count slots (n + 1) s []
  | slot :: slots, n, s, c :: rest => do
    fillByPosition name count slots (n + 1) (← slot.read s c) rest

/-- A record from a value. -/
def recordOf (name : String) (slots : List (Slot σ (Content → Except Cause σ))) (start : σ) :
    Content → Except Cause σ
  | .object ms => fillByName slots start ms
  | .list xs => fillByPosition name slots.length slots 0 start xs
  | c => .error (.mismatch c.found s!"struct {name}")

/-! ## Records of a document -/

/-- Reads a value without brackets and converts it. A bracket is refused where
it stands, any other value where it ends. -/
def scalar (convert : Content → Except Cause α) : Reader α := fun cs =>
  match skipSpace cs with
  | '[' :: rest => ((·, rest) <$> convert (.list [])).mapError (.here · ('[' :: rest))
  | '{' :: rest => ((·, rest) <$> convert (.object [])).mapError (.here · ('{' :: rest))
  | rest => do
    let (c, rest) ← value 0 rest
    ((·, rest) <$> convert c).mapError (.here · rest)

/-- Reads a list. -/
def sequence (item : Reader α) : Reader (List α) := fun cs =>
  match skipSpace cs with
  | '[' :: rest => items item rest
  | rest => scalar (fun c => .error (.mismatch c.found "a sequence")) rest

/-- Reads one member of a record. -/
def fieldByName (slots : List (Slot σ (Reader σ))) (s : σ) (key : String) : Reader σ := fun cs =>
  match slots.find? (·.name == key) with
  | none => do .ok (s, ← skipValue (← colon cs))
  | some slot =>
    if slot.filled s then .error (.here (.duplicateField key) (afterObject cs))
    else do slot.read s (← colon cs)

/-- The start of the next item of a list, none at the end of the list. -/
def nextItem (first : Bool) (cs : List Char) : Except Fault (Option (List Char)) :=
  match skipSpace cs with
  | [] => .error (.next (.endOfInput .list) [])
  | ']' :: _ => .ok none
  | ',' :: rest =>
    if first then .ok (some (',' :: rest))
    else match skipSpace rest with
      | [] => .error (.next (.endOfInput .value) [])
      | ']' :: rest => .error (.next .trailingComma (']' :: rest))
      | rest => .ok (some rest)
  | rest => if first then .ok (some rest) else .error (.next .expectedListEnd rest)

/-- Reads the end of a list that holds nothing more. -/
def listEnd (cs : List Char) : Except Fault (List Char) :=
  match skipSpace cs with
  | [] => .error (.next (.endOfInput .list) [])
  | ']' :: rest => .ok rest
  | ',' :: rest =>
    match skipSpace rest with
    | ']' :: rest => .error (.next .trailingComma (']' :: rest))
    | rest => .error (.next .trailingCharacters rest)
  | rest => .error (.next .trailingCharacters rest)

/-- Reads the fields of a record by position, of which `n` went before. -/
def fieldsByPosition (name : String) (count : Nat) : List (Slot σ (Reader σ)) → Nat → σ → Reader σ
  | [], _, s, cs => do .ok (s, ← listEnd cs)
  | slot :: slots, n, s, cs => do
    match ← nextItem (n == 0) cs with
    | none =>
      .error (.here (.wrongLength n s!"struct {name} with {elements count}") (afterList cs))
    | some cs => do
      let (s, rest) ← slot.read s cs
      fieldsByPosition name count slots (n + 1) s rest

/-- Reads a record. -/
def record (name : String) (slots : List (Slot σ (Reader σ))) (start : σ)
    (finish : σ → Except Cause α) : Reader α := fun cs =>
  let close : σ × List Char → Except Fault (α × List Char) := fun (s, rest) =>
    ((·, rest) <$> finish s).mapError (.here · rest)
  match skipSpace cs with
  | '{' :: rest => do close (← members (fieldByName slots) start rest)
  | '[' :: rest => do close (← fieldsByPosition name slots.length slots 0 start rest)
  | rest => scalar (fun c => .error (.mismatch c.found s!"struct {name}")) rest

end PromptGateway.Json
