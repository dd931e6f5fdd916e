import PromptGateway.Number.Binary
import PromptGateway.Text.Hex
import PromptGateway.Toml.Node

/-
  Strings, numbers and moments of a TOML document.

  A reader takes the text that is left and gives what it read together with the
  text that is left then, or none. Nothing is said about what is wrong with a
  document that cannot be read.
-/

namespace PromptGateway.Toml

/-- Takes a value off the front of the text that is left. -/
abbrev Reader (α : Type) := List Char → Option (α × List Char)

/-! ## Characters -/

/-- A blank within a line. -/
def isSpace (c : Char) : Bool := c == ' ' || c == '\t'

/-- A character that may stand in a comment or a string: anything but a control
character, tabs excepted. -/
def isPrintable (c : Char) : Bool := c == '\t' || (0x20 ≤ c.toNat && c.toNat != 0x7F)

/-- The text after the blanks in front of it. -/
def skipSpace (cs : List Char) : List Char := cs.dropWhile isSpace

/-- The text after the end of a line in front of it. -/
def newline? : List Char → Option (List Char)
  | '\n' :: cs => some cs
  | '\r' :: '\n' :: cs => some cs
  | _ => none

/-- The text after the blanks and ends of lines in front of it. -/
def skipLines : List Char → List Char
  | '\r' :: '\n' :: cs => skipLines cs
  | c :: cs => if isSpace c || c == '\n' then skipLines cs else c :: cs
  | [] => []

/-- The text after a word. -/
def word? : List Char → List Char → Option (List Char)
  | [], cs => some cs
  | _ :: _, [] => none
  | w :: ws, c :: cs => if c = w then word? ws cs else none

/-! ## Strings -/

/-- The two kinds of strings: with escapes between double quotes, and without
between single ones. -/
inductive Quote where
  | double
  | single
  deriving DecidableEq, Repr

/-- The character that opens and closes a string. -/
def Quote.char : Quote → Char
  | double => '"'
  | single => '\''

/-- Reads a number of hexadecimal digits as a character. -/
def codePoint (digits : Nat) : Reader Char := fun cs =>
  if cs.length < digits then none
  else do
    let n ← Text.hexNumber (cs.take digits)
    if n.isValidChar then some (.ofNat n, cs.drop digits) else none

/-- Reads what follows a backslash. -/
def escape : Reader Char
  | 'b' :: cs => some ('\x08', cs)
  | 't' :: cs => some ('\t', cs)
  | 'n' :: cs => some ('\n', cs)
  | 'f' :: cs => some ('\x0c', cs)
  | 'r' :: cs => some ('\r', cs)
  | '"' :: cs => some ('"', cs)
  | '\\' :: cs => some ('\\', cs)
  | 'u' :: cs => codePoint 4 cs
  | 'U' :: cs => codePoint 8 cs
  | _ => none

/-- Reads the rest of a string on one line, `seen` being its characters so far,
last first. The fuel bounds the number of characters. -/
def lineRest (q : Quote) : Nat → List Char → Reader String
  | 0, _, _ => none
  | fuel + 1, seen, cs =>
    match cs with
    | [] => none
    | c :: rest =>
      if c = q.char then some (String.ofList seen.reverse, rest)
      else if c = '\\' ∧ q = .double then do
        let (x, rest) ← escape rest
        lineRest q fuel (x :: seen) rest
      else if isPrintable c then lineRest q fuel (c :: seen) rest
      else none

/-- Reads a string on one line from after its opening quote. -/
def lineText (q : Quote) : Reader String := fun cs => lineRest q (cs.length + 1) [] cs

/-- Reads the rest of a string of several lines. Three quotes end it, and up to
two more belong to it. A backslash at the end of a line takes with it all blanks
and ends of lines that follow. -/
def blockRest (q : Quote) : Nat → List Char → Reader String
  | 0, _, _ => none
  | fuel + 1, seen, cs =>
    match cs with
    | [] => none
    | c :: rest =>
      if cs.take 3 = [q.char, q.char, q.char] then
        let inner := ((cs.drop 3).takeWhile (· = q.char)).take 2
        some (String.ofList (seen.reverse ++ inner), cs.drop (3 + inner.length))
      else if c = '\\' ∧ q = .double then
        match newline? (skipSpace rest) with
        | some rest => blockRest q fuel seen (skipLines rest)
        | none => do
          let (x, rest) ← escape rest
          blockRest q fuel (x :: seen) rest
      else match newline? cs with
        | some rest => blockRest q fuel ('\n' :: seen) rest
        | none => if isPrintable c then blockRest q fuel (c :: seen) rest else none

/-- Reads a string of several lines from after its opening quotes. An end of line
right after them does not belong to it. -/
def blockText (q : Quote) : Reader String := fun cs =>
  let cs := (newline? cs).getD cs
  blockRest q (cs.length + 1) [] cs

/-- Reads a string from after its first quote. -/
def string (q : Quote) : Reader String := fun cs =>
  if cs.take 2 = [q.char, q.char] then blockText q (cs.drop 2) else lineText q cs

/-! ## Numbers -/

/-- Reads digits between which single underscores may stand, `seen` being those so
far, last first. An underscore that no digit follows is a fault. -/
def groupRest (isDigit : Char → Bool) : List Char → Reader (List Char)
  | seen, '_' :: d :: cs => if isDigit d then groupRest isDigit (d :: seen) cs else none
  | _, ['_'] => none
  | seen, c :: cs =>
    if isDigit c then groupRest isDigit (c :: seen) cs else some (seen.reverse, c :: cs)
  | seen, [] => some (seen.reverse, [])

/-- Reads one digit or more between which single underscores may stand. -/
def group (isDigit : Char → Bool) : Reader (List Char)
  | [] => none
  | c :: cs => if isDigit c then groupRest isDigit [c] cs else none

/-- Reads a sign, and whether it is a minus. -/
def sign : List Char → Bool × List Char
  | '-' :: cs => (true, cs)
  | '+' :: cs => (false, cs)
  | cs => (false, cs)

/-- Reads the digits of a whole number in decimal. Only the number zero begins with
one. -/
def wholeDigits : Reader (List Char)
  | '0' :: cs => some (['0'], cs)
  | cs => group Char.isDigit cs

/-- The integers of 64 bits. -/
def integerNode (n : Int) : Option Node :=
  if Int64.minValue.toInt ≤ n ∧ n ≤ Int64.maxValue.toInt then some (.integer n) else none

/-- Reads an integer in a base of two, eight or sixteen from after its prefix. -/
def basedInteger (isDigit : Char → Bool) (base : Nat) : Reader Node := fun cs => do
  let (ds, rest) ← group isDigit cs
  let n := ds.foldl (fun n d => base * n + (Text.hexValue d).getD 0) 0
  return (← integerNode n, rest)

/-- Reads an integer. -/
def integer : Reader Node
  | '0' :: 'x' :: cs => basedInteger (fun c => (Text.hexValue c).isSome) 16 cs
  | '0' :: 'o' :: cs => basedInteger (fun c => '0' ≤ c && c ≤ '7') 8 cs
  | '0' :: 'b' :: cs => basedInteger (fun c => c == '0' || c == '1') 2 cs
  | cs => do
    let (negative, cs) := sign cs
    let (ds, rest) ← wholeDigits cs
    let n : Int := Nat.ofDigitChars 10 ds 0
    return (← integerNode (if negative then -n else n), rest)

/-- Reads the digits after the point of a number, none if there is no point. -/
def fraction : Reader (List Char)
  | '.' :: cs => group Char.isDigit cs
  | cs => some ([], cs)

/-- Reads the exponent of a number, zero if there is none. -/
def exponent : Reader Int
  | [] => some (0, [])
  | c :: cs =>
    if c = 'e' ∨ c = 'E' then do
      let (negative, cs) := sign cs
      let (ds, rest) ← group Char.isDigit cs
      let n : Int := Nat.ofDigitChars 10 ds 0
      return (if negative then -n else n, rest)
    else some (0, c :: cs)

/-- Whether `digits · 10^e` rounds to a finite number of 64 bits. The number lies
between two powers of ten that its digits give away, so that a power of ten is
only computed where these do not decide. -/
def isFinite (digits : Nat) (e : Int) : Bool :=
  if digits = 0 then true
  else
    let top := (Nat.toDigits 10 digits).length + e
    if top ≤ 308 then true
    else if 310 ≤ top then false
    else (Number.binary64.nearest (digits * Nat.pow 10 e.toNat) (Nat.pow 10 (-e).toNat)).isSome

/-- Reads a floating point number: one with a point or an exponent, or one of the
two that are none. A positive number that is too large is refused, a negative one
is infinite. -/
def float : Reader Node := fun cs =>
  let (negative, cs) := sign cs
  match cs with
  | 'i' :: 'n' :: 'f' :: rest => some (.float, rest)
  | 'n' :: 'a' :: 'n' :: rest => some (.float, rest)
  | _ => do
    let (ds, afterWhole) ← wholeDigits cs
    let (fs, afterFraction) ← fraction afterWhole
    let (e, rest) ← exponent afterFraction
    if rest.length = afterWhole.length then none
    else if negative || isFinite (Nat.ofDigitChars 10 (ds ++ fs) 0) (e - fs.length) then
      some (.float, rest)
    else none

/-! ## Moments -/

/-- Reads a number of exactly so many digits that lies between two bounds. -/
def field (digits least greatest : Nat) : Reader Nat := fun cs =>
  let ds := cs.take digits
  if ds.length = digits && ds.all Char.isDigit then
    let n := Nat.ofDigitChars 10 ds 0
    if least ≤ n ∧ n ≤ greatest then some (n, cs.drop digits) else none
  else none

/-- The number of days of a month. -/
def daysOf (year month : Nat) : Nat :=
  if month = 2 then
    if year % 4 = 0 ∧ (year % 100 ≠ 0 ∨ year % 400 = 0) then 29 else 28
  else if month = 4 ∨ month = 6 ∨ month = 9 ∨ month = 11 then 30
  else 31

/-- Reads a date, and gives the text after it. -/
def date? (cs : List Char) : Option (List Char) := do
  let (year, cs) ← field 4 0 9999 cs
  let cs ← word? ['-'] cs
  let (month, cs) ← field 2 1 12 cs
  let cs ← word? ['-'] cs
  let (_, cs) ← field 2 1 (daysOf year month) cs
  return cs

/-- Reads a time of day, which may be a leap second and may have a fraction. -/
def time? (cs : List Char) : Option (List Char) := do
  let (_, cs) ← field 2 0 23 cs
  let cs ← word? [':'] cs
  let (_, cs) ← field 2 0 59 cs
  let cs ← word? [':'] cs
  let (_, cs) ← field 2 0 60 cs
  match cs with
  | '.' :: d :: rest => if d.isDigit then some (rest.dropWhile Char.isDigit) else none
  | ['.'] => none
  | cs => some cs

/-- Reads the distance from universal time, which may be missing. -/
def offset? : List Char → Option (List Char)
  | [] => some []
  | c :: cs =>
    if c = 'Z' ∨ c = 'z' then some cs
    else if c = '+' ∨ c = '-' then do
      let (_, cs) ← field 2 0 23 cs
      let cs ← word? [':'] cs
      let (_, cs) ← field 2 0 59 cs
      return cs
    else some (c :: cs)

/-- Reads a date, a time or both. -/
def moment : Reader Node := fun cs =>
  match date? cs with
  | none => (time? cs).map (.moment, ·)
  | some rest =>
    match rest with
    | [] => some (.moment, [])
    | c :: clock =>
      if c = 'T' ∨ c = 't' ∨ c = ' ' then
        match time? clock with
        | some rest => (offset? rest).map (.moment, ·)
        | none => some (.moment, c :: clock)
      else some (.moment, c :: clock)

/-- Reads a number or a moment. -/
def numeral : Reader Node := fun cs => (moment cs).or ((float cs).or (integer cs))

end PromptGateway.Toml
