import PromptGateway.Toml.Scalar

/-
  TOML documents.

  A document is a sequence of lines: pairs of a key and a value, headers, comments
  and blank lines. `lines` reads them, and `parse` builds the tree: the pairs
  before the first header go into the root, and those after a header into the
  table that it opens.

  Lists and tables in braces are read by recursion on how many more brackets may
  be opened, with the reader of the values in them as a parameter.
-/

namespace PromptGateway.Toml

/-- How many brackets may be opened inside each other. -/
def maxDepth : Nat := 79

/-- How many parts a dotted key may have. -/
def maxKeyParts : Nat := 79

/-! ## Keys -/

/-- A character of a key without quotes. -/
def isKeyChar (c : Char) : Bool :=
  ('a' ≤ c && c ≤ 'z') || ('A' ≤ c && c ≤ 'Z') || c.isDigit || c == '-' || c == '_'

/-- Reads one part of a key, with the blanks around it. -/
def keyPart : Reader String := fun cs =>
  match skipSpace cs with
  | '"' :: rest => do
    let (s, rest) ← lineText .double rest
    return (s, skipSpace rest)
  | '\'' :: rest => do
    let (s, rest) ← lineText .single rest
    return (s, skipSpace rest)
  | cs =>
    let name := cs.takeWhile isKeyChar
    if name.isEmpty then none
    else some (String.ofList name, skipSpace (cs.drop name.length))

/-- Reads the parts of a key after the first one, `seen` being those so far, last
first. The fuel bounds their number. -/
def keyRest : Nat → List String → Reader (List String)
  | 0, _, _ => none
  | fuel + 1, seen, '.' :: cs => do
    let (s, rest) ← keyPart cs
    keyRest fuel (s :: seen) rest
  | _ + 1, seen, cs => some (seen.reverse, cs)

/-- Reads a dotted key as its path and its last part. -/
def dottedKey : Reader (List String × String) := fun cs => do
  let (s, rest) ← keyPart cs
  let (parts, rest) ← keyRest maxKeyParts [s] rest
  let key ← parts.getLast?
  return ((parts.dropLast, key), rest)

/-! ## Values -/

/-- The text after a comment in front of it. -/
def skipComment : List Char → List Char
  | '#' :: cs => cs.dropWhile isPrintable
  | cs => cs

/-- The text after the blanks, ends of lines and comments in front of it. The fuel
bounds the number of comments. -/
def skipFiller : Nat → List Char → List Char
  | 0, cs => cs
  | fuel + 1, cs =>
    match skipLines cs with
    | '#' :: rest => skipFiller fuel (skipComment ('#' :: rest))
    | rest => rest

/-- `skipFiller` with all the fuel it can use. -/
def skipAll (cs : List Char) : List Char := skipFiller (cs.length + 1) cs

/-- Reads the items of a list up to its closing bracket, `seen` being those so far,
last first. A comma may follow the last item. -/
def items (value : Reader Node) : Nat → List Node → Reader (List Node)
  | 0, _, _ => none
  | fuel + 1, seen, cs =>
    match skipAll cs with
    | ']' :: rest => some (seen.reverse, rest)
    | cs => do
      let (v, rest) ← value cs
      match skipAll rest with
      | ',' :: rest => items value fuel (v :: seen) rest
      | ']' :: rest => some ((v :: seen).reverse, rest)
      | _ => none

/-- Reads a key and its value. -/
def pair (value : Reader Node) : Reader Pair := fun cs => do
  let ((path, key), rest) ← dottedKey cs
  let rest ← word? ['='] rest
  let (v, rest) ← value (skipSpace rest)
  return (⟨path, key, v⟩, rest)

/-- Reads the pairs of a table in braces after the first one. No comma follows the
last of them. -/
def pairsRest (value : Reader Node) : Nat → List Pair → Reader (List Pair)
  | 0, _, _ => none
  | fuel + 1, seen, cs =>
    match skipSpace cs with
    | '}' :: rest => some (seen.reverse, rest)
    | ',' :: rest => do
      let (p, rest) ← pair value rest
      pairsRest value fuel (p :: seen) rest
    | _ => none

/-- Reads the pairs of a table in braces from after its opening brace. -/
def pairs (value : Reader Node) : Reader (List Pair) := fun cs =>
  match skipSpace cs with
  | '}' :: rest => some ([], rest)
  | cs => do
    let (p, rest) ← pair value cs
    pairsRest value (rest.length + 1) [p] rest

/-- Reads a value that opens at most `n` brackets inside each other. -/
def value (n : Nat) : Reader Node := fun cs =>
  match cs with
  | '"' :: rest => (string .double rest).map fun (s, rest) => (.text s, rest)
  | '\'' :: rest => (string .single rest).map fun (s, rest) => (.text s, rest)
  | '[' :: rest =>
    match n with
    | 0 => none
    | n + 1 => (items (value n) (rest.length + 1) [] rest).map fun (xs, rest) => (.list xs, rest)
  | '\x7b' :: rest =>
    match n with
    | 0 => none
    | n + 1 => do
      let (ps, rest) ← pairs (value n) rest
      return (.table .braces (← fill ps []), rest)
  | 't' :: rest => (word? ['r', 'u', 'e'] rest).map (.boolean true, ·)
  | 'f' :: rest => (word? ['a', 'l', 's', 'e'] rest).map (.boolean false, ·)
  | cs => numeral cs

/-! ## Lines -/

/-- What a line holds besides blanks and comments. -/
inductive Line where
  | pair (p : Pair)
  | header (h : Header)

/-- The text after the end of a line, before which only blanks and a comment may
stand. -/
def lineEnd? (cs : List Char) : Option (List Char) :=
  match skipComment (skipSpace cs) with
  | [] => some []
  | rest => newline? rest

/-- Reads a header from after its first bracket. -/
def header : Reader Header
  | '[' :: cs => do
    let ((path, key), rest) ← dottedKey cs
    let rest ← word? [']', ']'] rest
    return (⟨path, key, true⟩, rest)
  | cs => do
    let ((path, key), rest) ← dottedKey cs
    let rest ← word? [']'] rest
    return (⟨path, key, false⟩, rest)

/-- Reads what a line holds. -/
def line : Reader Line
  | '[' :: cs => (header cs).map fun (h, rest) => (.header h, rest)
  | cs => (pair (value maxDepth) cs).map fun (p, rest) => (.pair p, rest)

/-- Reads all lines, `seen` being those so far, last first. The fuel bounds their
number. -/
def linesRest : Nat → List Line → List Char → Option (List Line)
  | 0, _, _ => none
  | fuel + 1, seen, cs =>
    match skipSpace cs with
    | [] => some seen.reverse
    | c :: rest =>
      if c = '#' ∨ c = '\n' ∨ c = '\r' then do
        linesRest fuel seen (← lineEnd? (c :: rest))
      else do
        let (l, rest) ← line (c :: rest)
        linesRest fuel (l :: seen) (← lineEnd? rest)

/-- Reads all lines. -/
def lines (cs : List Char) : Option (List Line) := linesRest (cs.length + 1) [] cs

/-- The pairs before the first header, and every header with the pairs after it. -/
def blocks (ls : List Line) : List Pair × List (Header × List Pair) :=
  ls.foldr
    (fun l (first, rest) =>
      match l with
      | .pair p => (p :: first, rest)
      | .header h => ([], (h, first) :: rest))
    ([], [])

/-- The tree of a document. A byte order mark in front of it does not count. -/
def parse (document : String) : Option Entries := do
  let cs := document.toList
  let cs := if cs.head? = some '\uFEFF' then cs.tail else cs
  let (first, rest) := blocks (← lines cs)
  rest.foldlM (fun root (h, ps) => enter h ps root) (← fill first [])

end PromptGateway.Toml
