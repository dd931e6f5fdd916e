import PromptGateway.Text.Split

/-
  Names of hosts that a name server can be asked about.

  A name is made of labels with points between them, and there may be a point behind
  the last one. A backslash takes the character after it into a label as it is, and
  before three digits it stands for the character with that code. A label has from 1 to
  63 letters, digits, hyphens and underscores. In a question every label follows its
  length and an empty one comes last, and all that fits into 255 bytes. A name does not
  begin with a hyphen, which would look like an option.
-/

namespace PromptGateway.HostName

/-- A part of a written name: the point between labels, or a character of a label by
its code. -/
inductive Piece where
  | point
  | inner (code : Nat)
  deriving DecidableEq, Repr

/-- The character that three digits stand for. -/
def ofDigits? (a b c : Char) : Option Piece :=
  let n := Nat.ofDigitChars 10 [a, b, c] 0
  if [a, b, c].all Char.isDigit && n ≤ 255 then some (.inner n) else none

/-- The pieces of a written name. -/
def pieces? : List Char → Option (List Piece)
  | [] => some []
  | ['\\'] => none
  | '\\' :: a :: b :: c :: cs =>
    if a.isDigit then do return (← ofDigits? a b c) :: (← pieces? cs)
    else (pieces? (b :: c :: cs)).map (.inner a.toNat :: ·)
  | '\\' :: a :: cs =>
    if a.isDigit then none else (pieces? cs).map (.inner a.toNat :: ·)
  | '.' :: cs => (pieces? cs).map (.point :: ·)
  | c :: cs => (pieces? cs).map (.inner c.toNat :: ·)

/-- The labels of a name. The point behind the last one ends no further label. -/
def labels (ps : List Piece) : List (List Piece) :=
  let body := if ps.getLast? = some .point then ps.dropLast else ps
  if body.isEmpty then [] else Text.split .point body

/-- A letter, digit, hyphen or underscore. -/
def isLabelPiece : Piece → Bool
  | .point => false
  | .inner n =>
    let c := Char.ofNat n
    c.isAlphanum || c == '-' || c == '_'

/-- Whether a label is neither empty nor too long, and of the characters of a label. -/
def isLabel (l : List Piece) : Bool := !l.isEmpty && l.length ≤ 63 && l.all isLabelPiece

/-- The length of a name in a question: each label with its length before it, and the
empty one at the end. -/
def questionLength (ls : List (List Piece)) : Nat :=
  ls.foldr (fun l n => l.length + 1 + n) 1

/-- Whether a name server can be asked about labels. -/
def areAskable (ls : List (List Piece)) : Bool :=
  ls.all isLabel && questionLength ls ≤ 255 &&
    (ls.head?.bind List.head?) != some (.inner '-'.toNat)

/-- Whether a name server can be asked about a text. -/
def isAskable (cs : List Char) : Bool :=
  cs.all (fun c => '!' ≤ c && c ≤ '~') &&
    match pieces? cs with
    | none => false
    | some ps => areAskable (labels ps)

end PromptGateway.HostName
