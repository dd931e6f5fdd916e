import PromptGateway.Number.Shortest

/-
  Numbers as text.

  A finite floating point number is written with the fewest digits that read
  back. It is written positionally while the exponent of its leading digit lies
  in the window of its `Layout`, and always with a point; outside that window it
  is written as `d.ddde±n`, without a point when there is one digit. An infinity
  has no numeral.
-/

namespace PromptGateway.Number

/-- The decimal digits of a natural number. -/
def natText (n : Nat) : List Char := Nat.toDigits 10 n

/-- An integer in decimal digits, a minus sign in front of a negative one. -/
def intText (n : Int) : List Char := if n < 0 then '-' :: natText n.natAbs else natText n.natAbs

/-- The exponents of the leading digit that are written positionally. -/
structure Layout where
  lowest : Int
  highest : Int

/-- Values of 64 bits are written positionally from 0.00001 up to 16 digits
before the point. -/
def layout64 : Layout := ⟨-5, 15⟩

/-- Values of 32 bits are written positionally from 0.000001 up to 13 digits
before the point. -/
def layout32 : Layout := ⟨-6, 12⟩

/-- A positive decimal with its point in place. -/
def positional (x : Decimal) : List Char :=
  let ds := natText x.digits
  if 0 ≤ x.exponent then ds ++ List.replicate x.exponent.toNat '0' ++ ['.', '0']
  else
    let places := (-x.exponent).toNat
    if places < ds.length then
      ds.take (ds.length - places) ++ ['.'] ++ ds.drop (ds.length - places)
    else ['0', '.'] ++ List.replicate (places - ds.length) '0' ++ ds

/-- A positive decimal with one digit before the point and an exponent. -/
def scientific (x : Decimal) : List Char :=
  let mantissa := match natText x.digits with
    | [] => []
    | [d] => [d]
    | d :: ds => d :: '.' :: ds
  let sign := if x.leading < 0 then ['-'] else ['+']
  mantissa ++ ['e'] ++ sign ++ natText x.leading.natAbs

/-- The numeral of a number, none for an infinity. -/
def Floating.text? {f : Format} (layout : Layout) (x : Floating f) : Option (List Char) :=
  x.magnitude.map fun d =>
    let short := shortest f d
    let body :=
      if d.m = 0 then ['0', '.', '0']
      else if layout.lowest ≤ short.leading ∧ short.leading ≤ layout.highest then positional short
      else scientific short
    if x.negative then '-' :: body else body

end PromptGateway.Number
