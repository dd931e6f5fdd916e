import PromptGateway.Number.Binary

/-
  The shortest decimal that reads back as a given binary value.

  The numbers that round to m · 2^e form an interval around it, which contains
  its ends exactly when m is even. Decimals of n digits stand on a grid, and if
  any point of the grid lies in the interval then one of the two neighbours of
  the value does. `digits` tries the grids of 1, 2, … digits and takes the first
  neighbour it finds inside, the nearer one when both are.
-/

namespace PromptGateway.Number

/-- The number `digits · 10^exponent`. -/
structure Decimal where
  digits : Nat
  exponent : Int
  deriving DecidableEq, Repr

namespace Decimal

/-- The exponent of the leading digit. -/
def leading (x : Decimal) : Int := ((Nat.toDigits 10 x.digits).length : Int) - 1 + x.exponent

/-- The same number with its trailing zeros taken off, at most `fuel` of them. -/
def strip : Nat → Decimal → Decimal
  | 0, x => x
  | fuel + 1, x =>
    if x.digits ≠ 0 ∧ x.digits % 10 = 0 then strip fuel ⟨x.digits / 10, x.exponent + 1⟩ else x

end Decimal

/-- The interval of numbers that round to a value, in quarters of its unit. -/
structure Interval where
  low : Nat
  value : Nat
  high : Nat
  /-- The exponent of a quarter unit. -/
  e : Int
  closed : Bool

namespace Interval

/-- What rounds to `x`. The neighbour below the least significand of a binade
is only half a unit away, so its midpoint is a quarter unit below. -/
def around (f : Format) (x : Magnitude) : Interval :=
  let narrow := x.m = Nat.pow 2 (f.precision - 1) ∧ f.least < x.e
  { low := if narrow then 4 * x.m - 1 else 4 * x.m - 2
    value := 4 * x.m
    high := 4 * x.m + 2
    e := x.e - 2
    closed := x.m % 2 = 0 }

/-- A decimal in quarter units times a common factor, and that factor. -/
def place (i : Interval) (x : Decimal) : Nat × Nat :=
  (x.digits * Nat.pow 10 x.exponent.toNat * Nat.pow 2 (-i.e).toNat,
    Nat.pow 10 (-x.exponent).toNat * Nat.pow 2 i.e.toNat)

/-- Whether a decimal lies in the interval. -/
def contains (i : Interval) (x : Decimal) : Bool :=
  let (p, unit) := i.place x
  if i.closed then i.low * unit ≤ p ∧ p ≤ i.high * unit
  else i.low * unit < p ∧ p < i.high * unit

/-- How far a decimal is from the value, in units of a common factor. -/
def distance (i : Interval) (x : Decimal) : Nat :=
  let (p, unit) := i.place x
  if p ≤ i.value * unit then i.value * unit - p else p - i.value * unit

end Interval

/-- The exponent of the leading decimal digit of a positive value: the number
of digits of its integral part, after a shift that makes every value large. -/
def leadingExponent (x : Magnitude) : Int :=
  ((Nat.toDigits 10 (x.num * Nat.pow 10 350 / x.den)).length : Int) - 1 - 350

/-- The neighbour of a value on the grid of decimals whose last digit stands at
`exponent`, if one of the two lies in the interval; the nearer one, and of two
equally near ones the one with an even last digit. -/
def onGrid (i : Interval) (x : Magnitude) (exponent : Int) : Option Decimal :=
  let below := x.num * Nat.pow 10 (-exponent).toNat / (x.den * Nat.pow 10 exponent.toNat)
  let lower : Decimal := ⟨below, exponent⟩
  let upper : Decimal := ⟨below + 1, exponent⟩
  match i.contains lower, i.contains upper with
  | false, false => none
  | true, false => some lower
  | false, true => some upper
  | true, true =>
    let l := i.distance lower
    let u := i.distance upper
    if l < u ∨ (l = u ∧ below % 2 = 0) then some lower else some upper

/-- The first grid, of `n` digits and then more, on which a neighbour of the
value rounds to it. -/
def search (i : Interval) (x : Magnitude) (lead : Int) : Nat → Int → Decimal
  | 0, _ => ⟨x.num / x.den, 0⟩
  | fuel + 1, n => (onGrid i x (lead - n)).getD (search i x lead fuel (n + 1))

/-- The shortest decimal that rounds to a value of the format; 0 for zero. -/
def shortest (f : Format) (x : Magnitude) : Decimal :=
  if x.m = 0 then ⟨0, 0⟩
  else (search (.around f x) x (leadingExponent x) 20 0).strip 20

end PromptGateway.Number
