/-
  Binary floating point, in exact arithmetic.

  A finite value of a format is m · 2^e with m below 2^precision and e between
  the two exponents of the format. `Format.nearest` takes a quotient of natural
  numbers to the value nearest to it, a tie to the even neighbour, and gives
  none where the quotient rounds beyond the largest finite value. Product,
  quotient and conversion are this one rounding of an exact result, so no
  machine arithmetic is involved anywhere. Powers are written `Nat.pow`, so that no
  instance has a say in what they mean.

  What is proved: `divEven_le` and `le_divEven`, the rounded quotient is never
  more than half a unit away; and `divEven_of_dvd`, an exact quotient is kept.
-/

namespace PromptGateway.Number

/-- How many binary digits a significand has, and which units it may count. -/
structure Format where
  precision : Nat
  /-- The exponent of the unit of the subnormal values. -/
  least : Int
  /-- The exponent of the unit of the largest finite values. -/
  greatest : Int
  deriving DecidableEq, Repr

/-- The 64 bit format. -/
def binary64 : Format := ⟨53, -1074, 971⟩

/-- The 32 bit format. -/
def binary32 : Format := ⟨24, -149, 104⟩

/-- The number `m · 2^e`. -/
structure Magnitude where
  m : Nat
  e : Int
  deriving DecidableEq, Repr

namespace Magnitude

/-- The numerator of the number as a quotient. -/
def num (x : Magnitude) : Nat := x.m * Nat.pow 2 x.e.toNat

/-- The denominator of the number as a quotient. -/
def den (x : Magnitude) : Nat := Nat.pow 2 (-x.e).toNat

end Magnitude

/-- The quotient to the nearest natural number, a tie to the even one. -/
def divEven (n d : Nat) : Nat :=
  let q := n / d
  let r := n % d
  if 2 * r < d then q
  else if d < 2 * r then q + 1
  else if q % 2 = 0 then q else q + 1

theorem divEven_of_dvd {n d : Nat} (hd : 0 < d) (h : n % d = 0) : divEven n d = n / d := by
  simp [divEven, h, hd]

/-- The rounded quotient is at most half a unit too large. -/
theorem divEven_le {n d : Nat} (hd : 0 < d) : 2 * (divEven n d * d) ≤ 2 * n + d := by
  have h := Nat.div_add_mod n d
  have hm := Nat.mod_lt n hd
  have hs : (n / d + 1) * d = n / d * d + d := Nat.succ_mul _ _
  rw [Nat.mul_comm] at h
  simp only [divEven]
  split
  · omega
  · split
    · omega
    · split <;> omega

/-- The rounded quotient is at most half a unit too small. -/
theorem le_divEven {n d : Nat} (hd : 0 < d) : 2 * n ≤ 2 * (divEven n d * d) + d := by
  have h := Nat.div_add_mod n d
  have hm := Nat.mod_lt n hd
  have hs : (n / d + 1) * d = n / d * d + d := Nat.succ_mul _ _
  rw [Nat.mul_comm] at h
  simp only [divEven]
  split
  · omega
  · split
    · omega
    · split <;> omega

namespace Format

/-- The quotient `num / den` counted in units of `2^e`, as a quotient again. -/
def scaled (num den : Nat) (e : Int) : Nat × Nat :=
  (num * Nat.pow 2 (-e).toNat, den * Nat.pow 2 e.toNat)

/-- The exponent of the unit in which `num / den` is rounded: the least one
whose count fits the precision, and never below the subnormal unit. -/
def unit (f : Format) (num den : Nat) : Int :=
  let guess := max f.least ((num.log2 : Int) - den.log2 - f.precision)
  let (n, d) := scaled num den guess
  if n / d < Nat.pow 2 f.precision then guess else guess + 1

/-- The value nearest to `num / den`, a tie to the even significand; none where
that lies beyond the largest finite value. -/
def nearest (f : Format) (num den : Nat) : Option Magnitude :=
  if num = 0 then some ⟨0, f.least⟩ else
  let e := f.unit num den
  let (n, d) := scaled num den e
  let m := divEven n d
  let rounded : Magnitude :=
    if m = Nat.pow 2 f.precision then ⟨Nat.pow 2 (f.precision - 1), e + 1⟩ else ⟨m, e⟩
  if rounded.e ≤ f.greatest then some rounded else none

end Format

/-- A floating point number: a sign and a magnitude, none being infinity. -/
structure Floating (f : Format) where
  negative : Bool
  magnitude : Option Magnitude
  deriving DecidableEq, Repr

namespace Floating

/-- Positive zero. -/
def zero (f : Format) : Floating f := ⟨false, some ⟨0, f.least⟩⟩

/-- The value nearest to an integer. -/
def ofInt (f : Format) (n : Int) : Floating f := ⟨n < 0, f.nearest n.natAbs 1⟩

/-- The nearest value of another format. -/
def convert {f : Format} (g : Format) (x : Floating f) : Floating g :=
  ⟨x.negative, x.magnitude.bind fun d => g.nearest d.num d.den⟩

end Floating

end PromptGateway.Number
