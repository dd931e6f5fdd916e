import PromptGateway.Json.Fault

/-
  Numbers in a JSON document.

  The digits of a numeral, those after the point included, are gathered into a
  significand that fits 64 bits; digits that no longer fit are dropped, and the
  power of ten makes up for those dropped before the point. The value is the
  significand, rounded, times or divided by that power of ten, rounded: with a
  power of at most 308 there are these two roundings and no others. A value
  beyond the largest finite one is refused.
-/

namespace PromptGateway.Json

open PromptGateway.Number (Magnitude binary64)

/-- The largest significand. -/
def maxSignificand : Nat := UInt64.size - 1

/-- The largest power of ten that is applied in one step. -/
def maxPower : Nat := 308

/-- The value of a decimal digit. -/
def digitValue (c : Char) : Nat := c.toNat - '0'.toNat

/-- A significand continued by digits as long as it fits, and the digits that
are left over from the first one that does not. -/
def absorb : Nat → List Char → Nat × List Char
  | n, [] => (n, [])
  | n, d :: ds =>
    let m := 10 * n + digitValue d
    if m ≤ maxSignificand then absorb m ds else (n, d :: ds)

/-- Division by powers of ten until the exponent is at most the largest power
or nothing is left. Without fuel the value is zero: each step but the last
divides by the largest power. -/
def shrink : Nat → Magnitude → Int → Option Magnitude
  | 0, _, _ => some ⟨0, binary64.least⟩
  | fuel + 1, x, exponent =>
    if x.m = 0 then some x
    else
      let step := min exponent.natAbs maxPower
      (binary64.nearest (Nat.pow 10 step) 1).bind fun p =>
        (binary64.nearest (x.num * p.den) (x.den * p.num)).bind fun y =>
          if exponent.natAbs ≤ maxPower then some y else shrink fuel y (exponent + step)

/-- `significand · 10^exponent`, none beyond the largest finite value. -/
def magnitude (significand : Nat) (exponent : Int) : Option Magnitude :=
  (binary64.nearest significand 1).bind fun x =>
    if exponent < 0 then shrink 4 x exponent
    else if exponent.natAbs ≤ maxPower then
      (binary64.nearest (Nat.pow 10 exponent.natAbs) 1).bind fun p =>
        binary64.nearest (x.num * p.num) (x.den * p.den)
    else if x.m = 0 then some x else none

/-- A numeral without point and exponent: an integer if 64 bits hold it. The
negative zero is a floating point number, as are the negative integers that 64
bits with a sign cannot hold. -/
def wholeNumeral (negative : Bool) (n : Nat) : Numeral :=
  if !negative then .integer n
  else if 1 ≤ n ∧ Int64.minValue.toInt ≤ -(n : Int) then .integer (-(n : Int))
  else .float ⟨true, binary64.nearest n 1⟩

/-- The exponent part of a numeral: its digits as a number, or the place after
the digit with which it leaves 31 bits. -/
inductive ExponentPart where
  | fits (value : Nat) (rest : List Char)
  | tooLarge (rest : List Char)

/-- Reads the digits of an exponent. -/
def exponentDigits : Nat → List Char → ExponentPart
  | n, [] => .fits n []
  | n, c :: cs =>
    if c.isDigit then
      let m := 10 * n + digitValue c
      if m ≤ Int32.maxValue.toInt then exponentDigits m cs else .tooLarge cs
    else .fits n (c :: cs)

/-- A sum of exponents, held in 32 bits with a sign. -/
def clampExponent (e : Int) : Int := max Int32.minValue.toInt (min Int32.maxValue.toInt e)

/-- The floating point numeral of given parts, which end where `rest` begins. -/
def finish (negative : Bool) (significand : Nat) (exponent : Int) (rest : List Char) :
    Except Fault (Numeral × List Char) :=
  match magnitude significand exponent with
  | some x => .ok (.float ⟨negative, some x⟩, rest)
  | none => .error (.here .numberOutOfRange rest)

/-- Reads what follows the `e` of a numeral. -/
def exponentPart (negative : Bool) (significand : Nat) (exponent : Int) (cs : List Char) :
    Except Fault (Numeral × List Char) :=
  let (down, ds) := match cs with
    | '+' :: r => (false, r)
    | '-' :: r => (true, r)
    | _ => (false, cs)
  match ds with
  | [] => .error (.here (.endOfInput .value) [])
  | d :: _ =>
    if !d.isDigit then .error (.next .invalidNumber ds)
    else match exponentDigits 0 ds with
      | .fits e rest =>
        finish negative significand
          (clampExponent (if down then exponent - e else exponent + e)) rest
      | .tooLarge rest =>
        if significand ≠ 0 ∧ !down then .error (.here .numberOutOfRange rest)
        else .ok (.float ⟨negative, some ⟨0, binary64.least⟩⟩, rest.dropWhile Char.isDigit)

/-- Reads what follows the point of a numeral: at least one digit, and perhaps
an exponent. -/
def fractionPart (negative : Bool) (significand : Nat) (exponent : Int) (cs : List Char) :
    Except Fault (Numeral × List Char) :=
  let ds := cs.takeWhile Char.isDigit
  let rest := cs.dropWhile Char.isDigit
  if ds.isEmpty then
    .error (.next (if cs.isEmpty then .endOfInput .value else .invalidNumber) cs)
  else
    let (n, left) := absorb significand ds
    let e := exponent - (ds.length - left.length : Nat)
    match rest with
    | 'e' :: r | 'E' :: r => exponentPart negative n e r
    | _ => finish negative n e rest

/-- Reads what follows the integral digits of a numeral. -/
def afterDigits (negative : Bool) (ds rest : List Char) : Except Fault (Numeral × List Char) :=
  let (n, left) := absorb 0 ds
  match rest with
  | '.' :: r => fractionPart negative n left.length r
  | 'e' :: r | 'E' :: r => exponentPart negative n left.length r
  | _ =>
    if left.isEmpty then .ok (wholeNumeral negative n, rest)
    else finish negative n left.length rest

/-- Reads a numeral from after its sign. A leading zero stands alone. -/
def numeral (negative : Bool) (cs : List Char) : Except Fault (Numeral × List Char) :=
  match cs with
  | [] => .error (.here (.endOfInput .value) [])
  | '0' :: r =>
    match r with
    | d :: _ => if d.isDigit then .error (.next .invalidNumber r) else afterDigits negative ['0'] r
    | [] => afterDigits negative ['0'] r
  | d :: _ =>
    if d.isDigit then afterDigits negative (cs.takeWhile Char.isDigit) (cs.dropWhile Char.isDigit)
    else .error (.next .invalidNumber cs)

end PromptGateway.Json
