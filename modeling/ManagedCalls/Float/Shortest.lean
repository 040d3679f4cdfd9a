import ManagedCalls.Float.Binary

/-!
The shortest decimal for a binary number: the fewest digits that still lie in
the interval of reals rounding to the number, and of those the nearest, a tie
going up. Lengths are tried from one digit on; at each length only the two
decimals next to the number can be in the interval if any is.
-/

namespace ManagedCalls

/-- The number `digits * 10 ^ exponent`. -/
structure Decimal where
  digits : Nat
  exponent : Int
  deriving DecidableEq

namespace Decimal

def digitCount (n : Nat) : Nat := (Nat.toDigits 10 n).length

/-- Takes trailing zeros off the digits, at most `fuel` of them. -/
def strip : Nat → Decimal → Decimal
  | 0, d => d
  | fuel + 1, d =>
    if d.digits ≠ 0 ∧ d.digits % 10 = 0 then strip fuel ⟨d.digits / 10, d.exponent + 1⟩ else d

end Decimal

/-- A positive number `quarters * 2 ^ exponent` and the interval of reals that
round to it, in the same unit. -/
structure RoundingInterval where
  low : Nat
  quarters : Nat
  high : Nat
  exponent : Int
  closed : Bool

namespace RoundingInterval

/-- The interval of a significand: half a unit to each side, but only a quarter
below a power of two, where the numbers lie closer. Its ends round to an even
significand only. -/
def ofSignificand (f : BinaryFormat) (significand : Nat) (exponent : Int) : RoundingInterval :=
  let narrow := significand = 2 ^ f.fractionBits ∧ exponent > f.minExponent
  { low := 4 * significand - if narrow then 1 else 2
    quarters := 4 * significand
    high := 4 * significand + 2
    exponent := exponent - 2
    closed := significand % 2 = 0 }

/-- The `k` with `10 ^ (k - 1) ≤ number < 10 ^ k`. -/
def magnitude (r : RoundingInterval) : Int :=
  let top := r.quarters * 2 ^ r.exponent.toNat
  let bottom := 2 ^ (-r.exponent).toNat
  if bottom ≤ top then Decimal.digitCount (top / bottom)
  else 1 - (Decimal.digitCount ((bottom - 1) / top) : Int)

/-- The multiple of `10 ^ unit` in the interval, if one next to the number is. -/
def onGrid (r : RoundingInterval) (unit : Int) : Option Nat :=
  let scale := 2 ^ r.exponent.toNat * 10 ^ (-unit).toNat
  let step := 2 ^ (-r.exponent).toNat * 10 ^ unit.toNat
  let value := r.quarters * scale
  let down := value / step
  let inside (c : Nat) : Bool :=
    if r.closed then r.low * scale ≤ c * step && c * step ≤ r.high * scale
    else r.low * scale < c * step && c * step < r.high * scale
  let downIn := inside down
  let upIn := inside (down + 1)
  if upIn && (!downIn || 2 * (value % step) ≥ step) then some (down + 1)
  else if downIn then some down
  else none

/-- Tries grids of more and more digits. -/
def search (r : RoundingInterval) (k : Int) : Nat → Nat → Decimal
  | 0, n => ⟨(r.onGrid (k - n)).getD 0, k - n⟩
  | fuel + 1, n =>
    match r.onGrid (k - n) with
    | some c => ⟨c, k - n⟩
    | none => search r k fuel (n + 1)

end RoundingInterval

/-- The shortest decimal of a positive number. Seventeen digits always do. -/
def Decimal.shortest (f : BinaryFormat) (significand : Nat) (exponent : Int) : Decimal :=
  let r := RoundingInterval.ofSignificand f significand exponent
  Decimal.strip 18 (r.search r.magnitude 17 1)

end ManagedCalls
