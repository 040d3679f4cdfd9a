import ManagedCalls.Blob.Bytes

/-!
Binary floating-point numbers as bit patterns: sign, biased exponent and
fraction, with zeros and subnormals at the lowest exponent and infinities and
not-a-numbers at the highest. Everything is exact arithmetic on naturals; a
number that does not fit a format goes to the nearest one that does, a tie to
the even neighbour.
-/

namespace ManagedCalls

structure BinaryFormat where
  fractionBits : Nat
  exponentBits : Nat
  deriving DecidableEq

/-- What a bit pattern stands for. A finite number is
`significand * 2 ^ exponent` with its sign. -/
inductive FloatView where
  | nan
  | infinite (negative : Bool)
  | finite (negative : Bool) (significand : Nat) (exponent : Int)
  deriving DecidableEq

namespace BinaryFormat

def single : BinaryFormat := ⟨23, 8⟩

def double : BinaryFormat := ⟨52, 11⟩

/-- The exponent of the lowest bit of the smallest numbers. -/
def minExponent (f : BinaryFormat) : Int := 2 - 2 ^ (f.exponentBits - 1) - f.fractionBits

/-- The pattern of positive infinity; all larger patterns are not-a-numbers or
carry the sign. -/
def infinityBits (f : BinaryFormat) : Nat := (2 ^ f.exponentBits - 1) * 2 ^ f.fractionBits

def signBit (f : BinaryFormat) : Nat := 2 ^ (f.fractionBits + f.exponentBits)

def nanBits (f : BinaryFormat) : Nat := f.infinityBits + 2 ^ (f.fractionBits - 1)

def view (f : BinaryFormat) (bits : Nat) : FloatView :=
  let negative := bits / f.signBit % 2 == 1
  let magnitude := bits % f.signBit
  let fraction := magnitude % 2 ^ f.fractionBits
  let exponent := magnitude / 2 ^ f.fractionBits
  if magnitude > f.infinityBits then .nan
  else if magnitude = f.infinityBits then .infinite negative
  else if exponent = 0 then .finite negative fraction f.minExponent
  else .finite negative (2 ^ f.fractionBits + fraction) (f.minExponent + (exponent - 1))

/-- The whole number nearest to `n / 2 ^ shift`, a tie to the even one. -/
def roundShift (n shift : Nat) : Nat :=
  let down := n / 2 ^ shift
  let twice := 2 * (n % 2 ^ shift)
  if twice > 2 ^ shift || twice = 2 ^ shift && down % 2 = 1 then down + 1 else down

/-- The magnitude bits of the number nearest to `significand * 2 ^ exponent`. -/
def roundMagnitude (f : BinaryFormat) (significand : Nat) (exponent : Int) : Nat :=
  if significand = 0 then 0
  else
    let wanted := exponent + Nat.log2 significand - f.fractionBits
    let target := max wanted f.minExponent
    let kept :=
      if target ≤ exponent then significand * 2 ^ (exponent - target).toNat
      else roundShift significand (target - exponent).toNat
    min ((target - f.minExponent).toNat * 2 ^ f.fractionBits + kept) f.infinityBits

def ofView (f : BinaryFormat) : FloatView → Nat
  | .nan => f.nanBits
  | .infinite negative => f.infinityBits + if negative then f.signBit else 0
  | .finite negative significand exponent =>
    f.roundMagnitude significand exponent + if negative then f.signBit else 0

/-- The pattern in format `g` of the number with pattern `bits` in format `f`. -/
def convert (f g : BinaryFormat) (bits : Nat) : Nat := g.ofView (f.view bits)

/-- Numeric equality: the two zeros are equal, a not-a-number equals nothing. -/
def sameNumber (f : BinaryFormat) (a b : Nat) : Bool :=
  match f.view a, f.view b with
  | .nan, _ => false
  | _, .nan => false
  | .finite _ 0 _, .finite _ 0 _ => true
  | _, _ => a == b

end BinaryFormat

end ManagedCalls
