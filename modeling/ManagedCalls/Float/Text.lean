import ManagedCalls.Float.Shortest

/-!
The text of a floating-point number: its shortest decimal, written positionally
or with an exponent.
-/

namespace ManagedCalls

/-- How the digits are laid out. -/
structure FloatLayout where
  /-- Whole numbers end in a point and a zero. -/
  marksWhole : Bool
  /-- Very large and very small numbers are written with an exponent. -/
  usesExponent : Bool

namespace FloatLayout

/-- All digits positionally, whole numbers bare. -/
def plain : FloatLayout := ⟨false, false⟩

/-- Always recognisable as a floating-point number: a point or an exponent. Positional
from `0.0001` up to below `10 ^ 16`. -/
def marked : FloatLayout := ⟨true, true⟩

def zeros (n : Nat) : String := String.ofList (List.replicate n '0')

def positional (layout : FloatLayout) (d : Decimal) : String :=
  let digits := toString d.digits
  let point : Int := digits.length + d.exponent
  if point ≤ 0 then "0." ++ zeros (-point).toNat ++ digits
  else if d.exponent < 0 then
    (digits.take point.toNat).toString ++ "." ++ (digits.drop point.toNat).toString
  else digits ++ zeros d.exponent.toNat ++ if layout.marksWhole then ".0" else ""

def scientific (d : Decimal) : String :=
  let digits := toString d.digits
  let tail := if digits.length = 1 then "" else "." ++ (digits.drop 1).toString
  (digits.take 1).toString ++ tail ++ "e" ++ toString (digits.length + d.exponent - 1)

def decimal (layout : FloatLayout) (d : Decimal) : String :=
  let point : Int := (toString d.digits).length + d.exponent
  if layout.usesExponent ∧ (point < -3 ∨ point > 16) then scientific d else layout.positional d

def render (layout : FloatLayout) : FloatView → BinaryFormat → String
  | .nan, _ => "NaN"
  | .infinite negative, _ => if negative then "-inf" else "inf"
  | .finite negative significand exponent, f =>
    (if negative then "-" else "") ++
      if significand = 0 then (if layout.marksWhole then "0.0" else "0")
      else layout.decimal (Decimal.shortest f significand exponent)

end FloatLayout

end ManagedCalls
