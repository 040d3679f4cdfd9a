import ManagedCalls.Signature
import ManagedCalls.Float.Text

/-!
Values on the operand stack. Narrow integers are widened to 32 bits; floating
point values are bit patterns; object references are opaque numbers.
-/

namespace ManagedCalls

inductive Value where
  | int32 (v : Int32)
  | int64 (v : Int64)
  | native (v : Int64)
  | float32 (bits : UInt32)
  | float64 (bits : UInt64)
  | object (reference : UInt64)
  | null
  deriving DecidableEq

namespace Value

/-- The zero of a type's storage; types without storage have `null`. -/
def zero : TypeSig → Value
  | .boolean | .char | .i1 | .u1 | .i2 | .u2 | .i4 | .u4 => int32 0
  | .i8 | .u8 => int64 0
  | .nativeInt | .nativeUInt | .pointer _ | .functionPointer _ => native 0
  | .r4 => float32 0
  | .r8 => float64 0
  | .pinned held => zero held
  | _ => null

/-- The number of an integral value. -/
def toInt64? : Value → Option Int64
  | int32 v => some v.toInt64
  | int64 v => some v
  | native v => some v
  | _ => none

/-- The double-precision pattern of a floating-point value. -/
def toFloat64? : Value → Option UInt64
  | float32 bits =>
    some (UInt64.ofNat (BinaryFormat.convert .single .double bits.toNat))
  | float64 bits => some bits
  | _ => none

def isNull : Value → Bool
  | null => true
  | _ => false

/-- Equality of values as a program sees it; for floating point it is numeric. -/
def same : Value → Value → Bool
  | float32 a, float32 b => BinaryFormat.single.sameNumber a.toNat b.toNat
  | float64 a, float64 b => BinaryFormat.double.sameNumber a.toNat b.toNat
  | a, b => a == b

def float32Text (layout : FloatLayout) (bits : UInt32) : String :=
  layout.render (BinaryFormat.single.view bits.toNat) .single

def float64Text (layout : FloatLayout) (bits : UInt64) : String :=
  layout.render (BinaryFormat.double.view bits.toNat) .double

/-- The short text of a value, with a mark for its kind. -/
def display : Value → String
  | int32 v => toString v.toInt
  | int64 v => toString v.toInt ++ "L"
  | native v => "0x" ++ Shown.hex 1 v.toUInt64.toNat ++ "n"
  | float32 bits => float32Text .plain bits ++ "f"
  | float64 bits => float64Text .plain bits ++ "d"
  | object r => "obj@" ++ toString r.toNat
  | null => "null"

/-- The structured text of a value, as it stands in messages. -/
def shown : Value → String
  | int32 v => Shown.tuple "I32" [toString v.toInt]
  | int64 v => Shown.tuple "I64" [toString v.toInt]
  | native v => Shown.tuple "NativeInt" [toString v.toInt]
  | float32 bits => Shown.tuple "F32" [float32Text .marked bits]
  | float64 bits => Shown.tuple "F64" [float64Text .marked bits]
  | object r => Shown.tuple "ObjectRef" [toString r.toNat]
  | null => "Null"

end Value

end ManagedCalls
