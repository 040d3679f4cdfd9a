import ManagedCalls.Value

/-!
Pool storage keeps the little-endian bytes of a type. Storing a value cuts it to
the width of the type, loading widens it again. A value is turned into eight
bytes, of which the storage keeps as many as it holds.
-/

namespace ManagedCalls.Storage

/-- The 64-bit word a value is stored as in a type, if the type can hold it. -/
def word? : TypeSig → Value → Option UInt64
  | .r4, v => v.toFloat64?.map fun bits =>
      UInt64.ofNat (BinaryFormat.convert .double .single bits.toNat)
  | .r8, v => v.toFloat64?
  | .boolean, v => v.toInt64?.map fun n => if n = 0 then 0 else 1
  | .nativeInt, v | .nativeUInt, v | .pointer _, v | .functionPointer _, v =>
    if v.isNull then some 0 else v.toInt64?.map Int64.toUInt64
  | .pinned held, v => word? held v
  | _, v => v.toInt64?.map Int64.toUInt64

def encode? (type : TypeSig) (v : Value) : Option Bytes :=
  (word? type v).map fun w => toLittleEndian 8 w.toNat

/-- The value that a stored word of a type stands for. -/
def ofWord : TypeSig → UInt64 → Value
  | .i1, w => .int32 w.toUInt8.toInt8.toInt32
  | .i2, w => .int32 w.toUInt16.toInt16.toInt32
  | .boolean, w | .u1, w => .int32 w.toUInt8.toUInt32.toInt32
  | .char, w | .u2, w => .int32 w.toUInt16.toUInt32.toInt32
  | .i4, w | .u4, w => .int32 w.toUInt32.toInt32
  | .i8, w | .u8, w => .int64 w.toInt64
  | .r4, w => .float32 w.toUInt32
  | .r8, w => .float64 w
  | .pinned held, w => ofWord held w
  | _, w => .native w.toInt64

def decode (type : TypeSig) (bytes : Bytes) : Value :=
  ofWord type (UInt64.ofNat (littleEndian (bytes.take 8)))

end ManagedCalls.Storage
