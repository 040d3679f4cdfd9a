import ManagedCalls.Signature

/-!
The one-line text of types and signatures, as it stands in messages.
-/

namespace ManagedCalls

mutual

def TypeSig.shown : TypeSig → String
  | .unknown => "Unknown"
  | .void => "Void"
  | .boolean => "Boolean"
  | .char => "Char"
  | .i1 => "I1"
  | .u1 => "U1"
  | .i2 => "I2"
  | .u2 => "U2"
  | .i4 => "I4"
  | .u4 => "U4"
  | .i8 => "I8"
  | .u8 => "U8"
  | .r4 => "R4"
  | .r8 => "R8"
  | .nativeInt => "I"
  | .nativeUInt => "U"
  | .string => "String"
  | .object => "Object"
  | .typedByRef => "TypedByRef"
  | .pointer t => Shown.tuple "Ptr" [t.shown]
  | .byRef t => Shown.tuple "ByRef" [t.shown]
  | .pinned t => Shown.tuple "Pinned" [t.shown]
  | .valueType token => Shown.tuple "ValueType" [token.shown]
  | .classType token => Shown.tuple "Class" [token.shown]
  | .typeParameter n => Shown.tuple "GenericParamType" [toString n]
  | .methodParameter n => Shown.tuple "GenericParamMethod" [toString n]
  | .vector t => Shown.tuple "SzArray" [t.shown]
  | .array t rank => Shown.record "Array" [("base", t.shown), ("rank", toString rank)]
  | .genericInst g args =>
    Shown.tuple "GenericInst" [g.shown, Shown.list (TypeSig.shownAll args)]
  | .functionPointer m => Shown.tuple "FnPtr" [m.shown]

def TypeSig.shownAll : List TypeSig → List String
  | [] => []
  | t :: ts => t.shown :: TypeSig.shownAll ts

def Param.shown : Param → String
  | ⟨modifiers, isByRef, type⟩ =>
    Shown.record "SignatureParameter"
      [("modifiers", Shown.list (modifiers.map Token.shown)), ("by_ref", Shown.bool isByRef),
        ("base", type.shown)]

def Param.shownAll : List Param → List String
  | [] => []
  | p :: ps => p.shown :: Param.shownAll ps

def MethodSig.shown : MethodSig → String
  | ⟨hasThis, explicitThis, vararg, genericCount, paramCount, returnType, params, varargs⟩ =>
    Shown.record "SignatureMethod"
      [("has_this", Shown.bool hasThis), ("explicit_this", Shown.bool explicitThis),
        ("vararg", Shown.bool vararg), ("param_count_generic", toString genericCount),
        ("param_count", toString paramCount), ("return_type", returnType.shown),
        ("params", Shown.list (Param.shownAll params)),
        ("varargs", Shown.list (Param.shownAll varargs))]

end

end ManagedCalls
