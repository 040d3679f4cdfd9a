import ManagedCalls.Signature.Decode
import Mathlib.Algebra.GroupWithZero.Nat

/-!
Writing signatures as blobs, the reverse of decoding them: numbers in their
narrowest width, arrays without bounds, and modifiers only where a signature
keeps them. Beside the bytes stand the number of types that a decoder counts
while it reads them, and which signatures the bytes tell apart.
-/

namespace ManagedCalls

def encodeUInt (n : Nat) : Bytes := (CompressedWidth.narrowest n).encode n

namespace Token

/-- The type table a token points into. -/
def typeTable? (t : Token) : Option TypeTable :=
  [TypeTable.typeDef, .typeRef, .typeSpec].find? fun table => table.tag == t.table

/-- The number a type token is written as: its row, and its table in the low two
bits. Other tokens have the code that no table has. -/
def compressed (t : Token) : Nat := t.row * 4 + ((t.typeTable?).map TypeTable.code).getD 3

def encode (t : Token) : Bytes := encodeUInt t.compressed

/-- Modifiers in front of a type. -/
def encodeModifiers (ts : List Token) : Bytes :=
  ts.flatMap fun t => ElementCode.requiredModifier :: t.encode

end Token

/-- The first byte of a method signature. -/
def MethodSig.convention (m : MethodSig) : UInt8 :=
  (if m.vararg then 0x05 else 0x00) ||| (if m.genericCount = 0 then 0x00 else 0x10) |||
    (if m.hasThis then 0x20 else 0x00) ||| (if m.explicitThis then 0x40 else 0x00)

/-- The element code that a type is written with. -/
def TypeSig.code : TypeSig → UInt8
  | .unknown => 0x00
  | .void => 0x01
  | .boolean => 0x02
  | .char => 0x03
  | .i1 => 0x04
  | .u1 => 0x05
  | .i2 => 0x06
  | .u2 => 0x07
  | .i4 => 0x08
  | .u4 => 0x09
  | .i8 => 0x0A
  | .u8 => 0x0B
  | .r4 => 0x0C
  | .r8 => 0x0D
  | .string => 0x0E
  | .pointer _ => ElementCode.pointer
  | .byRef _ => ElementCode.byRef
  | .valueType _ => ElementCode.valueType
  | .classType _ => ElementCode.classType
  | .typeParameter _ => ElementCode.typeParameter
  | .array _ _ => ElementCode.array
  | .genericInst _ _ => ElementCode.genericInst
  | .typedByRef => ElementCode.typedByRef
  | .nativeInt => 0x18
  | .nativeUInt => 0x19
  | .functionPointer _ => ElementCode.functionPointer
  | .object => 0x1C
  | .vector _ => ElementCode.vector
  | .methodParameter _ => ElementCode.methodParameter
  | .pinned _ => ElementCode.pinned

mutual

/-- A type is its element code and what the code asks for. -/
def TypeSig.encode : TypeSig → Bytes
  | .pointer t => ElementCode.pointer :: t.encode
  | .byRef t => ElementCode.byRef :: t.encode
  | .pinned t => ElementCode.pinned :: t.encode
  | .valueType token => ElementCode.valueType :: token.encode
  | .classType token => ElementCode.classType :: token.encode
  | .typeParameter n => ElementCode.typeParameter :: encodeUInt n
  | .methodParameter n => ElementCode.methodParameter :: encodeUInt n
  | .vector t => ElementCode.vector :: t.encode
  | .array t rank =>
    ElementCode.array :: (t.encode ++ encodeUInt rank ++ encodeUInt 0 ++ encodeUInt 0)
  | .genericInst g args =>
    ElementCode.genericInst :: (g.encode ++ encodeUInt args.length ++ TypeSig.encodeAll args)
  | .functionPointer m => ElementCode.functionPointer :: m.encode
  | t => [t.code]

def TypeSig.encodeAll : List TypeSig → Bytes
  | [] => []
  | t :: ts => t.encode ++ TypeSig.encodeAll ts

def Param.encode : Param → Bytes
  | ⟨modifiers, isByRef, type⟩ =>
    Token.encodeModifiers modifiers ++ (if isByRef then [ElementCode.byRef] else []) ++ type.encode

def Param.encodeAll : List Param → Bytes
  | [] => []
  | p :: ps => p.encode ++ Param.encodeAll ps

/-- A sentinel stands in front of the variable arguments if there are any. -/
def MethodSig.encode : MethodSig → Bytes
  | ⟨hasThis, explicitThis, vararg, genericCount, paramCount, returnType, params, varargs⟩ =>
    MethodSig.convention
        ⟨hasThis, explicitThis, vararg, genericCount, paramCount, returnType, params, varargs⟩ ::
      ((if genericCount = 0 then [] else encodeUInt genericCount) ++ encodeUInt paramCount ++
        returnType.encode ++ Param.encodeAll params ++
        (if varargs.isEmpty then [] else [ElementCode.sentinel]) ++ Param.encodeAll varargs)

end

mutual

def TypeSig.typeCount : TypeSig → Nat
  | .pointer t | .byRef t | .pinned t | .vector t | .array t _ => 1 + t.typeCount
  | .genericInst g args => 1 + g.typeCount + TypeSig.typeCountAll args
  | .functionPointer m => 1 + m.typeCount
  | _ => 1

def TypeSig.typeCountAll : List TypeSig → Nat
  | [] => 0
  | t :: ts => t.typeCount + TypeSig.typeCountAll ts

def Param.typeCount : Param → Nat
  | ⟨_, _, type⟩ => type.typeCount

def Param.typeCountAll : List Param → Nat
  | [] => 0
  | p :: ps => p.typeCount + Param.typeCountAll ps

def MethodSig.typeCount : MethodSig → Nat
  | ⟨_, _, _, _, _, returnType, params, varargs⟩ =>
    returnType.typeCount + Param.typeCountAll params + Param.typeCountAll varargs

end

namespace TypeSig

def isByRef : TypeSig → Bool
  | .byRef _ => true
  | _ => false

def isPinned : TypeSig → Bool
  | .pinned _ => true
  | _ => false

/-- A class or value type, which a generic instance starts with. -/
def isNamed : TypeSig → Bool
  | .valueType _ | .classType _ => true
  | _ => false

end TypeSig

mutual

/-- Numbers fit into compressed integers and tokens name types. A by-ref in front
of a parameter is its flag, so a type by reference needs the flag as well. -/
def TypeSig.isEncodable : TypeSig → Bool
  | .unknown => false
  | .pointer t | .byRef t | .pinned t | .vector t => t.isEncodable
  | .valueType token | .classType token => token.typeTable?.isSome
  | .typeParameter n | .methodParameter n => decide (n < 2 ^ 29)
  | .array t rank => t.isEncodable && decide (rank < 2 ^ 29)
  | .genericInst g args =>
    g.isNamed && g.isEncodable && decide (args.length < 2 ^ 29) && TypeSig.allEncodable args
  | .functionPointer m => m.isEncodable
  | _ => true

def TypeSig.allEncodable : List TypeSig → Bool
  | [] => true
  | t :: ts => t.isEncodable && TypeSig.allEncodable ts

def Param.isEncodable : Param → Bool
  | ⟨modifiers, isByRef, type⟩ =>
    modifiers.all (fun token => token.typeTable?.isSome) && (!type.isByRef || isByRef) &&
      type.isEncodable

def Param.allEncodable : List Param → Bool
  | [] => true
  | p :: ps => p.isEncodable && Param.allEncodable ps

/-- All announced parameters are there, and only the vararg convention has
variable ones. -/
def MethodSig.isEncodable : MethodSig → Bool
  | ⟨_, _, vararg, genericCount, paramCount, returnType, params, varargs⟩ =>
    decide (genericCount < 2 ^ 29) && decide (paramCount < 2 ^ 29) &&
      decide (params.length + varargs.length = paramCount) && (varargs.isEmpty || vararg) &&
      returnType.isEncodable && Param.allEncodable params && Param.allEncodable varargs

end

namespace LocalVar

/-- A typed reference with nothing in front of it. -/
def isPlainTypedRef (l : LocalVar) : Bool :=
  l.modifiers.isEmpty && !l.isByRef && !l.isPinned &&
    match l.type with
    | .typedByRef => true
    | _ => false

def encode (l : LocalVar) : Bytes :=
  Token.encodeModifiers l.modifiers ++ (if l.isPinned then [ElementCode.pinned] else []) ++
    (if l.isByRef then [ElementCode.byRef] else []) ++ l.type.encode

def typeCount (l : LocalVar) : Nat := if l.isPlainTypedRef then 0 else l.type.typeCount

/-- A pin in front of a local is its flag, but not behind a by-ref. -/
def isEncodable (l : LocalVar) : Bool :=
  l.modifiers.all (fun token => token.typeTable?.isSome) &&
    (!(l.type.isByRef || l.type.isPinned) || l.isByRef) && l.type.isEncodable

end LocalVar

namespace LocalsSig

def encode (ls : LocalsSig) : Bytes := 0x07 :: (encodeUInt ls.length ++ ls.flatMap LocalVar.encode)

def typeCount (ls : LocalsSig) : Nat := (ls.map LocalVar.typeCount).sum

def isEncodable (ls : LocalsSig) : Bool :=
  decide (ls.length < 2 ^ 29) && ls.all LocalVar.isEncodable

end LocalsSig

end ManagedCalls
