import ManagedCalls.Token

/-!
Signatures: the types of values, of parameters and of local variables. A type
has a static size exactly when values of it can be kept in pool storage.
-/

namespace ManagedCalls

mutual

/-- The type of a value, parameter or local. -/
inductive TypeSig where
  | unknown
  | void
  | boolean
  | char
  | i1
  | u1
  | i2
  | u2
  | i4
  | u4
  | i8
  | u8
  | r4
  | r8
  | nativeInt
  | nativeUInt
  | string
  | object
  | typedByRef
  | pointer (target : TypeSig)
  | byRef (target : TypeSig)
  | pinned (held : TypeSig)
  | valueType (token : Token)
  | classType (token : Token)
  | typeParameter (index : Nat)
  | methodParameter (index : Nat)
  | vector (element : TypeSig)
  | array (element : TypeSig) (rank : Nat)
  | genericInst (generic : TypeSig) (arguments : List TypeSig)
  | functionPointer (signature : MethodSig)

/-- A parameter or return type, with its custom modifiers. -/
structure Param where
  modifiers : List Token
  isByRef : Bool
  type : TypeSig

/-- A method signature. `paramCount` is the announced number of parameters; the
fixed ones are in `params`, those after the sentinel in `varargs`. -/
structure MethodSig where
  hasThis : Bool
  explicitThis : Bool
  vararg : Bool
  genericCount : Nat
  paramCount : Nat
  returnType : Param
  params : List Param
  varargs : List Param

end

structure LocalVar where
  modifiers : List Token
  isByRef : Bool
  isPinned : Bool
  type : TypeSig

abbrev LocalsSig := List LocalVar

namespace TypeSig

/-- The bytes a value of the type takes, where the type alone tells. -/
def staticSize : TypeSig → Option Nat
  | boolean | i1 | u1 => some 1
  | char | i2 | u2 => some 2
  | i4 | u4 | r4 => some 4
  | i8 | u8 | r8 => some 8
  | nativeInt | nativeUInt | pointer _ | functionPointer _ => some 8
  | pinned held => held.staticSize
  | _ => none

def isFloatingPoint : TypeSig → Bool
  | r4 | r8 => true
  | pinned held => held.isFloatingPoint
  | _ => false

def isSigned : TypeSig → Bool
  | i1 | i2 | i4 | i8 | nativeInt => true
  | pinned held => held.isSigned
  | _ => false

end TypeSig

/-- A parameter by reference is a managed pointer and has no static size. -/
def Param.staticSize (p : Param) : Option Nat :=
  if p.isByRef then none else p.type.staticSize

def LocalVar.staticSize (l : LocalVar) : Option Nat :=
  if l.isByRef then none else l.type.staticSize

namespace MethodSig

/-- How many values a call takes off the operand stack: the announced
parameters, and one more for the receiver of an instance method. -/
def argumentCount (m : MethodSig) : Nat := m.paramCount + if m.hasThis then 1 else 0

/-- The parameter declared for an argument. The receiver has none. -/
def argument? (m : MethodSig) (index : Nat) : Option Param :=
  if m.hasThis then
    match index with
    | 0 => none
    | n + 1 => (m.params ++ m.varargs)[n]?
  else
    (m.params ++ m.varargs)[index]?

def returnsValue (m : MethodSig) : Bool :=
  match m.returnType.type with
  | .void => false
  | _ => true

end MethodSig

end ManagedCalls
