import ManagedCalls.Signature

/-!
What stands in a signature. Types and modifiers name types by tokens, and function
pointers have signatures of their own, at any depth. The parts are listed in the order
in which they are written.
-/

namespace ManagedCalls

/-- A token or a method signature that stands somewhere in a signature. -/
inductive SigPart where
  | token (t : Token)
  | signature (m : MethodSig)

namespace SigPart

def token? : SigPart → Option Token
  | token t => some t
  | signature _ => none

def signature? : SigPart → Option MethodSig
  | token _ => none
  | signature m => some m

end SigPart

mutual

def TypeSig.parts : TypeSig → List SigPart
  | .pointer t | .byRef t | .pinned t | .vector t | .array t _ => t.parts
  | .valueType token | .classType token => [.token token]
  | .genericInst g args => g.parts ++ TypeSig.partsAll args
  | .functionPointer m => m.parts
  | _ => []

def TypeSig.partsAll : List TypeSig → List SigPart
  | [] => []
  | t :: ts => t.parts ++ TypeSig.partsAll ts

def Param.parts : Param → List SigPart
  | ⟨modifiers, _, type⟩ => modifiers.map .token ++ type.parts

def Param.partsAll : List Param → List SigPart
  | [] => []
  | p :: ps => p.parts ++ Param.partsAll ps

/-- A method signature is the first of its parts. -/
def MethodSig.parts : MethodSig → List SigPart
  | ⟨hasThis, explicitThis, vararg, genericCount, paramCount, returnType, params, varargs⟩ =>
    .signature
        ⟨hasThis, explicitThis, vararg, genericCount, paramCount, returnType, params, varargs⟩ ::
      (returnType.parts ++ (Param.partsAll params ++ Param.partsAll varargs))

end

def LocalVar.parts (l : LocalVar) : List SigPart := l.modifiers.map .token ++ l.type.parts

namespace MethodSig

theorem parts_eq (m : MethodSig) :
    m.parts = .signature m ::
      (m.returnType.parts ++ (Param.partsAll m.params ++ Param.partsAll m.varargs)) := by
  obtain ⟨hasThis, explicitThis, vararg, genericCount, paramCount, returnType, params, varargs⟩ := m
  rfl

/-- The tokens of types and modifiers, at any depth. -/
def tokens (m : MethodSig) : List Token := m.parts.filterMap SigPart.token?

/-- The signature itself and those of function pointers in it, at any depth. -/
def signatures (m : MethodSig) : List MethodSig := m.parts.filterMap SigPart.signature?

end MethodSig

namespace LocalsSig

def parts (ls : LocalsSig) : List SigPart := ls.flatMap LocalVar.parts

def tokens (ls : LocalsSig) : List Token := ls.parts.filterMap SigPart.token?

end LocalsSig

end ManagedCalls
