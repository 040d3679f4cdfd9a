import ManagedCalls.Signature

/-!
Signature blobs. One decoder reads types, parameters, method signatures and local
variable signatures; it counts every type it starts to read, and refuses the
fiftieth. The count belongs to the decoder, not to one signature: it goes on
over everything read with the same decoder, also past an error.

Types nest, and each nested type is read by a decoder for one level less. Since
every level counts at least one type, the levels run out no earlier than the
count does.
-/

namespace ManagedCalls

structure Decoder where
  cursor : Cursor
  typesRead : Nat
  deriving DecidableEq

def Decoder.ofBytes (blob : Bytes) : Decoder := ⟨Cursor.ofBytes blob, 0⟩

abbrev Decode := EStateM BlobError Decoder

namespace Decode

/-- A decoder may start to read fewer types than this. -/
def typeLimit : Nat := 50

/-- Reads from the blob; the count of types stays. -/
def lift {α : Type} (read : Read α) : Decode α := fun d =>
  match read d.cursor with
  | .ok a c => .ok a { d with cursor := c }
  | .error e c => .error e { d with cursor := c }

def tooManyTypes {α : Type} : Decode α := throw (.recursionLimit typeLimit)

/-- Counts a type that is about to be read. -/
def countType : Decode Unit := do
  modify fun d => { d with typesRead := d.typesRead + 1 }
  let d ← get
  if d.typesRead ≥ typeLimit then tooManyTypes else pure ()

/-- The byte codes of the element types. -/
def simpleType? : UInt8 → Option TypeSig
  | 0x01 => some .void
  | 0x02 => some .boolean
  | 0x03 => some .char
  | 0x04 => some .i1
  | 0x05 => some .u1
  | 0x06 => some .i2
  | 0x07 => some .u2
  | 0x08 => some .i4
  | 0x09 => some .u4
  | 0x0A => some .i8
  | 0x0B => some .u8
  | 0x0C => some .r4
  | 0x0D => some .r8
  | 0x0E => some .string
  | 0x16 => some .typedByRef
  | 0x18 => some .nativeInt
  | 0x19 => some .nativeUInt
  | 0x1C => some .object
  | _ => none

end Decode

namespace ElementCode

def pointer : UInt8 := 0x0F
def byRef : UInt8 := 0x10
def valueType : UInt8 := 0x11
def classType : UInt8 := 0x12
def typeParameter : UInt8 := 0x13
def array : UInt8 := 0x14
def genericInst : UInt8 := 0x15
def typedByRef : UInt8 := 0x16
def functionPointer : UInt8 := 0x1B
def vector : UInt8 := 0x1D
def methodParameter : UInt8 := 0x1E
def requiredModifier : UInt8 := 0x1F
def optionalModifier : UInt8 := 0x20
def sentinel : UInt8 := 0x41
def pinned : UInt8 := 0x45

def isModifier (code : UInt8) : Bool := code == requiredModifier || code == optionalModifier

end ElementCode

namespace Decode

/-- Reads `count` items one after the other. -/
def replicate {α : Type} (item : Decode α) : Nat → Decode (List α)
  | 0 => pure []
  | n + 1 => do
    let a ← item
    let rest ← replicate item n
    pure (a :: rest)

/-- Reads `count` items and keeps none of them. -/
def discard {α : Type} (item : Decode α) : Nat → Decode Unit
  | 0 => pure ()
  | n + 1 => do
    let _ ← item
    discard item n

/-- Steps over the next byte if it is `code`, and says whether it was. There must
be a next byte. -/
def accept (code : UInt8) : Decode Bool := do
  let next ← lift Read.peek
  if next == code then
    lift Read.skip
    pure true
  else
    pure false

/-- Custom modifiers in front of a type, as many as there are. Each takes at least
two bytes, so the unread bytes bound their number. -/
def modifiersWithin : Nat → Decode (List Token)
  | 0 => pure []
  | n + 1 => do
    let d ← get
    match d.cursor.rest with
    | code :: _ =>
      if ElementCode.isModifier code then
        lift Read.skip
        let token ← lift Read.compressedToken
        let rest ← modifiersWithin n
        pure (token :: rest)
      else
        pure []
    | [] => pure []

def modifiers : Decode (List Token) := do
  let d ← get
  modifiersWithin d.cursor.rest.length

/-- A parameter or return type, whose type is read by `type`. -/
def param (type : Decode TypeSig) : Decode Param := do
  let mods ← modifiers
  let isByRef ← accept ElementCode.byRef
  let t ← type
  pure ⟨mods, isByRef, t⟩

/-- Fixed parameters: `count` of them, or fewer if a sentinel stands before one. -/
def fixedParams (type : Decode TypeSig) : Nat → Decode (List Param)
  | 0 => pure []
  | n + 1 => do
    let ended ← accept ElementCode.sentinel
    if ended then
      pure []
    else
      let p ← param type
      let rest ← fixedParams type n
      pure (p :: rest)

/-- The number of type parameters, which only a generic method announces. -/
def genericCount (convention : UInt8) : Decode Nat :=
  if convention &&& 0x10 != 0 then lift Read.compressedUInt else pure 0

/-- Variable arguments: the parameters that are not among the fixed ones. -/
def variableParams (type : Decode TypeSig) (vararg : Bool) (count : Nat) : Decode (List Param) :=
  if vararg then replicate (param type) count else pure []

def methodWith (type : Decode TypeSig) : Decode MethodSig := do
  let convention ← lift Read.byte
  let genericCount ← genericCount convention
  let paramCount ← lift Read.compressedUInt
  let returnType ← param type
  let params ← fixedParams type paramCount
  let vararg := convention &&& 0x0F == 0x05
  let varargs ← variableParams type vararg (paramCount - params.length)
  pure
    { hasThis := convention &&& 0x20 != 0
      explicitThis := convention &&& 0x40 != 0
      vararg, genericCount, paramCount, returnType, params, varargs }

/-- The rest of a type that starts with an element code. Its nested types are
read by `nested`. -/
def typeOf (nested : Decode TypeSig) (code : UInt8) : Decode TypeSig := do
  match simpleType? code with
  | some t => pure t
  | none =>
    if code == ElementCode.pointer then
      let _ ← modifiers
      return .pointer (← nested)
    else if code == ElementCode.byRef then
      return .byRef (← nested)
    else if code == ElementCode.valueType then
      return .valueType (← lift Read.compressedToken)
    else if code == ElementCode.classType then
      return .classType (← lift Read.compressedToken)
    else if code == ElementCode.typeParameter then
      return .typeParameter (← lift Read.compressedUInt)
    else if code == ElementCode.array then
      let element ← nested
      let rank ← lift Read.compressedUInt
      let sizes ← lift Read.compressedUInt
      discard (lift Read.compressedUInt) sizes
      let lowerBounds ← lift Read.compressedUInt
      discard (lift Read.compressedUInt) lowerBounds
      return .array element rank
    else if code == ElementCode.genericInst then
      let next ← lift Read.peek
      if next == ElementCode.classType || next == ElementCode.valueType then
        let generic ← nested
        let count ← lift Read.compressedUInt
        return .genericInst generic (← replicate nested count)
      else
        throw (.malformed (.genericBase next))
    else if code == ElementCode.functionPointer then
      return .functionPointer (← methodWith nested)
    else if code == ElementCode.vector then
      let _ ← modifiers
      return .vector (← nested)
    else if code == ElementCode.methodParameter then
      return .methodParameter (← lift Read.compressedUInt)
    else if code == ElementCode.pinned then
      return .pinned (← nested)
    else
      throw (.malformed (.elementType code))

/-- A type whose nested types are read by `nested`. -/
def typeWith (nested : Decode TypeSig) : Decode TypeSig := do
  countType
  let code ← lift Read.byte
  typeOf nested code

/-- A type with at most `levels` levels of nesting in it. -/
def typeWithin : Nat → Decode TypeSig
  | 0 => do
    countType
    tooManyTypes
  | levels + 1 => typeWith (typeWithin levels)

def type : Decode TypeSig := typeWithin typeLimit

def methodSig : Decode MethodSig := methodWith type

/-- Modifiers and pins in front of a local's type, in any order. -/
def constraintsWithin : Nat → Decode (List Token × Bool)
  | 0 => pure ([], false)
  | n + 1 => do
    let d ← get
    match d.cursor.rest with
    | code :: _ =>
      if ElementCode.isModifier code then
        lift Read.skip
        let token ← lift Read.compressedToken
        let (tokens, pinned) ← constraintsWithin n
        pure (token :: tokens, pinned)
      else if code == ElementCode.pinned then
        lift Read.skip
        let (tokens, _) ← constraintsWithin n
        pure (tokens, true)
      else
        pure ([], false)
    | [] => pure ([], false)

def constraints : Decode (List Token × Bool) := do
  let d ← get
  constraintsWithin d.cursor.rest.length

/-- The rest of a local variable, behind its modifiers and pins. -/
def localType (type : Decode TypeSig) (mods : List Token) (isPinned : Bool) : Decode LocalVar := do
  let isByRef ← accept ElementCode.byRef
  let t ← type
  pure ⟨mods, isByRef, isPinned, t⟩

/-- A local variable. A plain typed reference is not counted as a type. -/
def localVar (type : Decode TypeSig) : Decode LocalVar := do
  let plain ← accept ElementCode.typedByRef
  if plain then
    pure ⟨[], false, false, .typedByRef⟩
  else
    let (mods, isPinned) ← constraints
    localType type mods isPinned

def localsWith (type : Decode TypeSig) : Decode LocalsSig := do
  let head ← lift Read.byte
  if head == 0x07 then
    let count ← lift Read.compressedUInt
    replicate (localVar type) count
  else
    throw (.malformed (.localsHead head))

def localsSig : Decode LocalsSig := localsWith type

/-- What a fresh decoder makes of a whole blob; bytes after the signature are
not looked at. -/
def run {α : Type} (decode : Decode α) (blob : Bytes) : Except BlobError α :=
  match decode (Decoder.ofBytes blob) with
  | .ok a _ => .ok a
  | .error e _ => .error e

end Decode

end ManagedCalls
