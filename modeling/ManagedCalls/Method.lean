import ManagedCalls.Token

/-!
Method bodies. The header of a body is tiny, one byte with the code's length in
its upper six bits, or fat, with a length of its own, flags, stack depth, code
length and the token of the locals.
-/

namespace ManagedCalls

structure MethodBody where
  token : Token
  signature : Bytes
  localsToken : Token
  flags : Nat
  maxStack : Nat
  code : Bytes
  deriving DecidableEq

namespace MethodBody

/-- The header flags that have a meaning: format, more sections, zeroed locals. -/
def knownFlags : Nat := 0x1B

def tinyFlags : Nat := 0x02

def initLocalsFlag : Nat := 0x10

def tinyMaxStack : Nat := 8

/-- Drops the flags without a meaning. -/
def maskFlags (flags : Nat) : Nat := flags &&& knownFlags

/-- The locals start zeroed. -/
def initLocals (b : MethodBody) : Bool := b.flags &&& initLocalsFlag == initLocalsFlag

def hasLocals (b : MethodBody) : Bool := !b.localsToken.isNull

def readTiny (token : Token) (signature : Bytes) : Read MethodBody := do
  let head ← Read.byte
  let code ← Read.bytes (head.toNat / 4)
  pure ⟨token, signature, Token.null, tinyFlags, tinyMaxStack, code⟩

def readFat (token : Token) (signature : Bytes) : Read MethodBody := do
  let first ← Read.uint16
  let headerSize := first / 2 ^ 12 * 4
  if headerSize < 12 then
    throw (.malformed (.fatHeaderSize headerSize))
  else
    let maxStack ← Read.uint16
    let codeSize ← Read.uint32
    let locals ← Read.uint32
    let _ ← Read.bytes (headerSize - 12)
    let code ← Read.bytes codeSize
    pure ⟨token, signature, Token.ofNat locals, maskFlags (first % 2 ^ 12), maxStack, code⟩

def read (token : Token) (signature : Bytes) : Read MethodBody := do
  let head ← Read.peek
  if head.toNat % 4 = 2 then readTiny token signature
  else if head.toNat % 4 = 3 then readFat token signature
  else throw (.malformed (.headerFormat head))

/-- The body at the front of `data`; what follows its code is not looked at. -/
def parse (token : Token) (signature data : Bytes) : Except BlobError MethodBody :=
  match read token signature (Cursor.ofBytes data) with
  | .ok body _ => .ok body
  | .error e _ => .error e

end MethodBody

end ManagedCalls
