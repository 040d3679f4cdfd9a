import ManagedCalls.Stateful
import ManagedCalls.Blob.Bytes

/-!
Metadata blobs are byte strings read from front to back. A cursor holds the
bytes still unread and how many were read before them, so it can never leave
the blob. A read that fails still says where the cursor stands: later reads on
the same blob go on from there.
-/

namespace ManagedCalls

/-- What is wrong with a damaged blob, with the byte or number that shows it. -/
inductive Malformation where
  | compressedUInt (lead : UInt8)
  | compressedToken (number : Nat)
  | elementType (code : UInt8)
  | genericBase (code : UInt8)
  | localsHead (head : UInt8)
  | fatHeaderSize (size : Nat)
  | headerFormat (head : UInt8)
  deriving DecidableEq

/-- Why reading a blob stopped. -/
inductive BlobError where
  | malformed (why : Malformation)
  | outOfBounds
  | recursionLimit (limit : Nat)
  deriving DecidableEq

structure Cursor where
  position : Nat
  rest : Bytes
  deriving DecidableEq

/-- A read either yields a value or an error, and moves the cursor in both cases. -/
abbrev Read := EStateM BlobError Cursor

namespace Cursor

def ofBytes (data : Bytes) : Cursor := ⟨0, data⟩

/-- The length of the whole blob, the part already read included. -/
def length (c : Cursor) : Nat := c.position + c.rest.length

def hasMore (c : Cursor) : Bool := !c.rest.isEmpty

end Cursor

namespace Read

def peek : Read UInt8 := fun c =>
  match c.rest with
  | [] => .error .outOfBounds c
  | b :: _ => .ok b c

def byte : Read UInt8 := fun c =>
  match c.rest with
  | [] => .error .outOfBounds c
  | b :: rest => .ok b ⟨c.position + 1, rest⟩

/-- Steps over one byte. -/
def skip : Read Unit := do
  let _ ← byte

/-- The next `n` bytes, all of them or none. -/
def bytes (n : Nat) : Read Bytes := fun c =>
  if n ≤ c.rest.length then
    .ok (c.rest.take n) ⟨c.position + n, c.rest.drop n⟩
  else
    .error .outOfBounds c

@[simp] theorem peek_nil (n : Nat) : peek ⟨n, []⟩ = .error .outOfBounds ⟨n, []⟩ := rfl

@[simp] theorem peek_cons (n : Nat) (b : UInt8) (rest : Bytes) :
    peek ⟨n, b :: rest⟩ = .ok b ⟨n, b :: rest⟩ := rfl

@[simp] theorem byte_nil (n : Nat) : byte ⟨n, []⟩ = .error .outOfBounds ⟨n, []⟩ := rfl

@[simp] theorem byte_cons (n : Nat) (b : UInt8) (rest : Bytes) :
    byte ⟨n, b :: rest⟩ = .ok b ⟨n + 1, rest⟩ := rfl

theorem bytes_of_short {n : Nat} {c : Cursor} (h : c.rest.length < n) :
    bytes n c = .error .outOfBounds c := by
  simp [bytes, Nat.not_le.mpr h]

def uint16 : Read Nat := do
  let bs ← bytes 2
  pure (littleEndian bs)

def uint32 : Read Nat := do
  let bs ← bytes 4
  pure (littleEndian bs)

end Read

end ManagedCalls
