import ManagedCalls.Machine

/-!
The instruction set: an opcode byte and at most eight operand bytes, little-endian.
-/

namespace ManagedCalls

inductive Arithmetic where
  | add
  | sub
  | mul
  deriving DecidableEq

inductive Instruction where
  | nop
  | yield
  | load (role : SlotRole) (index : Nat)
  | store (role : SlotRole) (index : Nat)
  | push (v : Value)
  | dup
  | pop
  | call (token : Token)
  | ret
  | branch (offset : Int)
  | branchTrue (offset : Int)
  | arithmetic (op : Arithmetic)
  | reenter
  deriving DecidableEq

namespace Instruction

/-- The signed number with the given byte. -/
def signedByte (n : Nat) : Int := Int.bmod n 256

/-- The size of an opcode's operand and the instruction it makes with one. -/
def shape? (opcode : UInt8) : Option (Nat × (Nat → Instruction)) :=
  let code := opcode.toNat
  if code = 0x00 then some (0, fun _ => nop)
  else if code = 0x01 then some (0, fun _ => yield)
  else if code ≤ 0x05 then some (0, fun _ => load .argument (code - 0x02))
  else if code ≤ 0x09 then some (0, fun _ => load .localVar (code - 0x06))
  else if code ≤ 0x0D then some (0, fun _ => store .localVar (code - 0x0A))
  else if code = 0x0E then some (1, load .argument)
  else if code = 0x10 then some (1, store .argument)
  else if code = 0x11 then some (1, load .localVar)
  else if code = 0x13 then some (1, store .localVar)
  else if code = 0x14 then some (0, fun _ => push .null)
  else if 0x16 ≤ code ∧ code ≤ 0x1E then
    some (0, fun _ => push (.int32 (Int32.ofNat (code - 0x16))))
  else if code = 0x1F then some (1, fun n => push (.int32 (Int32.ofInt (signedByte n))))
  else if code = 0x20 then some (4, fun n => push (.int32 (UInt32.ofNat n).toInt32))
  else if code = 0x21 then some (8, fun n => push (.int64 (UInt64.ofNat n).toInt64))
  else if code = 0x22 then some (4, fun n => push (.float32 (UInt32.ofNat n)))
  else if code = 0x23 then some (8, fun n => push (.float64 (UInt64.ofNat n)))
  else if code = 0x25 then some (0, fun _ => dup)
  else if code = 0x26 then some (0, fun _ => pop)
  else if code = 0x28 then some (4, fun n => call (Token.ofNat n))
  else if code = 0x2A then some (0, fun _ => ret)
  else if code = 0x2B then some (1, fun n => branch (signedByte n))
  else if code = 0x2D then some (1, fun n => branchTrue (signedByte n))
  else if code = 0x58 then some (0, fun _ => arithmetic .add)
  else if code = 0x59 then some (0, fun _ => arithmetic .sub)
  else if code = 0x5A then some (0, fun _ => arithmetic .mul)
  else if code = 0xFE then some (0, fun _ => reenter)
  else none

/-- The instruction at the front of the code and the number of its bytes. -/
def decode : Bytes → Except Fault (Instruction × Nat)
  | [] => .error (.host "ran past the end of the code")
  | opcode :: operands =>
    match shape? opcode with
    | none => .error (.host ("unknown opcode 0x" ++ Shown.hex 2 opcode.toNat))
    | some (size, make) =>
      if operands.length < size then .error (.host "truncated operand")
      else .ok (make (littleEndian (operands.take size)), 1 + size)

end Instruction

namespace Arithmetic

def int32 : Arithmetic → Int32 → Int32 → Int32
  | add, a, b => a + b
  | sub, a, b => a - b
  | mul, a, b => a * b

def int64 : Arithmetic → Int64 → Int64 → Int64
  | add, a, b => a + b
  | sub, a, b => a - b
  | mul, a, b => a * b

/-- Integers of one kind can be combined, and wrap around. -/
def combine? (op : Arithmetic) : Value → Value → Option Value
  | .int32 a, .int32 b => some (.int32 (op.int32 a b))
  | .int64 a, .int64 b => some (.int64 (op.int64 a b))
  | .native a, .native b => some (.native (op.int64 a b))
  | _, _ => none

end Arithmetic

/-- Whether a value counts as true; floating-point values do not say. -/
def Value.truth? : Value → Option Bool
  | .null => some false
  | .object _ => some true
  | .int32 v => some (v != 0)
  | .int64 v => some (v != 0)
  | .native v => some (v != 0)
  | _ => none

namespace Instruction

variable {κ : Type}

def badOperands {α : Type} : Act κ α := throw (.host "bad operands")

/-- Moves the instruction pointer of the topmost frame relative to the next
instruction. -/
def jump (offset : Int) : Act κ Unit := do
  let frame ← Act.topFrame
  let target := (frame.ip : Int) + offset
  if target < 0 then throw (.host "branch out of code")
  else Act.setTop { frame with ip := target.toNat }

/-- The effect of an instruction; the instruction pointer stands behind it.
`reenterStep` steps the thread from inside. -/
def perform (program : Program κ) (reenterStep : Act κ Bool) : Instruction → Act κ Unit
  | nop => pure ()
  | yield => pure ()
  | load role index => do
    let v ← Act.readSlot role index
    Act.push v
  | store role index => do
    let v ← Act.pop
    Act.writeSlot role index v
  | push v => Act.push v
  | dup => do
    let v ← Act.pop
    Act.push v
    Act.push v
  | pop => do
    let _ ← Act.pop
  | call token => do
    let frame ← Act.topFrame
    match frame.executing with
    | some executing =>
      let _ ← Act.call program executing token
    | none => throw (.incompleteFrame frame.id .executingAssembly)
  | ret => Act.returnFromFrame
  | branch offset => jump offset
  | branchTrue offset => do
    let v ← Act.pop
    match v.truth? with
    | some true => jump offset
    | some false => pure ()
    | none => badOperands
  | arithmetic op => do
    match ← Act.popValues 2 with
    | [a, b] =>
      match op.combine? a b with
      | some v => Act.push v
      | none => badOperands
    | _ => badOperands
  | reenter => do
    let live ← reenterStep
    Act.push (.int32 (if live then 1 else 0))

/-- Executes the next instruction of the topmost frame. An instruction that cannot
be read leaves the instruction pointer where it was. -/
def execute (program : Program κ) (reenterStep : Act κ Bool) : Act κ Bool := do
  let frame ← Act.topFrame
  let (instruction, size) ← Act.lift (decode (frame.code.drop frame.ip))
  Act.setTop { frame with ip := frame.ip + size }
  perform program reenterStep instruction
  pure (instruction != yield)

end Instruction

end ManagedCalls
