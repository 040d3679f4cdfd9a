import ManagedCalls.Assembly
import ManagedCalls.Storage.Slot

/-!
Call frames: one activation of a method, from the lookup of its token to the
release of its values. The fields fill up as the frame moves from phase to phase.
-/

namespace ManagedCalls

inductive FrameState where
  | resolve
  | awaitAssembly (ticket : Nat)
  | assemblyResolved
  | bodySetup
  | nativeExec
  | interpretedExec
  | teardown
  deriving DecidableEq

def FrameState.phase : FrameState → FramePhase
  | resolve => .resolve
  | awaitAssembly _ => .awaitAssembly
  | assemblyResolved => .assemblyResolved
  | bodySetup => .bodySetup
  | nativeExec => .nativeExec
  | interpretedExec => .interpretedExec
  | teardown => .teardown

/-- The rows a member reference was resolved through. -/
structure Target where
  member : MemberRef
  typeRef : TypeRef
  assemblyRef : AssemblyRef
  deriving DecidableEq

structure Frame (κ : Type) where
  id : Nat
  /-- The assembly whose metadata the method token belongs to. -/
  calling : Nat
  /-- The assembly that implements the method. -/
  executing : Option Nat := none
  method : Token
  state : FrameState := .resolve
  body : Option MethodBody := none
  target : Option Target := none
  signature : Option MethodSig := none
  localsSig : Option LocalsSig := none
  ip : Nat := 0
  arguments : List Slot := []
  locals : List Slot := []
  /-- The depth of the operand stack when the frame was resolved. -/
  stackBase : Nat := 0
  /-- How many values the frame takes off the operand stack. -/
  consumed : Nat := 0
  nativeCall : Option (NativeCall κ) := none

namespace Frame

variable {κ : Type}

def phase (f : Frame κ) : FramePhase := f.state.phase

def code (f : Frame κ) : Bytes :=
  match f.body with
  | some body => body.code
  | none => []

def slots (f : Frame κ) : SlotRole → List Slot
  | .argument => f.arguments
  | .localVar => f.locals

def withSlots (f : Frame κ) (role : SlotRole) (ss : List Slot) : Frame κ :=
  match role with
  | .argument => { f with arguments := ss }
  | .localVar => { f with locals := ss }

/-- The value of a slot that something was stored to. -/
def readSlot (f : Frame κ) (p : Pool) (role : SlotRole) (index : Nat) : Except Fault Value :=
  match (f.slots role)[index]? with
  | none => .error (.slotOutOfRange f.id role index (f.slots role).length)
  | some slot =>
    match slot.read p with
    | .error e => .error e
    | .ok none => .error (.uninitializedSlot f.id role index)
    | .ok (some v) => .ok v

def writeSlot (f : Frame κ) (p : Pool) (role : SlotRole) (index : Nat) (v : Value) :
    Except Fault (Frame κ × Pool) :=
  match (f.slots role)[index]? with
  | none => .error (.slotOutOfRange f.id role index (f.slots role).length)
  | some slot =>
    (slot.write p v).map fun (slot', p') =>
      (f.withSlots role ((f.slots role).set index slot'), p')

/-- The frame without its slots and native call. -/
def drained (f : Frame κ) : Frame κ := { f with arguments := [], locals := [], nativeCall := none }

/-- Gives everything the frame owns back to the pool, arguments first. -/
def release (f : Frame κ) (p : Pool) : Release := (Release.start p).slots (f.arguments ++ f.locals)

end Frame

end ManagedCalls
