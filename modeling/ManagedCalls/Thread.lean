import ManagedCalls.Event
import ManagedCalls.Thread.Frame

/-!
A thread: a stack of frames and one operand stack that the frames share. Both
lists have their tops in front. A thread without frames is done, and what is
left on the operand stack is its result.
-/

namespace ManagedCalls

structure Thread (κ : Type) where
  id : Nat
  frames : List (Frame κ)
  operands : List Value
  nextFrame : Nat

namespace Thread

variable {κ : Type}

def new (id : Nat) : Thread κ := ⟨id, [], [], 1⟩

def depth (t : Thread κ) : Nat := t.frames.length

def isComplete (t : Thread κ) : Bool := t.frames.isEmpty

def top? (t : Thread κ) : Option (Frame κ) := t.frames.head?

/-- Puts a frame in the place of the topmost one. -/
def setTop (t : Thread κ) (f : Frame κ) : Thread κ := { t with frames := f :: t.frames.tail }

def push (t : Thread κ) (v : Value) : Thread κ := { t with operands := v :: t.operands }

def pop (t : Thread κ) : Option Value × Thread κ :=
  (t.operands.head?, { t with operands := t.operands.tail })

def peek (t : Thread κ) : Option Value := t.operands.head?

/-- Takes `count` values off the stack, in the order they were pushed, or none. -/
def popValues (t : Thread κ) (count : Nat) : Except Fault (List Value × Thread κ) :=
  let available := t.operands.length
  if count ≤ available then
    .ok ((t.operands.take count).reverse, { t with operands := t.operands.drop count })
  else
    .error (.stackUnderflow count available)

/-- Puts a frame for a method on top. Its arguments are on the operand stack. -/
def call (t : Thread κ) (assembly : Nat) (method : Token) : Thread κ :=
  { t with
    frames := { id := t.nextFrame, calling := assembly, method } :: t.frames
    nextFrame := t.nextFrame + 1 }

/-- Ends the topmost frame, which must be interpreted; the next transition tears
it down. -/
def returnFromFrame (t : Thread κ) : Except Fault (Thread κ) :=
  match t.top? with
  | none => .error .emptyCallStack
  | some frame =>
    if frame.state = .interpretedExec then .ok (t.setTop { frame with state := .teardown })
    else .error (.invalidPhase frame.id .interpretedExec frame.phase)

/-- Releases the frames one by one. A frame with a failure adds nothing to the
count, and the first failure is kept. -/
def releaseFrames : List (Frame κ) → Release → Release
  | [], r => r
  | f :: rest, r =>
    let one := f.release r.pool
    match one.failure with
    | some e => releaseFrames rest { r with failure := r.failure.or (some e), pool := one.pool }
    | none => releaseFrames rest { r with released := r.released + one.released, pool := one.pool }

/-- Drops all frames from the top down, and the operand stack. -/
def abandon (t : Thread κ) (p : Pool) : Release × Thread κ :=
  (releaseFrames t.frames (Release.start p), { t with frames := [], operands := [] })

end Thread

end ManagedCalls
