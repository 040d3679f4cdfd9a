import ManagedCalls.Config
import ManagedCalls.Loading.Domain
import ManagedCalls.Thread

/-!
The machine as one thread sees it, the actions on it, and the context that
stays the same while it runs: assemblies, configuration, signature decoder and
the host's ways to execute instructions and poll its native calls.
-/

namespace ManagedCalls

structure Machine (κ : Type) where
  thread : Thread κ
  domain : Domain
  log : Log

/-- Whether the topmost frame waits for a load that is still outstanding. -/
def Thread.isWaiting {κ : Type} (t : Thread κ) (d : Domain) : Bool :=
  match t.top?.map Frame.state with
  | some (.awaitAssembly ticket) => !d.isReady ticket
  | _ => false

/-- An action on a machine. A failing action leaves what it did before. -/
abbrev Act (κ : Type) := EStateM Fault (Machine κ)

structure Context (κ : Type) where
  program : Program κ
  config : Config
  decodeMethod : Bytes → Except Fault MethodSig
  decodeLocals : Bytes → Except Fault LocalsSig
  /-- Executes one instruction of the topmost frame; `false` makes the thread yield. -/
  execute : Act κ Bool
  /-- Polls a native call of the host. The call is kept also when the poll fails. -/
  poll : κ → Machine κ → Except Fault NativeStatus × κ × Machine κ
  /-- How many transitions a step without a limit may take. -/
  patience : Nat

namespace Act

variable {κ : Type}

@[inline] def note (e : Event) : Act κ Unit := modify fun m => { m with log := m.log.add e }

def noteAll (es : List Event) : Act κ Unit := modify fun m => { m with log := m.log.addAll es }

def lift {α : Type} (x : Except Fault α) : Act κ α := fun m =>
  match x with
  | .ok a => .ok a m
  | .error e => .error e m

@[simp] theorem lift_ok {α : Type} (a : α) (m : Machine κ) :
    (lift (.ok a) : Act κ α) m = .ok a m := rfl

@[simp] theorem lift_error {α : Type} (e : Fault) (m : Machine κ) :
    (lift (.error e) : Act κ α) m = .error e m := rfl

def setThread (t : Thread κ) : Act κ Unit := modify fun m => { m with thread := t }

def setPool (p : Pool) : Act κ Unit :=
  modify fun m => { m with domain := { m.domain with pool := p } }

/-- The topmost frame; there must be one. -/
def topFrame : Act κ (Frame κ) := do
  let m ← get
  match m.thread.top? with
  | some frame => pure frame
  | none => throw .emptyCallStack

def setTop (f : Frame κ) : Act κ Unit := modify fun m => { m with thread := m.thread.setTop f }

def push (v : Value) : Act κ Unit := modify fun m => { m with thread := m.thread.push v }

/-- Pops one value; there must be one. -/
def pop : Act κ Value := do
  let m ← get
  match m.thread.pop with
  | (some v, t) =>
    setThread t
    pure v
  | (none, _) => throw (.stackUnderflow 1 0)

def popValues (count : Nat) : Act κ (List Value) := do
  let m ← get
  let (vs, t) ← lift (m.thread.popValues count)
  setThread t
  pure vs

/-- Calls a method of an assembly, and answers the number of the new frame. -/
def call (program : Program κ) (assembly : Nat) (method : Token) : Act κ Nat := do
  let m ← get
  let name := (program.assembly assembly).name
  note (.calls m.thread.id m.thread.nextFrame method name (m.thread.depth + 1))
  setThread (m.thread.call assembly method)
  pure m.thread.nextFrame

def returnFromFrame : Act κ Unit := do
  let m ← get
  let t ← lift m.thread.returnFromFrame
  setThread t

/-- Drops the frames and the operand stack, also if releasing a value fails. -/
def abandon : Act κ Nat := do
  let m ← get
  let (r, t) := m.thread.abandon m.domain.pool
  setThread t
  setPool r.pool
  note (.abandoned t.id r.released)
  lift r.result

def readSlot (role : SlotRole) (index : Nat) : Act κ Value := do
  let frame ← topFrame
  let m ← get
  lift (frame.readSlot m.domain.pool role index)

def writeSlot (role : SlotRole) (index : Nat) (v : Value) : Act κ Unit := do
  let frame ← topFrame
  let m ← get
  let (frame', pool') ← lift (frame.writeSlot m.domain.pool role index v)
  setTop frame'
  setPool pool'

end Act

end ManagedCalls
