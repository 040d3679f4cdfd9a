import ManagedCalls.Transition.Resolve

/-!
Native calls: binding a resolved member to the library of its assembly, and
polling the call until it is complete.
-/

namespace ManagedCalls

namespace Transition

variable {κ : Type}

/-- Builds the native call of a resolved member. -/
def bindNative (ctx : Context κ) : Act κ Tick := do
  let frame ← Act.topFrame
  match frame.executing, frame.target with
  | none, _ => throw (.incompleteFrame frame.id .executingAssembly)
  | some _, none => throw (.incompleteFrame frame.id .resolvedMember)
  | some executing, some target =>
    let assembly := ctx.program.assembly executing
    match assembly.native with
    | none => throw (.noNativeLibrary frame.method assembly.name frame.id)
    | some library =>
      let signature ← Act.lift (ctx.decodeMethod target.member.signature)
      let call ← Act.lift (library.createCall target.typeRef target.member signature)
      Act.setTop
        { frame with
          consumed := signature.argumentCount
          signature := some signature
          nativeCall := some call
          state := .nativeExec }
      pure .continue

/-- A plain function takes its arguments off the stack, runs and pushes its result. -/
def pollFunction (run : NativeFunction) (argumentCount : Nat) : Act κ NativeStatus := do
  let arguments ← Act.popValues argumentCount
  let result ← Act.lift (run arguments)
  let m ← get
  Act.note (.nativeReturned m.thread.id arguments.length result)
  match result with
  | some v =>
    Act.push v
    pure .complete
  | none => pure .complete

/-- Polls a call. It does not fail itself: what came of the poll is its result,
beside the call as it is afterwards. -/
def pollCall (ctx : Context κ) (call : NativeCall κ) :
    Act κ (Except Fault NativeStatus × NativeCall κ) := fun m =>
  match call with
  | .function run argumentCount =>
    match pollFunction run argumentCount m with
    | .ok status m' => .ok (.ok status, call) m'
    | .error e m' => .ok (.error e, call) m'
  | .custom c =>
    let (status, c', m') := ctx.poll c m
    .ok (status, .custom c') m'

/-- Puts a polled call back into the frame at its depth and acts on the status.
The frame may be gone, or be another one, if the poll took frames off. -/
def settlePoll (below : Nat) (call : NativeCall κ) (status : Except Fault NativeStatus) :
    Act κ Tick := do
  let m ← get
  let frames := m.thread.frames
  let index := frames.length - 1 - below
  match if below < frames.length then frames[index]? else none with
  | none => throw .emptyCallStack
  | some frame =>
    let frame := { frame with nativeCall := some call }
    Act.setThread { m.thread with frames := frames.set index frame }
    match ← Act.lift status with
    | .pending => pure .yield
    | .complete =>
      Act.setThread
        { m.thread with frames := frames.set index { frame with state := .teardown } }
      pure .continue

/-- Polls the native call of the topmost frame once. The frame is without its
call while the poll runs. -/
def pollNative (ctx : Context κ) : Act κ Tick := do
  let frame ← Act.topFrame
  let m ← get
  match frame.nativeCall with
  | none => throw (.incompleteFrame frame.id .nativeCall)
  | some call =>
    Act.setTop { frame with nativeCall := none }
    let (status, call) ← pollCall ctx call
    settlePoll (m.thread.depth - 1) call status

end Transition

end ManagedCalls
