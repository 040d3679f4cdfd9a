import ManagedCalls.Transition.Activate
import ManagedCalls.Transition.Native

/-!
One transition of the topmost frame, and steps: transitions until the thread
yields, fails, is done or has used up what one step may take.
-/

namespace ManagedCalls

namespace Transition

variable {κ : Type}

/-- Releases the values of the topmost frame and takes it off. If a release fails
the frame stays, without its slots. -/
def teardown : Act κ Tick := do
  let frame ← Act.topFrame
  let m ← get
  let r := frame.release m.domain.pool
  Act.setPool r.pool
  Act.setTop frame.drained
  let released ← Act.lift r.result
  let frames := m.thread.frames.tail
  Act.setThread { m.thread with frames }
  let depth := m.thread.operands.length
  let floor := frame.stackBase - frame.consumed
  if depth < floor then
    Act.note (.leftBelowEntry m.thread.id frame.id frame.method depth floor)
  Act.note (.tornDown m.thread.id frame.id frame.method released frames.length)
  pure .continue

/-- Runs exactly one transition of the topmost frame. -/
def run (ctx : Context κ) : Act κ Tick := do
  let frame ← Act.topFrame
  Act.note (.entersPhase frame.id frame.method frame.phase)
  match frame.state with
  | .resolve => resolve ctx
  | .awaitAssembly ticket => awaitAssembly ctx ticket
  | .assemblyResolved => bindNative ctx
  | .bodySetup => setupBody ctx
  | .nativeExec => pollNative ctx
  | .interpretedExec => do
    let goesOn ← ctx.execute
    pure (if goesOn then .continue else .yield)
  | .teardown => teardown

end Transition

/-- How a run of transitions ended without a fault. -/
inductive Rest where
  | yielded
  | complete
  | spent
  deriving DecidableEq

variable {κ : Type}

/-- Runs transitions until the thread yields or is done, at most `limit` of them. -/
def advance (ctx : Context κ) : Nat → Machine κ → EStateM.Result Fault (Machine κ) Rest
  | 0, m => .ok (if m.thread.isComplete then .complete else .spent) m
  | limit + 1, m =>
    if m.thread.isComplete then .ok .complete m
    else
      match Transition.run ctx m with
      | .ok .continue m' => advance ctx limit m'
      | .ok .yield m' => .ok .yielded m'
      | .error e m' => .error e m'

/-- Steps a thread, and says whether it still has frames. With a limit on
transitions the thread yields at the limit; without one it must come to rest
within the context's patience. -/
def step (ctx : Context κ) : Act κ Bool := do
  let limit := ctx.config.maxTransitions
  match ← advance ctx (if limit = 0 then ctx.patience else limit) with
  | .spent =>
    if limit = 0 then
      throw (.unfinished ctx.patience)
    else
      let m ← get
      Act.note (.yieldsAfter m.thread.id limit)
      pure true
  | _ =>
    let m ← get
    pure (!m.thread.isComplete)

end ManagedCalls
