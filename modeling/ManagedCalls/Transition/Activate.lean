import ManagedCalls.Transition.Resolve

/-!
Activation: the arguments of a method move from the operand stack into slots and
the locals are created. Everything is decoded before the operand stack or the
pool is touched; if storage cannot be had, what was allocated is given back.
-/

namespace ManagedCalls

/-- Gives the storage of a slot list under construction back. -/
def rollBack (ss : List Slot) (p : Pool) : Pool := ((Release.start p).slots ss).pool

/-- Pool storage holding a value, or none at all. -/
def pooledSlot (p : Pool) (type : TypeSig) (role : SlotRole) (v : Value) :
    Except Fault Slot × Pool :=
  match p.allocate type role with
  | .error e => (.error e, p)
  | .ok (handle, allocated) =>
    match allocated.store handle v with
    | .ok stored => (.ok (.pooled handle type), stored)
    | .error e => (.error e, rollBack [.pooled handle type] allocated)

/-- The slot of an argument: pool storage if a sized parameter is declared for
it, the value itself otherwise. -/
def argumentSlot (p : Pool) (param : Option Param) (v : Value) : Except Fault Slot × Pool :=
  match param with
  | some param =>
    if param.staticSize.isSome then pooledSlot p param.type .argument v else (.ok (.inline v), p)
  | none => (.ok (.inline v), p)

/-- The slot of a local: zeroed pool storage if the body asks for it and the type
is sized, a placeholder otherwise. -/
def localSlot (p : Pool) (initLocals : Bool) (l : LocalVar) : Except Fault Slot × Pool :=
  if initLocals && l.staticSize.isSome then
    match p.allocate l.type .localVar with
    | .ok (handle, p') => (.ok (.pooled handle l.type), p')
    | .error e => (.error e, p)
  else
    (.ok (.pending l.type), p)

/-- Makes slots one after the other, and gives all of them back if one fails.
`made` has the slots so far, the newest first. -/
def materialize {α : Type} (make : Pool → α → Except Fault Slot × Pool) :
    List α → List Slot → Pool → Except Fault (List Slot) × Pool
  | [], made, p => (.ok made.reverse, p)
  | a :: rest, made, p =>
    match make p a with
    | (.ok slot, p') => materialize make rest (slot :: made) p'
    | (.error e, p') => (.error e, rollBack made.reverse p')

/-- The slots of a call's arguments. -/
def materializeArguments (signature : MethodSig) (vs : List Value) (p : Pool) :
    Except Fault (List Slot) × Pool :=
  materialize (fun p (v, i) => argumentSlot p (signature.argument? i) v) vs.zipIdx [] p

def materializeLocals (locals : LocalsSig) (initLocals : Bool) (p : Pool) :
    Except Fault (List Slot) × Pool :=
  materialize (fun p l => localSlot p initLocals l) locals [] p

/-- The slots of a whole activation: if the locals fail, the arguments go too. -/
def materializeFrame (signature : MethodSig) (locals : LocalsSig) (initLocals : Bool)
    (vs : List Value) (p : Pool) : Except Fault (List Slot × List Slot) × Pool :=
  match materializeArguments signature vs p with
  | (.error e, p') => (.error e, p')
  | (.ok arguments, p') =>
    match materializeLocals locals initLocals p' with
    | (.ok slots, p'') => (.ok (arguments, slots), p'')
    | (.error e, p'') => (.error e, rollBack arguments p'')

namespace Transition

variable {κ : Type}

/-- The locals that a body's token leads to. -/
def decodeLocals (ctx : Context κ) (tables : Tables) (token : Token) : Except Fault LocalsSig :=
  if token.table = TableId.standAloneSig.tag then
    match tables.standAloneSig? token.row with
    | some row => ctx.decodeLocals row.signature
    | none => .error (.missingRow token)
  else
    .error (.missingRow token)

/-- The locals a frame runs with. A body that does not ask for zeroed locals goes
without them if they cannot be read. -/
def frameLocals (ctx : Context κ) (frame : Frame κ) (executing : Nat) (body : MethodBody) :
    Act κ (Option LocalsSig) := do
  if body.hasLocals then
    let tables := (ctx.program.assembly executing).tables
    match decodeLocals ctx tables body.localsToken with
    | .ok locals => pure (some locals)
    | .error e =>
      if body.initLocals then
        throw e
      else
        let m ← get
        Act.note (.runsWithoutLocals m.thread.id frame.id body.localsToken e)
        pure none
  else
    pure none

/-- Moves the arguments off the operand stack into slots and creates the locals. -/
def activate (ctx : Context κ) (frame : Frame κ) (executing : Nat) (body : MethodBody) :
    Act κ Tick := do
  let signature ← Act.lift (ctx.decodeMethod body.signature)
  let locals ← frameLocals ctx frame executing body
  let m ← get
  let count := signature.argumentCount
  let (vs, thread) ← Act.lift (m.thread.popValues count)
  let (result, pool) :=
    materializeFrame signature (locals.getD []) body.initLocals vs m.domain.pool
  Act.setPool pool
  let (arguments, slots) ← Act.lift result
  Act.setThread thread
  Act.note (.activated thread.id frame.id arguments.length slots.length)
  Act.setTop
    { frame with
      arguments
      locals := slots
      consumed := count
      signature := some signature
      localsSig := locals
      ip := 0
      state := .interpretedExec }
  pure .continue

def setupBody (ctx : Context κ) : Act κ Tick := do
  let frame ← Act.topFrame
  match frame.body, frame.executing with
  | none, _ => throw (.incompleteFrame frame.id .methodBody)
  | some _, none => throw (.incompleteFrame frame.id .executingAssembly)
  | some body, some executing => activate ctx frame executing body

end Transition

end ManagedCalls
