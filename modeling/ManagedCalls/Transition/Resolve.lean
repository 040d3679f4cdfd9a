import ManagedCalls.Machine

/-!
Resolution: from the token a frame was called with to a body in the calling
assembly, or to the assembly that a member reference leads to. Loads that have
to be waited for are collected here too.
-/

namespace ManagedCalls

/-- Whether a step goes on after a transition. -/
inductive Tick where
  | continue
  | yield
  deriving DecidableEq

/-- Follows a member reference to its type and to the assembly it names. -/
def findTarget (tables : Tables) (token : Token) (row frame : Nat) : Except Fault Target :=
  match tables.memberRef? row with
  | none => .error (.missingRow token)
  | some member =>
    if member.parent.table = .typeRef then
      match tables.typeRef? member.parent.row with
      | none => .error (.missingRow member.parent.token)
      | some typeRef =>
        if typeRef.scope.table = .assemblyRef then
          match tables.assemblyRef? typeRef.scope.row with
          | none => .error (.missingRow typeRef.scope.token)
          | some assemblyRef => .ok ⟨member, typeRef, assemblyRef⟩
        else
          .error (.unsupportedScope token typeRef.token typeRef.scope.token frame)
    else
      .error (.unsupportedParent token member.parent.token frame)

/-- The frame after its name was resolved. -/
def Frame.afterResolution {κ : Type} (f : Frame κ) : Resolution → Frame κ
  | .loaded assembly => { f with executing := some assembly, state := .assemblyResolved }
  | .pending ticket => { f with state := .awaitAssembly ticket }

namespace Transition

variable {κ : Type}

/-- The call depth is checked before anything is looked up. -/
def checkDepth (ctx : Context κ) : Act κ Unit := do
  let m ← get
  let limit := ctx.config.maxCallDepth
  if limit ≠ 0 ∧ m.thread.depth > limit then
    throw (.callDepthExceeded m.thread.depth limit)
  else
    pure ()

def resolveBody (ctx : Context κ) (frame : Frame κ) : Act κ Tick := do
  let m ← get
  let calling := ctx.program.assembly frame.calling
  let body ← Act.lift (calling.body frame.method)
  Act.note (.resolvedBody m.thread.id frame.id frame.method calling.name)
  Act.setTop
    { frame with
      executing := some frame.calling
      body := some body
      stackBase := m.thread.operands.length
      state := .bodySetup }
  pure .continue

def resolveMember (ctx : Context κ) (frame : Frame κ) (row : Nat) : Act κ Tick := do
  let m ← get
  let tables := (ctx.program.assembly frame.calling).tables
  let target ← Act.lift (findTarget tables frame.method row frame.id)
  let name := target.assemblyRef.name
  let (resolution, domain, events) ← Act.lift (m.domain.resolve name)
  modify fun m => { m with domain }
  Act.noteAll events
  Act.note (.resolvedMember m.thread.id frame.id frame.method target.typeRef.fullName
    target.member.name name)
  let found := { frame with target := some target, stackBase := m.thread.operands.length }
  Act.setTop (found.afterResolution resolution)
  pure .continue

/-- Decodes the method token and finds the assembly implementing it. -/
def resolve (ctx : Context κ) : Act κ Tick := do
  checkDepth ctx
  let frame ← Act.topFrame
  match frame.method.kind with
  | .methodDef _ => resolveBody ctx frame
  | .memberRef row => resolveMember ctx frame row
  | _ => throw (.unsupportedTokenTable frame.method frame.id)

/-- Collects the load a frame waits for, or yields while it is outstanding. -/
def awaitAssembly (ctx : Context κ) (ticket : Nat) : Act κ Tick := do
  let frame ← Act.topFrame
  let m ← get
  let (result, domain, events) :=
    m.domain.finishLoad (fun n => (ctx.program.assembly n).name) ticket
  modify fun m => { m with domain }
  Act.noteAll events
  match ← Act.lift result with
  | none => pure .yield
  | some assembly =>
    Act.note (.resumes m.thread.id frame.id (ctx.program.assembly assembly).name)
    Act.setTop { frame with executing := some assembly, state := .assemblyResolved }
    pure .continue

end Transition

end ManagedCalls
