import ManagedCalls.Interpreter.Context
import ManagedCalls.Proofs.HostActions

/-!
The interpreter is a disciplined host. An instruction looks at the topmost frame and
acts on the thread, one thing after another, so executing it has every property of
computations that is closed under these, if stepping from inside does. Coming to a list
of host actions is such a property, and the interpreter keeps the rules as long as it
does not step its own thread.
-/

namespace ManagedCalls

open Stateful

variable {κ α β : Type}

namespace Act

theorem after_pop (program : Program κ) (m : Machine κ) :
    after Act.pop m = after (HostAction.perform program .pop) m := by
  cases hvalues : m.thread.operands with
  | nil =>
    have hthread : { m.thread with operands := [] } = m.thread := by rw [← hvalues]
    simp [after, Act.pop, HostAction.perform, Thread.pop, hvalues, hthread]
  | cons v rest => simp [after, Act.pop, HostAction.perform, Thread.pop, hvalues, Act.setThread]

/-- Reading changes nothing. -/
theorem after_readSlot (role : SlotRole) (index : Nat) (m : Machine κ) :
    after (Act.readSlot role index) m = m := by
  cases htop : m.thread.frames with
  | nil => simp [after, Act.readSlot, Act.topFrame, Thread.top?, htop]
  | cons f rest =>
    cases hread : f.readSlot m.domain.pool role index with
    | error e => simp [after, Act.readSlot, Transition.topFrame_eq htop, hread]
    | ok v => simp [after, Act.readSlot, Transition.topFrame_eq htop, hread]

end Act

/-- What an instruction looks at of the topmost frame. -/
structure Frame.Looked where
  id : Nat
  ip : Nat
  executing : Option Nat
  code : Bytes

def Frame.looked (f : Frame κ) : Frame.Looked := ⟨f.id, f.ip, f.executing, f.code⟩

namespace Act

/-- A property of computations is closed under what instructions do: they look at the
topmost frame, act on the thread one after another, and stop or fail. What `First` says
is what a computation needs besides for another one to come after it. -/
structure HostClosed (program : Program κ) (P First : {α : Type} → Act κ α → Prop) : Prop where
  pure {α : Type} (a : α) : P (Pure.pure a)
  throw {α : Type} (e : Fault) : P (MonadExcept.throw e : Act κ α)
  bind {α β : Type} {x : Act κ α} {f : α → Act κ β} (hx : P x) (hfirst : First x)
    (hf : ∀ a, P (f a)) : P (x >>= f)
  /-- Nothing is done after the last action. -/
  map {α β : Type} {x : Act κ α} (f : α → β) (hx : P x) : P (x >>= fun a => Pure.pure (f a))
  /-- Going on with what is looked at of the topmost frame, if there is one. -/
  see {α : Type} {x : Act κ α} (y : Option Frame.Looked → Act κ α) (hy : ∀ v, P (y v))
    (h : ∀ m : Machine κ, x m = y (m.thread.top?.map Frame.looked) m) : P x
  push (v : Value) : P (Act.push v) ∧ First (Act.push v)
  pop : P Act.pop ∧ First Act.pop
  popValues (count : Nat) : P (Act.popValues count) ∧ First (Act.popValues count)
  readSlot (role : SlotRole) (index : Nat) :
    P (Act.readSlot role index) ∧ First (Act.readSlot role index)
  setIp (ip : Nat) :
    P (HostAction.perform program (.setIp ip)) ∧ First (HostAction.perform program (.setIp ip))
  call (assembly : Nat) (method : Token) : P (Act.call program assembly method)
  returnFromFrame : P Act.returnFromFrame
  writeSlot (role : SlotRole) (index : Nat) (v : Value) : P (Act.writeSlot role index v)

/-- Going on with the topmost frame, of which only what is looked at matters. -/
theorem HostClosed.look {program : Program κ} {P First : {α : Type} → Act κ α → Prop}
    (hclosed : HostClosed program P First) {g : Frame κ → Act κ α} (y : Frame.Looked → Act κ α)
    (hy : ∀ v, P (y v))
    (h : ∀ (m : Machine κ) f rest, m.thread.frames = f :: rest → g f m = y f.looked m) :
    P (topFrame >>= g) := by
  refine hclosed.see (fun v => v.elim (MonadExcept.throw .emptyCallStack) y) (fun v => ?_)
    fun m => ?_
  · cases v with
    | none => exact hclosed.throw _
    | some v => exact hy v
  · cases htop : m.thread.frames with
    | nil => simp [topFrame, Thread.top?, htop]
    | cons f rest => simp [Transition.topFrame_eq htop, Thread.top?, htop, h m f rest htop]

end Act

namespace Act.ByHost

variable {program : Program κ}

theorem of_unchanged {x : Act κ α} (h : ∀ m, after x m = m) : ByHost program x :=
  fun m => ⟨[], h m⟩

theorem of_action {x : Act κ α} (a : HostAction)
    (h : ∀ m, after x m = after (a.perform program) m) : ByHost program x :=
  fun m => ⟨[a], h m⟩

theorem bind {x : Act κ α} {f : α → Act κ β} (hx : ByHost program x)
    (hf : ∀ a, ByHost program (f a)) : ByHost program (x >>= f) := by
  intro m
  obtain ⟨first, hfirst⟩ := hx m
  cases hrun : x m with
  | error e m' =>
    refine ⟨first, ?_⟩
    rw [after_of_error hrun] at hfirst
    simpa [after, hrun] using hfirst
  | ok a m' =>
    rw [after_of_ok hrun] at hfirst
    obtain ⟨second, hsecond⟩ := hf a m'
    refine ⟨first ++ second, ?_⟩
    rw [HostAction.performAll_append, ← hfirst, ← hsecond]
    simp [after, hrun]

theorem pure (a : α) : ByHost program (Pure.pure a) := of_unchanged fun _ => rfl

theorem throw (e : Fault) : ByHost program (MonadExcept.throw e : Act κ α) :=
  of_unchanged fun _ => rfl

theorem push (v : Value) : ByHost program (Act.push v) := of_action (.push v) fun _ => rfl

theorem pop : ByHost program (Act.pop : Act κ Value) := of_action .pop (after_pop program)

theorem popValues (count : Nat) : ByHost program (Act.popValues count : Act κ (List Value)) :=
  of_action (.popValues count) fun m => (after_discard _ m).symm

theorem call (assembly : Nat) (method : Token) :
    ByHost program (Act.call program assembly method) :=
  of_action (.call assembly method) fun m => (after_discard _ m).symm

theorem returnFromFrame : ByHost program (Act.returnFromFrame : Act κ Unit) :=
  of_action .ret fun _ => rfl

theorem writeSlot (role : SlotRole) (index : Nat) (v : Value) :
    ByHost program (Act.writeSlot role index v) :=
  of_action (.write role index v) fun _ => rfl

theorem setIp (ip : Nat) : ByHost program (HostAction.perform program (.setIp ip)) :=
  of_action (.setIp ip) fun _ => rfl

theorem readSlot (role : SlotRole) (index : Nat) :
    ByHost program (Act.readSlot role index : Act κ Value) :=
  of_unchanged (after_readSlot role index)

theorem closed : HostClosed program (ByHost program) fun _ => True where
  pure := pure
  throw := throw
  bind hx _ hf := hx.bind hf
  map _ hx := hx.bind fun _ => pure _
  see y hy h := by
    intro m
    obtain ⟨actions, hactions⟩ := hy (m.thread.top?.map Frame.looked) m
    exact ⟨actions, by rw [← hactions, after, h m, after]⟩
  push v := ⟨push v, trivial⟩
  pop := ⟨pop, trivial⟩
  popValues count := ⟨popValues count, trivial⟩
  readSlot role index := ⟨readSlot role index, trivial⟩
  setIp ip := ⟨setIp ip, trivial⟩
  call := call
  returnFromFrame := returnFromFrame
  writeSlot := writeSlot

end Act.ByHost

namespace Instruction

open Act

variable {program : Program κ} {P First : {α : Type} → Act κ α → Prop}

/-- Where a jump goes is told by what is looked at. -/
theorem jump_closed (h : HostClosed program P First) (offset : Int) :
    P (jump offset : Act κ Unit) := by
  refine h.look (fun v => if (v.ip : Int) + offset < 0 then throw (.host "branch out of code")
    else HostAction.perform program (.setIp ((v.ip : Int) + offset).toNat)) (fun v => ?_)
    fun m f rest htop => ?_
  · split
    · exact h.throw _
    · exact (h.setIp _).1
  · by_cases hout : (f.ip : Int) + offset < 0
    · simp [Frame.looked, hout]
    · simp [Frame.looked, hout, HostAction.perform, Transition.topFrame_eq htop]

theorem perform_closed (h : HostClosed program P First) {reenterStep : Act κ Bool}
    (hstep : P reenterStep) (hfirst : First reenterStep) (instruction : Instruction) :
    P (instruction.perform program reenterStep) := by
  cases instruction with
  | nop => exact h.pure ()
  | yield => exact h.pure ()
  | load role index =>
    obtain ⟨hread, hfirst⟩ := h.readSlot role index
    exact h.bind hread hfirst fun v => (h.push v).1
  | store role index => exact h.bind h.pop.1 h.pop.2 (h.writeSlot role index)
  | push v => exact (h.push v).1
  | dup =>
    refine h.bind h.pop.1 h.pop.2 fun v => ?_
    exact h.bind (h.push v).1 (h.push v).2 fun _ => (h.push v).1
  | pop => exact h.map (fun _ => ()) h.pop.1
  | call token =>
    refine h.look (fun v => v.executing.elim (throw (.incompleteFrame v.id .executingAssembly))
      fun executing => Act.call program executing token >>= fun _ => pure ()) (fun v => ?_)
      fun m f rest htop => ?_
    · cases v.executing with
      | none => exact h.throw _
      | some executing => exact h.map (fun _ => ()) (h.call executing token)
    · cases hexecuting : f.executing with
      | none => simp [Frame.looked, hexecuting]
      | some executing => simp [Frame.looked, hexecuting]
  | ret => exact h.returnFromFrame
  | branch offset => exact jump_closed h offset
  | branchTrue offset =>
    refine h.bind h.pop.1 h.pop.2 fun v => ?_
    cases v.truth? with
    | none => exact h.throw _
    | some taken =>
      cases taken with
      | true => exact jump_closed h offset
      | false => exact h.pure ()
  | arithmetic op =>
    refine h.bind (h.popValues 2).1 (h.popValues 2).2 fun vs => ?_
    match vs with
    | [a, b] =>
      dsimp only
      cases op.combine? a b with
      | none => exact h.throw _
      | some v => exact (h.push v).1
    | [] => exact h.throw _
    | [_] => exact h.throw _
    | _ :: _ :: _ :: _ => exact h.throw _
  | reenter => exact h.bind hstep hfirst fun _ => (h.push _).1

/-- Executing an instruction has every property that is closed under what instructions do. -/
theorem execute_closed (h : HostClosed program P First) {reenterStep : Act κ Bool}
    (hstep : P reenterStep) (hfirst : First reenterStep) : P (execute program reenterStep) := by
  refine h.look (fun v =>
    match decode (v.code.drop v.ip) with
    | .error e => throw e
    | .ok (instruction, size) => do
      HostAction.perform program (.setIp (v.ip + size))
      instruction.perform program reenterStep
      pure (instruction != yield)) (fun v => ?_) fun m f rest htop => ?_
  · cases decode (v.code.drop v.ip) with
    | error e => exact h.throw e
    | ok decoded =>
      exact h.bind (h.setIp _).1 (h.setIp _).2 fun _ =>
        h.map _ (perform_closed h hstep hfirst decoded.1)
  · cases hdecode : decode (f.code.drop f.ip) with
    | error e => simp [Frame.looked, hdecode]
    | ok decoded =>
      simp [Frame.looked, hdecode, HostAction.perform, Transition.topFrame_eq htop]

theorem execute_byHost {reenterStep : Act κ Bool} (hstep : ByHost program reenterStep) :
    ByHost program (execute program reenterStep) := execute_closed ByHost.closed hstep trivial

end Instruction

/-- The interpreter without stepping from inside. Its native members are functions. -/
def Interpreter.plainContext (program : Program Empty) (config : Config)
    (decoder : SignatureDecoder) : Context Empty where
  program := program
  config := config
  decodeMethod := decoder.method
  decodeLocals := decoder.locals
  execute := Instruction.execute program (throw (.unfinished 0))
  poll := fun call _ => nomatch call
  patience := Interpreter.patience

theorem Interpreter.plainContext_disciplined (program : Program Empty) (config : Config)
    (decoder : SignatureDecoder) : (plainContext program config decoder).Disciplined where
  execute := Instruction.execute_byHost (.throw _)
  poll := fun call _ => nomatch call

namespace Interpreter

/-- An assembly with one method, which takes a number, has a zeroed local and
returns at once, and a reference to a member of another assembly. -/
def smallAssembly : Assembly Empty :=
  (AssemblyBuilder.new "App"
    |>.standAloneSig [0x07, 0x01, 0x0A]
    |>.assemblyRef "Lib"
    |>.typeRef ⟨.assemblyRef, 1⟩ "Lib" "Host"
    |>.memberRef ⟨.typeRef, 1⟩ "poll" [0x00, 0x00, 0x01]
    |>.methodDef [0x00, 0x01, 0x01, 0x08] 0x12 (Token.ofParts 0x11 1) [0x2A]).build

def smallMethod : Token := Token.ofParts 0x06 1

def smallMember : Token := Token.ofParts 0x0A 1

/-- The interpreter with the small assembly alone. -/
def smallContext (config : Config) : Context Empty :=
  plainContext [smallAssembly] config SignatureDecoder.standard

end Interpreter

end ManagedCalls
