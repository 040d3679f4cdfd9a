import ManagedCalls.Proofs.InterpreterDiscipline
import ManagedCalls.Proofs.Renaming

/-!
What a host can tell about the thread it works on, without the names of handles: the
operand stack, the topmost frame and the values that its slots read. A host acts on
sight if these decide what comes of its work and which actions it takes on the thread.
Computations on sight can be combined, and the interpreter, as long as it does not
step its own thread, consists of such computations.
-/

namespace ManagedCalls

open Stateful Pool

variable {κ α β : Type}

/-- The pool has the storage of the thread, beside that of others. -/
def Machine.InOrder (m : Machine κ) : Prop :=
  ∃ budget others, Holds (Pool.empty budget) m.domain.pool (m.thread.holdings ++ others)

/-- The value of a slot of the topmost frame. -/
def Thread.readTop (t : Thread κ) (p : Pool) (role : SlotRole) (index : Nat) :
    Except Fault Value :=
  match t.top? with
  | some f => f.readSlot p role index
  | none => .error .emptyCallStack

/-- A thread as its host sees it. The slots of the topmost frame are without handles. -/
structure Sight (κ : Type) where
  thread : Nat
  nextFrame : Nat
  operands : List Value
  top : Option (Frame κ)
  read : SlotRole → Nat → Except Fault Value

def Machine.sight (m : Machine κ) : Sight κ where
  thread := m.thread.id
  nextFrame := m.thread.nextFrame
  operands := m.thread.operands
  top := m.thread.top?.map (Frame.rename fun _ => 0)
  read := m.thread.readTop m.domain.pool

/-- Not an action on the domain. -/
def HostAction.isOnThread : HostAction → Bool
  | domain _ => false
  | _ => true

/-- What comes of some work and the actions it takes, for all that can be seen. -/
abbrev Plan (κ α : Type) : Type := Sight κ → Except Fault α × List HostAction

/-- The outcome and the actions are a function of what the host sees. -/
def Act.OnSight (program : Program κ) (x : Act κ α) : Prop :=
  ∃ plan : Plan κ α, ∀ m : Machine κ, m.InOrder →
    (∀ a ∈ (plan m.sight).2, a.isOnThread = true) ∧
    outcome x m = (plan m.sight).1 ∧
    after x m = HostAction.performAll program (plan m.sight).2 m

/-- Executing an instruction and polling a call of the host, whose own state is part
of the call, are decided by what the host sees. -/
structure Context.ActsOnSight (ctx : Context κ) : Prop where
  disciplined : ctx.Disciplined
  execute : ctx.execute.OnSight ctx.program
  poll : ∀ call, (Transition.pollCall ctx (.custom call)).OnSight ctx.program

/-- What is seen afterwards is a function of what was seen before. -/
def Act.Foreseen (x : Act κ α) : Prop :=
  ∃ next : Sight κ → Sight κ, ∀ m : Machine κ, (after x m).sight = next m.sight

/-- One plan after another, which sees what the first one leaves to see. -/
def Plan.andThen (first : Plan κ α) (next : Sight κ → Sight κ) (second : α → Plan κ β) :
    Plan κ β := fun s =>
  match (first s).1 with
  | .error e => (.error e, (first s).2)
  | .ok a => ((second a (next s)).1, (first s).2 ++ (second a (next s)).2)

/-- Whether a slot takes the value, told from the type of the slot alone. -/
def Slot.accepts (v : Value) : Slot → Except Fault Unit
  | pooled _ type =>
    if (Storage.encode? type v).isSome then .ok () else .error (.typeMismatch type v)
  | _ => .ok ()

theorem Machine.InOrder.performAll {m : Machine κ} (h : m.InOrder) (program : Program κ)
    (actions : List HostAction) : (HostAction.performAll program actions m).InOrder := by
  obtain ⟨budget, others, hholds⟩ := h
  exact ⟨budget, others, HostAction.performAll_holds program actions m hholds⟩

theorem Machine.InOrder.setTop {m : Machine κ} (h : m.InOrder) {f g : Frame κ}
    {rest : List (Frame κ)} (htop : m.thread.frames = f :: rest) (hg : g.holdings = f.holdings) :
    Machine.InOrder { m with thread := m.thread.setTop g } := by
  obtain ⟨budget, others, hholds⟩ := h
  refine ⟨budget, others, ?_⟩
  rw [Thread.holdings_of_top htop, ← hg] at hholds
  rw [Thread.setTop, Thread.holdings_of_top rfl, htop, List.tail_cons]
  exact hholds

namespace Act.OnSight

variable {program : Program κ}

theorem of_unchanged {x : Act κ α} (r : Sight κ → Except Fault α)
    (hr : ∀ m, outcome x m = r m.sight) (hafter : ∀ m, after x m = m) : OnSight program x :=
  ⟨fun s => (r s, []), fun m _ => ⟨fun _ ha => (List.not_mem_nil ha).elim, hr m, hafter m⟩⟩

theorem of_action {x : Act κ α} (a : HostAction) (ha : a.isOnThread = true)
    (r : Sight κ → Except Fault α) (hr : ∀ m : Machine κ, m.InOrder → outcome x m = r m.sight)
    (hafter : ∀ m, after x m = after (a.perform program) m) : OnSight program x := by
  refine ⟨fun s => (r s, [a]), fun m hm => ⟨?_, hr m hm, hafter m⟩⟩
  intro b hb
  rw [List.mem_singleton.mp hb]
  exact ha

theorem bind {x : Act κ α} {f : α → Act κ β} (hx : OnSight program x) (hnext : Foreseen x)
    (hf : ∀ a, OnSight program (f a)) : OnSight program (x >>= f) := by
  obtain ⟨first, hfirst⟩ := hx
  obtain ⟨next, hnext⟩ := hnext
  choose second hsecond using hf
  refine ⟨first.andThen next second, fun m hm => ?_⟩
  obtain ⟨hthread, houtcome, hafter⟩ := hfirst m hm
  cases hrun : x m with
  | error e m' =>
    rw [outcome_of_error hrun] at houtcome
    rw [after_of_error hrun] at hafter
    have hplan : first.andThen next second m.sight = (.error e, (first m.sight).2) := by
      simp only [Plan.andThen, ← houtcome]
    rw [hplan]
    refine ⟨hthread, by simp [outcome, hrun], ?_⟩
    rw [after_bind_of_error hrun]
    exact hafter
  | ok a m' =>
    have hseen := hnext m
    rw [outcome_of_ok hrun] at houtcome
    rw [after_of_ok hrun] at hafter hseen
    have hplan : first.andThen next second m.sight = ((second a (next m.sight)).1,
        (first m.sight).2 ++ (second a (next m.sight)).2) := by
      simp only [Plan.andThen, ← houtcome]
    have hm' : m'.InOrder := by
      rw [hafter]
      exact hm.performAll program _
    obtain ⟨hthread', houtcome', hafter'⟩ := hsecond a m' hm'
    rw [hseen] at hthread' houtcome' hafter'
    rw [hplan]
    refine ⟨?_, ?_, ?_⟩
    · intro b hb
      rcases List.mem_append.mp hb with hb | hb
      · exact hthread b hb
      · exact hthread' b hb
    · rw [← houtcome']
      simp [outcome, hrun]
    · rw [after_bind_of_ok hrun, hafter', hafter, HostAction.performAll_append]

/-- Nothing is done after the last action. -/
theorem map {x : Act κ α} (hx : OnSight program x) (f : α → β) :
    OnSight program (x >>= fun a => Pure.pure (f a)) := by
  obtain ⟨plan, hplan⟩ := hx
  refine ⟨fun s => ((plan s).1.map f, (plan s).2), fun m hm => ?_⟩
  obtain ⟨hthread, houtcome, hafter⟩ := hplan m hm
  refine ⟨hthread, ?_, ?_⟩
  · dsimp only
    rw [← houtcome]
    cases hrun : x m with
    | ok a m' => simp [outcome, hrun, Except.map]
    | error e m' => simp [outcome, hrun, Except.map]
  · dsimp only
    rw [← hafter]
    cases hrun : x m with
    | ok a m' => simp [after, hrun]
    | error e m' => simp [after, hrun]

theorem pure (a : α) : OnSight program (Pure.pure a) :=
  of_unchanged (fun _ => .ok a) (fun _ => rfl) fun _ => rfl

theorem throw (e : Fault) : OnSight program (MonadExcept.throw e : Act κ α) :=
  of_unchanged (fun _ => .error e) (fun _ => rfl) fun _ => rfl

theorem lift_bind (x : Except Fault α) {f : α → Act κ β} (hf : ∀ a, OnSight program (f a)) :
    OnSight program (Act.lift x >>= f) := by
  cases x with
  | ok a => exact hf a
  | error e => exact throw e

/-- Going on with what is seen. -/
theorem see {x : Act κ α} (y : Sight κ → Act κ α) (hy : ∀ s, OnSight program (y s))
    (h : ∀ m, x m = y m.sight m) : OnSight program x := by
  choose plan hplan using hy
  refine ⟨fun s => plan s s, fun m hm => ?_⟩
  obtain ⟨hthread, houtcome, hafter⟩ := hplan m.sight m hm
  unfold outcome at houtcome ⊢
  unfold after at hafter ⊢
  rw [h]
  exact ⟨hthread, houtcome, hafter⟩

theorem push (v : Value) : OnSight program (Act.push v) :=
  of_action (.push v) rfl (fun _ => .ok ()) (fun _ _ => rfl) fun _ => rfl

theorem note (e : Event) : OnSight program (Act.note e) :=
  of_action (.note e) rfl (fun _ => .ok ()) (fun _ _ => rfl) fun _ => rfl

theorem pop : OnSight program (Act.pop : Act κ Value) := by
  refine of_action .pop rfl (fun s => s.operands.head?.elim (.error (.stackUnderflow 1 0)) .ok)
    (fun m _ => ?_) (after_pop program)
  cases hvalues : m.thread.operands with
  | nil => simp [outcome, Act.pop, Thread.pop, Machine.sight, hvalues]
  | cons v rest => simp [outcome, Act.pop, Thread.pop, Machine.sight, hvalues, Act.setThread]

theorem popValues (count : Nat) : OnSight program (Act.popValues count : Act κ (List Value)) := by
  refine of_action (.popValues count) rfl (fun s =>
    if count ≤ s.operands.length then .ok (s.operands.take count).reverse
    else .error (.stackUnderflow count s.operands.length)) (fun m _ => ?_)
    fun m => (after_discard _ m).symm
  by_cases hle : count ≤ m.thread.operands.length
  · simp [outcome, Act.popValues, Thread.popValues, Machine.sight, hle, Act.setThread]
  · simp [outcome, Act.popValues, Thread.popValues, Machine.sight, hle]

theorem call (assembly : Nat) (method : Token) :
    OnSight program (Act.call program assembly method) :=
  of_action (.call assembly method) rfl (fun s => .ok s.nextFrame) (fun _ _ => rfl)
    fun m => (after_discard _ m).symm

theorem returnFromFrame : OnSight program (Act.returnFromFrame : Act κ Unit) := by
  refine of_action .ret rfl (fun s => s.top.elim (.error .emptyCallStack) fun v =>
    if v.state = .interpretedExec then .ok ()
    else .error (.invalidPhase v.id .interpretedExec v.phase)) (fun m _ => ?_) fun _ => rfl
  cases htop : m.thread.frames with
  | nil =>
    simp [outcome, Act.returnFromFrame, Thread.returnFromFrame, Machine.sight, Thread.top?, htop]
  | cons f rest =>
    by_cases hstate : f.state = .interpretedExec
    · simp [outcome, Act.returnFromFrame, Thread.returnFromFrame, Machine.sight, Thread.top?, htop,
        hstate, Frame.rename, Act.setThread]
    · simp [outcome, Act.returnFromFrame, Thread.returnFromFrame, Machine.sight, Thread.top?, htop,
        hstate, Frame.rename, Frame.phase]

theorem setIp (ip : Nat) : OnSight program (HostAction.perform program (.setIp ip)) := by
  refine of_action (.setIp ip) rfl (fun s => s.top.elim (.error .emptyCallStack) fun _ => .ok ())
    (fun m _ => ?_) fun _ => rfl
  cases htop : m.thread.frames with
  | nil => simp [outcome, HostAction.perform, Act.topFrame, Machine.sight, Thread.top?, htop]
  | cons f rest =>
    simp [outcome, HostAction.perform, Transition.topFrame_eq htop, Machine.sight, Thread.top?,
      htop, Act.setTop]

theorem readSlot (role : SlotRole) (index : Nat) :
    OnSight program (Act.readSlot role index : Act κ Value) := by
  refine of_unchanged (fun s => s.read role index) (fun m => ?_) (after_readSlot role index)
  cases htop : m.thread.frames with
  | nil =>
    simp [outcome, Act.readSlot, Act.topFrame, Machine.sight, Thread.readTop, Thread.top?, htop]
  | cons f rest =>
    cases hread : f.readSlot m.domain.pool role index with
    | error e =>
      simp [outcome, Act.readSlot, Transition.topFrame_eq htop, Machine.sight, Thread.readTop,
        Thread.top?, htop, hread]
    | ok v =>
      simp [outcome, Act.readSlot, Transition.topFrame_eq htop, Machine.sight, Thread.readTop,
        Thread.top?, htop, hread]

/-- A store is refused if the type of its slot refuses it: cells have the types of
their slots. -/
theorem writeSlot (role : SlotRole) (index : Nat) (v : Value) :
    OnSight program (Act.writeSlot role index v) := by
  refine of_action (.write role index v) rfl (fun s => s.top.elim (.error .emptyCallStack) fun f =>
    (f.slots role)[index]?.elim (.error (.slotOutOfRange f.id role index (f.slots role).length))
      (Slot.accepts v)) (fun m hm => ?_) fun _ => rfl
  cases htop : m.thread.frames with
  | nil => simp [outcome, Act.writeSlot, Act.topFrame, Machine.sight, Thread.top?, htop]
  | cons f rest =>
    have hframe := Transition.topFrame_eq htop
    cases hslot : (f.slots role)[index]? with
    | none =>
      simp [outcome, Act.writeSlot, hframe, Machine.sight, Thread.top?, htop, Frame.writeSlot,
        hslot, Frame.slots_rename]
      rfl
    | some slot =>
      cases slot with
      | inline old =>
        simp [outcome, Act.writeSlot, hframe, Machine.sight, Thread.top?, htop, Frame.writeSlot,
          hslot, Frame.slots_rename, Slot.rename, Slot.accepts, Slot.write, Except.map, Act.setTop,
          Act.setPool]
      | pending type =>
        simp [outcome, Act.writeSlot, hframe, Machine.sight, Thread.top?, htop, Frame.writeSlot,
          hslot, Frame.slots_rename, Slot.rename, Slot.accepts, Slot.write, Except.map, Act.setTop,
          Act.setPool]
      | pooled handle type =>
        obtain ⟨budget, others, hholds⟩ := hm
        have hmem : ⟨handle, type, role⟩ ∈ m.thread.holdings ++ others := by
          rw [Thread.holdings_of_top htop, List.append_assoc]
          exact List.mem_append_left _ (Frame.mem_holdings.mpr (List.mem_of_getElem? hslot))
        obtain ⟨c, hfind, hholding⟩ := hholds.find? hmem
        have htype : c.type = type := congrArg Holding.type hholding
        cases hbytes : Storage.encode? type v with
        | none =>
          have hstore : m.domain.pool.store handle v = .error (.typeMismatch type v) := by
            simp [Pool.store, hfind, htype, hbytes]
          simp [outcome, Act.writeSlot, hframe, Machine.sight, Thread.top?, htop, Frame.writeSlot,
            hslot, Frame.slots_rename, Slot.rename, Slot.accepts, Slot.write, hstore, Except.map,
            hbytes]
        | some bytes =>
          obtain ⟨p, hstore⟩ : ∃ p, m.domain.pool.store handle v = .ok p :=
            ⟨_, by simp [Pool.store, hfind, htype, hbytes]; rfl⟩
          simp [outcome, Act.writeSlot, hframe, Machine.sight, Thread.top?, htop, Frame.writeSlot,
            hslot, Frame.slots_rename, Slot.rename, Slot.accepts, Slot.write, hstore, Except.map,
            hbytes, Act.setTop, Act.setPool]

end Act.OnSight

namespace Act.Foreseen

theorem of_unchanged {x : Act κ α} (h : ∀ m, after x m = m) : Foreseen x :=
  ⟨id, fun m => congrArg Machine.sight (h m)⟩

/-- Only the operand stack changes, by what is on it. -/
theorem of_operands {x : Act κ α} (change : List Value → List Value)
    (h : ∀ m, ∃ log, after x m =
      { m with thread := { m.thread with operands := change m.thread.operands }, log }) :
    Foreseen x := by
  refine ⟨fun s => { s with operands := change s.operands }, fun m => ?_⟩
  obtain ⟨log, hafter⟩ := h m
  rw [hafter]
  rfl

theorem push (v : Value) : Foreseen (Act.push v : Act κ Unit) :=
  of_operands (v :: ·) fun m => ⟨m.log, rfl⟩

theorem note (e : Event) : Foreseen (Act.note e : Act κ Unit) :=
  of_operands id fun m => ⟨m.log.add e, rfl⟩

theorem pop (program : Program κ) : Foreseen (Act.pop : Act κ Value) :=
  of_operands List.tail fun m => ⟨m.log, after_pop program m⟩

theorem popValues (count : Nat) : Foreseen (Act.popValues count : Act κ (List Value)) := by
  refine of_operands (fun vs => if count ≤ vs.length then vs.drop count else vs) fun m =>
    ⟨m.log, ?_⟩
  by_cases hle : count ≤ m.thread.operands.length
  · simp [after, Act.popValues, Thread.popValues, hle, Act.setThread]
  · simp [after, Act.popValues, Thread.popValues, hle]

theorem readSlot (role : SlotRole) (index : Nat) :
    Foreseen (Act.readSlot role index : Act κ Value) := of_unchanged (after_readSlot role index)

theorem setIp (program : Program κ) (ip : Nat) :
    Foreseen (HostAction.perform program (.setIp ip)) := by
  refine ⟨fun s => { s with top := s.top.map fun v => { v with ip } }, fun m => ?_⟩
  cases htop : m.thread.frames with
  | nil => simp [after, HostAction.perform, Act.topFrame, Machine.sight, Thread.top?, htop]
  | cons f rest =>
    have hafter : after (HostAction.perform program (.setIp ip)) m =
        { m with thread := { m.thread with frames := { f with ip } :: rest } } := by
      simp [after, HostAction.perform, Transition.topFrame_eq htop, Act.setTop, Thread.setTop, htop]
    have hseen : m.thread.top? = some f := by rw [Thread.top?, htop, List.head?_cons]
    have hread : m.thread.readTop m.domain.pool = f.readSlot m.domain.pool := by
      funext role index
      rw [Thread.readTop, hseen]
    rw [hafter, Machine.sight, Machine.sight, hread, hseen]
    rfl

end Act.Foreseen

namespace Transition

open Act

/-- A plain function looks at its arguments only. -/
theorem pollFunction_onSight (program : Program κ) (run : NativeFunction) (argumentCount : Nat) :
    OnSight program (pollFunction run argumentCount : Act κ NativeStatus) := by
  refine (OnSight.popValues _).bind (.popValues _) fun arguments => ?_
  refine .lift_bind _ fun result => ?_
  cases result with
  | none =>
    refine .see (fun s => Act.note (.nativeReturned s.thread arguments.length none) >>=
      fun _ => pure .complete) (fun s => ?_) fun m => rfl
    exact (OnSight.note _).map fun _ => NativeStatus.complete
  | some v =>
    refine .see (fun s => Act.note (.nativeReturned s.thread arguments.length (some v)) >>=
      fun _ => Act.push v >>= fun _ => pure .complete) (fun s => ?_) fun m => rfl
    exact (OnSight.note _).bind (.note _) fun _ =>
      (OnSight.push v).map fun _ => NativeStatus.complete

theorem pollCall_onSight {ctx : Context κ} (hctx : ctx.ActsOnSight) (call : NativeCall κ) :
    OnSight ctx.program (pollCall ctx call) := by
  cases call with
  | custom c => exact hctx.poll c
  | function run argumentCount =>
    obtain ⟨plan, hplan⟩ := pollFunction_onSight ctx.program run argumentCount
    refine ⟨fun s => (.ok ((plan s).1, .function run argumentCount), (plan s).2), fun m hm => ?_⟩
    obtain ⟨hthread, houtcome, hafter⟩ := hplan m hm
    dsimp only
    rw [← houtcome, ← hafter]
    refine ⟨hthread, ?_, ?_⟩
    · cases hrun : (pollFunction run argumentCount : Act κ NativeStatus) m with
      | ok status m' => simp [outcome, pollCall, hrun]
      | error e m' => simp [outcome, pollCall, hrun]
    · cases hrun : (pollFunction run argumentCount : Act κ NativeStatus) m with
      | ok status m' => simp [after, pollCall, hrun]
      | error e m' => simp [after, pollCall, hrun]

end Transition

theorem Act.OnSight.closed {program : Program κ} :
    HostClosed program (OnSight program) Foreseen where
  pure := pure
  throw := throw
  bind := bind
  map f hx := hx.map f
  see y hy h := by
    refine see (fun s => y (s.top.map Frame.looked)) (fun s => hy _) fun m => ?_
    rw [h, Machine.sight, Option.map_map]
    rfl
  push v := ⟨push v, .push v⟩
  pop := ⟨pop, .pop program⟩
  popValues count := ⟨popValues count, .popValues count⟩
  readSlot role index := ⟨readSlot role index, .readSlot role index⟩
  setIp ip := ⟨setIp ip, .setIp program ip⟩
  call := call
  returnFromFrame := returnFromFrame
  writeSlot := writeSlot

theorem Instruction.execute_onSight {program : Program κ} {reenterStep : Act κ Bool}
    (hstep : reenterStep.OnSight program) (hnext : reenterStep.Foreseen) :
    (execute program reenterStep).OnSight program := execute_closed Act.OnSight.closed hstep hnext

theorem Interpreter.plainContext_actsOnSight (program : Program Empty) (config : Config)
    (decoder : SignatureDecoder) : (plainContext program config decoder).ActsOnSight where
  disciplined := plainContext_disciplined program config decoder
  execute := Instruction.execute_onSight (.throw _) (.of_unchanged fun _ => rfl)
  poll := fun call => nomatch call

end ManagedCalls
