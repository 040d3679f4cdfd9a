import ManagedCalls.Proofs.InterpreterDiscipline

/-!
Nothing is decided by a log. An action that does not look at the log does the same
to the thread and the domain whatever was logged before, and only the log it leaves is
another one. Transitions are such actions if the host's ways to execute instructions
and to poll native calls are, and those of the interpreter are.
-/

namespace ManagedCalls

open Stateful

variable {κ α β : Type}

/-- A result with another log. -/
def Act.relog (log : Log) :
    EStateM.Result Fault (Machine κ) α → EStateM.Result Fault (Machine κ) α
  | .ok a m => .ok a { m with log }
  | .error e m => .error e { m with log }

/-- Another log before an action makes another log after it, and no other difference. -/
def Act.LogBlind (x : Act κ α) : Prop :=
  ∀ (m : Machine κ) (log : Log), ∃ log', x { m with log } = relog log' (x m)

namespace Act.LogBlind

theorem pure (a : α) : LogBlind (Pure.pure a : Act κ α) := fun _ log => ⟨log, rfl⟩

theorem throw (e : Fault) : LogBlind (MonadExcept.throw e : Act κ α) := fun _ log => ⟨log, rfl⟩

theorem lift (x : Except Fault α) : LogBlind (Act.lift x : Act κ α) := by
  intro m log
  cases x with
  | ok a => exact ⟨log, rfl⟩
  | error e => exact ⟨log, rfl⟩

theorem bind {x : Act κ α} {f : α → Act κ β} (hx : LogBlind x) (hf : ∀ a, LogBlind (f a)) :
    LogBlind (x >>= f) := by
  intro m log
  obtain ⟨log₁, hfirst⟩ := hx m log
  cases hrun : x m with
  | error e m₁ =>
    rw [hrun] at hfirst
    exact ⟨log₁, by rw [bind_apply, bind_apply, hrun, hfirst]; rfl⟩
  | ok a m₁ =>
    rw [hrun] at hfirst
    obtain ⟨log₂, hsecond⟩ := hf a m₁ log₁
    refine ⟨log₂, ?_⟩
    rw [bind_apply, bind_apply, hrun, hfirst]
    exact hsecond

/-- Going on with what was read of the thread and the domain. -/
theorem read {f : Machine κ → Act κ α} (hsame : ∀ m log, f { m with log } = f m)
    (hf : ∀ m, LogBlind (f m)) : LogBlind (get >>= f) := by
  intro m log
  have hread (m : Machine κ) : (get >>= f) m = f m m := rfl
  rw [hread, hread, hsame]
  exact hf m m log

theorem modify {f : Machine κ → Machine κ}
    (h : ∀ m log, ∃ log', f { m with log } = { f m with log := log' }) :
    LogBlind (modify f : Act κ PUnit) := by
  intro m log
  obtain ⟨log', hsame⟩ := h m log
  exact ⟨log', by rw [modify_apply, modify_apply, hsame]; rfl⟩

theorem note (e : Event) : LogBlind (Act.note e : Act κ Unit) :=
  modify fun _ log => ⟨log.add e, rfl⟩

theorem noteAll (es : List Event) : LogBlind (Act.noteAll es : Act κ Unit) :=
  modify fun _ log => ⟨log.addAll es, rfl⟩

theorem setThread (t : Thread κ) : LogBlind (Act.setThread t) := modify fun _ log => ⟨log, rfl⟩

theorem setPool (p : Pool) : LogBlind (Act.setPool p : Act κ Unit) :=
  modify fun _ log => ⟨log, rfl⟩

theorem setTop (f : Frame κ) : LogBlind (Act.setTop f) := modify fun _ log => ⟨log, rfl⟩

theorem push (v : Value) : LogBlind (Act.push v : Act κ Unit) := modify fun _ log => ⟨log, rfl⟩

theorem topFrame : LogBlind (Act.topFrame : Act κ (Frame κ)) := by
  refine read (fun _ _ => rfl) fun m => ?_
  cases m.thread.top? with
  | some frame => exact pure frame
  | none => exact throw _

theorem pop : LogBlind (Act.pop : Act κ Value) := by
  refine read (fun _ _ => rfl) fun m => ?_
  match m.thread.pop with
  | (some v, t) => exact (setThread t).bind fun _ => pure v
  | (none, t) => exact throw _

theorem popValues (count : Nat) : LogBlind (Act.popValues count : Act κ (List Value)) :=
  read (fun _ _ => rfl) fun _ => (lift _).bind fun _ => (setThread _).bind fun _ => pure _

theorem call (program : Program κ) (assembly : Nat) (method : Token) :
    LogBlind (Act.call program assembly method) :=
  read (fun _ _ => rfl) fun _ => (note _).bind fun _ => (setThread _).bind fun _ => pure _

theorem returnFromFrame : LogBlind (Act.returnFromFrame : Act κ Unit) :=
  read (fun _ _ => rfl) fun _ => (lift _).bind fun t => setThread t

theorem readSlot (role : SlotRole) (index : Nat) :
    LogBlind (Act.readSlot role index : Act κ Value) :=
  topFrame.bind fun _ => read (fun _ _ => rfl) fun _ => lift _

theorem writeSlot (role : SlotRole) (index : Nat) (v : Value) :
    LogBlind (Act.writeSlot role index v : Act κ Unit) :=
  topFrame.bind fun _ => read (fun _ _ => rfl) fun _ =>
    (lift _).bind fun _ => (setTop _).bind fun _ => setPool _

theorem setIp (program : Program κ) (ip : Nat) :
    LogBlind (HostAction.perform program (.setIp ip)) := topFrame.bind fun _ => setTop _

theorem closed {program : Program κ} : HostClosed program LogBlind fun _ => True where
  pure := pure
  throw := throw
  bind hx _ hf := hx.bind hf
  map _ hx := hx.bind fun _ => pure _
  see y hy h := by
    intro m log
    rw [h, h]
    exact hy _ m log
  push v := ⟨push v, trivial⟩
  pop := ⟨pop, trivial⟩
  popValues count := ⟨popValues count, trivial⟩
  readSlot role index := ⟨readSlot role index, trivial⟩
  setIp ip := ⟨setIp program ip, trivial⟩
  call := call program
  returnFromFrame := returnFromFrame
  writeSlot := writeSlot

end Act.LogBlind

/-- The host looks at the thread and the domain only. -/
structure Context.IgnoresLog (ctx : Context κ) : Prop where
  execute : ctx.execute.LogBlind
  poll : ∀ call, (Transition.pollCall ctx (.custom call)).LogBlind

namespace Transition

open Act

variable {ctx : Context κ}

theorem resolveBody_logBlind (ctx : Context κ) (frame : Frame κ) :
    LogBlind (resolveBody ctx frame) :=
  .read (fun _ _ => rfl) fun _ => (LogBlind.lift _).bind fun _ => (LogBlind.note _).bind fun _ =>
    (LogBlind.setTop _).bind fun _ => .pure _

theorem resolveMember_logBlind (ctx : Context κ) (frame : Frame κ) (row : Nat) :
    LogBlind (resolveMember ctx frame row) := by
  refine .read (fun _ _ => rfl) fun m => (LogBlind.lift _).bind fun target => ?_
  refine (LogBlind.lift _).bind fun found => ?_
  refine (LogBlind.modify fun _ log => ⟨log, rfl⟩).bind fun _ => ?_
  exact (LogBlind.noteAll _).bind fun _ => (LogBlind.note _).bind fun _ =>
    (LogBlind.setTop _).bind fun _ => .pure _

theorem resolve_logBlind (ctx : Context κ) : LogBlind (resolve ctx) := by
  have hcheck : LogBlind (checkDepth ctx) := by
    refine .read (fun _ _ => rfl) fun m => ?_
    dsimp only
    split
    · exact .throw _
    · exact .pure _
  refine hcheck.bind fun _ => LogBlind.topFrame.bind fun frame => ?_
  cases frame.method.kind with
  | methodDef row => exact resolveBody_logBlind ctx frame
  | memberRef row => exact resolveMember_logBlind ctx frame row
  | _ => exact .throw _

theorem awaitAssembly_logBlind (ctx : Context κ) (ticket : Nat) :
    LogBlind (awaitAssembly ctx ticket) := by
  refine LogBlind.topFrame.bind fun frame => .read (fun _ _ => rfl) fun m => ?_
  refine (LogBlind.modify fun _ log => ⟨log, rfl⟩).bind fun _ => ?_
  refine (LogBlind.noteAll _).bind fun _ => (LogBlind.lift _).bind fun result => ?_
  cases result with
  | none => exact .pure _
  | some assembly =>
    exact (LogBlind.note _).bind fun _ => (LogBlind.setTop _).bind fun _ => .pure _

theorem bindNative_logBlind (ctx : Context κ) : LogBlind (bindNative ctx) := by
  refine LogBlind.topFrame.bind fun frame => ?_
  cases frame.executing with
  | none => exact .throw _
  | some executing =>
    cases frame.target with
    | none => exact .throw _
    | some target =>
      cases hnative : (ctx.program.assembly executing).native with
      | none => simpa only [hnative] using LogBlind.throw _
      | some library =>
        simp only [hnative]
        exact (LogBlind.lift _).bind fun _ => (LogBlind.lift _).bind fun _ =>
          (LogBlind.setTop _).bind fun _ => .pure _

theorem frameLocals_logBlind (ctx : Context κ) (frame : Frame κ) (executing : Nat)
    (body : MethodBody) : LogBlind (frameLocals ctx frame executing body) := by
  unfold frameLocals
  split
  · dsimp only
    cases decodeLocals ctx (ctx.program.assembly executing).tables body.localsToken with
    | ok locals => exact .pure _
    | error e =>
      dsimp only
      split
      · exact .throw _
      · exact .read (fun _ _ => rfl) fun _ => (LogBlind.note _).bind fun _ => .pure _
  · exact .pure _

theorem activate_logBlind (ctx : Context κ) (frame : Frame κ) (executing : Nat)
    (body : MethodBody) : LogBlind (activate ctx frame executing body) := by
  refine (LogBlind.lift _).bind fun signature => ?_
  refine (frameLocals_logBlind ctx frame executing body).bind fun locals => ?_
  refine .read (fun _ _ => rfl) fun m => (LogBlind.lift _).bind fun popped => ?_
  refine (LogBlind.setPool _).bind fun _ => (LogBlind.lift _).bind fun slots => ?_
  exact (LogBlind.setThread _).bind fun _ => (LogBlind.note _).bind fun _ =>
    (LogBlind.setTop _).bind fun _ => .pure _

theorem setupBody_logBlind (ctx : Context κ) : LogBlind (setupBody ctx) := by
  refine LogBlind.topFrame.bind fun frame => ?_
  cases frame.body with
  | none => exact .throw _
  | some body =>
    cases frame.executing with
    | none => exact .throw _
    | some executing => exact activate_logBlind ctx frame executing body

theorem pollFunction_logBlind (run : NativeFunction) (argumentCount : Nat) :
    LogBlind (pollFunction run argumentCount : Act κ NativeStatus) := by
  refine (LogBlind.popValues _).bind fun _ => (LogBlind.lift _).bind fun result => ?_
  refine .read (fun _ _ => rfl) fun _ => (LogBlind.note _).bind fun _ => ?_
  cases result with
  | none => exact .pure _
  | some v => exact (LogBlind.push v).bind fun _ => .pure _

theorem pollCall_logBlind (hctx : ctx.IgnoresLog) (call : NativeCall κ) :
    LogBlind (pollCall ctx call) := by
  cases call with
  | custom c => exact hctx.poll c
  | function run argumentCount =>
    intro m log
    obtain ⟨log', hsame⟩ := pollFunction_logBlind run argumentCount m log
    refine ⟨log', ?_⟩
    simp only [pollCall, hsame]
    cases pollFunction run argumentCount m with
    | ok status m' => rfl
    | error e m' => rfl

theorem settlePoll_logBlind (below : Nat) (call : NativeCall κ)
    (status : Except Fault NativeStatus) : LogBlind (settlePoll below call status) := by
  refine .read (fun _ _ => rfl) fun m => ?_
  dsimp only
  split
  · exact .throw _
  · refine (LogBlind.setThread _).bind fun _ => (LogBlind.lift _).bind fun status => ?_
    cases status with
    | pending => exact .pure _
    | complete => exact (LogBlind.setThread _).bind fun _ => .pure _

theorem pollNative_logBlind (hctx : ctx.IgnoresLog) : LogBlind (pollNative ctx) := by
  refine LogBlind.topFrame.bind fun frame => .read (fun _ _ => rfl) fun m => ?_
  cases frame.nativeCall with
  | none => exact .throw _
  | some call =>
    exact (LogBlind.setTop _).bind fun _ => (pollCall_logBlind hctx call).bind fun polled =>
      settlePoll_logBlind _ polled.2 polled.1

theorem teardown_logBlind : LogBlind (teardown : Act κ Tick) := by
  refine LogBlind.topFrame.bind fun frame => .read (fun _ _ => rfl) fun m => ?_
  refine (LogBlind.setPool _).bind fun _ => (LogBlind.setTop _).bind fun _ => ?_
  refine (LogBlind.lift _).bind fun released => (LogBlind.setThread _).bind fun _ => ?_
  dsimp only
  split
  · exact (LogBlind.note _).bind fun _ => (LogBlind.note _).bind fun _ => .pure _
  · exact (LogBlind.note _).bind fun _ => .pure _

/-- No transition looks at the log. -/
theorem run_logBlind (hctx : ctx.IgnoresLog) : LogBlind (run ctx) := by
  refine LogBlind.topFrame.bind fun frame => (LogBlind.note _).bind fun _ => ?_
  cases frame.state with
  | resolve => exact resolve_logBlind ctx
  | awaitAssembly ticket => exact awaitAssembly_logBlind ctx ticket
  | assemblyResolved => exact bindNative_logBlind ctx
  | bodySetup => exact setupBody_logBlind ctx
  | nativeExec => exact pollNative_logBlind hctx
  | interpretedExec => exact hctx.execute.bind fun _ => .pure _
  | teardown => exact teardown_logBlind

end Transition

theorem Instruction.execute_logBlind {program : Program κ} {reenterStep : Act κ Bool}
    (hstep : reenterStep.LogBlind) : (execute program reenterStep).LogBlind :=
  execute_closed Act.LogBlind.closed hstep trivial

theorem Interpreter.plainContext_ignoresLog (program : Program Empty) (config : Config)
    (decoder : SignatureDecoder) : (plainContext program config decoder).IgnoresLog where
  execute := Instruction.execute_logBlind (.throw _)
  poll := fun call => nomatch call

end ManagedCalls
