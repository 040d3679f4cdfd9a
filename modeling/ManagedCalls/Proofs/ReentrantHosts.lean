import ManagedCalls.Proofs.ThreadActions
import ManagedCalls.Proofs.InterpreterDiscipline

/-!
Hosts that step a thread from inside. A host may act on a thread at any time; while an
instruction executes or a call is polled it may also run transitions of its own thread
and abandon it. A life collects what can happen to a thread in this way while all
transitions are made under one limit on the depth of calls. Every action on a thread is
part of such a life, and the interpreter keeps to it at every level of re-entry.
-/

namespace ManagedCalls

open Stateful

variable {κ α β : Type} {limit : Nat}

/-- The number of the topmost frame, if its transition has requested a load. -/
def issuer (m m' : Machine κ) : List Nat :=
  if m'.domain.requests = m.domain.requests then [] else (m.thread.top?.map Frame.id).toList

/-- What can happen to a thread while all its transitions are made under one limit,
with the numbers of the frames that have requested loads. Hosts act at any time, also
from inside an instruction or a poll; there they may make transitions again. -/
inductive Lives (limit : Nat) : Machine κ → List Nat → Machine κ → Prop
  | still (m : Machine κ) : Lives limit m [] m
  | host {m m' : Machine κ} {issuers : List Nat} (h : Lives limit m issuers m')
      (program : Program κ) (a : HostAction) : Lives limit m issuers (after (a.perform program) m')
  | abandoned {m m' : Machine κ} {issuers : List Nat} (h : Lives limit m issuers m') :
      Lives limit m issuers (after Act.abandon m')
  /-- Other threads use the domain, and the log grows. -/
  | meanwhile {m m' : Machine κ} {issuers : List Nat} (h : Lives limit m issuers m') (d : Domain)
      (log : Log) : Lives limit m issuers ⟨m'.thread, d, log⟩
  /-- A transition that no host has a part in. -/
  | engine {m m' : Machine κ} {issuers : List Nat} {f : Frame κ} {rest : List (Frame κ)}
      (h : Lives limit m issuers m') (ctx : Context κ) (hlimit : ctx.config.maxCallDepth = limit)
      (htop : m'.thread.frames = f :: rest) (hnative : f.state ≠ .nativeExec)
      (hinterpreted : f.state ≠ .interpretedExec) :
      Lives limit m (issuer m' (after (Transition.run ctx) m') ++ issuers)
        (after (Transition.run ctx) m')
  /-- A poll: the thread lives without the call, which then goes back. -/
  | polled {m m' m'' : Machine κ} {issuers more : List Nat} {f : Frame κ} {rest : List (Frame κ)}
      (h : Lives limit m issuers m') (htop : m'.thread.frames = f :: rest)
      (hstate : f.state = .nativeExec)
      (hpoll : Lives limit
        { m' with thread := { m'.thread with frames := { f with nativeCall := none } :: rest } }
        more m'')
      (call : NativeCall κ) (status : Except Fault NativeStatus) :
      Lives limit m (more ++ issuers) (after (Transition.settlePoll rest.length call status) m'')

theorem Lives.trans {m m' m'' : Machine κ} {issuers more : List Nat}
    (h : Lives limit m issuers m') (h' : Lives limit m' more m'') :
    Lives limit m (more ++ issuers) m'' := by
  induction h' with
  | still => exact h
  | host _ program a ih => exact (ih h).host program a
  | abandoned _ ih => exact (ih h).abandoned
  | meanwhile _ d log ih => exact (ih h).meanwhile d log
  | engine _ ctx hlimit htop hnative hinterpreted ih =>
    rw [List.append_assoc]
    exact (ih h).engine ctx hlimit htop hnative hinterpreted
  | polled _ htop hstate hpoll call status ih _ =>
    rw [List.append_assoc]
    exact (ih h).polled htop hstate hpoll call status

theorem Lives.performAll {m m' : Machine κ} {issuers : List Nat} (h : Lives limit m issuers m')
    (program : Program κ) (actions : List HostAction) :
    Lives limit m issuers (HostAction.performAll program actions m') := by
  induction actions generalizing m' with
  | nil => exact h
  | cons a rest ih => exact ih (h.host program a)

/-- A computation that does what can happen in such a life, whether it fails or not. -/
def Act.Within (limit : Nat) (x : Act κ α) : Prop :=
  ∀ m, ∃ issuers, Lives limit m issuers (after x m)

/-- A context with the limit, whose host does what can happen in such a life. -/
structure Context.Within (limit : Nat) (ctx : Context κ) : Prop where
  limit_eq : ctx.config.maxCallDepth = limit
  execute : ctx.execute.Within limit
  poll : ∀ call m, ∃ issuers, Lives limit m issuers (ctx.poll call m).2.2

namespace Act.Within

theorem of_after {x : Act κ α} {y : Act κ β} (hy : Within limit y)
    (h : ∀ m, after x m = after y m) : Within limit x := by
  intro m
  rw [h m]
  exact hy m

theorem bind {x : Act κ α} {f : α → Act κ β} (hx : Within limit x)
    (hf : ∀ a, Within limit (f a)) : Within limit (x >>= f) := by
  intro m
  obtain ⟨issuers, hlives⟩ := hx m
  cases hrun : x m with
  | error e m' =>
    rw [after_of_error hrun] at hlives
    exact ⟨issuers, by rw [after_bind_of_error hrun]; exact hlives⟩
  | ok a m' =>
    rw [after_of_ok hrun] at hlives
    obtain ⟨more, hmore⟩ := hf a m'
    exact ⟨more ++ issuers, by rw [after_bind_of_ok hrun]; exact hlives.trans hmore⟩

theorem of_byHost (program : Program κ) {x : Act κ α} (hx : x.ByHost program) :
    Within limit x := by
  intro m
  obtain ⟨actions, hactions⟩ := hx m
  exact ⟨[], hactions ▸ (Lives.still m).performAll program actions⟩

theorem pure (a : α) : Within limit (Pure.pure a : Act κ α) := fun m => ⟨[], .still m⟩

theorem throw (e : Fault) : Within limit (MonadExcept.throw e : Act κ α) := fun m => ⟨[], .still m⟩

theorem abandon : Within limit (Act.abandon : Act κ Nat) := fun m => ⟨[], (Lives.still m).abandoned⟩

theorem closed {program : Program κ} : HostClosed program (Within limit) fun _ => True where
  pure := pure
  throw := throw
  bind hx _ hf := hx.bind hf
  map _ hx := hx.bind fun _ => pure _
  see y hy h := by
    intro m
    rw [after, h m]
    exact hy _ m
  push v := ⟨of_byHost program (.push v), trivial⟩
  pop := ⟨of_byHost program .pop, trivial⟩
  popValues count := ⟨of_byHost program (.popValues count), trivial⟩
  readSlot role index := ⟨of_byHost program (.readSlot role index), trivial⟩
  setIp ip := ⟨of_byHost program (.setIp ip), trivial⟩
  call assembly method := of_byHost program (.call assembly method)
  returnFromFrame := of_byHost program .returnFromFrame
  writeSlot role index v := of_byHost program (.writeSlot role index v)

end Act.Within

namespace Transition

theorem pollFunction_byHost (program : Program κ) (run : NativeFunction) (argumentCount : Nat) :
    Act.ByHost program (pollFunction run argumentCount : Act κ NativeStatus) := by
  refine (Act.ByHost.popValues argumentCount).bind fun vs => ?_
  cases hvalue : run vs with
  | error e => exact .of_unchanged fun _ => rfl
  | ok result =>
    intro m
    refine ⟨.note (.nativeReturned m.thread.id vs.length result) ::
      (result.map HostAction.push).toList, ?_⟩
    cases result with
    | none => rfl
    | some v => rfl

theorem pollCall_within {ctx : Context κ} (hctx : ctx.Within limit) (call : NativeCall κ) :
    Act.Within limit (pollCall ctx call) := by
  cases call with
  | function run argumentCount =>
    refine (Act.Within.of_byHost _ (pollFunction_byHost ctx.program run argumentCount)).of_after ?_
    intro m
    cases hrun : pollFunction run argumentCount m with
    | ok status m' => simp [after, pollCall, hrun]
    | error e m' => simp [after, pollCall, hrun]
  | custom c => exact fun m => hctx.poll c m

theorem pollNative_within {ctx : Context κ} (hctx : ctx.Within limit) {m : Machine κ} {f : Frame κ}
    {rest : List (Frame κ)} (htop : m.thread.frames = f :: rest) (hstate : f.state = .nativeExec) :
    ∃ issuers, Lives limit m issuers (after (pollNative ctx) m) := by
  cases hcall : f.nativeCall with
  | none =>
    refine ⟨[], ?_⟩
    have hrun : after (pollNative ctx) m = m := by
      simp [after, pollNative, topFrame_eq htop, hcall]
    rw [hrun]
    exact .still m
  | some call =>
    have hdepth : m.thread.depth - 1 = rest.length := by simp [Thread.depth, htop]
    obtain ⟨status, call', m', hrun⟩ := pollCall_ok ctx call
      { m with thread := { m.thread with frames := { f with nativeCall := none } :: rest } }
    obtain ⟨more, hpoll⟩ := pollCall_within hctx call
      { m with thread := { m.thread with frames := { f with nativeCall := none } :: rest } }
    rw [after_of_ok hrun] at hpoll
    have hsettled : after (pollNative ctx) m = after (settlePoll rest.length call' status) m' := by
      simp [after, pollNative, topFrame_eq htop, hcall, Act.setTop, Thread.setTop, htop, hdepth,
        hrun]
    rw [hsettled]
    exact ⟨_, (Lives.still m).polled htop hstate hpoll call' status⟩

end Transition

namespace Act.Within

theorem transition {ctx : Context κ} (hctx : ctx.Within limit) :
    Within limit (Transition.run ctx) := by
  intro m
  cases htop : m.thread.frames with
  | nil =>
    have hrun : after (Transition.run ctx) m = m := by
      simp [after, Transition.run, Act.topFrame, Thread.top?, htop]
    exact ⟨[], by rw [hrun]; exact .still m⟩
  | cons f rest =>
    let noted : Machine κ := { m with log := m.log.add (.entersPhase f.id f.method f.phase) }
    have hnoted : Lives limit m [] noted := (Lives.still m).meanwhile m.domain noted.log
    by_cases hnative : f.state = .nativeExec
    · have hrun : Transition.run ctx m = Transition.pollNative ctx noted := by
        simp [Transition.run, Transition.topFrame_eq htop, Act.note, hnative, noted]
      obtain ⟨issuers, hlives⟩ := Transition.pollNative_within (m := noted) hctx htop hnative
      refine ⟨issuers ++ [], ?_⟩
      rw [after, hrun]
      exact hnoted.trans hlives
    · by_cases hinterpreted : f.state = .interpretedExec
      · have hrun : after (Transition.run ctx) m = after ctx.execute noted := by
          cases hexecute : ctx.execute noted with
          | ok goesOn m' =>
            simp [after, Transition.run, Transition.topFrame_eq htop, Act.note, hinterpreted,
              hexecute, noted]
          | error e m' =>
            simp [after, Transition.run, Transition.topFrame_eq htop, Act.note, hinterpreted,
              hexecute, noted]
        obtain ⟨issuers, hlives⟩ := hctx.execute noted
        refine ⟨issuers ++ [], ?_⟩
        rw [hrun]
        exact hnoted.trans hlives
      · exact ⟨_, (Lives.still m).engine ctx hctx.limit_eq htop hnative hinterpreted⟩

theorem advance {ctx : Context κ} (hctx : ctx.Within limit) (count : Nat) :
    Within limit (ManagedCalls.advance ctx count) := by
  induction count with
  | zero => exact fun m => ⟨[], .still m⟩
  | succ count ih =>
    intro m
    by_cases hdone : m.thread.isComplete
    · exact ⟨[], by simpa [after, ManagedCalls.advance, hdone] using Lives.still m⟩
    · obtain ⟨issuers, hlives⟩ := transition hctx m
      cases hrun : Transition.run ctx m with
      | error e m' =>
        rw [after_of_error hrun] at hlives
        exact ⟨issuers, by simpa [after, ManagedCalls.advance, hdone, hrun] using hlives⟩
      | ok tick m' =>
        rw [after_of_ok hrun] at hlives
        cases tick with
        | yield => exact ⟨issuers, by simpa [after, ManagedCalls.advance, hdone, hrun] using hlives⟩
        | «continue» =>
          obtain ⟨more, hmore⟩ := ih m'
          refine ⟨more ++ issuers, ?_⟩
          simpa [after, ManagedCalls.advance, hdone, hrun] using hlives.trans hmore

theorem step {ctx : Context κ} (hctx : ctx.Within limit) :
    Within limit (ManagedCalls.step ctx) := by
  intro m
  obtain ⟨count, hthread, hdomain⟩ := after_step ctx m
  obtain ⟨issuers, hlives⟩ := advance hctx count m
  refine ⟨issuers, ?_⟩
  have hsame := hlives.meanwhile (after (ManagedCalls.step ctx) m).domain
    (after (ManagedCalls.step ctx) m).log
  rwa [← hthread] at hsame

/-- Everything that is done to a thread is part of its life. -/
theorem perform {ctx : Context κ} (hctx : ctx.Within limit) (a : ThreadAction) :
    Within limit (a.perform ctx) := by
  cases a with
  | host a => exact fun m => ⟨[], (Lives.still m).host ctx.program a⟩
  | transition => exact (transition hctx).of_after fun m => after_discard _ m
  | step => exact (step hctx).of_after fun m => after_discard _ m
  | abandon => exact abandon.of_after fun m => after_discard _ m

end Act.Within

theorem Instruction.execute_within {program : Program κ} {reenterStep : Act κ Bool}
    (hstep : reenterStep.Within limit) : (execute program reenterStep).Within limit :=
  execute_closed Act.Within.closed hstep trivial

theorem ScriptedCall.run_within {program : Program ScriptedCall}
    {reenterStep : Act ScriptedCall Bool} (hstep : reenterStep.Within limit) (argumentCount : Nat)
    (script : List ScriptAction) :
    (run program reenterStep argumentCount script).Within limit := by
  induction script with
  | nil => exact .pure _
  | cons action rest ih =>
    cases action with
    | pending => exact .pure _
    | complete => exact .pure _
    | popArguments =>
      exact (Act.Within.of_byHost program (.popValues _)).bind fun _ => ih
    | pop count =>
      exact (Act.Within.of_byHost program (.popValues _)).bind fun _ => ih
    | push v => exact (Act.Within.of_byHost program (.push v)).bind fun _ => ih
    | call assembly token =>
      exact (Act.Within.of_byHost program (.call assembly token)).bind fun _ => ih
    | ret =>
      exact (Act.Within.of_byHost program .returnFromFrame).bind fun _ => ih
    | step =>
      exact hstep.bind fun _ =>
        (Act.Within.of_byHost program (.push _)).bind fun _ => ih
    | abandon => exact Act.Within.abandon.bind fun _ => ih
    | fail message => exact .throw _

theorem ScriptedCall.poll_within {program : Program ScriptedCall}
    {reenterStep : Act ScriptedCall Bool} (hstep : reenterStep.Within limit) (c : ScriptedCall)
    (m : Machine ScriptedCall) :
    ∃ issuers, Lives limit m issuers (poll program reenterStep c m).2.2 := by
  have hscript : Act.Within limit (run program reenterStep c.argumentCount c.actions) :=
    run_within hstep _ _
  obtain ⟨issuers, hlives⟩ := hscript m
  refine ⟨issuers, ?_⟩
  cases hrun : run program reenterStep c.argumentCount c.actions m with
  | ok status m' => simpa [poll, after, hrun] using hlives
  | error e m' => simpa [poll, after, hrun] using hlives

/-- The interpreter keeps to its limit at every level of stepping from inside. -/
theorem Interpreter.context_within (program : Program ScriptedCall) (config : Config)
    (decoder : SignatureDecoder) (levels : Nat) :
    (context program config decoder levels).Within config.maxCallDepth := by
  induction levels with
  | zero =>
    have hstep : Act.Within config.maxCallDepth
        (throw (.unfinished reentryLevels) : Act ScriptedCall Bool) := .throw _
    exact ⟨rfl, Instruction.execute_within hstep, ScriptedCall.poll_within hstep⟩
  | succ levels ih =>
    have hstep := Act.Within.step ih
    exact ⟨rfl, Instruction.execute_within hstep, ScriptedCall.poll_within hstep⟩

end ManagedCalls
