import ManagedCalls.Proofs.LoadPaths

/-!
Native calls of plain functions from end to end. A function gets as many values as its
member's signature has arguments, in the order they were pushed, and its result takes
their place. It is called once. Without enough values nothing is taken, and the frame
waits with its call until the missing ones are pushed.
-/

namespace ManagedCalls

open Stateful

variable {κ : Type}

/-- Slots are made when a method is activated, no earlier. -/
def Frame.EmptyBeforeRun (f : Frame κ) : Prop :=
  f.state ≠ .interpretedExec → f.state ≠ .teardown → f.Empty

namespace Frame.EmptyBeforeRun

variable {f g : Frame κ}

theorem of_empty (h : f.Empty) : f.EmptyBeforeRun := fun _ _ => h

theorem of_touched (hf : f.EmptyBeforeRun) (h : f.Touched g) : g.EmptyBeforeRun := by
  intro hexecuting hteardown
  have hstate : g.state = f.state := by
    rcases h.state with hsame | ⟨-, hreturned⟩
    · exact hsame
    · exact absurd hreturned hteardown
  exact h.empty (hf (hstate ▸ hexecuting) (hstate ▸ hteardown))

/-- The frame has moved on with the slots it had. -/
theorem of_preparing (hf : f.EmptyBeforeRun) (hexecuting : f.state ≠ .interpretedExec)
    (hteardown : f.state ≠ .teardown) (harguments : g.arguments = f.arguments)
    (hlocals : g.locals = f.locals) : g.EmptyBeforeRun := by
  obtain ⟨hempty, hempty'⟩ := hf hexecuting hteardown
  exact of_empty ⟨harguments.trans hempty, hlocals.trans hempty'⟩

theorem of_polled (hf : f.EmptyBeforeRun) (call : NativeCall κ)
    (status : Except Fault NativeStatus) :
    EmptyBeforeRun
      { f with nativeCall := some call, state := Transition.polledState f.state status } := by
  intro hexecuting hteardown
  rcases Transition.polledState_cases f.state status with hsame | hcompleted
  · rw [hsame] at hexecuting hteardown
    exact hf hexecuting hteardown
  · exact absurd hcompleted hteardown

end Frame.EmptyBeforeRun

/-- Before they run, all frames of a thread are without slots. -/
def Thread.EmptyBeforeRun (t : Thread κ) : Prop := ∀ f ∈ t.frames, f.EmptyBeforeRun

namespace Thread.EmptyBeforeRun

variable {t : Thread κ}

theorem top {f g : Frame κ} {rest : List (Frame κ)} (h : t.EmptyBeforeRun)
    (htop : t.frames = f :: rest) (hg : f.EmptyBeforeRun → g.EmptyBeforeRun) :
    EmptyBeforeRun { t with frames := g :: rest } := by
  rw [EmptyBeforeRun, htop] at h
  intro k hk
  rcases List.mem_cons.mp hk with rfl | hk
  · exact hg (h f List.mem_cons_self)
  · exact h k (List.mem_cons_of_mem _ hk)

theorem host {program : Program κ} {t' : Thread κ} {d d' : Domain} (h : t.EmptyBeforeRun)
    (hrule : HostAction.Rule program t d t' d') : t'.EmptyBeforeRun := by
  cases hrule with
  | operands values => exact h
  | called assembly method =>
    intro f hf
    rcases List.mem_cons.mp hf with rfl | hf
    · exact .of_empty ⟨rfl, rfl⟩
    · exact h f hf
  | touched htop htouched | stored htop htouched =>
    exact h.top htop fun hf => hf.of_touched htouched
  | asked a => exact h

theorem settlePoll {m : Machine κ} (h : m.thread.EmptyBeforeRun) (below : Nat)
    (call : NativeCall κ) (status : Except Fault NativeStatus) :
    (after (Transition.settlePoll below call status) m).thread.EmptyBeforeRun := by
  rcases Transition.settlePoll_sets below call status m with hsame | ⟨i, f, -, hf, hset⟩
  · rw [hsame]
    exact h
  · rw [hset]
    intro g hg
    rcases List.mem_or_eq_of_mem_set hg with hg | rfl
    · exact h g hg
    · exact (h f (List.mem_of_getElem? hf)).of_polled call status

/-- A transition without a host fills slots only when it activates the frame. -/
theorem engine {ctx : Context κ} {t' : Thread κ} {d d' : Domain} {r : Except Fault Tick}
    (h : t.EmptyBeforeRun) (hrule : Transition.Rule ctx t d r t' d') {f : Frame κ}
    {rest : List (Frame κ)} (htop : t.frames = f :: rest) (hnative : f.state ≠ .nativeExec)
    (hinterpreted : f.state ≠ .interpretedExec) : t'.EmptyBeforeRun := by
  have hframe {g : Frame κ} {others : List (Frame κ)} (hg : t.frames = g :: others) : g = f :=
    (List.cons.inj (hg.symm.trans htop)).1
  cases hrule with
  | noFrame | unresolved | outstanding | loadFailed | unbound | unready | rolledBack
    | callMissing => exact h
  | foundBody htop' hstate | collected htop' hstate | bound _ htop' hstate =>
    exact h.top htop' fun hf => hf.of_preparing (by simp [hstate]) (by simp [hstate]) rfl rfl
  | @foundMember _ _ _ _ resolution _ _ htop' hstate =>
    refine h.top htop' fun hf => ?_
    cases resolution with
    | loaded assembly => exact hf.of_preparing (by simp [hstate]) (by simp [hstate]) rfl rfl
    | pending ticket => exact hf.of_preparing (by simp [hstate]) (by simp [hstate]) rfl rfl
  | activated htop' _ _ _ hpop =>
    obtain ⟨-, rfl⟩ := Thread.popValues_eq hpop
    exact h.top htop' fun _ hexecuting => absurd rfl hexecuting
  | tornDown htop' =>
    intro g hg
    exact h g (htop' ▸ List.mem_cons_of_mem _ hg)
  | unreleased htop' => exact h.top htop' fun _ => .of_empty ⟨rfl, rfl⟩
  | polled htop' hstate =>
    rw [hframe htop'] at hstate
    exact absurd hstate hnative
  | executed _ htop' hstate =>
    rw [hframe htop'] at hstate
    exact absurd hstate hinterpreted

theorem new (id : Nat) : (Thread.new id : Thread κ).EmptyBeforeRun :=
  fun _ hf => absurd hf List.not_mem_nil

end Thread.EmptyBeforeRun

theorem Lives.emptyBeforeRun {limit : Nat} {m m' : Machine κ} {issuers : List Nat}
    (h : Lives limit m issuers m') (hm : m.thread.EmptyBeforeRun) :
    m'.thread.EmptyBeforeRun := by
  induction h with
  | still => exact hm
  | host _ program a ih => exact (ih hm).host (HostAction.perform_rule program a _)
  | abandoned _ ih =>
    rw [(after_abandon _).1]
    exact fun _ hf => absurd hf List.not_mem_nil
  | meanwhile _ d log ih => exact ih hm
  | engine _ ctx _ htop hnative hinterpreted ih =>
    exact (ih hm).engine (Transition.run_follows ctx _) htop hnative hinterpreted
  | polled _ htop _ _ call status ih ihpoll =>
    exact (ihpoll ((ih hm).top htop fun hf => hf)).settlePoll _ call status

/-- A native call that has returned: its thread, how many values it took, its result. -/
def Event.nativeResult? : Event → Option (Nat × Nat × Option Value)
  | nativeReturned thread consumed result => some (thread, consumed, result)
  | _ => none

/-- A transition that begins: its frame and the phase of the frame. -/
def Event.enteredPhase? : Event → Option (Nat × FramePhase)
  | entersPhase frame _ phase => some (frame, phase)
  | _ => none

/-- Some transitions in a row, none of which yields, with the events they note whatever
is in the log. -/
def Passes (ctx : Context κ) (count : Nat) (t : Thread κ) (d : Domain) (events : List Event)
    (t' : Thread κ) (d' : Domain) : Prop :=
  ∀ log, Goes ctx count ⟨t, d, log⟩ ⟨t', d', log.addAll events⟩

namespace Passes

variable {ctx : Context κ} {t t₁ t₂ : Thread κ} {d d₁ d₂ : Domain} {events more : List Event}

theorem refl (t : Thread κ) (d : Domain) : Passes ctx 0 t d [] t d := fun log => .refl ⟨t, d, log⟩

theorem cons {count : Nat} (hlive : t.frames ≠ [])
    (hrun : ∀ log, Transition.run ctx ⟨t, d, log⟩ = .ok .continue ⟨t₁, d₁, log.addAll events⟩)
    (hrest : Passes ctx count t₁ d₁ more t₂ d₂) :
    Passes ctx (count + 1) t d (events ++ more) t₂ d₂ := by
  intro log
  have happend : log.addAll (events ++ more) = (log.addAll events).addAll more :=
    List.foldl_append
  rw [happend]
  refine .cons ?_ (hrun log) (hrest _)
  simpa [Thread.isComplete] using hlive

end Passes

/-- The topmost frame goes through the phases, one transition for each, and then is off
its thread. In between one native call has returned: it took `taken` values, and its
result stands above `base` in their place, with the stack listed from the bottom. The
frames below and the domain with its pool are the same. -/
def Thread.CallsOnce (ctx : Context κ) (phases : List FramePhase) (t : Thread κ) (d : Domain)
    (base : List Value) (taken : Nat) (result : Option Value) : Prop :=
  ∃ f rest events, t.frames = f :: rest ∧
    events.filterMap Event.enteredPhase? = phases.map (fun phase => (f.id, phase)) ∧
    events.filterMap Event.nativeResult? = [(t.id, taken, result)] ∧
    Passes ctx phases.length t d events
      { t with frames := rest, operands := (base ++ result.toList).reverse } d

/-- The frame with a call of a plain function. -/
def Frame.bound (f : Frame κ) (function : NativeFunction) (signature : MethodSig) : Frame κ :=
  { f with
    consumed := signature.argumentCount
    signature := some signature
    nativeCall := some (.function function signature.argumentCount)
    state := .nativeExec }

namespace Transition

variable {ctx : Context κ} {t : Thread κ} {f : Frame κ} {rest : List (Frame κ)}

theorem run_of_function {executing : Nat} {target : Target} {library : NativeLibrary κ}
    {function : NativeFunction} {signature : MethodSig}
    (htop : t.frames = f :: rest) (hstate : f.state = .assemblyResolved)
    (hexecuting : f.executing = some executing) (htarget : f.target = some target)
    (hnative : (ctx.program.assembly executing).native = some library)
    (hentry : library.find? target.typeRef.fullName target.member.name =
      some (.function function))
    (hdecode : ctx.decodeMethod target.member.signature = .ok signature) (d : Domain) (log : Log) :
    run ctx ⟨t, d, log⟩ = .ok .continue
      ⟨{ t with frames := f.bound function signature :: rest }, d,
        log.addAll [.entersPhase f.id f.method .assemblyResolved]⟩ := by
  have hcall : library.createCall target.typeRef target.member signature =
      .ok (.function function signature.argumentCount) := by
    rw [NativeLibrary.createCall, hentry]
  simp [run, topFrame_eq (m := ⟨t, d, log⟩) htop, Act.note, hstate, bindNative,
    topFrame_eq (m := ⟨t, d, _⟩) htop, hexecuting, htarget, hnative, hdecode, hcall, Act.setTop,
    Thread.setTop, htop, Frame.bound, Frame.phase, FrameState.phase, Log.addAll]

/-- A poll of a call of a function: the function is called while the frame is without its
call, which then goes back. -/
theorem run_of_poll {function : NativeFunction} {count : Nat} {d : Domain} {log : Log}
    {status : Except Fault NativeStatus} {m' : Machine κ} (htop : t.frames = f :: rest)
    (hstate : f.state = .nativeExec) (hcall : f.nativeCall = some (.function function count))
    (hpoll : pollCall ctx (.function function count)
      ⟨{ t with frames := { f with nativeCall := none } :: rest }, d,
        log.add (.entersPhase f.id f.method .nativeExec)⟩ =
        .ok (status, .function function count) m') :
    run ctx ⟨t, d, log⟩ = settlePoll rest.length (.function function count) status m' := by
  let begun : Machine κ := ⟨t, d, log.add (.entersPhase f.id f.method .nativeExec)⟩
  have hrun : run ctx ⟨t, d, log⟩ = pollNative ctx begun := by
    simp [run, topFrame_eq (m := ⟨t, d, log⟩) htop, Act.note, hstate, Frame.phase,
      FrameState.phase, begun]
  have hdepth : t.depth - 1 = rest.length := by simp [Thread.depth, htop]
  rw [hrun]
  simp [pollNative, topFrame_eq (m := begun) htop, hcall, Act.setTop, Thread.setTop, htop, hpoll,
    hdepth, begun]

theorem run_of_returning {function : NativeFunction} {base arguments : List Value}
    {result : Option Value} (htop : t.frames = f :: rest) (hstate : f.state = .nativeExec)
    (hcall : f.nativeCall = some (.function function arguments.length))
    (hstack : t.operands = (base ++ arguments).reverse)
    (hresult : function arguments = .ok result) (d : Domain) (log : Log) :
    run ctx ⟨t, d, log⟩ = .ok .continue
      ⟨{ t with
          frames := { f with state := .teardown } :: rest
          operands := (base ++ result.toList).reverse }, d,
        log.addAll [.entersPhase f.id f.method .nativeExec,
          .nativeReturned t.id arguments.length result]⟩ := by
  have hpop : Thread.popValues { t with frames := { f with nativeCall := none } :: rest }
      arguments.length =
        .ok (arguments,
          { t with
            frames := { f with nativeCall := none } :: rest
            operands := base.reverse }) := by
    simp [Thread.popValues, hstack]
  -- the function has run, and the frame is still without its call
  let log' := log.addAll [.entersPhase f.id f.method .nativeExec,
    .nativeReturned t.id arguments.length result]
  let returned : Machine κ :=
    ⟨{ t with
        frames := { f with nativeCall := none } :: rest
        operands := (base ++ result.toList).reverse }, d, log'⟩
  have hpoll : pollCall ctx (.function function arguments.length)
      ⟨{ t with frames := { f with nativeCall := none } :: rest }, d,
        log.add (.entersPhase f.id f.method .nativeExec)⟩ =
        .ok (.ok .complete, .function function arguments.length) returned := by
    cases result with
    | none =>
      simp [pollCall, pollFunction, Act.popValues, hpop, hresult, Act.setThread, Act.note,
        returned, log', Log.addAll]
    | some v =>
      simp [pollCall, pollFunction, Act.popValues, hpop, hresult, Act.setThread, Act.note,
        Act.push, Thread.push, returned, log', Log.addAll]
  rw [run_of_poll htop hstate hcall hpoll]
  simp [settlePoll, returned, Act.setThread, log', hcall]

/-- Without enough values the call is put back, and nothing was taken. -/
theorem run_of_short {function : NativeFunction} {count : Nat} (htop : t.frames = f :: rest)
    (hstate : f.state = .nativeExec) (hcall : f.nativeCall = some (.function function count))
    (hshort : t.operands.length < count) (d : Domain) (log : Log) :
    run ctx ⟨t, d, log⟩ = .error (.stackUnderflow count t.operands.length)
      ⟨t, d, log.addAll [.entersPhase f.id f.method .nativeExec]⟩ := by
  have hpop : Thread.popValues { t with frames := { f with nativeCall := none } :: rest } count =
      .error (.stackUnderflow count t.operands.length) := by
    simp [Thread.popValues, Nat.not_le.mpr hshort]
  let started : Machine κ :=
    ⟨{ t with frames := { f with nativeCall := none } :: rest }, d,
      log.add (.entersPhase f.id f.method .nativeExec)⟩
  have hpoll : pollCall ctx (.function function count) started =
      .ok (.error (.stackUnderflow count t.operands.length), .function function count) started := by
    simp [pollCall, pollFunction, Act.popValues, hpop, started]
  have hsame : { f with nativeCall := some (.function function count) } = f := by rw [← hcall]
  rw [run_of_poll htop hstate hcall hpoll]
  simp [settlePoll, started, Act.setThread, Log.addAll, hsame, ← htop]

theorem run_of_teardown (ctx : Context κ) (htop : t.frames = f :: rest)
    (hstate : f.state = .teardown) (hempty : f.Empty) (d : Domain) :
    ∃ events : List Event, events.filterMap Event.enteredPhase? = [(f.id, .teardown)] ∧
      events.filterMap Event.nativeResult? = [] ∧
      ∀ log, run ctx ⟨t, d, log⟩ =
        .ok .continue ⟨{ t with frames := rest }, d, log.addAll events⟩ := by
  have hrelease : f.release d.pool = Release.start d.pool := by
    rw [Frame.release, hempty.1, hempty.2]
    rfl
  have hrun (log : Log) : run ctx ⟨t, d, log⟩ =
      teardown ⟨t, d, log.add (.entersPhase f.id f.method .teardown)⟩ := by
    simp [run, topFrame_eq (m := ⟨t, d, log⟩) htop, Act.note, hstate, Frame.phase,
      FrameState.phase]
  have htop' (log : Log) : (Act.topFrame : Act κ (Frame κ)) ⟨t, d, log⟩ = .ok f ⟨t, d, log⟩ :=
    topFrame_eq htop
  by_cases hlow : t.operands.length < f.stackBase - f.consumed
  · refine ⟨[.entersPhase f.id f.method .teardown,
      .leftBelowEntry t.id f.id f.method t.operands.length (f.stackBase - f.consumed),
      .tornDown t.id f.id f.method 0 rest.length], rfl, rfl, fun log => ?_⟩
    rw [hrun]
    simp [teardown, htop', hrelease, Release.start, Release.result, Act.setPool, Act.setTop,
      Act.setThread, Act.note, hlow, htop, Log.addAll]
  · refine ⟨[.entersPhase f.id f.method .teardown,
      .tornDown t.id f.id f.method 0 rest.length], rfl, rfl, fun log => ?_⟩
    rw [hrun]
    simp [teardown, htop', hrelease, Release.start, Release.result, Act.setPool, Act.setTop,
      Act.setThread, Act.note, hlow, htop, Log.addAll]

end Transition

namespace Thread

variable {ctx : Context κ} {t : Thread κ} {f : Frame κ} {rest : List (Frame κ)}

theorem callsOnce_of_call (ctx : Context κ) {function : NativeFunction}
    {base arguments : List Value} {result : Option Value}
    (htop : t.frames = f :: rest) (hstate : f.state = .nativeExec)
    (hcall : f.nativeCall = some (.function function arguments.length)) (hempty : f.Empty)
    (hstack : t.operands = (base ++ arguments).reverse)
    (hresult : function arguments = .ok result) (d : Domain) :
    t.CallsOnce ctx [.nativeExec, .teardown] d base arguments.length result := by
  let returned : Thread κ :=
    { t with
      frames := { f with state := .teardown } :: rest
      operands := (base ++ result.toList).reverse }
  obtain ⟨events, hentered, hreturned, hteardown⟩ :=
    Transition.run_of_teardown ctx (t := returned) rfl rfl hempty d
  refine ⟨f, rest, [.entersPhase f.id f.method .nativeExec,
    .nativeReturned t.id arguments.length result] ++ (events ++ []), htop, ?_, ?_,
    .cons (by simp [htop]) (Transition.run_of_returning htop hstate hcall hstack hresult d)
      (.cons (by simp) hteardown (.refl _ d))⟩
  · rw [List.append_nil, List.filterMap_append, hentered]
    rfl
  · rw [List.append_nil, List.filterMap_append, hreturned]
    rfl

theorem operands_push (t : Thread κ) (vs : List Value) :
    vs.foldl push t = { t with operands := vs.reverse ++ t.operands } := by
  induction vs generalizing t with
  | nil => rfl
  | cons v rest ih => simp [ih, push]

/-- At every moment of a thread's life, a frame that is resolved to a member for which
the library of its assembly has a plain function comes to its end in three transitions:
the function is called once, with the arguments in the order they were pushed, and its
result takes their place. If values are missing, the function is not called and nothing
is taken, and once they are pushed two transitions are enough. -/
theorem function_called_once (ctx : Context κ) {limit id : Nat} {start : Domain} {log : Log}
    {issuers : List Nat} {m : Machine κ} {executing : Nat} {target : Target}
    {library : NativeLibrary κ} {function : NativeFunction} {signature : MethodSig}
    (hlife : Lives limit ⟨Thread.new id, start, log⟩ issuers m)
    (htop : m.thread.frames = f :: rest) (hstate : f.state = .assemblyResolved)
    (hexecuting : f.executing = some executing) (htarget : f.target = some target)
    (hnative : (ctx.program.assembly executing).native = some library)
    (hentry : library.find? target.typeRef.fullName target.member.name =
      some (.function function))
    (hdecode : ctx.decodeMethod target.member.signature = .ok signature) :
    let t := m.thread
    let count := signature.argumentCount
    let bound : Thread κ := { t with frames := f.bound function signature :: rest }
    (∀ base arguments result, t.operands = (base ++ arguments).reverse →
      arguments.length = count → function arguments = .ok result →
      t.CallsOnce ctx [.assemblyResolved, .nativeExec, .teardown] m.domain base count result) ∧
    (t.operands.length < count →
      (∀ log, Transition.run ctx ⟨t, m.domain, log⟩ = .ok .continue
        ⟨bound, m.domain, log.addAll [.entersPhase f.id f.method .assemblyResolved]⟩) ∧
      (∀ d log, Transition.run ctx ⟨bound, d, log⟩ =
        .error (.stackUnderflow count t.operands.length)
          ⟨bound, d, log.addAll [.entersPhase f.id f.method .nativeExec]⟩) ∧
      ∀ pushed base arguments result, t.operands.reverse ++ pushed = base ++ arguments →
        arguments.length = count → function arguments = .ok result → ∀ d,
        (pushed.foldl push bound).CallsOnce ctx [.nativeExec, .teardown] d base count result) := by
  intro t count bound
  have hempty : f.Empty := by
    have hbefore := hlife.emptyBeforeRun (.new id) f (htop ▸ List.mem_cons_self)
    exact hbefore (by simp [hstate]) (by simp [hstate])
  have hbinds := Transition.run_of_function htop hstate hexecuting htarget hnative hentry hdecode
  refine ⟨?_, ?_⟩
  · intro base arguments result hstack hcount hresult
    obtain ⟨g, others, events, hframes, hentered, hreturned, hpasses⟩ :=
      callsOnce_of_call ctx (t := bound) rfl rfl (by rw [hcount]; rfl) hempty hstack
        hresult m.domain
    obtain ⟨rfl, rfl⟩ := List.cons.inj hframes
    refine ⟨f, rest, _, htop, ?_, ?_, .cons (by simp [t, htop]) (hbinds m.domain) hpasses⟩
    · rw [List.filterMap_append, hentered]
      rfl
    · rw [List.filterMap_append, hreturned, hcount]
      rfl
  · intro hshort
    refine ⟨hbinds m.domain, ?_, ?_⟩
    · intro d log
      exact Transition.run_of_short (t := bound) rfl rfl rfl hshort d log
    · intro pushed base arguments result hstack hcount hresult d
      have hoperands : (pushed.foldl push bound).operands = (base ++ arguments).reverse := by
        rw [operands_push, ← hstack]
        simp [bound, t]
      have hframes : (pushed.foldl push bound).frames = f.bound function signature :: rest := by
        rw [operands_push]
      rw [← hcount]
      exact callsOnce_of_call ctx hframes rfl (by rw [hcount]; rfl) hempty hoperands hresult d

end Thread

namespace Interpreter

/-- The larger one of two numbers. -/
def larger : NativeFunction
  | [.int32 a, .int32 b] => .ok (some (.int32 (if a < b then b else a)))
  | _ => .error (.host "two numbers are needed")

def mathProgram : Program Empty :=
  [(AssemblyBuilder.new "App"
      |>.assemblyRef "Lib"
      |>.typeRef ⟨.assemblyRef, 1⟩ "System" "Math"
      |>.memberRef ⟨.typeRef, 1⟩ "Max" [0x00, 0x02, 0x08, 0x08, 0x08]).build,
    (AssemblyBuilder.new "Lib"
      |>.withNative (NativeLibrary.empty.register "System.Math" "Max" (.function larger))).build]

def mathContext : Context Empty := plainContext mathProgram {} SignatureDecoder.standard

def mathStart : Machine Empty :=
  ⟨Thread.new 1, (Domain.empty 64 none).register "Lib" 1, Log.empty .error⟩

/-- The rows that a call of the member is resolved to. -/
def mathTarget : Target :=
  ⟨⟨1, ⟨.typeRef, 1⟩, "Max", [0x00, 0x02, 0x08, 0x08, 0x08]⟩,
    ⟨1, ⟨.assemblyRef, 1⟩, "System", "Math"⟩, ⟨1, "Lib"⟩⟩

/-- The values were pushed and the member was called. -/
def mathCalled (vs : List Value) : Machine Empty :=
  HostAction.performAll mathProgram (vs.map .push ++ [.call 0 smallMember]) mathStart

/-- The call is resolved. -/
def mathResolved (vs : List Value) : Machine Empty :=
  after (Transition.run mathContext) (mathCalled vs)

theorem mathCalled_eq (vs : List Value) : mathCalled vs =
    ⟨⟨1, [{ id := 1, calling := 0, method := smallMember }], vs.reverse, 2⟩, mathStart.domain,
      (mathCalled vs).log⟩ := by
  have hpushed (m : Machine Empty) : HostAction.performAll mathProgram (vs.map .push) m =
      { m with thread := vs.foldl Thread.push m.thread } := by
    induction vs generalizing m with
    | nil => rfl
    | cons v rest ih => exact ih _
  rw [mathCalled, HostAction.performAll_append, hpushed, Thread.operands_push]
  simp [HostAction.performAll, HostAction.perform, after, Act.call, Act.setThread, Act.note,
    Thread.call, mathStart, Thread.new]

theorem mathResolved_eq (vs : List Value) : mathResolved vs =
    ⟨⟨1,
        [{  id := 1
            calling := 0
            method := smallMember
            executing := some 1
            target := some mathTarget
            stackBase := vs.length
            state := .assemblyResolved }],
        vs.reverse, 2⟩,
      mathStart.domain, (mathResolved vs).log⟩ := by
  have hkind : smallMember.kind = .memberRef 1 := by decide +kernel
  have hfound : mathStart.domain.assembly? "Lib" = some 1 := by
    rw [mathStart, Domain.assembly?_register, if_pos rfl]
  have htarget : findTarget (mathContext.program.assembly 0).tables smallMember 1 1 =
      .ok mathTarget := rfl
  obtain ⟨log, hrun⟩ := Transition.run_of_memberRef mathContext (m := mathCalled vs)
    (by rw [mathCalled_eq]) rfl hkind htarget
    (Or.inr (by rw [mathCalled_eq]; exact (by decide : 1 ≤ 1024)))
    (Domain.resolve_of_assembly? (by rw [mathCalled_eq]; exact hfound))
  rw [mathResolved, after_of_ok hrun, mathCalled_eq]
  simp [Frame.afterResolution]

theorem mathResolved_lives (vs : List Value) :
    ∃ issuers, Lives 1024 mathStart issuers (mathResolved vs) := by
  have hcalled : Lives 1024 mathStart [] (mathCalled vs) := (Lives.still mathStart).performAll _ _
  exact ⟨_, hcalled.engine mathContext rfl (congrArg (·.thread.frames) (mathCalled_eq vs))
    (by decide) (by decide)⟩

end Interpreter

open Interpreter

/-- One thread has a value more than the function takes, the other one has one too few. -/
theorem Thread.function_called_once_of_max :
    let m := mathResolved [.int32 1, .int32 3, .int32 9]
    m.thread.CallsOnce mathContext [.assemblyResolved, .nativeExec, .teardown] m.domain
        [.int32 1] 2 (some (.int32 9)) ∧
      ∃ bound : Thread Empty, bound.frames.map Frame.state = [.nativeExec] ∧
        (∀ d log, outcome (Transition.run mathContext) ⟨bound, d, log⟩ =
          .error (.stackUnderflow 2 1)) ∧
        ∀ d, (bound.push (.int32 9)).CallsOnce mathContext [.nativeExec, .teardown] d [] 2
          (some (.int32 9)) := by
  intro m
  have hnative : (mathContext.program.assembly 1).native =
      some (NativeLibrary.empty.register "System.Math" "Max" (.function larger)) := rfl
  have hentry : (NativeLibrary.empty.register "System.Math" "Max" (.function larger)).find?
      mathTarget.typeRef.fullName mathTarget.member.name =
        some (NativeEntry.function (κ := Empty) larger) := by
    rfl
  have hdecode : ∃ signature, signature.argumentCount = 2 ∧
      mathContext.decodeMethod mathTarget.member.signature = .ok signature :=
    ⟨_, rfl, rfl⟩
  obtain ⟨signature, hcount, hdecode⟩ := hdecode
  obtain ⟨issuers, hlife⟩ := mathResolved_lives [.int32 1, .int32 3, .int32 9]
  obtain ⟨issuers', hlife'⟩ := mathResolved_lives [.int32 3]
  have htop (vs : List Value) := congrArg (·.thread.frames) (mathResolved_eq vs)
  have hstack (vs : List Value) := congrArg (·.thread.operands) (mathResolved_eq vs)
  have hall := (function_called_once mathContext hlife (htop _) rfl rfl rfl hnative hentry
    hdecode).1
  have hone : (mathResolved [.int32 3]).thread.operands.length < signature.argumentCount := by
    rw [hcount, hstack]
    decide
  obtain ⟨-, hunderflow, hpushed⟩ := (function_called_once mathContext hlife' (htop _) rfl rfl rfl
    hnative hentry hdecode).2 hone
  rw [hcount] at hall hpushed hunderflow
  refine ⟨hall [.int32 1] [.int32 3, .int32 9] _ (hstack _) rfl rfl, ?_⟩
  refine ⟨_, ?_, fun d log => ?_, hpushed [.int32 9] [] [.int32 3, .int32 9] _ ?_ rfl rfl⟩
  · rfl
  · rw [outcome_of_error (hunderflow d log), hstack]
    rfl
  · rw [hstack]
    rfl

end ManagedCalls
