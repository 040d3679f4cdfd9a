import ManagedCalls.Transition

/-!
The rules of a transition: what one transition of the topmost frame can do to
its thread and to the domain, with the outcome that goes with it. Every
transition follows one of these rules, so what holds of the rules holds of the
machine. Logs are left out.
-/

namespace ManagedCalls

/-- The name of an assembly, by its number. -/
def Program.nameOf {κ : Type} (program : Program κ) (assembly : Nat) : String :=
  (program.assembly assembly).name

/-- Values that were popped are as many as asked for, and only the stack changed. -/
theorem Thread.popValues_eq {κ : Type} {t t' : Thread κ} {count : Nat} {vs : List Value}
    (h : t.popValues count = .ok (vs, t')) :
    vs.length = count ∧ t' = { t with operands := t.operands.drop count } := by
  unfold popValues at h
  dsimp only at h
  split at h
  next hle =>
    obtain ⟨rfl, rfl⟩ := Prod.mk.inj (Except.ok.inj h)
    exact ⟨by rw [List.length_reverse, List.length_take, Nat.min_eq_left hle], rfl⟩
  · cases h

namespace Transition

open Stateful

variable {κ : Type}

/-- A transition of the topmost frame `f`, which has `rest` below it. -/
inductive Rule (ctx : Context κ) (t : Thread κ) (d : Domain) :
    Except Fault Tick → Thread κ → Domain → Prop
  | noFrame (hframes : t.frames = []) : Rule ctx t d (.error .emptyCallStack) t d
  | unresolved {f : Frame κ} {rest : List (Frame κ)} (e : Fault)
      (htop : t.frames = f :: rest) (hstate : f.state = .resolve) : Rule ctx t d (.error e) t d
  | foundBody {f : Frame κ} {rest : List (Frame κ)} {body : MethodBody}
      (htop : t.frames = f :: rest) (hstate : f.state = .resolve)
      (hbody : (ctx.program.assembly f.calling).body f.method = .ok body) :
      Rule ctx t d (.ok .continue)
        { t with
          frames :=
            { f with
              executing := some f.calling
              body := some body
              stackBase := t.operands.length
              state := .bodySetup } :: rest }
        d
  | foundMember {f : Frame κ} {rest : List (Frame κ)} {row : Nat} {target : Target}
      {resolution : Resolution} {d' : Domain} {events : List Event}
      (htop : t.frames = f :: rest) (hstate : f.state = .resolve)
      (htarget : findTarget (ctx.program.assembly f.calling).tables f.method row f.id = .ok target)
      (hresolve : d.resolve target.assemblyRef.name = .ok (resolution, d', events)) :
      Rule ctx t d (.ok .continue)
        { t with
          frames :=
            Frame.afterResolution
              { f with target := some target, stackBase := t.operands.length } resolution :: rest }
        d'
  | outstanding {f : Frame κ} {rest : List (Frame κ)} {ticket : Nat}
      (htop : t.frames = f :: rest) (hstate : f.state = .awaitAssembly ticket)
      (hfinish : (d.finishLoad ctx.program.nameOf ticket).1 = .ok none) :
      Rule ctx t d (.ok .yield) t (d.finishLoad ctx.program.nameOf ticket).2.1
  | collected {f : Frame κ} {rest : List (Frame κ)} {ticket assembly : Nat}
      (htop : t.frames = f :: rest) (hstate : f.state = .awaitAssembly ticket)
      (hfinish : (d.finishLoad ctx.program.nameOf ticket).1 = .ok (some assembly)) :
      Rule ctx t d (.ok .continue)
        { t with
          frames := { f with executing := some assembly, state := .assemblyResolved } :: rest }
        (d.finishLoad ctx.program.nameOf ticket).2.1
  | loadFailed {f : Frame κ} {rest : List (Frame κ)} {ticket : Nat} {e : Fault}
      (htop : t.frames = f :: rest) (hstate : f.state = .awaitAssembly ticket)
      (hfinish : (d.finishLoad ctx.program.nameOf ticket).1 = .error e) :
      Rule ctx t d (.error e) t (d.finishLoad ctx.program.nameOf ticket).2.1
  | unbound {f : Frame κ} {rest : List (Frame κ)} (e : Fault)
      (htop : t.frames = f :: rest) (hstate : f.state = .assemblyResolved) :
      Rule ctx t d (.error e) t d
  | bound {f : Frame κ} {rest : List (Frame κ)} {target : Target} {signature : MethodSig}
      (call : NativeCall κ) (htop : t.frames = f :: rest) (hstate : f.state = .assemblyResolved)
      (htarget : f.target = some target)
      (hsignature : ctx.decodeMethod target.member.signature = .ok signature) :
      Rule ctx t d (.ok .continue)
        { t with
          frames :=
            { f with
              consumed := signature.argumentCount
              signature := some signature
              nativeCall := some call
              state := .nativeExec } :: rest }
        d
  | unready {f : Frame κ} {rest : List (Frame κ)} (e : Fault)
      (htop : t.frames = f :: rest) (hstate : f.state = .bodySetup) : Rule ctx t d (.error e) t d
  | rolledBack {f : Frame κ} {rest : List (Frame κ)} {signature : MethodSig} {locals : LocalsSig}
      {initLocals : Bool} {vs : List Value} {e : Fault} {p : Pool}
      (htop : t.frames = f :: rest) (hstate : f.state = .bodySetup)
      (hmade : materializeFrame signature locals initLocals vs d.pool = (.error e, p)) :
      Rule ctx t d (.error e) t { d with pool := p }
  | activated {f : Frame κ} {rest : List (Frame κ)} {body : MethodBody} {signature : MethodSig}
      {locals : Option LocalsSig} {vs : List Value} {t' : Thread κ} {arguments slots : List Slot}
      {p : Pool} (htop : t.frames = f :: rest) (hstate : f.state = .bodySetup)
      (hbody : f.body = some body) (hsignature : ctx.decodeMethod body.signature = .ok signature)
      (hpop : t.popValues signature.argumentCount = .ok (vs, t'))
      (hmade : materializeFrame signature (locals.getD []) body.initLocals vs d.pool =
        (.ok (arguments, slots), p)) :
      Rule ctx t d (.ok .continue)
        { t' with
          frames :=
            { f with
              arguments
              locals := slots
              consumed := signature.argumentCount
              signature := some signature
              localsSig := locals
              ip := 0
              state := .interpretedExec } :: rest }
        { d with pool := p }
  | callMissing {f : Frame κ} {rest : List (Frame κ)} (htop : t.frames = f :: rest)
      (hstate : f.state = .nativeExec) (hcall : f.nativeCall = none) :
      Rule ctx t d (.error (.incompleteFrame f.id .nativeCall)) t d
  /-- The frame is without its call during the poll. -/
  | polled {f : Frame κ} {rest : List (Frame κ)} {call call' : NativeCall κ} {log : Log}
      {status : Except Fault NativeStatus} {m : Machine κ}
      (htop : t.frames = f :: rest) (hstate : f.state = .nativeExec)
      (hcall : f.nativeCall = some call)
      (hpoll : pollCall ctx call
        ⟨{ t with frames := { f with nativeCall := none } :: rest }, d, log⟩ =
          .ok (status, call') m) :
      Rule ctx t d (outcome (settlePoll rest.length call' status) m)
        (after (settlePoll rest.length call' status) m).thread m.domain
  | executed {f : Frame κ} {rest : List (Frame κ)} (log : Log)
      (htop : t.frames = f :: rest) (hstate : f.state = .interpretedExec) :
      Rule ctx t d
        ((outcome ctx.execute ⟨t, d, log⟩).map fun goesOn => if goesOn then .continue else .yield)
        (after ctx.execute ⟨t, d, log⟩).thread (after ctx.execute ⟨t, d, log⟩).domain
  | tornDown {f : Frame κ} {rest : List (Frame κ)}
      (htop : t.frames = f :: rest) (hstate : f.state = .teardown)
      (hrelease : (f.release d.pool).failure = none) :
      Rule ctx t d (.ok .continue) { t with frames := rest }
        { d with pool := (f.release d.pool).pool }
  | unreleased {f : Frame κ} {rest : List (Frame κ)} {e : Fault}
      (htop : t.frames = f :: rest) (hstate : f.state = .teardown)
      (hrelease : (f.release d.pool).failure = some e) :
      Rule ctx t d (.error e) { t with frames := f.drained :: rest }
        { d with pool := (f.release d.pool).pool }

/-- An action that follows a rule on a machine. -/
def Follows (ctx : Context κ) (x : Act κ Tick) (m : Machine κ) : Prop :=
  Rule ctx m.thread m.domain (outcome x m) (after x m).thread (after x m).domain

theorem topFrame_eq {m : Machine κ} {f : Frame κ} {rest : List (Frame κ)}
    (htop : m.thread.frames = f :: rest) : (Act.topFrame : Act κ (Frame κ)) m = .ok f m := by
  simp [Act.topFrame, Thread.top?, htop]

theorem resolveBody_follows (ctx : Context κ) {m : Machine κ} {f : Frame κ}
    {rest : List (Frame κ)} (htop : m.thread.frames = f :: rest) (hstate : f.state = .resolve) :
    Follows ctx (resolveBody ctx f) m := by
  cases hbody : (ctx.program.assembly f.calling).body f.method with
  | error e =>
    have hrule : Rule ctx m.thread m.domain _ _ _ := .unresolved e htop hstate
    simpa [Follows, outcome, after, resolveBody, hbody] using hrule
  | ok body =>
    have hrule : Rule ctx m.thread m.domain _ _ _ := .foundBody htop hstate hbody
    simpa [Follows, outcome, after, resolveBody, hbody, Act.note, Act.setTop, Thread.setTop,
      htop] using hrule

theorem resolveMember_follows (ctx : Context κ) {m : Machine κ} {f : Frame κ} (row : Nat)
    {rest : List (Frame κ)} (htop : m.thread.frames = f :: rest) (hstate : f.state = .resolve) :
    Follows ctx (resolveMember ctx f row) m := by
  cases htarget : findTarget (ctx.program.assembly f.calling).tables f.method row f.id with
  | error e =>
    have hrule : Rule ctx m.thread m.domain _ _ _ := .unresolved e htop hstate
    simpa [Follows, outcome, after, resolveMember, htarget] using hrule
  | ok target =>
    cases hresolve : m.domain.resolve target.assemblyRef.name with
    | error e =>
      have hrule : Rule ctx m.thread m.domain _ _ _ := .unresolved e htop hstate
      simpa [Follows, outcome, after, resolveMember, htarget, hresolve] using hrule
    | ok found =>
      obtain ⟨resolution, d', events⟩ := found
      have hrule : Rule ctx m.thread m.domain _ _ _ := .foundMember htop hstate htarget hresolve
      simpa [Follows, outcome, after, resolveMember, htarget, hresolve, Act.noteAll, Act.note,
        Act.setTop, Thread.setTop, htop] using hrule

theorem resolve_follows (ctx : Context κ) {m : Machine κ} {f : Frame κ} {rest : List (Frame κ)}
    (htop : m.thread.frames = f :: rest) (hstate : f.state = .resolve) :
    Follows ctx (resolve ctx) m := by
  by_cases hdepth : ctx.config.maxCallDepth ≠ 0 ∧ m.thread.depth > ctx.config.maxCallDepth
  · have hrule : Rule ctx m.thread m.domain _ _ _ :=
      .unresolved (.callDepthExceeded m.thread.depth ctx.config.maxCallDepth) htop hstate
    simpa [Follows, outcome, after, resolve, checkDepth, hdepth] using hrule
  · have hcheck : checkDepth ctx m = .ok () m := by simp [checkDepth, hdepth]
    cases hkind : f.method.kind with
    | methodDef row =>
      have hbody := resolveBody_follows ctx htop hstate
      simpa [Follows, outcome, after, resolve, hcheck, topFrame_eq htop, hkind] using hbody
    | memberRef row =>
      have hmember := resolveMember_follows ctx row htop hstate
      simpa [Follows, outcome, after, resolve, hcheck, topFrame_eq htop, hkind] using hmember
    | _ =>
      have hrule : Rule ctx m.thread m.domain _ _ _ :=
        .unresolved (.unsupportedTokenTable f.method f.id) htop hstate
      simpa [Follows, outcome, after, resolve, hcheck, topFrame_eq htop, hkind] using hrule

theorem awaitAssembly_follows (ctx : Context κ) {m : Machine κ} {f : Frame κ}
    {rest : List (Frame κ)} {ticket : Nat} (htop : m.thread.frames = f :: rest)
    (hstate : f.state = .awaitAssembly ticket) : Follows ctx (awaitAssembly ctx ticket) m := by
  have hname : (fun n => (ctx.program.assembly n).name) = ctx.program.nameOf := rfl
  cases hfinish : (m.domain.finishLoad ctx.program.nameOf ticket).1 with
  | error e =>
    have hrule : Rule ctx m.thread m.domain _ _ _ := .loadFailed htop hstate hfinish
    simpa [Follows, outcome, after, awaitAssembly, topFrame_eq htop, hname, hfinish,
      Act.noteAll] using hrule
  | ok result =>
    cases result with
    | none =>
      have hrule : Rule ctx m.thread m.domain _ _ _ := .outstanding htop hstate hfinish
      simpa [Follows, outcome, after, awaitAssembly, topFrame_eq htop, hname, hfinish,
        Act.noteAll] using hrule
    | some assembly =>
      have hrule : Rule ctx m.thread m.domain _ _ _ := .collected htop hstate hfinish
      simpa [Follows, outcome, after, awaitAssembly, topFrame_eq htop, hname, hfinish,
        Act.noteAll, Act.note, Act.setTop, Thread.setTop, htop] using hrule

theorem bindNative_follows (ctx : Context κ) {m : Machine κ} {f : Frame κ}
    {rest : List (Frame κ)} (htop : m.thread.frames = f :: rest)
    (hstate : f.state = .assemblyResolved) : Follows ctx (bindNative ctx) m := by
  have hfails (e : Fault) (hrun : bindNative ctx m = .error e m) :
      Follows ctx (bindNative ctx) m := by
    have hrule : Rule ctx m.thread m.domain _ _ _ := .unbound e htop hstate
    simpa [Follows, outcome, after, hrun] using hrule
  cases hexecuting : f.executing with
  | none => exact hfails _ (by simp [bindNative, topFrame_eq htop, hexecuting]; rfl)
  | some executing =>
    cases htarget : f.target with
    | none => exact hfails _ (by simp [bindNative, topFrame_eq htop, hexecuting, htarget]; rfl)
    | some target =>
      cases hnative : (ctx.program.assembly executing).native with
      | none =>
        exact hfails _
          (by simp [bindNative, topFrame_eq htop, hexecuting, htarget, hnative]; rfl)
      | some library =>
        cases hsignature : ctx.decodeMethod target.member.signature with
        | error e =>
          exact hfails e
            (by simp [bindNative, topFrame_eq htop, hexecuting, htarget, hnative, hsignature])
        | ok signature =>
          cases hcall : library.createCall target.typeRef target.member signature with
          | error e =>
            exact hfails e
              (by simp [bindNative, topFrame_eq htop, hexecuting, htarget, hnative, hsignature,
                hcall])
          | ok call =>
            have hrule : Rule ctx m.thread m.domain _ _ _ :=
              .bound call htop hstate htarget hsignature
            simpa [Follows, outcome, after, bindNative, topFrame_eq htop, hexecuting, htarget,
              hnative, hsignature, hcall, Act.setTop, Thread.setTop, htop] using hrule

/-- The locals that a body runs with. They need not be readable if they are not to be
zeroed. -/
def declaredLocals (ctx : Context κ) (executing : Nat) (body : MethodBody) :
    Except Fault (Option LocalsSig) :=
  if body.hasLocals then
    match decodeLocals ctx (ctx.program.assembly executing).tables body.localsToken with
    | .ok locals => .ok (some locals)
    | .error e => if body.initLocals then .error e else .ok none
  else
    .ok none

/-- Reading the locals changes the log at most. -/
theorem frameLocals_cases (ctx : Context κ) (f : Frame κ) (executing : Nat) (body : MethodBody)
    (m : Machine κ) :
    (∃ e, declaredLocals ctx executing body = .error e ∧
        frameLocals ctx f executing body m = .error e m) ∨
      ∃ locals log, declaredLocals ctx executing body = .ok locals ∧
        frameLocals ctx f executing body m = .ok locals { m with log } := by
  by_cases hhas : body.hasLocals
  · cases hdecode : decodeLocals ctx (ctx.program.assembly executing).tables body.localsToken with
    | ok locals =>
      exact Or.inr ⟨some locals, m.log, by simp [declaredLocals, hhas, hdecode],
        by simp [frameLocals, hhas, hdecode]⟩
    | error e =>
      by_cases hinit : body.initLocals
      · exact Or.inl ⟨e, by simp [declaredLocals, hhas, hdecode, hinit],
          by simp [frameLocals, hhas, hdecode, hinit]⟩
      · exact Or.inr ⟨none, _, by simp [declaredLocals, hhas, hdecode, hinit],
          by simp [frameLocals, hhas, hdecode, hinit, Act.note]; rfl⟩
  · exact Or.inr ⟨none, m.log, by simp [declaredLocals, hhas], by simp [frameLocals, hhas]⟩

theorem activate_follows (ctx : Context κ) {m : Machine κ} {f : Frame κ} {rest : List (Frame κ)}
    (executing : Nat) {body : MethodBody} (htop : m.thread.frames = f :: rest)
    (hstate : f.state = .bodySetup) (hbody : f.body = some body) :
    Follows ctx (activate ctx f executing body) m := by
  have hunready (e : Fault) : Rule ctx m.thread m.domain _ _ _ := .unready e htop hstate
  cases hsignature : ctx.decodeMethod body.signature with
  | error e => simpa [Follows, outcome, after, activate, hsignature] using hunready e
  | ok signature =>
    rcases frameLocals_cases ctx f executing body m with
      ⟨e, -, hlocals⟩ | ⟨locals, log, -, hlocals⟩
    · simpa [Follows, outcome, after, activate, hsignature, hlocals] using hunready e
    · cases hpop : m.thread.popValues signature.argumentCount with
      | error e =>
        simpa [Follows, outcome, after, activate, hsignature, hlocals, hpop] using hunready e
      | ok popped =>
        obtain ⟨vs, t'⟩ := popped
        rcases hmade : materializeFrame signature (locals.getD []) body.initLocals vs
          m.domain.pool with ⟨e | ⟨arguments, slots⟩, p⟩
        · have hrule : Rule ctx m.thread m.domain _ _ _ := .rolledBack htop hstate hmade
          simpa [Follows, outcome, after, activate, hsignature, hlocals, hpop, hmade,
            Act.setPool] using hrule
        · have hrule : Rule ctx m.thread m.domain _ _ _ :=
            .activated htop hstate hbody hsignature hpop hmade
          have hframes : t'.frames = f :: rest := by
            rw [(Thread.popValues_eq hpop).2]
            exact htop
          simpa [Follows, outcome, after, activate, hsignature, hlocals, hpop, hmade,
            Act.setPool, Act.setThread, Act.note, Act.setTop, Thread.setTop, hframes] using hrule

theorem setupBody_follows (ctx : Context κ) {m : Machine κ} {f : Frame κ}
    {rest : List (Frame κ)} (htop : m.thread.frames = f :: rest) (hstate : f.state = .bodySetup) :
    Follows ctx (setupBody ctx) m := by
  have hunready (e : Fault) : Rule ctx m.thread m.domain _ _ _ := .unready e htop hstate
  cases hbody : f.body with
  | none =>
    simpa [Follows, outcome, after, setupBody, topFrame_eq htop, hbody] using hunready _
  | some body =>
    cases hexecuting : f.executing with
    | none =>
      simpa [Follows, outcome, after, setupBody, topFrame_eq htop, hbody, hexecuting] using
        hunready _
    | some executing =>
      have hactivate := activate_follows ctx executing htop hstate hbody
      simpa [Follows, outcome, after, setupBody, topFrame_eq htop, hbody, hexecuting] using
        hactivate

/-- Putting a polled call back touches the frames only. -/
theorem settlePoll_domain (below : Nat) (call : NativeCall κ) (status : Except Fault NativeStatus)
    (m : Machine κ) : (after (settlePoll below call status) m).domain = m.domain := by
  cases hframe : (if below < m.thread.frames.length then
      m.thread.frames[m.thread.frames.length - 1 - below]? else none) with
  | none => simp [after, settlePoll, hframe]
  | some frame =>
    cases status with
    | error e => simp [after, settlePoll, hframe, Act.setThread]
    | ok status =>
      cases status with
      | pending => simp [after, settlePoll, hframe, Act.setThread]
      | complete => simp [after, settlePoll, hframe, Act.setThread]

/-- A poll does not fail itself, its result says what came of it. -/
theorem pollCall_ok (ctx : Context κ) (call : NativeCall κ) (m : Machine κ) :
    ∃ status call' m', pollCall ctx call m = .ok (status, call') m' := by
  unfold pollCall
  cases call with
  | function run argumentCount =>
    dsimp only
    split
    · exact ⟨_, _, _, rfl⟩
    · exact ⟨_, _, _, rfl⟩
  | custom c => exact ⟨_, _, _, rfl⟩

theorem pollNative_follows (ctx : Context κ) {m : Machine κ} {f : Frame κ}
    {rest : List (Frame κ)} (htop : m.thread.frames = f :: rest)
    (hstate : f.state = .nativeExec) : Follows ctx (pollNative ctx) m := by
  cases hcall : f.nativeCall with
  | none =>
    have hrule : Rule ctx m.thread m.domain _ _ _ := .callMissing htop hstate hcall
    simpa [Follows, outcome, after, pollNative, topFrame_eq htop, hcall] using hrule
  | some call =>
    have hdepth : m.thread.depth - 1 = rest.length := by simp [Thread.depth, htop]
    obtain ⟨status, call', m', hpoll⟩ := pollCall_ok ctx call
      ⟨{ m.thread with frames := { f with nativeCall := none } :: rest }, m.domain, m.log⟩
    have hrule : Rule ctx m.thread m.domain _ _ _ := .polled htop hstate hcall hpoll
    have hrun : pollNative ctx m = settlePoll rest.length call' status m' := by
      simp [pollNative, topFrame_eq htop, hcall, Act.setTop, Thread.setTop, htop, hpoll, hdepth]
    have hdomain := settlePoll_domain rest.length call' status m'
    rw [← hdomain] at hrule
    simpa [Follows, outcome, after, hrun] using hrule

theorem teardown_follows (ctx : Context κ) {m : Machine κ} {f : Frame κ} {rest : List (Frame κ)}
    (htop : m.thread.frames = f :: rest) (hstate : f.state = .teardown) :
    Follows ctx teardown m := by
  cases hrelease : (f.release m.domain.pool).failure with
  | some e =>
    have hrule : Rule ctx m.thread m.domain _ _ _ := .unreleased htop hstate hrelease
    simpa [Follows, outcome, after, teardown, topFrame_eq htop, Act.setPool, Act.setTop,
      Thread.setTop, Release.result, hrelease, htop] using hrule
  | none =>
    have hrule : Rule ctx m.thread m.domain _ _ _ := .tornDown htop hstate hrelease
    by_cases hlow : m.thread.operands.length < f.stackBase - f.consumed
    · simpa [Follows, outcome, after, teardown, topFrame_eq htop, Act.setPool, Act.setTop,
        Act.setThread, Act.note, Release.result, hrelease, htop, hlow] using hrule
    · simpa [Follows, outcome, after, teardown, topFrame_eq htop, Act.setPool, Act.setTop,
        Act.setThread, Act.note, Release.result, hrelease, htop, hlow] using hrule

/-- Every transition follows a rule. -/
theorem run_follows (ctx : Context κ) (m : Machine κ) : Follows ctx (run ctx) m := by
  cases hframes : m.thread.frames with
  | nil =>
    have hrule : Rule ctx m.thread m.domain _ _ _ := .noFrame hframes
    simpa [Follows, outcome, after, run, Act.topFrame, Thread.top?, hframes] using hrule
  | cons f rest =>
    let noted : Machine κ := { m with log := m.log.add (.entersPhase f.id f.method f.phase) }
    have htop : noted.thread.frames = f :: rest := hframes
    have hrun (x : Act κ Tick) (hx : run ctx m = x noted) (hfollows : Follows ctx x noted) :
        Follows ctx (run ctx) m := by
      simpa [Follows, outcome, after, hx] using hfollows
    cases hstate : f.state with
    | resolve =>
      refine hrun (resolve ctx) ?_ (resolve_follows ctx htop hstate)
      simp [run, topFrame_eq hframes, Act.note, hstate, noted]
    | awaitAssembly ticket =>
      refine hrun (awaitAssembly ctx ticket) ?_ (awaitAssembly_follows ctx htop hstate)
      simp [run, topFrame_eq hframes, Act.note, hstate, noted]
    | assemblyResolved =>
      refine hrun (bindNative ctx) ?_ (bindNative_follows ctx htop hstate)
      simp [run, topFrame_eq hframes, Act.note, hstate, noted]
    | bodySetup =>
      refine hrun (setupBody ctx) ?_ (setupBody_follows ctx htop hstate)
      simp [run, topFrame_eq hframes, Act.note, hstate, noted]
    | nativeExec =>
      refine hrun (pollNative ctx) ?_ (pollNative_follows ctx htop hstate)
      simp [run, topFrame_eq hframes, Act.note, hstate, noted]
    | interpretedExec =>
      have hrule : Rule ctx m.thread m.domain _ _ _ := .executed noted.log hframes hstate
      cases hexecute : ctx.execute noted with
      | ok goesOn m' =>
        simpa [Follows, outcome, after, run, topFrame_eq hframes, Act.note, hstate, hexecute,
          Except.map, noted] using hrule
      | error e m' =>
        simpa [Follows, outcome, after, run, topFrame_eq hframes, Act.note, hstate, hexecute,
          Except.map, noted] using hrule
    | teardown =>
      refine hrun teardown ?_ (teardown_follows ctx htop hstate)
      simp [run, topFrame_eq hframes, Act.note, hstate, noted]

end Transition

end ManagedCalls
