import ManagedCalls.Proofs.DomainActions
import ManagedCalls.Proofs.InterpreterDiscipline
import ManagedCalls.Proofs.Materialization
import ManagedCalls.Proofs.ThreadActions

/-!
Failing transitions before a frame runs. Whatever such a transition fails at, the
thread is left as it was. Looking up a name and binding a native call leave the
domain as it was too; a load that failed is at most retired; and an activation
that could not be completed has given back all storage it had taken.
-/

namespace ManagedCalls

open Stateful

variable {κ : Type}

/-- The phases before a frame runs. -/
def FrameState.isPreparing : FrameState → Bool
  | resolve | awaitAssembly _ | assemblyResolved | bodySetup => true
  | nativeExec | interpretedExec | teardown => false

/-- The same live cells and the same bytes in use. As many cells came as went. -/
structure Pool.Restored (p p' : Pool) : Prop where
  cells_eq : p'.cells = p.cells
  bytesInUse_eq : p'.bytesInUse = p.bytesInUse
  budget_eq : p'.budget = p.budget
  counters : ∃ n, p'.allocations = p.allocations + n ∧ p'.frees = p.frees + n

theorem Pool.Holds.restored {p p' : Pool} (h : Pool.Holds p p' []) : p.Restored p' := by
  obtain ⟨hcells, hbytes, hbudget, hcounters⟩ := h.unchanged
  exact ⟨hcells, hbytes, hbudget, hcounters⟩

/-- The domain is the same, or the entry of the ticket is no longer pending. -/
def Domain.RetiredAtMost (d : Domain) (ticket : Nat) (d' : Domain) : Prop :=
  d' = d ∨ ∃ entry, d.ticket? ticket = some entry ∧ d.pending.find? entry.name = some ticket ∧
    d' = { d with pending := d.pending.erase entry.name }

theorem Domain.retire_retiredAtMost {d : Domain} {ticket : Nat} {entry : Ticket}
    (hticket : d.ticket? ticket = some entry) :
    d.RetiredAtMost ticket (d.retire entry.name ticket) := by
  unfold retire
  split
  next hpending => exact Or.inr ⟨entry, hticket, hpending, rfl⟩
  · exact Or.inl rfl

theorem Domain.finishLoad_error {d : Domain} {nameOf : Nat → String} {ticket : Nat} {e : Fault}
    (h : (d.finishLoad nameOf ticket).1 = .error e) :
    d.RetiredAtMost ticket (d.finishLoad nameOf ticket).2.1 := by
  rcases d.finishLoad_cases nameOf ticket with ⟨-, hrun⟩ | ⟨name, assembly, events, -, -, hrun⟩ |
    ⟨name, reason, hticket, hrun⟩
  · rw [hrun] at h
    cases h
  · rw [hrun] at h
    cases h
  · rw [hrun]
    exact retire_retiredAtMost hticket

namespace Transition

/-- What a failing transition leaves of the domain, by the phase of its frame. -/
structure Unwinds (state : FrameState) (d d' : Domain) : Prop where
  resolve : state = .resolve → d' = d
  awaitAssembly : ∀ ticket, state = .awaitAssembly ticket → d.RetiredAtMost ticket d'
  assemblyResolved : state = .assemblyResolved → d' = d
  bodySetup : state = .bodySetup → d' = d.withPool d'.pool ∧ d.pool.Restored d'.pool

theorem Unwinds.of_unchanged (state : FrameState) (d : Domain) : Unwinds state d d where
  resolve := fun _ => rfl
  awaitAssembly := fun _ _ => Or.inl rfl
  assemblyResolved := fun _ => rfl
  bodySetup := fun _ => ⟨rfl, (Pool.Holds.refl d.pool).restored⟩

theorem Unwinds.of_retired {d d' : Domain} {ticket : Nat} (h : d.RetiredAtMost ticket d') :
    Unwinds (.awaitAssembly ticket) d d' where
  resolve := fun hstate => by cases hstate
  awaitAssembly := fun other hstate => by
    cases hstate
    exact h
  assemblyResolved := fun hstate => by cases hstate
  bodySetup := fun hstate => by cases hstate

theorem Unwinds.of_restored {d : Domain} {p : Pool} (h : d.pool.Restored p) :
    Unwinds .bodySetup d { d with pool := p } where
  resolve := fun hstate => by cases hstate
  awaitAssembly := fun ticket hstate => by cases hstate
  assemblyResolved := fun hstate => by cases hstate
  bodySetup := fun _ => ⟨rfl, h⟩

theorem Rule.unwinds {ctx : Context κ} {t t' : Thread κ} {d d' : Domain} {f : Frame κ}
    {rest : List (Frame κ)} {r : Except Fault Tick} {e : Fault} (h : Rule ctx t d r t' d')
    (hfails : r = .error e) (htop : t.frames = f :: rest) (hstate : f.state.isPreparing) :
    t' = t ∧ Unwinds f.state d d' := by
  -- the rule speaks of the same topmost frame
  have hframe {g : Frame κ} {others : List (Frame κ)} (hg : t.frames = g :: others) : g = f :=
    (List.cons.inj (hg.symm.trans htop)).1
  cases h with
  | noFrame hframes | unresolved _ hframes _ | unbound _ hframes _ | unready _ hframes _ =>
    exact ⟨rfl, .of_unchanged f.state d⟩
  | loadFailed hg hwaits hfinish =>
    obtain rfl := hframe hg
    rw [hwaits]
    exact ⟨rfl, .of_retired (Domain.finishLoad_error hfinish)⟩
  | @rolledBack g others signature locals initLocals vs e p hg hsetup hmade =>
    obtain rfl := hframe hg
    have hmakes := materializeFrame_makes signature locals initLocals vs d.pool
    rw [hmade] at hmakes
    rw [hsetup]
    exact ⟨rfl, .of_restored hmakes.restored⟩
  | foundBody | foundMember | outstanding | collected | bound | activated | tornDown =>
    cases hfails
  | callMissing hg hruns | polled hg hruns | executed _ hg hruns | unreleased hg hruns =>
    obtain rfl := hframe hg
    rw [hruns] at hstate
    cases hstate

/-- A failing lookup has nothing to say: no load was requested. -/
theorem resolve_error {ctx : Context κ} {m m' : Machine κ} {f : Frame κ}
    {rest : List (Frame κ)} {e : Fault} (htop : m.thread.frames = f :: rest)
    (h : resolve ctx m = .error e m') : m' = m := by
  by_cases hdepth : ctx.config.maxCallDepth ≠ 0 ∧ m.thread.depth > ctx.config.maxCallDepth
  · simp only [resolve, checkDepth, bind_apply, get_apply, if_pos hdepth, throw_apply] at h
    exact (EStateM.Result.error.inj h).2.symm
  · have hcheck : checkDepth ctx m = .ok () m := by simp [checkDepth, hdepth]
    simp only [resolve, bind_apply, hcheck, topFrame_eq htop] at h
    cases hkind : f.method.kind with
    | methodDef row =>
      rw [hkind] at h
      cases hbody : (ctx.program.assembly f.calling).body f.method with
      | error e =>
        simp only [resolveBody, bind_apply, get_apply, hbody, Act.lift_error] at h
        exact (EStateM.Result.error.inj h).2.symm
      | ok body => simp [resolveBody, hbody, Act.note, Act.setTop] at h
    | memberRef row =>
      rw [hkind] at h
      cases htarget : findTarget (ctx.program.assembly f.calling).tables f.method row f.id with
      | error e =>
        simp only [resolveMember, bind_apply, get_apply, htarget, Act.lift_error] at h
        exact (EStateM.Result.error.inj h).2.symm
      | ok target =>
        cases hresolve : m.domain.resolve target.assemblyRef.name with
        | error e =>
          simp only [resolveMember, bind_apply, get_apply, htarget, Act.lift_ok, hresolve,
            Act.lift_error] at h
          exact (EStateM.Result.error.inj h).2.symm
        | ok found =>
          simp [resolveMember, htarget, hresolve, Act.noteAll, Act.note, Act.setTop] at h
    | _ =>
      rw [hkind] at h
      exact (EStateM.Result.error.inj h).2.symm

/-- A transition of a frame that does not run yet and fails leaves the thread as
it was in every field. What it can have done to the domain is given by the phase;
a failing lookup notes nothing beyond its beginning, no request for a load either. -/
theorem failed_preparation_unwinds (ctx : Context κ) {m m' : Machine κ} {f : Frame κ}
    {rest : List (Frame κ)} {e : Fault} (htop : m.thread.frames = f :: rest)
    (hstate : f.state.isPreparing) (hfails : run ctx m = .error e m') :
    m'.thread = m.thread ∧ Unwinds f.state m.domain m'.domain ∧
      (f.state = .resolve → m'.log = m.log.add (.entersPhase f.id f.method f.phase)) := by
  have hrule := run_follows ctx m
  rw [Follows, after_of_error hfails] at hrule
  obtain ⟨hthread, hdomain⟩ := hrule.unwinds (outcome_of_error hfails) htop hstate
  refine ⟨hthread, hdomain, ?_⟩
  intro hresolve
  let noted : Machine κ := { m with log := m.log.add (.entersPhase f.id f.method f.phase) }
  have hnoted : noted.thread.frames = f :: rest := htop
  have hrun : run ctx m = resolve ctx noted := by
    simp [run, topFrame_eq htop, Act.note, hresolve, noted]
  have hsame : m' = noted := resolve_error hnoted (hrun.symm.trans hfails)
  rw [hsame]

/-- A frame about to be activated, in a pool with room for its argument or its
local but not for both. -/
def crampedMachine : Machine Empty :=
  ThreadAction.performAll (Interpreter.smallContext {})
    [.host (.push (.int32 7)), .host (.call 0 Interpreter.smallMethod), .transition]
    ⟨Thread.new 1, Domain.empty 8 none, Log.empty .error⟩

theorem failed_preparation_unwinds_at_local :
    let ctx := Interpreter.smallContext {}
    let m' := after (run ctx) crampedMachine
    ∃ f rest, crampedMachine.thread.frames = f :: rest ∧ f.state = .bodySetup ∧
      run ctx crampedMachine = .error (.poolLimitExceeded 8 4 8) m' ∧
      m'.domain.pool.frees = 1 ∧ m'.thread = crampedMachine.thread ∧
      Unwinds f.state crampedMachine.domain m'.domain ∧
      (f.state = .resolve →
        m'.log = crampedMachine.log.add (.entersPhase f.id f.method f.phase)) := by
  have hfails : run (Interpreter.smallContext {}) crampedMachine =
      .error (.poolLimitExceeded 8 4 8)
        (after (run (Interpreter.smallContext {})) crampedMachine) := by
    rfl
  have hfrees :
      (after (run (Interpreter.smallContext {})) crampedMachine).domain.pool.frees = 1 := by
    rfl
  obtain ⟨f, htop, hstate⟩ : ∃ f, crampedMachine.thread.frames = [f] ∧ f.state = .bodySetup :=
    ⟨_, rfl, rfl⟩
  have hpreparing : f.state.isPreparing := by rw [hstate]; rfl
  exact ⟨f, [], htop, hstate, hfails, hfrees,
    failed_preparation_unwinds (Interpreter.smallContext {}) htop hpreparing hfails⟩

end Transition

end ManagedCalls
