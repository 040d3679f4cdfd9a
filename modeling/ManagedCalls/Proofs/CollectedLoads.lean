import ManagedCalls.Proofs.InterpreterDiscipline
import ManagedCalls.Proofs.LoadHistory

/-!
Which assembly a load leaves behind. Whoever collects a load goes on with the assembly
that was loaded, while the registry keeps what was filed first under the name. So a
frame that waited for a name runs in the registered assembly unless another one was
registered or loaded under this name in the meantime; then a frame that looks the
name up right after it runs in another assembly.
-/

namespace ManagedCalls

open Stateful

variable {κ : Type}

namespace Domain

theorem assembly?_congr (d : Domain) {name other : String}
    (h : NameMap.fold name = NameMap.fold other) : d.assembly? name = d.assembly? other :=
  NameMap.find?_congr d.registry h

theorem assembly?_register (d : Domain) (name other : String) (assembly : Nat) :
    (d.register name assembly).assembly? other =
      if NameMap.fold other = NameMap.fold name then some assembly else d.assembly? other :=
  NameMap.find?_insert d.registry name other assembly

/-- A loaded assembly takes the names that are free. -/
theorem assembly?_file (d : Domain) (produced name other : String) (assembly : Nat) :
    (d.file produced name assembly).assembly? other =
      if NameMap.fold other = NameMap.fold name ∨ NameMap.fold other = NameMap.fold produced then
        some ((d.assembly? other).getD assembly)
      else d.assembly? other := by
  unfold file assembly?
  rw [NameMap.find?_insertIfNew, NameMap.find?_insertIfNew, NameMap.find?_insertIfNew]
  by_cases hname : NameMap.fold other = NameMap.fold name
  · rw [if_pos hname, if_pos (Or.inl hname), ← NameMap.find?_congr d.registry hname]
    by_cases hproduced : NameMap.fold name = NameMap.fold produced
    · rw [if_pos hproduced, NameMap.find?_congr d.registry (hname.trans hproduced)]
      rfl
    · rw [if_neg hproduced]
  · rw [if_neg hname]
    by_cases hproduced : NameMap.fold other = NameMap.fold produced
    · rw [if_pos hproduced, if_pos (Or.inr hproduced), NameMap.find?_congr d.registry hproduced]
    · rw [if_neg hproduced, if_neg (not_or.mpr ⟨hname, hproduced⟩)]

theorem assembly?_retire (d : Domain) (name other : String) (ticket : Nat) :
    (d.retire name ticket).assembly? other = d.assembly? other := by
  rw [retire_eq]
  rfl

theorem assembly?_settle (d : Domain) (ticket : Nat) (outcome : LoadOutcome) (name : String) :
    (d.settle ticket outcome).2.assembly? name = d.assembly? name := by
  unfold settle
  split
  · rfl
  · rfl

/-- Looking a registered name up finds it. -/
theorem resolve_of_assembly? {d : Domain} {name : String} {assembly : Nat}
    (h : d.assembly? name = some assembly) : d.resolve name = .ok (.loaded assembly, d, []) := by
  rw [resolve, h]

theorem finishLoad_of_ticket {d : Domain} {nameOf : Nat → String} {ticket assembly : Nat}
    {name : String} (h : d.ticket? ticket = some ⟨name, some (.loaded assembly)⟩) :
    (d.finishLoad nameOf ticket).1 = .ok (some assembly) := by
  unfold finishLoad
  rw [h]
  dsimp only
  split
  · rfl
  · rfl

/-- The assembly of a completed load, and what is registered under the name of the
request afterwards. -/
theorem finishLoad_loaded {d : Domain} {nameOf : Nat → String} {ticket assembly : Nat}
    (h : (d.finishLoad nameOf ticket).1 = .ok (some assembly)) :
    ∃ name, d.ticketName? ticket = some name ∧
      (d.finishLoad nameOf ticket).2.1.assembly? name =
        some ((d.assembly? name).getD assembly) := by
  rcases d.finishLoad_cases nameOf ticket with ⟨-, hrun⟩ |
    ⟨name, loaded, events, hticket, -, hrun⟩ | ⟨name, reason, -, hrun⟩
  · rw [hrun] at h
    cases h
  · rw [hrun] at h ⊢
    obtain rfl : loaded = assembly := Option.some.inj (Except.ok.inj h)
    refine ⟨name, by rw [ticketName?, hticket]; rfl, ?_⟩
    rw [assembly?_retire, assembly?_file, if_pos (Or.inl rfl)]
  · rw [hrun] at h
    cases h

end Domain

namespace DomainAction

variable (nameOf : Nat → String)

/-- The action registers an assembly under a name or collects a load of it that is
filed there. -/
def Files (name : String) (assembly : Nat) (d : Domain) : DomainAction → Prop
  | register registered =>
    registered = assembly ∧ NameMap.fold name = NameMap.fold (nameOf assembly)
  | finish ticket => ∃ requested, d.ticket? ticket = some ⟨requested, some (.loaded assembly)⟩ ∧
      (NameMap.fold name = NameMap.fold requested ∨
        NameMap.fold name = NameMap.fold (nameOf assembly))
  | _ => False

theorem perform_assembly? (a : DomainAction) {d : Domain} {name : String} {assembly : Nat}
    (h : (a.perform nameOf d).assembly? name = some assembly) :
    d.assembly? name = some assembly ∨ a.Files nameOf name assembly d := by
  cases a with
  | register registered =>
    rw [perform, Domain.assembly?_register] at h
    split at h
    next hname =>
      obtain rfl : registered = assembly := Option.some.inj h
      exact Or.inr ⟨rfl, hname⟩
    next => exact Or.inl h
  | finish ticket =>
    rw [perform_finish] at h
    split at h
    next requested loaded hticket =>
      rw [Domain.assembly?_retire, Domain.assembly?_file] at h
      split at h
      next hname =>
        cases hbefore : d.assembly? name with
        | some registered =>
          rw [hbefore] at h
          exact Or.inl h
        | none =>
          rw [hbefore] at h
          obtain rfl : loaded = assembly := Option.some.inj h
          exact Or.inr ⟨requested, hticket, hname⟩
      next => exact Or.inl h
    next =>
      rw [Domain.assembly?_retire] at h
      exact Or.inl h
    next => exact Or.inl h
  | resolve requested =>
    rw [perform_resolve] at h
    split at h
    · exact Or.inl h
    · exact Or.inl h
  | settle ticket outcome =>
    rw [perform, Domain.assembly?_settle] at h
    exact Or.inl h
  | newTicket requested => exact Or.inl h
  | reload loader => exact Or.inl h

/-- What is registered after a history was registered before it, or some action has
filed it. -/
theorem performAll_assembly? (history : List DomainAction) {d : Domain} {name : String}
    {assembly : Nat} (h : (performAll nameOf history d).assembly? name = some assembly) :
    d.assembly? name = some assembly ∨ ∃ before a later, history = before ++ a :: later ∧
      a.Files nameOf name assembly (performAll nameOf before d) := by
  induction history generalizing d with
  | nil => exact Or.inl h
  | cons a rest ih =>
    rcases ih h with hfirst | ⟨before, b, later, rfl, hfiles⟩
    · rcases perform_assembly? nameOf a hfirst with hsame | hfiles
      · exact Or.inl hsame
      · exact Or.inr ⟨[], a, rest, rfl, hfiles⟩
    · exact Or.inr ⟨a :: before, b, later, rfl, hfiles⟩

end DomainAction

namespace Thread

/-- The assembly that the topmost frame executes in. -/
def executing? (t : Thread κ) : Option Nat := t.top?.bind Frame.executing

/-- The topmost frame waits for a load. -/
def WaitsFor (t : Thread κ) (ticket : Nat) : Prop :=
  ∃ f rest, t.frames = f :: rest ∧ f.state = .awaitAssembly ticket

/-- The topmost frame is about to look a name up, whatever the case of its letters. -/
def Asks (ctx : Context κ) (t : Thread κ) (name : String) : Prop :=
  ∃ f rest row target, t.frames = f :: rest ∧ f.state = .resolve ∧
    f.method.kind = .memberRef row ∧
    findTarget (ctx.program.assembly f.calling).tables f.method row f.id = .ok target ∧
    NameMap.fold target.assemblyRef.name = NameMap.fold name ∧
    (ctx.config.maxCallDepth = 0 ∨ t.depth ≤ ctx.config.maxCallDepth)

end Thread

namespace Transition

/-- A frame that waits asks for its load and acts on the answer. -/
theorem run_of_await (ctx : Context κ) {m : Machine κ} {f : Frame κ} {rest : List (Frame κ)}
    {ticket : Nat} {result : Option Nat} {d : Domain} {events : List Event}
    (htop : m.thread.frames = f :: rest) (hstate : f.state = .awaitAssembly ticket)
    (hfinish : m.domain.finishLoad ctx.program.nameOf ticket = (.ok result, d, events)) :
    ∃ log, run ctx m =
      match result with
      | none => .ok .yield ⟨m.thread, d, log⟩
      | some assembly =>
        .ok .continue
          ⟨{ m.thread with
              frames := { f with executing := some assembly, state := .assemblyResolved } :: rest },
            d, log⟩ := by
  let noted : Machine κ := { m with log := m.log.add (.entersPhase f.id f.method f.phase) }
  have htop' : noted.thread.frames = f :: rest := htop
  have hrun : run ctx m = awaitAssembly ctx ticket noted := by
    simp [run, topFrame_eq htop, Act.note, hstate, noted]
  have hname : (fun n => (ctx.program.assembly n).name) = ctx.program.nameOf := rfl
  have hfinish' : noted.domain.finishLoad ctx.program.nameOf ticket = (.ok result, d, events) :=
    hfinish
  cases result with
  | none =>
    refine ⟨noted.log.addAll events, ?_⟩
    simp [hrun, awaitAssembly, topFrame_eq htop', hname, hfinish', Act.noteAll, noted]
  | some assembly =>
    refine ⟨(noted.log.addAll events).add
      (.resumes m.thread.id f.id (ctx.program.assembly assembly).name), ?_⟩
    simp [hrun, awaitAssembly, topFrame_eq htop', hname, hfinish', Act.noteAll, Act.note,
      Act.setTop, Thread.setTop, htop, noted]

/-- A frame with a member reference looks the name of its assembly up, unless it is too
deep. -/
theorem run_of_memberRef (ctx : Context κ) {m : Machine κ} {f : Frame κ} {rest : List (Frame κ)}
    {row : Nat} {target : Target} {resolution : Resolution} {d : Domain} {events : List Event}
    (htop : m.thread.frames = f :: rest) (hstate : f.state = .resolve)
    (hkind : f.method.kind = .memberRef row)
    (htarget : findTarget (ctx.program.assembly f.calling).tables f.method row f.id = .ok target)
    (hdepth : ctx.config.maxCallDepth = 0 ∨ m.thread.depth ≤ ctx.config.maxCallDepth)
    (hresolve : m.domain.resolve target.assemblyRef.name = .ok (resolution, d, events)) :
    ∃ log, run ctx m = .ok .continue
      ⟨{ m.thread with
          frames :=
            Frame.afterResolution
              { f with target := some target, stackBase := m.thread.operands.length } resolution ::
                rest },
        d, log⟩ := by
  let noted : Machine κ := { m with log := m.log.add (.entersPhase f.id f.method f.phase) }
  have htop' : noted.thread.frames = f :: rest := htop
  have hrun : run ctx m = resolve ctx noted := by
    simp [run, topFrame_eq htop, Act.note, hstate, noted]
  have hcheck : checkDepth ctx noted = .ok () noted := by
    have hwithin : ¬ (ctx.config.maxCallDepth ≠ 0 ∧ m.thread.depth > ctx.config.maxCallDepth) := by
      omega
    simp [checkDepth, hwithin, noted]
  have hresolve' : noted.domain.resolve target.assemblyRef.name = .ok (resolution, d, events) :=
    hresolve
  refine ⟨(noted.log.addAll events).add (.resolvedMember m.thread.id f.id f.method
    target.typeRef.fullName target.member.name target.assemblyRef.name), ?_⟩
  simp [hrun, resolve, hcheck, topFrame_eq htop', hkind, resolveMember, htarget, hresolve',
    Act.noteAll, Act.note, Act.setTop, Thread.setTop, htop, noted]

theorem run_of_waitsFor {ctx : Context κ} {m : Machine κ} {ticket assembly : Nat}
    (h : m.thread.WaitsFor ticket)
    (hfinish : (m.domain.finishLoad ctx.program.nameOf ticket).1 = .ok (some assembly)) :
    (after (run ctx) m).thread.executing? = some assembly ∧
      (after (run ctx) m).domain = (m.domain.finishLoad ctx.program.nameOf ticket).2.1 := by
  obtain ⟨f, rest, htop, hstate⟩ := h
  obtain ⟨log, hrun⟩ := run_of_await ctx htop hstate (Prod.ext hfinish rfl)
  rw [after_of_ok hrun]
  exact ⟨rfl, rfl⟩

theorem run_of_asks {ctx : Context κ} {m : Machine κ} {name : String} {assembly : Nat}
    (h : m.thread.Asks ctx name) (hfound : m.domain.assembly? name = some assembly) :
    (after (run ctx) m).thread.executing? = some assembly := by
  obtain ⟨f, rest, row, target, htop, hstate, hkind, htarget, hname, hdepth⟩ := h
  have hresolve : m.domain.resolve target.assemblyRef.name =
      .ok (.loaded assembly, m.domain, []) := by
    refine Domain.resolve_of_assembly? ?_
    rw [Domain.assembly?_congr _ hname]
    exact hfound
  obtain ⟨log, hrun⟩ := run_of_memberRef ctx htop hstate hkind htarget hdepth hresolve
  rw [after_of_ok hrun]
  rfl

end Transition

/-- Whenever a load is collected, the registry has under its name what was filed there
before, and the loaded assembly if nothing was. So the loaded one is registered just
if no other was, as after every history in which no other was filed. A frame that
waited for the load executes in the loaded assembly, and one that looks the name up
right after it in the registered one. -/
theorem loaded_unless_other_filed (ctx : Context κ) (start : Domain)
    (history : List DomainAction) {ticket loaded : Nat}
    (h : ((DomainAction.performAll ctx.program.nameOf history start).finishLoad
      ctx.program.nameOf ticket).1 = .ok (some loaded)) :
    let nameOf := ctx.program.nameOf
    let d := DomainAction.performAll nameOf history start
    let d' := (d.finishLoad nameOf ticket).2.1
    ∃ name, d.ticketName? ticket = some name ∧
      d'.assembly? name = some ((d.assembly? name).getD loaded) ∧
      (d'.assembly? name = some loaded ↔
        ∀ registered, d.assembly? name = some registered → registered = loaded) ∧
      (start.assembly? name = none →
        (∀ before a later filed, history = before ++ a :: later →
          a.Files nameOf name filed (DomainAction.performAll nameOf before start) →
          filed = loaded) →
        d'.assembly? name = some loaded) ∧
      ∀ (waiter asker : Thread κ) (log log' : Log), waiter.WaitsFor ticket → asker.Asks ctx name →
        let resumed := after (Transition.run ctx) ⟨waiter, d, log⟩
        let resolved := after (Transition.run ctx) ⟨asker, resumed.domain, log'⟩
        resumed.domain = d' ∧ resumed.thread.executing? = some loaded ∧
          resolved.thread.executing? = d'.assembly? name := by
  intro nameOf d d'
  obtain ⟨name, hticket, hregistered⟩ := Domain.finishLoad_loaded h
  have hiff : d'.assembly? name = some loaded ↔
      ∀ registered, d.assembly? name = some registered → registered = loaded := by
    rw [hregistered, Option.some.injEq]
    cases hbefore : d.assembly? name with
    | none => simp
    | some registered => simp
  refine ⟨name, hticket, hregistered, hiff, ?_, ?_⟩
  · intro hfree hothers
    refine hiff.mpr fun registered hfound => ?_
    rcases DomainAction.performAll_assembly? nameOf history hfound with hstart |
      ⟨before, a, later, hhistory, hfiles⟩
    · rw [hfree] at hstart
      cases hstart
    · exact hothers before a later registered hhistory hfiles
  · intro waiter asker log log' hwaits hasks resumed resolved
    obtain ⟨hexecuting, hdomain⟩ :=
      Transition.run_of_waitsFor (m := ⟨waiter, d, log⟩) hwaits h
    have hfound : resumed.domain.assembly? name = some ((d.assembly? name).getD loaded) := by
      rw [hdomain]
      exact hregistered
    refine ⟨hdomain, hexecuting, ?_⟩
    rw [hregistered]
    exact Transition.run_of_asks (m := ⟨asker, resumed.domain, log'⟩) hasks hfound

/-- The small assembly beside two others that have the name it refers to. -/
def Interpreter.namesakes : Context Empty :=
  plainContext [smallAssembly, (AssemblyBuilder.new "Lib").build, (AssemblyBuilder.new "LIB").build]
    {} SignatureDecoder.standard

namespace Interpreter

/-- A thread that has called a member of the assembly that has namesakes. -/
def libraryCaller (id : Nat) : Thread Empty := (Thread.new id).call 0 smallMember

theorem libraryCaller_asks (id : Nat) : (libraryCaller id).Asks namesakes "Lib" := by
  have hkind : smallMember.kind = .memberRef 1 := by decide +kernel
  have hdepth : 1 ≤ namesakes.config.maxCallDepth := by decide
  exact ⟨_, _, 1, _, rfl, rfl, hkind, rfl, rfl, Or.inr hdepth⟩

/-- The first caller waits for its load. -/
def waitingCaller : Machine Empty :=
  after (Transition.run namesakes)
    ⟨libraryCaller 1, Domain.empty 64 (some Loader.deferred), Log.empty .error⟩

/-- An assembly is registered, and then the load of another one is completed. -/
def completedBeside (registered : Nat) : List DomainAction :=
  [.register registered, .settle 0 (.loaded 1)]

def completedCaller (registered : Nat) : Machine Empty :=
  { waitingCaller with
    domain := DomainAction.performAll namesakes.program.nameOf (completedBeside registered)
      waitingCaller.domain }

/-- The first caller has collected its load. -/
def resumedCaller (registered : Nat) : Machine Empty :=
  after (Transition.run namesakes) (completedCaller registered)

/-- The second caller has looked the name up after it. -/
def laterCaller (registered : Nat) : Machine Empty :=
  after (Transition.run namesakes)
    ⟨libraryCaller 2, (resumedCaller registered).domain, Log.empty .error⟩

theorem completedCaller_waits (registered : Nat) : (completedCaller registered).thread.WaitsFor 0 :=
  ⟨_, _, rfl, rfl⟩

theorem completedCaller_ticket (registered : Nat) :
    (completedCaller registered).domain.ticket? 0 = some ⟨"Lib", some (.loaded 1)⟩ := rfl

theorem completedCaller_finishes (registered : Nat) :
    ((completedCaller registered).domain.finishLoad namesakes.program.nameOf 0).1 =
      .ok (some 1) :=
  Domain.finishLoad_of_ticket (completedCaller_ticket registered)

end Interpreter

open Interpreter

theorem loaded_unless_other_filed_of_waiter :
    ((completedCaller 0).domain.finishLoad namesakes.program.nameOf 0).1 = .ok (some 1) ∧
      (completedCaller 0).thread.WaitsFor 0 ∧ (libraryCaller 2).Asks namesakes "Lib" ∧
      (resumedCaller 0).domain.assembly? "Lib" = some 1 ∧
      (resumedCaller 0).thread.executing? = some 1 ∧
      (laterCaller 0).thread.executing? = some 1 := by
  have hfinish := completedCaller_finishes 0
  obtain ⟨name, hname, -, -, hfiled, hframes⟩ :=
    loaded_unless_other_filed namesakes waitingCaller.domain (completedBeside 0) hfinish
  obtain rfl : "Lib" = name := Option.some.inj hname
  have hother : NameMap.fold "Lib" ≠ NameMap.fold "App" := by
    have hlib : NameMap.fold "Lib" = "lib" := by decide +kernel
    have happ : NameMap.fold "App" = "app" := by decide +kernel
    rw [hlib, happ]
    decide
  have hregistered := hfiled rfl fun before a later filed hhistory hfiles => by
    rcases before with - | ⟨first, - | ⟨second, before⟩⟩
    · obtain ⟨rfl, -⟩ := List.cons.inj hhistory
      obtain ⟨rfl, hsame⟩ := hfiles
      exact absurd hsame hother
    · obtain ⟨-, hrest⟩ := List.cons.inj hhistory
      obtain ⟨rfl, -⟩ := List.cons.inj hrest
      exact hfiles.elim
    · simp [completedBeside] at hhistory
  obtain ⟨hdomain, hwaiter, hasker⟩ := hframes (completedCaller 0).thread (libraryCaller 2)
    (completedCaller 0).log (Log.empty .error) (completedCaller_waits 0) (libraryCaller_asks 2)
  refine ⟨hfinish, completedCaller_waits 0, libraryCaller_asks 2, ?_, hwaiter, ?_⟩
  · rw [← hregistered]
    exact congrArg (Domain.assembly? · "Lib") hdomain
  · rw [← hregistered]
    exact hasker

/-- While a load is outstanding, another assembly is registered under its name. -/
theorem waiter_apart_from_registered :
    (completedCaller 2).domain.ticketName? 0 = some "Lib" ∧
      ((completedCaller 2).domain.finishLoad namesakes.program.nameOf 0).1 = .ok (some 1) ∧
      ((completedCaller 2).domain.finishLoad namesakes.program.nameOf 0).2.1.assembly? "Lib" =
        some 2 ∧
      (resumedCaller 2).thread.executing? = some 1 ∧
      (laterCaller 2).thread.executing? = some 2 := by
  have hfinish := completedCaller_finishes 2
  have hsame : NameMap.fold "Lib" = NameMap.fold "LIB" := by
    have hmixed : NameMap.fold "Lib" = "lib" := by decide +kernel
    have hupper : NameMap.fold "LIB" = "lib" := by decide +kernel
    rw [hmixed, hupper]
  have hdomain : (completedCaller 2).domain =
      ((waitingCaller.domain.register "LIB" 2).settle 0 (.loaded 1)).2 := rfl
  have hbefore : (completedCaller 2).domain.assembly? "Lib" = some 2 := by
    rw [hdomain, Domain.assembly?_settle, Domain.assembly?_register, if_pos hsame]
  obtain ⟨name, hname, hregistered⟩ := Domain.finishLoad_loaded hfinish
  obtain rfl : "Lib" = name := Option.some.inj hname
  rw [hbefore] at hregistered
  obtain ⟨hwaiter, hresumed⟩ := Transition.run_of_waitsFor (completedCaller_waits 2) hfinish
  refine ⟨rfl, hfinish, hregistered, hwaiter, ?_⟩
  refine Transition.run_of_asks (m := ⟨libraryCaller 2, _, _⟩) (libraryCaller_asks 2) ?_
  exact (congrArg (Domain.assembly? · "Lib") hresumed).trans hregistered

end ManagedCalls
