import ManagedCalls.Proofs.CallDepth
import ManagedCalls.Proofs.CollectedLoads
import ManagedCalls.Proofs.TransitionLimit

/-!
Two ways to an assembly. A frame with a member reference finds the assembly registered,
or has it loaded and collects the load. Both ways end in the same thread, the same
registry and the same pending table; a load leaves no trace but its ticket in the
count of requests. Between the request and its completion nothing changes.
-/

namespace ManagedCalls

open Stateful

variable {κ : Type}

namespace NameMap

variable {α : Type} {m : NameMap α} {name : String}

theorem erase_of_find?_none (h : m.find? name = none) : m.erase name = m := by
  refine List.filter_eq_self.mpr fun e he => ?_
  have hne := List.lookup_eq_none_iff.mp h e he
  rw [bne_iff_ne] at hne ⊢
  exact hne.symm

theorem insert_of_find?_none (h : m.find? name = none) (a : α) :
    m.insert name a = (fold name, a) :: m := by
  rw [insert, erase_of_find?_none h]

theorem insertIfNew_of_find?_none (h : m.find? name = none) (a : α) :
    m.insertIfNew name a = (fold name, a) :: m := by
  rw [insertIfNew, h]

theorem erase_insert (m : NameMap α) (name : String) (a : α) :
    (m.insert name a).erase name = m.erase name := by
  simp [insert, erase, List.filter_filter]

theorem find?_insert_self (m : NameMap α) (name : String) (a : α) :
    (m.insert name a).find? name = some a := by
  rw [find?_insert, if_pos rfl]

end NameMap

namespace Domain

/-- The domain with one more request behind it. -/
def requested (d : Domain) (name : String) (outcome : Option LoadOutcome) : Domain :=
  { d with
    tickets := d.tickets ++ [⟨name, outcome⟩]
    requests := d.requests ++ [d.tickets.length] }

/-- The same but for one request: its ticket, and the count of requests. -/
structure OneRequestMore (d d' : Domain) : Prop where
  registry : d'.registry = d.registry
  pending : d'.pending = d.pending
  loader : d'.loader = d.loader
  pool : d'.pool = d.pool
  loadRequests : d'.loadRequests = d.loadRequests + 1
  tickets : ∃ ticket, d'.tickets = d.tickets ++ [ticket]

theorem oneRequestMore_requested (d : Domain) (name : String) (outcome : Option LoadOutcome) :
    d.OneRequestMore (d.requested name outcome) where
  registry := rfl
  pending := rfl
  loader := rfl
  pool := rfl
  loadRequests := by simp [loadRequests, requested]
  tickets := ⟨_, rfl⟩

/-- The same while the request is pending. -/
def awaiting (d : Domain) (name : String) (outcome : Option LoadOutcome) : Domain :=
  { d.requested name outcome with pending := d.pending.insert name d.tickets.length }

theorem ticket?_awaiting (d : Domain) (name : String) (outcome : Option LoadOutcome) :
    (d.awaiting name outcome).ticket? d.tickets.length = some ⟨name, outcome⟩ := by
  simp [ticket?, awaiting, requested]

theorem settle_awaiting (d : Domain) (name : String) (outcome : LoadOutcome) :
    (d.awaiting name none).settle d.tickets.length outcome =
      (true, d.awaiting name (some outcome)) := by
  rw [settle, ticket?_awaiting]
  simp [awaiting, requested]

theorem finishLoad_awaiting_open (d : Domain) (nameOf : Nat → String) (name : String) :
    (d.awaiting name none).finishLoad nameOf d.tickets.length =
      (.ok none, d.awaiting name none, []) := by
  rw [finishLoad, ticket?_awaiting]

theorem resolve_free {d : Domain} {loader : Loader} {name : String}
    (hloader : d.loader = some loader) (hfree : d.assembly? name = none)
    (hidle : d.pending.find? name = none) :
    ∃ events, d.resolve name =
      .ok (.pending d.tickets.length, d.awaiting name (loader name).outcome, events) := by
  rcases d.resolve_cases name with ⟨assembly, hfound, -⟩ | ⟨-, hnone, -⟩ |
    ⟨_, ticket, -, -, hpending, -⟩ | ⟨loader', events, -, hloader', -, -, hresolve⟩
  · rw [hfree] at hfound
    cases hfound
  · rw [hloader] at hnone
    cases hnone
  · rw [hidle] at hpending
    cases hpending
  · obtain rfl : loader = loader' := Option.some.inj (hloader.symm.trans hloader')
    exact ⟨events, hresolve⟩

/-- A collected load leaves the domain as if its assembly had been registered, with the
request behind it. -/
theorem finishLoad_awaiting_loaded {d : Domain} {nameOf : Nat → String} {name : String}
    {assembly : Nat} (hname : NameMap.fold (nameOf assembly) = NameMap.fold name)
    (hfree : d.assembly? name = none) (hidle : d.pending.find? name = none) :
    (d.awaiting name (some (.loaded assembly))).finishLoad nameOf d.tickets.length =
      (.ok (some assembly),
        (d.register (nameOf assembly) assembly).requested name (some (.loaded assembly)), []) := by
  have hown : d.registry.find? (nameOf assembly) = none :=
    (NameMap.find?_congr d.registry hname).trans hfree
  have hfiled : d.registry.insertIfNew name assembly =
      d.registry.insert (nameOf assembly) assembly := by
    rw [NameMap.insertIfNew_of_find?_none hfree, NameMap.insert_of_find?_none hown, hname]
  have hretired : (d.pending.insert name d.tickets.length).erase name = d.pending := by
    rw [NameMap.erase_insert, NameMap.erase_of_find?_none hidle]
  have hpending : (d.pending.insert name d.tickets.length).find? name = some d.tickets.length :=
    NameMap.find?_insert_self d.pending name d.tickets.length
  rw [finishLoad, ticket?_awaiting]
  simp [hname, retire, awaiting, requested, register, hpending, hfiled, hretired]

end Domain

namespace Thread

/-- The topmost frame is to be resolved, and its member reference leads to an assembly of
this name. -/
def Refers (ctx : Context κ) (t : Thread κ) (name : String) : Prop :=
  ∃ f rest row target, t.frames = f :: rest ∧ f.state = .resolve ∧
    f.method.kind = .memberRef row ∧
    findTarget (ctx.program.assembly f.calling).tables f.method row f.id = .ok target ∧
    target.assemblyRef.name = name

/-- The topmost frame has its target and executes in the assembly; all else is the same. -/
def ResolvesTo (t : Thread κ) (name : String) (assembly : Nat) (t' : Thread κ) : Prop :=
  ∃ f rest target, t.frames = f :: rest ∧ target.assemblyRef.name = name ∧
    t' = { t with
      frames :=
        { f with
          target := some target
          stackBase := t.operands.length
          executing := some assembly
          state := .assemblyResolved } :: rest }

end Thread

/-- A step ends with the transition that yields. -/
theorem step_of_yield {ctx : Context κ} (hpatience : 0 < ctx.patience) {m m' : Machine κ}
    (hlive : m.thread.isComplete = false) (hrun : Transition.run ctx m = .ok .yield m') :
    step ctx m = .ok (!m'.thread.isComplete) m' := by
  have hadvance (n : Nat) : advance ctx (n + 1) m = .ok .yielded m' := by
    simp [advance, hlive, hrun]
  have hbound : 0 < if ctx.config.maxTransitions = 0 then ctx.patience
      else ctx.config.maxTransitions := by
    split
    · exact hpatience
    · omega
  obtain ⟨n, hn⟩ := Nat.exists_eq_succ_of_ne_zero (Nat.ne_of_gt hbound)
  have hstep := step_within ctx ctx.config.maxTransitions ctx.patience m
  rw [hn, hadvance] at hstep
  exact hstep

/-- A thread that waits for an open ticket can be stepped any number of times: nothing
but the log changes. -/
theorem steps_of_await {ctx : Context κ} (hpatience : 0 < ctx.patience) {m : Machine κ}
    {ticket : Nat} (hwaits : m.thread.WaitsFor ticket)
    (hopen : m.domain.finishLoad ctx.program.nameOf ticket = (.ok none, m.domain, [])) (n : Nat) :
    let later := ThreadAction.performAll ctx (List.replicate n .step) m
    later.thread = m.thread ∧ later.domain = m.domain ∧ outcome (step ctx) later = .ok true := by
  obtain ⟨f, rest, htop, hstate⟩ := hwaits
  have hlive : m.thread.isComplete = false := by simp [Thread.isComplete, htop]
  have hstep (log : Log) : ∃ log', step ctx { m with log } = .ok true { m with log := log' } := by
    obtain ⟨log', hrun⟩ := Transition.run_of_await ctx (m := { m with log }) htop hstate hopen
    have hyields := step_of_yield (m := { m with log }) hpatience hlive hrun
    rw [hlive] at hyields
    exact ⟨log', hyields⟩
  suffices hsame : ∀ log, ∃ log',
      ThreadAction.performAll ctx (List.replicate n .step) { m with log } =
        { m with log := log' } by
    obtain ⟨log', hlater⟩ := hsame m.log
    obtain ⟨log'', hnext⟩ := hstep log'
    intro later
    have hlater : later = { m with log := log' } := hlater
    rw [hlater]
    exact ⟨rfl, rfl, outcome_of_ok hnext⟩
  induction n with
  | zero => exact fun log => ⟨log, rfl⟩
  | succ n ih =>
    intro log
    obtain ⟨log', hnext⟩ := hstep log
    have hfirst : after (ThreadAction.perform ctx .step) { m with log } =
        { m with log := log' } := by
      rw [ThreadAction.perform, after_discard, after_of_ok hnext]
    rw [List.replicate_succ, ThreadAction.performAll, hfirst]
    exact ih log'

/-- A frame within the limit on depth comes to the same whether the assembly that it
refers to is registered or has to be loaded. If it is registered, one transition is
enough. A catalog takes exactly two, and neither yields. If the loader answers later,
the frame waits; all steps until then succeed and change nothing, and the first
transition after the load is completed is the last one. The thread is the same in all
three ways, and the domains differ in one request. A frame beyond the limit is refused
in every domain, and nothing changes. -/
theorem load_agrees_with_registered (ctx : Context κ) {t : Thread κ} {d : Domain}
    {name asked : String} {assembly : Nat} (hrefers : t.Refers ctx asked)
    (hasked : NameMap.fold asked = NameMap.fold name)
    (hname : NameMap.fold (ctx.program.nameOf assembly) = NameMap.fold name)
    (hfree : d.assembly? name = none) (hidle : d.pending.find? name = none) :
    let run := Transition.run ctx
    let limit := ctx.config.maxCallDepth
    let filed := d.register (ctx.program.nameOf assembly) assembly
    let ticket := d.tickets.length
    (limit = 0 ∨ t.depth ≤ limit → ∃ resolved, t.ResolvesTo asked assembly resolved ∧
      (∀ log, ∃ log', run ⟨t, filed, log⟩ = .ok .continue ⟨resolved, filed, log'⟩) ∧
      (∀ catalog log, d.loader = some (Loader.ofCatalog catalog) →
        catalog.find? name = some assembly →
        ∃ waiting collected, run ⟨t, d, log⟩ = .ok .continue waiting ∧
          waiting.thread.WaitsFor ticket ∧ run waiting = .ok .continue collected ∧
          collected.thread = resolved ∧ filed.OneRequestMore collected.domain) ∧
      ∀ loader log, d.loader = some loader → loader asked = .later →
        ∃ waiting, run ⟨t, d, log⟩ = .ok .continue waiting ∧ waiting.thread.WaitsFor ticket ∧
          (0 < ctx.patience → ∀ n,
            let later := ThreadAction.performAll ctx (List.replicate n .step) waiting
            later.thread = waiting.thread ∧ later.domain = waiting.domain ∧
              outcome (step ctx) later = .ok true) ∧
          ∃ completed, waiting.domain.settle ticket (.loaded assembly) = (true, completed) ∧
            ∀ log', ∃ collected,
              run ⟨waiting.thread, completed, log'⟩ = .ok .continue collected ∧
              collected.thread = resolved ∧ filed.OneRequestMore collected.domain) ∧
    (0 < limit → limit < t.depth → ∀ d' log, ∃ log',
      run ⟨t, d', log⟩ = .error (.callDepthExceeded t.depth limit) ⟨t, d', log'⟩) := by
  intro run limit filed ticket
  obtain ⟨f, rest, row, target, htop, hstate, hkind, htarget, rfl⟩ := hrefers
  have hfree' : d.assembly? target.assemblyRef.name = none :=
    (d.assembly?_congr hasked).trans hfree
  have hidle' : d.pending.find? target.assemblyRef.name = none :=
    (NameMap.find?_congr d.pending hasked).trans hidle
  have hown : NameMap.fold (ctx.program.nameOf assembly) = NameMap.fold target.assemblyRef.name :=
    hname.trans hasked.symm
  refine ⟨?_, ?_⟩
  · intro hdepth
    have hasks (log : Log) {d' e : Domain} {r : Resolution} {events : List Event}
        (hresolve : d'.resolve target.assemblyRef.name = .ok (r, e, events)) :=
      Transition.run_of_memberRef ctx (m := ⟨t, d', log⟩) htop hstate hkind htarget hdepth hresolve
    -- both ways to load wait in the same thread and collect in the same way
    have hcollects (log : Log) := Transition.run_of_await ctx
      (m := ⟨{ t with
          frames :=
            { f with
              target := some target
              stackBase := t.operands.length
              state := .awaitAssembly ticket } :: rest },
        d.awaiting target.assemblyRef.name (some (.loaded assembly)), log⟩) rfl rfl
      (Domain.finishLoad_awaiting_loaded hown hfree' hidle')
    refine ⟨_, ⟨f, rest, target, htop, rfl, rfl⟩, ?_, ?_, ?_⟩
    · intro log
      have hfound : filed.assembly? target.assemblyRef.name = some assembly := by
        rw [Domain.assembly?_register, if_pos hown.symm]
      exact hasks log (Domain.resolve_of_assembly? hfound)
    · intro catalog log hloader hserves
      have hreply : (Loader.ofCatalog catalog target.assemblyRef.name).outcome =
          some (.loaded assembly) := by
        rw [Loader.ofCatalog, NameMap.find?_congr catalog hasked, hserves]
        rfl
      obtain ⟨events, hresolve⟩ := Domain.resolve_free hloader hfree' hidle'
      rw [hreply] at hresolve
      obtain ⟨log', hfirst⟩ := hasks log hresolve
      obtain ⟨log'', hsecond⟩ := hcollects log'
      exact ⟨_, _, hfirst, ⟨_, _, rfl, rfl⟩, hsecond, rfl, Domain.oneRequestMore_requested _ _ _⟩
    · intro loader log hloader hlater
      obtain ⟨events, hresolve⟩ := Domain.resolve_free hloader hfree' hidle'
      rw [hlater] at hresolve
      obtain ⟨log', hfirst⟩ := hasks log hresolve
      refine ⟨_, hfirst, ⟨_, _, rfl, rfl⟩, ?_, ?_⟩
      · intro hpatience
        exact steps_of_await hpatience ⟨_, _, rfl, rfl⟩ (d.finishLoad_awaiting_open _ _)
      · refine ⟨_, d.settle_awaiting _ _, ?_⟩
        intro log'
        obtain ⟨log'', hsecond⟩ := hcollects log'
        exact ⟨_, hsecond, rfl, Domain.oneRequestMore_requested _ _ _⟩
  · intro hlimit hdeep d' log
    have hrest : limit ≤ rest.length := by
      rw [Thread.depth, htop, List.length_cons] at hdeep
      omega
    exact Transition.run_of_deep (m := ⟨t, d', log⟩) hlimit rfl htop hstate hrest

namespace Interpreter

theorem fold_lib : NameMap.fold "Lib" = NameMap.fold "LIB" := by
  have hmixed : NameMap.fold "Lib" = "lib" := by decide +kernel
  have hupper : NameMap.fold "LIB" = "lib" := by decide +kernel
  rw [hmixed, hupper]

theorem libraryCaller_refers (id : Nat) : (libraryCaller id).Refers namesakes "Lib" := by
  have hkind : smallMember.kind = .memberRef 1 := by decide +kernel
  exact ⟨_, _, 1, _, rfl, rfl, hkind, rfl, rfl⟩

/-- Two calls of the member, with room for one. -/
def deepCaller : Thread Empty := (libraryCaller 1).call 0 smallMember

def shallowNamesakes : Context Empty := { namesakes with config := { maxCallDepth := 1 } }

end Interpreter

open Interpreter

/-- The assembly has another case than the reference; it comes from a catalog, or later. -/
theorem load_agrees_with_registered_of_library :
    (libraryCaller 1).Refers namesakes "Lib" ∧ NameMap.fold "Lib" = NameMap.fold "LIB" ∧
      namesakes.program.nameOf 2 = "LIB" ∧
      (let d := Domain.empty 64 (some (Loader.ofCatalog [("lib", 2)]))
      ∃ waiting collected,
        Transition.run namesakes ⟨libraryCaller 1, d, Log.empty .error⟩ = .ok .continue waiting ∧
        Transition.run namesakes waiting = .ok .continue collected ∧
        collected.thread.executing? = some 2 ∧
        (d.register "LIB" 2).OneRequestMore collected.domain) ∧
      let d := Domain.empty 64 (some Loader.deferred)
      ∃ waiting,
        Transition.run namesakes ⟨libraryCaller 1, d, Log.empty .error⟩ = .ok .continue waiting ∧
        (∀ n, outcome (step namesakes)
          (ThreadAction.performAll namesakes (List.replicate n .step) waiting) = .ok true) ∧
        ∃ completed collected, waiting.domain.settle 0 (.loaded 2) = (true, completed) ∧
          Transition.run namesakes ⟨waiting.thread, completed, Log.empty .error⟩ =
            .ok .continue collected ∧
          (d.register "LIB" 2).OneRequestMore collected.domain := by
  have hdepth : namesakes.config.maxCallDepth = 0 ∨
      (libraryCaller 1).depth ≤ namesakes.config.maxCallDepth := Or.inr (by decide)
  have hpatience : 0 < namesakes.patience := by decide
  have hname : NameMap.fold (namesakes.program.nameOf 2) = NameMap.fold "LIB" := rfl
  have hagrees (loader : Loader) :=
    (load_agrees_with_registered namesakes (d := Domain.empty 64 (some loader))
      (libraryCaller_refers 1) fold_lib hname rfl rfl).1 hdepth
  refine ⟨libraryCaller_refers 1, fold_lib, rfl, ?_, ?_⟩
  · obtain ⟨resolved, ⟨f, rest, target, -, -, hresolved⟩, -, hcatalog, -⟩ := hagrees _
    have hserves : NameMap.find? [("lib", 2)] "LIB" = some 2 := by decide +kernel
    obtain ⟨waiting, collected, hfirst, -, hsecond, hthread, hdomain⟩ :=
      hcatalog [("lib", 2)] (Log.empty .error) rfl hserves
    refine ⟨waiting, collected, hfirst, hsecond, ?_, hdomain⟩
    rw [hthread, hresolved]
    rfl
  · obtain ⟨resolved, -, -, -, hdeferred⟩ := hagrees Loader.deferred
    obtain ⟨waiting, hfirst, -, hsteps, completed, hsettled, hsecond⟩ :=
      hdeferred Loader.deferred (Log.empty .error) rfl rfl
    obtain ⟨collected, hcollected, -, hdomain⟩ := hsecond (Log.empty .error)
    exact ⟨waiting, hfirst, fun n => (hsteps hpatience n).2.2, completed, collected, hsettled,
      hcollected, hdomain⟩

/-- Beyond the limit on depth even a registered assembly is not reached. -/
theorem registered_beyond_depth :
    let d := (Domain.empty 64 none).register "LIB" 2
    let m : Machine Empty := ⟨deepCaller, d, Log.empty .error⟩
    deepCaller.Refers shallowNamesakes "Lib" ∧ d.assembly? "Lib" = some 2 ∧
      outcome (Transition.run shallowNamesakes) m = .error (.callDepthExceeded 2 1) ∧
      (after (Transition.run shallowNamesakes) m).thread.frames.map Frame.state =
        [.resolve, .resolve] := by
  intro d m
  have hkind : smallMember.kind = .memberRef 1 := by decide +kernel
  have hlimit : shallowNamesakes.config.maxCallDepth = 1 := rfl
  obtain ⟨log, hrun⟩ :=
    Transition.run_of_deep (m := m) Nat.one_pos hlimit rfl rfl (Nat.le_refl 1)
  refine ⟨⟨_, _, 1, _, rfl, rfl, hkind, rfl, rfl⟩, ?_, outcome_of_error hrun, ?_⟩
  · rw [Domain.assembly?_register, if_pos fold_lib]
  · rw [after_of_error hrun]
    rfl

end ManagedCalls
