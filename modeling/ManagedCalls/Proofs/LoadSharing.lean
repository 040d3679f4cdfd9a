import ManagedCalls.Proofs.Fleet
import ManagedCalls.Proofs.FrameInvariants
import ManagedCalls.Proofs.LoadHistory

/-!
Loads as threads see them. Whatever threads do, their domain has a history, so
loads are requested in the order that histories allow. A frame that waits does so
for a ticket that was handed to the loader under the name the frame asked for.
Such a ticket is settled or pending, and so all frames that wait for one name share
one open ticket.
-/

namespace ManagedCalls

open Stateful

variable {κ : Type}

theorem DomainAction.performAll_withPool (nameOf : Nat → String) (actions : List DomainAction)
    (d : Domain) (p : Pool) :
    performAll nameOf actions (d.withPool p) = (performAll nameOf actions d).withPool p := by
  induction actions generalizing d with
  | nil => rfl
  | cons a rest ih =>
    rw [performAll, performAll, perform_withPool, ih]

namespace Domain

/-- Actions lead from one domain to the other, whatever became of the pool. -/
def Reaches (nameOf : Nat → String) (d d' : Domain) : Prop :=
  ∃ history, d' = (DomainAction.performAll nameOf history d).withPool d'.pool

namespace Reaches

variable {nameOf : Nat → String} {d d' d'' : Domain}

theorem of_withPool (d : Domain) (p : Pool) : Reaches nameOf d (d.withPool p) := ⟨[], rfl⟩

theorem refl (d : Domain) : Reaches nameOf d d := of_withPool d d.pool

theorem of_action (a : DomainAction) (d : Domain) : Reaches nameOf d (a.perform nameOf d) :=
  ⟨[a], rfl⟩

theorem trans (h : Reaches nameOf d d') (h' : Reaches nameOf d' d'') : Reaches nameOf d d'' := by
  obtain ⟨first, hfirst⟩ := h
  obtain ⟨second, hsecond⟩ := h'
  refine ⟨first ++ second, ?_⟩
  rw [hfirst, DomainAction.performAll_withPool] at hsecond
  rw [DomainAction.performAll_append]
  exact hsecond

theorem to_extends (h : Reaches nameOf d d') : d.Extends d' := by
  obtain ⟨history, hd'⟩ := h
  rw [hd']
  exact (DomainAction.performAll_extends nameOf history d).withPool _

theorem wellFormed (h : Reaches nameOf d d') (hd : d.WellFormed) : d'.WellFormed := by
  obtain ⟨history, hd'⟩ := h
  have hwf := DomainAction.performAll_wellFormed nameOf history hd
  rw [hd']
  exact hwf.of_same_loads ((Extends.refl _).withPool _) hwf.registry_folded rfl rfl

end Reaches

end Domain

open Domain

theorem HostAction.Rule.reaches {program : Program κ} {t t' : Thread κ} {d d' : Domain}
    (h : Rule program t d t' d') : Reaches program.nameOf d d' := by
  cases h with
  | operands | called | touched => exact .refl d
  | stored => exact .of_withPool d _
  | asked a => exact .of_action a d

theorem HostAction.performAll_reaches (program : Program κ) (actions : List HostAction)
    (m : Machine κ) : Reaches program.nameOf m.domain (performAll program actions m).domain :=
  performAll_kept program (I := fun _ d => Reaches program.nameOf m.domain d)
    (fun hrule hreaches => hreaches.trans hrule.reaches) actions m (.refl _)

theorem Transition.Rule.reaches {ctx : Context κ} (hctx : ctx.Disciplined) {t t' : Thread κ}
    {d d' : Domain} {r : Except Fault Tick} (h : Rule ctx t d r t' d') :
    Reaches ctx.program.nameOf d d' := by
  cases h with
  | noFrame | unresolved | foundBody | unbound | bound | unready | callMissing => exact .refl d
  | outstanding | collected | loadFailed => exact .of_action (.finish _) d
  | rolledBack | activated | tornDown | unreleased => exact .of_withPool d _
  | @foundMember f rest row target resolution d' events htop hstate htarget hresolve =>
    have hperform : DomainAction.perform ctx.program.nameOf (.resolve target.assemblyRef.name) d =
        d' := by
      rw [DomainAction.perform, hresolve]
    exact hperform ▸ .of_action _ d
  | @polled f rest call call' log status m htop hstate hcall hpoll =>
    obtain ⟨actions, rfl⟩ := pollCall_actions hctx call _ hpoll
    exact HostAction.performAll_reaches ctx.program actions _
  | executed log htop hstate =>
    obtain ⟨actions, hactions⟩ := hctx.execute ⟨t, d, log⟩
    rw [hactions]
    exact HostAction.performAll_reaches ctx.program actions ⟨t, d, log⟩

/-- A frame that waits does so for a ticket that the loader got under the name of
the frame's target. -/
def Frame.AwaitsIn (d : Domain) (f : Frame κ) : Prop :=
  ∀ ticket, f.state = .awaitAssembly ticket → ticket ∈ d.requests ∧
    ∃ target entry, f.target = some target ∧ d.ticket? ticket = some entry ∧
      NameMap.fold target.assemblyRef.name = NameMap.fold entry.name

namespace Frame

theorem AwaitsIn.mono {d d' : Domain} {f : Frame κ} (h : f.AwaitsIn d) (hext : d.Extends d') :
    f.AwaitsIn d' := by
  intro ticket hstate
  obtain ⟨hrequested, target, entry, htarget, hentry, hname⟩ := h ticket hstate
  obtain ⟨outcome, hentry', -⟩ := hext.ticket hentry
  exact ⟨hext.requests.subset hrequested, target, _, htarget, hentry', hname⟩

theorem awaitsIn_of_ne {d : Domain} {f : Frame κ}
    (h : ∀ ticket, f.state ≠ .awaitAssembly ticket) : f.AwaitsIn d :=
  fun ticket hstate => (h ticket hstate).elim

theorem Called.awaitsIn {f : Frame κ} (h : f.Called) (d : Domain) : f.AwaitsIn d := by
  obtain ⟨id, calling, method, ip, rfl⟩ := h
  intro ticket hstate
  cases hstate

theorem Touched.awaitsIn {f g : Frame κ} (h : f.Touched g) {d : Domain} (hf : f.AwaitsIn d) :
    g.AwaitsIn d := by
  intro ticket hstate
  have htarget : g.target = f.target := by rw [h.same]
  have hbefore : f.state = .awaitAssembly ticket := by
    rcases h.state with hsame | ⟨-, hteardown⟩
    · exact hsame.symm.trans hstate
    · cases hteardown.symm.trans hstate
  rw [htarget]
  exact hf ticket hbefore

end Frame

/-- All frames of a list wait as they should. -/
def FramesAwait (d : Domain) (fs : List (Frame κ)) : Prop := ∀ f ∈ fs, f.AwaitsIn d

theorem FramesAwait.mono {d d' : Domain} {fs : List (Frame κ)} (h : FramesAwait d fs)
    (hext : d.Extends d') : FramesAwait d' fs :=
  fun f hf => (h f hf).mono hext

theorem FramesAwait.top {d : Domain} {f g : Frame κ} {rest new : List (Frame κ)} {first next : Nat}
    (h : FramesAwait d (f :: rest)) (hnew : CalledFrames first next new)
    (hg : f.AwaitsIn d → g.AwaitsIn d) : FramesAwait d (new ++ g :: rest) := by
  intro k hk
  rcases List.mem_append.mp hk with hk | hk
  · exact (hnew.called k hk).awaitsIn d
  · rcases List.mem_cons.mp hk with rfl | hk
    · exact hg (h f List.mem_cons_self)
    · exact h k (List.mem_cons_of_mem _ hk)

theorem HostAction.Rule.framesAwait {program : Program κ} {t t' : Thread κ} {d d' : Domain}
    (h : Rule program t d t' d') (hframes : FramesAwait d t.frames) : FramesAwait d' t'.frames := by
  have hlater := hframes.mono h.reaches.to_extends
  cases h with
  | operands | asked => exact hlater
  | called assembly method =>
    intro f hf
    rcases List.mem_cons.mp hf with rfl | hf
    · exact Frame.Called.awaitsIn ⟨_, _, _, _, rfl⟩ d
    · exact hlater f hf
  | touched htop htouched | stored htop htouched =>
    rw [htop] at hlater
    exact hlater.top (.nil 0 0) htouched.awaitsIn

theorem HostAction.performAll_framesAwait (program : Program κ) (actions : List HostAction)
    (m : Machine κ) (hframes : FramesAwait m.domain m.thread.frames) :
    FramesAwait (performAll program actions m).domain
      (performAll program actions m).thread.frames :=
  performAll_kept program (I := fun t d => FramesAwait d t.frames)
    (fun hrule hkept => hrule.framesAwait hkept) actions m hframes

/-- The ticket a lookup answers with was handed to the loader under that name. -/
theorem Domain.WellFormed.resolve_pending {d d' : Domain} (h : d.WellFormed) {name : String}
    {ticket : Nat} {events : List Event}
    (hresolve : d.resolve name = .ok (.pending ticket, d', events)) :
    ticket ∈ d'.requests ∧ ∃ entry, d'.ticket? ticket = some entry ∧
      NameMap.fold name = NameMap.fold entry.name := by
  rcases d.resolve_cases name with ⟨assembly, -, hrun⟩ | ⟨-, -, hrun⟩ |
    ⟨loader, joined, -, -, hpending, hrun⟩ | ⟨loader, noted, -, -, -, -, hrun⟩
  · rw [hrun] at hresolve
    cases hresolve
  · rw [hrun] at hresolve
    cases hresolve
  · rw [hrun] at hresolve
    cases hresolve
    exact h.pending_entry _ (NameMap.mem_of_find? hpending)
  · rw [hrun] at hresolve
    cases hresolve
    refine ⟨List.mem_append_right _ List.mem_cons_self, ⟨name, (loader name).outcome⟩, ?_, rfl⟩
    simp [Domain.issue, ticket?]

theorem Transition.Rule.framesAwait {ctx : Context κ} (hctx : ctx.Disciplined) {t t' : Thread κ}
    {d d' : Domain} {r : Except Fault Tick} (h : Rule ctx t d r t' d') (hwf : d.WellFormed)
    (hframes : FramesAwait d t.frames) : FramesAwait d' t'.frames := by
  have hlater := hframes.mono (h.reaches hctx).to_extends
  -- the topmost frame does not wait any more
  have hmoved {f g : Frame κ} {rest : List (Frame κ)} (htop : t.frames = f :: rest)
      (hg : ∀ ticket, g.state ≠ .awaitAssembly ticket) : FramesAwait d' (g :: rest) := by
    rw [htop] at hlater
    exact hlater.top (.nil 0 0) fun _ => Frame.awaitsIn_of_ne hg
  cases h with
  | noFrame | unresolved | outstanding | loadFailed | unbound | unready | rolledBack
    | callMissing => exact hlater
  | foundBody htop | collected htop | bound _ htop => exact hmoved htop (by simp)
  | activated htop => exact hmoved htop (by simp)
  | @foundMember f rest row target resolution d' events htop hstate htarget hresolve =>
    cases resolution with
    | loaded assembly => exact hmoved htop (by simp [Frame.afterResolution])
    | pending ticket =>
      obtain ⟨hrequested, entry, hentry, hname⟩ := hwf.resolve_pending hresolve
      rw [htop] at hlater
      refine hlater.top (.nil 0 0) fun _ => ?_
      intro other hother
      obtain rfl : ticket = other := FrameState.awaitAssembly.inj hother
      exact ⟨hrequested, target, entry, rfl, hentry, hname⟩
  | @polled f rest call call' log status m htop hstate hcall hpoll =>
    let start : Machine κ := ⟨{ t with frames := { f with nativeCall := none } :: rest }, d, log⟩
    have hstart : FramesAwait d start.thread.frames := by
      rw [htop] at hframes
      exact hframes.top (.nil 0 0) id
    obtain ⟨actions, new, g, rfl, -, hnew, -, hnewFrames, hsettled⟩ :=
      pollCall_cases (f := { f with nativeCall := none }) hctx rfl hstate hpoll
    have hpolled := HostAction.performAll_framesAwait ctx.program actions start hstart
    rw [hnewFrames] at hpolled
    rw [hsettled]
    have hbelow : FramesAwait _ (g :: rest) := fun k hk => hpolled k (List.mem_append_right _ hk)
    refine hbelow.top hnew fun _ => Frame.awaitsIn_of_ne fun ticket => ?_
    rcases polledState_cases .nativeExec status with hstay | hdone
    · simp [hstay]
    · simp [hdone]
  | executed log htop hstate =>
    obtain ⟨actions, hactions⟩ := hctx.execute ⟨t, d, log⟩
    rw [hactions]
    exact HostAction.performAll_framesAwait ctx.program actions ⟨t, d, log⟩ hframes
  | tornDown htop =>
    rw [htop] at hlater
    exact fun f hf => hlater f (List.mem_cons_of_mem _ hf)
  | @unreleased f rest e htop hstate => exact hmoved htop (by simp [Frame.drained, hstate])

/-- A domain with a history from `start`, on which all frames wait as they should. -/
structure Waits (nameOf : Nat → String) (start : Domain) (fs : List (Frame κ)) (d : Domain) :
    Prop where
  reaches : Reaches nameOf start d
  frames : FramesAwait d fs

theorem waits_kept {ctx : Context κ} (hctx : ctx.Disciplined) {start : Domain}
    (hstart : start.WellFormed) (others : List (Frame κ)) :
    Kept ctx fun t d => Waits ctx.program.nameOf start (t.frames ++ others) d := by
  have hboth {t t' : Thread κ} {d d' : Domain} (hreaches : Reaches ctx.program.nameOf d d')
      (hframes : FramesAwait d t.frames → FramesAwait d' t'.frames)
      (h : Waits ctx.program.nameOf start (t.frames ++ others) d) :
      Waits ctx.program.nameOf start (t'.frames ++ others) d' := by
    refine ⟨h.reaches.trans hreaches, ?_⟩
    intro f hf
    rcases List.mem_append.mp hf with hf | hf
    · exact hframes (fun g hg => h.frames g (List.mem_append_left _ hg)) f hf
    · exact (h.frames f (List.mem_append_right _ hf)).mono hreaches.to_extends
  constructor
  · intro t d t' d' hrule h
    exact hboth hrule.reaches hrule.framesAwait h
  · intro t d r t' d' hrule h
    exact hboth (hrule.reaches hctx) (hrule.framesAwait hctx (h.reaches.wellFormed hstart)) h
  · intro t d h
    exact hboth (.of_withPool d _) (fun _ f hf => (List.not_mem_nil hf).elim) h

theorem waits_fleetKept {ctx : Context κ} (hctx : ctx.Disciplined) {start : Domain}
    (hstart : start.WellFormed) :
    FleetKept ctx True fun ts d =>
      Waits ctx.program.nameOf start (ts.flatMap Thread.frames) d where
  perm := by
    intro ts ts' d hperm h
    refine ⟨h.reaches, ?_⟩
    intro f hf
    exact h.frames f ((hperm.flatMap_right Thread.frames).mem_iff.mpr hf)
  create := by
    intro ts d id h
    exact h
  act := by
    intro ts a m h
    exact (waits_kept hctx hstart (ts.flatMap Thread.frames)).perform a h
  gone := by
    intro t ts d _ h
    exact ⟨h.reaches, fun f hf => h.frames f (List.mem_append_right _ hf)⟩
  domain := by
    intro ts d a h
    have hreaches : Reaches ctx.program.nameOf d (a.perform ctx.program.nameOf d) := .of_action a d
    exact ⟨h.reaches.trans hreaches, h.frames.mono hreaches.to_extends⟩

/-- What holds of loads after a history: the domain is well-formed, all ways to
write a name lead to the same answer, the loader was called once for each ticket
handed over, and a name was requested again only after the earlier ticket had failed
and was collected. -/
structure LoadsInOrder (nameOf : Nat → String) (start : Domain) (history : List DomainAction) :
    Prop where
  wellFormed : (DomainAction.performAll nameOf history start).WellFormed
  resolves : ∀ {name other}, NameMap.fold name = NameMap.fold other →
    (DomainAction.performAll nameOf history start).Resolves name other
  names : (DomainAction.performAll nameOf history start).requests.map
      (DomainAction.performAll nameOf history start).ticketName? =
    (DomainAction.requestedAll nameOf history start).map some
  count : (DomainAction.performAll nameOf history start).loadRequests =
    (DomainAction.requestedAll nameOf history start).length
  again : ∀ {first middle last a b name name'}, history = first ++ a :: (middle ++ b :: last) →
    name ∈ a.requested nameOf (DomainAction.performAll nameOf first start) →
    name' ∈ b.requested nameOf (DomainAction.performAll nameOf (first ++ a :: middle) start) →
    NameMap.fold name = NameMap.fold name' →
    ∃ ticket, (DomainAction.performAll nameOf (first ++ [a]) start).requests =
        (DomainAction.performAll nameOf first start).requests ++ [ticket] ∧
      DomainAction.Collects nameOf ticket middle
        (DomainAction.performAll nameOf (first ++ [a]) start)

theorem loadsInOrder (nameOf : Nat → String) (poolBytes : Nat) (loader : Option Loader)
    (history : List DomainAction) :
    LoadsInOrder nameOf (Domain.empty poolBytes loader) history := by
  have hempty := WellFormed.empty poolBytes loader
  have hwf := DomainAction.performAll_wellFormed nameOf history hempty
  have hnames := DomainAction.performAll_request_names nameOf history hempty
  have hnone : (Domain.empty poolBytes loader).requests = [] := rfl
  rw [hnone, List.map_nil, List.nil_append] at hnames
  refine ⟨hwf, hwf.resolves, hnames, ?_, ?_⟩
  · have hlength := congrArg List.length hnames
    rwa [List.length_map, List.length_map] at hlength
  · intro first middle last a b name name' _ hname hname' hsame
    exact DomainAction.collects_between nameOf first middle a b _ hname hname' hsame

namespace Fleet

/-- The ticket a frame waits for is settled or is the pending entry of its name.
Frames that wait for open tickets of one name wait for the same ticket. -/
structure SharesLoads (fleet : Fleet κ) : Prop where
  waits : ∀ t ∈ fleet.threads, ∀ f ∈ t.frames, ∀ ticket, f.state = .awaitAssembly ticket →
    ∃ target entry, f.target = some target ∧ fleet.domain.ticket? ticket = some entry ∧
      NameMap.fold target.assemblyRef.name = NameMap.fold entry.name ∧
      (entry.outcome.isSome ∨ fleet.domain.pending.find? entry.name = some ticket)
  shares : ∀ t ∈ fleet.threads, ∀ t' ∈ fleet.threads, ∀ f ∈ t.frames, ∀ f' ∈ t'.frames,
    ∀ ticket ticket' target target', f.state = .awaitAssembly ticket → f.target = some target →
    f'.state = .awaitAssembly ticket' → f'.target = some target' →
    NameMap.fold target.assemblyRef.name = NameMap.fold target'.assemblyRef.name →
    fleet.domain.isReady ticket = false → fleet.domain.isReady ticket' = false → ticket = ticket'

end Fleet

/-- An open ticket that a frame waits for is the pending entry of its name. -/
theorem Frame.AwaitsIn.pending {d : Domain} {f : Frame κ} (h : f.AwaitsIn d) (hwf : d.WellFormed)
    {ticket : Nat} {target : Target} (hstate : f.state = .awaitAssembly ticket)
    (htarget : f.target = some target) (hopen : d.isReady ticket = false) :
    d.pending.find? target.assemblyRef.name = some ticket := by
  obtain ⟨hrequested, own, entry, hown, hentry, hname⟩ := h ticket hstate
  obtain rfl : target = own := Option.some.inj (htarget.symm.trans hown)
  have hnone : entry.outcome = none := by
    simpa [isReady, outcome?, hentry] using hopen
  obtain ⟨name, outcome⟩ := entry
  obtain rfl : outcome = none := hnone
  rw [NameMap.find?_congr d.pending hname]
  exact hwf.pending_of_open ticket hrequested name hentry

theorem Fleet.sharesLoads {fleet : Fleet κ} (hwf : fleet.domain.WellFormed)
    (h : FramesAwait fleet.domain (fleet.threads.flatMap Thread.frames)) : fleet.SharesLoads := by
  have hframe {t : Thread κ} {f : Frame κ} (ht : t ∈ fleet.threads) (hf : f ∈ t.frames) :
      f.AwaitsIn fleet.domain := h f (List.mem_flatMap.mpr ⟨t, ht, hf⟩)
  constructor
  · intro t ht f hf ticket hstate
    obtain ⟨-, target, entry, htarget, hentry, hname⟩ := hframe ht hf ticket hstate
    refine ⟨target, entry, htarget, hentry, hname, ?_⟩
    cases houtcome : entry.outcome with
    | some outcome => exact Or.inl rfl
    | none =>
      have hopen : fleet.domain.isReady ticket = false := by
        simp [isReady, outcome?, hentry, houtcome]
      right
      rw [← NameMap.find?_congr _ hname]
      exact (hframe ht hf).pending hwf hstate htarget hopen
  · intro t ht t' ht' f hf f' hf' ticket ticket' target target' hstate htarget hstate' htarget'
      hname hopen hopen'
    have hpending := (hframe ht hf).pending hwf hstate htarget hopen
    have hpending' := (hframe ht' hf').pending hwf hstate' htarget' hopen'
    rw [NameMap.find?_congr _ hname, hpending'] at hpending
    exact (Option.some.inj hpending).symm

/-- Loads are in order after every history of a domain, and every domain that
threads work on has such a history, whichever threads fail or get lost on the way.
Frames that wait for one name share its load. -/
theorem loads_shared {ctx : Context κ} (hctx : ctx.Disciplined) (poolBytes : Nat)
    (loader : Option Loader) (level : Level) :
    (∀ history, LoadsInOrder ctx.program.nameOf (Domain.empty poolBytes loader) history) ∧
      ∀ actions, ∃ history,
        let fleet := FleetAction.performAll ctx actions (Fleet.fresh poolBytes loader level)
        fleet.domain = (DomainAction.performAll ctx.program.nameOf history
            (Domain.empty poolBytes loader)).withPool fleet.domain.pool ∧
          fleet.SharesLoads := by
  have hempty := WellFormed.empty poolBytes loader
  refine ⟨loadsInOrder ctx.program.nameOf poolBytes loader, ?_⟩
  intro actions
  have hfresh : Waits ctx.program.nameOf (Domain.empty poolBytes loader)
      ((Fleet.fresh poolBytes loader level : Fleet κ).threads.flatMap Thread.frames)
      (Fleet.fresh poolBytes loader level : Fleet κ).domain :=
    ⟨.refl _, fun f hf => (List.not_mem_nil hf).elim⟩
  have hwaits := (waits_fleetKept hctx hempty).performAll actions _ (Or.inl trivial) hfresh
  obtain ⟨history, hhistory⟩ := hwaits.reaches
  exact ⟨history, hhistory, Fleet.sharesLoads (hwaits.reaches.wellFormed hempty) hwaits.frames⟩

/-- Two threads call a member of the same assembly. -/
def twoWaiters : List FleetAction :=
  [.create 1, .act 0 (.host (.call 0 Interpreter.smallMember)), .act 0 .transition,
    .create 2, .act 0 (.host (.call 0 Interpreter.smallMember)), .act 0 .transition]

theorem loads_shared_by_two :
    let ctx := Interpreter.smallContext {}
    let start := Domain.empty 64 (some Loader.deferred)
    let fleet : Fleet Empty :=
      FleetAction.performAll ctx twoWaiters (Fleet.fresh 64 (some Loader.deferred) .error)
    ctx.Disciplined ∧
      (fleet.threads.flatMap Thread.frames).map Frame.state =
        [.awaitAssembly 0, .awaitAssembly 0] ∧
      fleet.domain.loadRequests = 1 ∧
      (∀ history, LoadsInOrder ctx.program.nameOf start history) ∧
      ∃ history, fleet.domain =
          (DomainAction.performAll ctx.program.nameOf history start).withPool fleet.domain.pool ∧
        fleet.SharesLoads := by
  intro ctx start fleet
  have hctx : ctx.Disciplined := Interpreter.plainContext_disciplined _ _ _
  have hstates : (fleet.threads.flatMap Thread.frames).map Frame.state =
      [.awaitAssembly 0, .awaitAssembly 0] := by decide +kernel
  have hrequests : fleet.domain.loadRequests = 1 := by decide +kernel
  obtain ⟨horder, hfleets⟩ := loads_shared hctx 64 (some Loader.deferred) .error
  exact ⟨hctx, hstates, hrequests, horder, hfleets twoWaiters⟩

end ManagedCalls
