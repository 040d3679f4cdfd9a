import ManagedCalls.Proofs.ThreadActions
import ManagedCalls.Scheduler
import Mathlib.Data.List.Perm.Basic

/-!
All threads that work on one domain: those in the hands of users, which can be
acted on one by one, and those given to a scheduler, which only ticks and runs
reach. A property of all these threads together with their domain is kept by
every action, if it does not depend on the order of the threads and is kept by
new threads, by actions on one thread, by threads that go and by what others do to
the domain. A thread that goes has no frames, unless threads get lost.
-/

namespace ManagedCalls

open Stateful

variable {κ : Type}

structure Fleet (κ : Type) where
  /-- The threads outside the scheduler. -/
  held : List (Thread κ)
  world : World κ

namespace Fleet

def threads (fleet : Fleet κ) : List (Thread κ) :=
  fleet.held ++ (fleet.world.scheduler.threads ++ fleet.world.scheduler.finished)

def domain (fleet : Fleet κ) : Domain := fleet.world.domain

/-- A domain that nobody has worked on yet. -/
def fresh (poolBytes : Nat) (loader : Option Loader) (level : Level) : Fleet κ :=
  ⟨[], ⟨Scheduler.empty, Domain.empty poolBytes loader, Log.empty level⟩⟩

/-- The fleet after an action on a thread outside the scheduler. -/
def withMachine (fleet : Fleet κ) (index : Nat) (m : Machine κ) : Fleet κ :=
  ⟨fleet.held.set index m.thread, { fleet.world with domain := m.domain, log := m.log }⟩

end Fleet

/-- A scheduler that fails releases what the failed thread owned. -/
def World.Spares (ctx : Context κ) {α : Type} : EStateM.Result Fault (World κ) α → Prop
  | .ok _ _ => True
  | .error _ _ => ctx.config.releaseOnAbort = true

inductive FleetAction where
  | create (id : Nat)
  | act (index : Nat) (a : ThreadAction)
  | spawn (index : Nat)
  | drop (index : Nat)
  | tick
  | run (limit : Nat)
  | domain (a : DomainAction)

namespace FleetAction

/-- The fleet after an action, whether the action fails or not. -/
def perform (ctx : Context κ) (fleet : Fleet κ) : FleetAction → Fleet κ
  | create id => { fleet with held := Thread.new id :: fleet.held }
  | act index a =>
    match fleet.held[index]? with
    | some t =>
      fleet.withMachine index (after (a.perform ctx) ⟨t, fleet.domain, fleet.world.log⟩)
    | none => fleet
  | spawn index =>
    match fleet.held[index]? with
    | some t => ⟨fleet.held.eraseIdx index, fleet.world.spawn t⟩
    | none => fleet
  | drop index => { fleet with held := fleet.held.eraseIdx index }
  | tick => { fleet with world := after (World.tick ctx) fleet.world }
  | run limit => { fleet with world := after (World.run ctx limit) fleet.world }
  | domain a =>
    { fleet with
      world := { fleet.world with domain := a.perform ctx.program.nameOf fleet.domain } }

def performAll (ctx : Context κ) : List FleetAction → Fleet κ → Fleet κ
  | [], fleet => fleet
  | a :: rest, fleet => performAll ctx rest (a.perform ctx fleet)

/-- No thread with frames gets lost: none is dropped, and no tick fails unless the
scheduler releases what a failed thread owned. -/
def Careful (ctx : Context κ) (fleet : Fleet κ) : FleetAction → Prop
  | drop index => ∀ t, fleet.held[index]? = some t → t.frames = []
  | tick => World.Spares ctx (World.tick ctx fleet.world)
  | run limit => World.Spares ctx (World.run ctx limit fleet.world)
  | _ => True

/-- Careful actions one after the other. -/
def AllCareful (ctx : Context κ) : List FleetAction → Fleet κ → Prop
  | [], _ => True
  | a :: rest, fleet => a.Careful ctx fleet ∧ AllCareful ctx rest (a.perform ctx fleet)

end FleetAction

theorem World.abort_domain (ctx : Context κ) (w : World κ) (t : Thread κ) (why : Fault) :
    (World.abort ctx w t why).domain =
      if ctx.config.releaseOnAbort = true then
        (after Act.abandon ⟨t, w.domain, w.log.add (.aborted t.id why)⟩).domain
      else w.domain := by
  unfold abort after
  dsimp only [World.note]
  split
  · split
    next m hrun => rw [hrun]
    next e m hrun => rw [hrun]
  · rfl

/-- Kept by whatever happens to threads and their domain. With `lossy`, threads
may also get lost. -/
structure FleetKept (ctx : Context κ) (lossy : Prop) (P : List (Thread κ) → Domain → Prop) :
    Prop where
  perm : ∀ {ts ts' d}, ts.Perm ts' → P ts d → P ts' d
  create : ∀ {ts d} id, P ts d → P (Thread.new id :: ts) d
  act : ∀ {ts} a (m : Machine κ), P (m.thread :: ts) m.domain →
    P ((after (ThreadAction.perform ctx a) m).thread :: ts) (after (a.perform ctx) m).domain
  gone : ∀ {t ts d}, lossy ∨ t.frames = [] → P (t :: ts) d → P ts d
  domain : ∀ {ts d} (a : DomainAction), P ts d → P ts (a.perform ctx.program.nameOf d)

namespace FleetKept

variable {ctx : Context κ} {lossy : Prop} {P : List (Thread κ) → Domain → Prop}

theorem step (h : FleetKept ctx lossy P) {ts : List (Thread κ)} (m : Machine κ)
    (hm : P (m.thread :: ts) m.domain) :
    P ((after (ManagedCalls.step ctx) m).thread :: ts)
      (after (ManagedCalls.step ctx) m).domain := by
  have hstep := h.act .step m hm
  rwa [ThreadAction.perform, after_discard] at hstep

theorem abort (h : FleetKept ctx lossy P) {ts : List (Thread κ)} (w : World κ) (t : Thread κ)
    (why : Fault) (hloss : lossy ∨ ctx.config.releaseOnAbort = true)
    (hw : P (t :: ts) w.domain) : P ts (World.abort ctx w t why).domain := by
  rw [World.abort_domain]
  by_cases hrelease : ctx.config.releaseOnAbort = true
  · rw [if_pos hrelease]
    let m : Machine κ := ⟨t, w.domain, w.log.add (.aborted t.id why)⟩
    have hm := h.act .abandon m hw
    rw [ThreadAction.perform, after_discard] at hm
    exact h.gone (Or.inr (congrArg Thread.frames (after_abandon m).1)) hm
  · rw [if_neg hrelease]
    exact h.gone (Or.inl (hloss.resolve_right hrelease)) hw

/-- The threads of a scheduler with those outside it. -/
abbrev OfWorld (P : List (Thread κ) → Domain → Prop) (held : List (Thread κ)) (w : World κ) :
    Prop := P (held ++ (w.scheduler.threads ++ w.scheduler.finished)) w.domain

theorem stepThreads (h : FleetKept ctx lossy P) (held : List (Thread κ)) (count : Nat)
    (w : World κ) (hw : OfWorld P held w)
    (hloss : lossy ∨ World.Spares ctx (World.stepThreads ctx count w)) :
    OfWorld P held (after (World.stepThreads ctx count) w) := by
  induction count generalizing w with
  | zero => exact hw
  | succ count ih =>
    cases hthreads : w.scheduler.threads with
    | nil => simpa [after, World.stepThreads, hthreads] using hw
    | cons t rest =>
      -- the thread that is stepped comes first, and afterwards has a new place
      have hfront : (held ++ (t :: rest ++ w.scheduler.finished)).Perm
          (t :: (held ++ (rest ++ w.scheduler.finished))) := List.perm_middle
      have hturn : P (t :: (held ++ (rest ++ w.scheduler.finished))) w.domain := by
        rw [OfWorld, hthreads] at hw
        exact h.perm hfront hw
      have hstep := h.step ⟨t, w.domain, w.log⟩ hturn
      cases hrun : ManagedCalls.step ctx ⟨t, w.domain, w.log⟩ with
      | error e m =>
        rw [after_of_error hrun] at hstep
        have hfails : World.stepThreads ctx (count + 1) w = .error e
            (World.abort ctx
              { scheduler := { w.scheduler with threads := rest }, domain := m.domain,
                log := m.log } m.thread e) := by
          simp [World.stepThreads, hthreads, hrun]
        rw [hfails] at hloss
        rw [after_of_error hfails, OfWorld, World.abort_scheduler]
        exact h.abort _ m.thread e hloss hstep
      | ok live m =>
        rw [after_of_ok hrun] at hstep
        have hgoesOn (next : World κ)
            (hruns : World.stepThreads ctx (count + 1) w = World.stepThreads ctx count next)
            (hdomain : next.domain = m.domain)
            (hplace : (m.thread :: (held ++ (rest ++ w.scheduler.finished))).Perm
              (held ++ (next.scheduler.threads ++ next.scheduler.finished))) :
            OfWorld P held (after (World.stepThreads ctx (count + 1)) w) := by
          have hnext : OfWorld P held next := by
            rw [OfWorld, hdomain]
            exact h.perm hplace hstep
          rw [hruns] at hloss
          have hrest := ih next hnext hloss
          unfold after at hrest ⊢
          rwa [hruns]
        cases live with
        | true =>
          refine hgoesOn
            { scheduler := { w.scheduler with threads := rest ++ [m.thread] }
              domain := m.domain
              log := m.log } ?_ rfl ?_
          · simp [World.stepThreads, hthreads, hrun]
          · have hmiddle : ((held ++ rest) ++ m.thread :: w.scheduler.finished).Perm
                (m.thread :: ((held ++ rest) ++ w.scheduler.finished)) := List.perm_middle
            simpa using hmiddle.symm
        | false =>
          refine hgoesOn
            { scheduler :=
                { w.scheduler with
                  threads := rest, finished := w.scheduler.finished ++ [m.thread] }
              domain := m.domain
              log := m.log.add (.completed m.thread.id) } ?_ rfl ?_
          · simp [World.stepThreads, hthreads, hrun]
          · have hlast : ((held ++ rest ++ w.scheduler.finished) ++ [m.thread]).Perm
                (m.thread :: (held ++ rest ++ w.scheduler.finished)) :=
              List.perm_append_singleton _ _
            simpa using hlast.symm

theorem tick (h : FleetKept ctx lossy P) (held : List (Thread κ)) (w : World κ)
    (hw : OfWorld P held w)
    (hloss : lossy ∨ World.Spares ctx (World.tick ctx w)) :
    OfWorld P held (after (World.tick ctx) w) := by
  let counted : World κ :=
    { w with scheduler := { w.scheduler with ticks := w.scheduler.ticks + 1 } }
  have hsteps := h.stepThreads held counted.scheduler.threads.length counted hw
  cases hrun : World.stepThreads ctx counted.scheduler.threads.length counted with
  | ok done w' =>
    have htick : World.tick ctx w = .ok (!w'.scheduler.threads.isEmpty) w' := by
      dsimp only [World.tick]
      rw [hrun]
    rw [hrun, after_of_ok hrun] at hsteps
    rw [after_of_ok htick]
    exact hsteps (Or.inr trivial)
  | error e w' =>
    have htick : World.tick ctx w = .error e w' := by
      dsimp only [World.tick]
      rw [hrun]
    rw [hrun, after_of_error hrun] at hsteps
    rw [htick] at hloss
    rw [after_of_error htick]
    exact hsteps hloss

theorem runSince (h : FleetKept ctx lossy P) (held : List (Thread κ)) (start limit : Nat)
    (w : World κ) (hw : OfWorld P held w)
    (hloss : lossy ∨ World.Spares ctx (World.runSince ctx start limit w)) :
    OfWorld P held (after (World.runSince ctx start limit) w) := by
  induction w using World.runSince_induction ctx start limit with
  | done w hdone => rwa [after_of_ok (World.runSince_of_done hdone)]
  | spent w hlive hspent => rwa [after_of_ok (World.runSince_of_spent hlive hspent)]
  | goesOn w w' live hlive hleft htick ih =>
    have hfirst := h.tick held w hw
    have hgoesOn : World.runSince ctx start limit w = World.runSince ctx start limit w' :=
      World.runSince_of_tick hlive hleft htick
    rw [htick, after_of_ok htick] at hfirst
    rw [hgoesOn] at hloss
    have hrest := ih (hfirst (Or.inr trivial)) hloss
    unfold after at hrest ⊢
    rwa [hgoesOn]
  | fails w w' e hlive hleft htick =>
    have hfirst := h.tick held w hw
    have hfails : World.runSince ctx start limit w = .error e w' :=
      World.runSince_of_fault hlive hleft htick
    rw [htick, after_of_error htick] at hfirst
    rw [hfails] at hloss
    rw [after_of_error hfails]
    exact hfirst hloss

/-- A thread outside the scheduler, with all others behind it. -/
theorem hold (h : FleetKept ctx lossy P) {fleet : Fleet κ} {index : Nat} {t : Thread κ}
    (ht : fleet.held[index]? = some t) (hfleet : P fleet.threads fleet.domain) :
    P (t :: (fleet.held.eraseIdx index ++
      (fleet.world.scheduler.threads ++ fleet.world.scheduler.finished))) fleet.domain := by
  obtain ⟨hlt, rfl⟩ := List.getElem?_eq_some_iff.mp ht
  exact h.perm ((List.getElem_cons_eraseIdx_perm hlt).symm.append_right _) hfleet

theorem perform (h : FleetKept ctx lossy P) (fleet : Fleet κ) (a : FleetAction)
    (hloss : lossy ∨ a.Careful ctx fleet) (hfleet : P fleet.threads fleet.domain) :
    P (a.perform ctx fleet).threads (a.perform ctx fleet).domain := by
  cases a with
  | create id => exact h.create id hfleet
  | act index a =>
    cases ht : fleet.held[index]? with
    | none => simpa [FleetAction.perform, ht] using hfleet
    | some t =>
      let m : Machine κ := ⟨t, fleet.domain, fleet.world.log⟩
      have hacted := h.act a m (h.hold ht hfleet)
      have hlt : index < fleet.held.length := (List.getElem?_eq_some_iff.mp ht).1
      have hplace := List.set_perm_cons_eraseIdx hlt (after (a.perform ctx) m).thread
      have hkept := h.perm (hplace.symm.append_right _) hacted
      simpa [FleetAction.perform, ht, Fleet.withMachine, Fleet.threads, Fleet.domain, m] using hkept
  | spawn index =>
    cases ht : fleet.held[index]? with
    | none => simpa [FleetAction.perform, ht] using hfleet
    | some t =>
      let others := fleet.held.eraseIdx index ++ fleet.world.scheduler.threads
      have hmiddle : (others ++ t :: fleet.world.scheduler.finished).Perm
          (t :: (others ++ fleet.world.scheduler.finished)) := List.perm_middle
      have hkept := h.hold ht hfleet
      rw [← List.append_assoc] at hkept
      have hspawned := h.perm hmiddle.symm hkept
      simpa [FleetAction.perform, ht, World.spawn, World.setScheduler, World.note, Fleet.threads,
        Fleet.domain, others] using hspawned
  | drop index =>
    cases ht : fleet.held[index]? with
    | none =>
      have hsame : fleet.held.eraseIdx index = fleet.held :=
        List.eraseIdx_of_length_le (List.getElem?_eq_none_iff.mp ht)
      simpa [FleetAction.perform, Fleet.threads, Fleet.domain, hsame] using hfleet
    | some t =>
      have hgone : lossy ∨ t.frames = [] := hloss.imp_right fun hcareful => hcareful t ht
      exact h.gone hgone (h.hold ht hfleet)
  | tick => exact h.tick fleet.held fleet.world hfleet hloss
  | run limit => exact h.runSince fleet.held _ limit fleet.world hfleet hloss
  | domain a => exact h.domain a hfleet

theorem performAll (h : FleetKept ctx lossy P) (actions : List FleetAction) (fleet : Fleet κ)
    (hloss : lossy ∨ FleetAction.AllCareful ctx actions fleet)
    (hfleet : P fleet.threads fleet.domain) :
    P (FleetAction.performAll ctx actions fleet).threads
      (FleetAction.performAll ctx actions fleet).domain := by
  induction actions generalizing fleet with
  | nil => exact hfleet
  | cons a rest ih =>
    apply ih
    · exact hloss.imp_right fun hcareful => hcareful.2
    · exact h.perform fleet a (hloss.imp_right fun hcareful => hcareful.1) hfleet

end FleetKept

end ManagedCalls
