import ManagedCalls.Transition

/-!
A round-robin scheduler. One tick steps every thread that was live at its
beginning, in turn. A thread without frames is retired; a failing step ends the
tick and the thread is dropped.
-/

namespace ManagedCalls

open Stateful

structure Scheduler (κ : Type) where
  /-- The live threads, the next one first. -/
  threads : List (Thread κ)
  /-- The threads that ran to completion, the first one first. -/
  finished : List (Thread κ)
  ticks : Nat

/-- A scheduler with what its threads share. -/
structure World (κ : Type) where
  scheduler : Scheduler κ
  domain : Domain
  log : Log

inductive RunOutcome where
  | completed (ticks : Nat)
  | tickLimit (ticks : Nat)
  deriving DecidableEq

abbrev Drive (κ : Type) := EStateM Fault (World κ)

variable {κ : Type}

namespace Scheduler

def empty : Scheduler κ := ⟨[], [], 0⟩

def thread? (s : Scheduler κ) (id : Nat) : Option (Thread κ) :=
  s.threads.find? fun t => t.id == id

end Scheduler

namespace World

def note (w : World κ) (e : Event) : World κ := { w with log := w.log.add e }

def setScheduler (w : World κ) (threads finished : List (Thread κ)) : World κ :=
  { w with scheduler := { w.scheduler with threads, finished } }

/-- Adds a thread at the end of the rotation. -/
def spawn (w : World κ) (t : Thread κ) : World κ :=
  (w.setScheduler (w.scheduler.threads ++ [t]) w.scheduler.finished).note (.spawning t.id)

/-- What becomes of a world when a thread fails: the thread is gone, and its
values are released if the configuration says so. -/
def abort (ctx : Context κ) (w : World κ) (t : Thread κ) (why : Fault) : World κ :=
  let w := w.note (.aborted t.id why)
  if ctx.config.releaseOnAbort then
    match Act.abandon ⟨t, w.domain, w.log⟩ with
    | .ok _ m => { w with domain := m.domain, log := m.log }
    | .error e m => { w with domain := m.domain, log := m.log.add (.cleanupFailed t.id e) }
  else w

/-- Steps the first `count` threads of the rotation. -/
def stepThreads (ctx : Context κ) : Nat → World κ → EStateM.Result Fault (World κ) Unit
  | 0, w => .ok () w
  | count + 1, w =>
    match w.scheduler.threads with
    | [] => .ok () w
    | t :: rest =>
      match step ctx ⟨t, w.domain, w.log⟩ with
      | .ok true m =>
        stepThreads ctx count
          { scheduler := { w.scheduler with threads := rest ++ [m.thread] }
            domain := m.domain
            log := m.log }
      | .ok false m =>
        stepThreads ctx count
          { scheduler :=
              { w.scheduler with threads := rest, finished := w.scheduler.finished ++ [m.thread] }
            domain := m.domain
            log := m.log.add (.completed m.thread.id) }
      | .error e m =>
        .error e
          (abort ctx
            { scheduler := { w.scheduler with threads := rest }, domain := m.domain, log := m.log }
            m.thread e)

/-- Steps every live thread once, and says whether live threads remain. -/
def tick (ctx : Context κ) (w : World κ) : EStateM.Result Fault (World κ) Bool :=
  let w := { w with scheduler := { w.scheduler with ticks := w.scheduler.ticks + 1 } }
  match stepThreads ctx w.scheduler.threads.length w with
  | .ok _ w' => .ok (!w'.scheduler.threads.isEmpty) w'
  | .error e w' => .error e w'

theorem abort_scheduler (ctx : Context κ) (w : World κ) (t : Thread κ) (why : Fault) :
    (abort ctx w t why).scheduler = w.scheduler := by
  unfold abort
  dsimp only
  split
  · split
    · rfl
    · rfl
  · rfl

theorem ticks_stepThreads (ctx : Context κ) (count : Nat) (w : World κ) :
    (after (stepThreads ctx count) w).scheduler.ticks = w.scheduler.ticks := by
  induction count generalizing w with
  | zero => rfl
  | succ count ih =>
    unfold after at ih ⊢
    rw [stepThreads]
    cases hthreads : w.scheduler.threads with
    | nil => rfl
    | cons t rest =>
      dsimp only
      cases hstep : step ctx ⟨t, w.domain, w.log⟩ with
      | ok live m =>
        cases live with
        | true => exact ih _
        | false => exact ih _
      | error e m =>
        dsimp only
        rw [abort_scheduler]

/-- A tick is counted, whether it fails or not. -/
theorem ticks_tick (ctx : Context κ) (w : World κ) :
    (after (tick ctx) w).scheduler.ticks = w.scheduler.ticks + 1 := by
  let counted : World κ :=
    { w with scheduler := { w.scheduler with ticks := w.scheduler.ticks + 1 } }
  have hsteps := ticks_stepThreads ctx counted.scheduler.threads.length counted
  cases hrun : stepThreads ctx counted.scheduler.threads.length counted with
  | ok u w' =>
    have htick : tick ctx w = .ok (!w'.scheduler.threads.isEmpty) w' := by
      dsimp only [tick]
      rw [hrun]
    rw [after_of_ok htick]
    rwa [after_of_ok hrun] at hsteps
  | error e w' =>
    have htick : tick ctx w = .error e w' := by
      dsimp only [tick]
      rw [hrun]
    rw [after_of_error htick]
    rwa [after_of_error hrun] at hsteps

theorem ticks_of_tick {ctx : Context κ} {w w' : World κ} {live : Bool}
    (h : tick ctx w = .ok live w') : w'.scheduler.ticks = w.scheduler.ticks + 1 := by
  rw [← after_of_ok h, ticks_tick]

theorem ticks_of_fault {ctx : Context κ} {w w' : World κ} {e : Fault}
    (h : tick ctx w = .error e w') : w'.scheduler.ticks = w.scheduler.ticks + 1 := by
  rw [← after_of_error h, ticks_tick]

/-- Ticks until every thread is done or `limit` ticks ran since the counter stood at
`start`. -/
def runSince (ctx : Context κ) (start limit : Nat) (w : World κ) :
    EStateM.Result Fault (World κ) RunOutcome :=
  if w.scheduler.threads.isEmpty then .ok (.completed (w.scheduler.ticks - start)) w
  else if limit ≤ w.scheduler.ticks - start then .ok (.tickLimit (w.scheduler.ticks - start)) w
  else
    match _ : tick ctx w with
    | .ok _ w' => runSince ctx start limit w'
    | .error e w' => .error e w'
termination_by start + limit - w.scheduler.ticks
decreasing_by
  -- every tick is counted, so fewer are left
  have hcount := ticks_of_tick ‹tick ctx w = .ok _ w'›
  omega

section

variable {ctx : Context κ} {start limit : Nat} {w w' : World κ}

theorem runSince_of_done (hdone : w.scheduler.threads = []) :
    runSince ctx start limit w = .ok (.completed (w.scheduler.ticks - start)) w := by
  rw [runSince, if_pos (List.isEmpty_iff.mpr hdone)]

theorem runSince_of_spent (hlive : w.scheduler.threads ≠ [])
    (hspent : limit ≤ w.scheduler.ticks - start) :
    runSince ctx start limit w = .ok (.tickLimit (w.scheduler.ticks - start)) w := by
  rw [runSince, if_neg (mt List.isEmpty_iff.mp hlive), if_pos hspent]

theorem runSince_of_tick (hlive : w.scheduler.threads ≠ [])
    (hleft : w.scheduler.ticks - start < limit) {live : Bool} (htick : tick ctx w = .ok live w') :
    runSince ctx start limit w = runSince ctx start limit w' := by
  rw [runSince, if_neg (mt List.isEmpty_iff.mp hlive), if_neg (Nat.not_le.mpr hleft)]
  split
  next hsame => cases htick.symm.trans hsame; rfl
  next hsame => cases htick.symm.trans hsame

theorem runSince_of_fault (hlive : w.scheduler.threads ≠ [])
    (hleft : w.scheduler.ticks - start < limit) {e : Fault} (htick : tick ctx w = .error e w') :
    runSince ctx start limit w = .error e w' := by
  rw [runSince, if_neg (mt List.isEmpty_iff.mp hlive), if_neg (Nat.not_le.mpr hleft)]
  split
  next hsame => cases htick.symm.trans hsame
  next hsame => cases htick.symm.trans hsame; rfl

end

/-- A run ends with all threads done, at its limit or in a tick that fails, or it goes on
after a tick. -/
theorem runSince_induction (ctx : Context κ) (start limit : Nat) {motive : World κ → Prop}
    (done : ∀ w, w.scheduler.threads = [] → motive w)
    (spent : ∀ w, w.scheduler.threads ≠ [] → limit ≤ w.scheduler.ticks - start → motive w)
    (goesOn : ∀ w w' live, w.scheduler.threads ≠ [] → w.scheduler.ticks - start < limit →
      tick ctx w = .ok live w' → motive w' → motive w)
    (fails : ∀ w w' e, w.scheduler.threads ≠ [] → w.scheduler.ticks - start < limit →
      tick ctx w = .error e w' → motive w) (w : World κ) : motive w := by
  induction w using runSince.induct ctx start limit with
  | case1 w hempty => exact done w (List.isEmpty_iff.mp hempty)
  | case2 w hlive hspent => exact spent w (mt List.isEmpty_iff.mpr hlive) hspent
  | case3 w hlive hleft live w' htick ih =>
    exact goesOn w w' live (mt List.isEmpty_iff.mpr hlive) (Nat.not_le.mp hleft) htick ih
  | case4 w hlive hleft e w' htick =>
    exact fails w w' e (mt List.isEmpty_iff.mpr hlive) (Nat.not_le.mp hleft) htick

/-- Ticks until every thread is done, at most `limit` times. -/
def run (ctx : Context κ) (limit : Nat) : Drive κ RunOutcome := fun w =>
  runSince ctx w.scheduler.ticks limit w

end World

end ManagedCalls
