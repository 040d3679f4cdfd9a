import ManagedCalls.Proofs.HostActions

/-!
Everything that can be done to a thread from outside: what a host may do, single
transitions, steps and abandoning. A step is a run of transitions, so a property
of the thread and its domain that hosts, transitions and abandoning keep is kept
by every action.
-/

namespace ManagedCalls

open Stateful

variable {κ : Type}

inductive ThreadAction where
  | host (a : HostAction)
  | transition
  | step
  | abandon

def ThreadAction.perform (ctx : Context κ) : ThreadAction → Act κ Unit
  | host a => a.perform ctx.program
  | transition => do
    let _ ← Transition.run ctx
  | step => do
    let _ ← ManagedCalls.step ctx
  | abandon => do
    let _ ← Act.abandon

/-- The machine after some actions. A failing one stops none of the others. -/
def ThreadAction.performAll (ctx : Context κ) : List ThreadAction → Machine κ → Machine κ
  | [], m => m
  | a :: rest, m => performAll ctx rest (after (a.perform ctx) m)

/-- The thread without its frames and operands. -/
def Thread.cleared (t : Thread κ) : Thread κ := { t with frames := [], operands := [] }

/-- The pool after all frames of a thread were released. -/
def Thread.releasedPool (t : Thread κ) (p : Pool) : Pool :=
  (Thread.releaseFrames t.frames (Release.start p)).pool

theorem after_abandon (m : Machine κ) :
    (after Act.abandon m).thread = m.thread.cleared ∧
      (after Act.abandon m).domain = m.domain.withPool (m.thread.releasedPool m.domain.pool) := by
  cases hresult : (Thread.releaseFrames m.thread.frames (Release.start m.domain.pool)).result with
  | ok released =>
    simp [after, Act.abandon, Thread.abandon, Act.setThread, Act.setPool, Act.note, hresult,
      Thread.cleared, Thread.releasedPool, Domain.withPool]
  | error e =>
    simp [after, Act.abandon, Thread.abandon, Act.setThread, Act.setPool, Act.note, hresult,
      Thread.cleared, Thread.releasedPool, Domain.withPool]

/-- A step is a run of transitions. -/
theorem after_step (ctx : Context κ) (m : Machine κ) :
    ∃ limit, (after (step ctx) m).thread = (after (advance ctx limit) m).thread ∧
      (after (step ctx) m).domain = (after (advance ctx limit) m).domain := by
  refine ⟨if ctx.config.maxTransitions = 0 then ctx.patience else ctx.config.maxTransitions, ?_⟩
  unfold after step
  dsimp only [bind, EStateM.bind]
  cases advance ctx (if ctx.config.maxTransitions = 0 then ctx.patience
      else ctx.config.maxTransitions) m with
  | error e m' => exact ⟨rfl, rfl⟩
  | ok rest m' =>
    cases rest with
    | yielded => exact ⟨rfl, rfl⟩
    | complete => exact ⟨rfl, rfl⟩
    | spent =>
      by_cases hlimit : ctx.config.maxTransitions = 0
      · simp [hlimit]
      · simp only [hlimit, if_false]
        exact ⟨rfl, rfl⟩

/-- Kept by what hosts do, by transitions and by abandoning. -/
structure Kept (ctx : Context κ) (I : Thread κ → Domain → Prop) : Prop where
  host : ∀ {t d t' d'}, HostAction.Rule ctx.program t d t' d' → I t d → I t' d'
  transition : ∀ {t d r t' d'}, Transition.Rule ctx t d r t' d' → I t d → I t' d'
  abandon : ∀ {t d}, I t d → I t.cleared (d.withPool (t.releasedPool d.pool))

namespace Kept

variable {ctx : Context κ} {I : Thread κ → Domain → Prop}

theorem advance (h : Kept ctx I) (limit : Nat) {m : Machine κ} (hm : I m.thread m.domain) :
    I (after (ManagedCalls.advance ctx limit) m).thread
      (after (ManagedCalls.advance ctx limit) m).domain := by
  induction limit generalizing m with
  | zero => exact hm
  | succ limit ih =>
    have hnext := h.transition (Transition.run_follows ctx m) hm
    unfold after ManagedCalls.advance
    by_cases hdone : m.thread.isComplete
    · simpa [hdone] using hm
    · cases hrun : Transition.run ctx m with
      | error e m' =>
        rw [after_of_error hrun] at hnext
        simpa [hdone, hrun] using hnext
      | ok tick m' =>
        rw [after_of_ok hrun] at hnext
        cases tick with
        | yield => simpa [hdone, hrun] using hnext
        | «continue» => simpa [hdone, hrun, after] using ih hnext

theorem step (h : Kept ctx I) {m : Machine κ} (hm : I m.thread m.domain) :
    I (after (ManagedCalls.step ctx) m).thread (after (ManagedCalls.step ctx) m).domain := by
  obtain ⟨limit, hthread, hdomain⟩ := after_step ctx m
  rw [hthread, hdomain]
  exact h.advance limit hm

theorem perform (h : Kept ctx I) (a : ThreadAction) {m : Machine κ} (hm : I m.thread m.domain) :
    I (after (a.perform ctx) m).thread (after (a.perform ctx) m).domain := by
  cases a with
  | host a => exact h.host (HostAction.perform_rule ctx.program a m) hm
  | transition =>
    rw [ThreadAction.perform, after_discard]
    exact h.transition (Transition.run_follows ctx m) hm
  | step =>
    rw [ThreadAction.perform, after_discard]
    exact h.step hm
  | abandon =>
    rw [ThreadAction.perform, after_discard, (after_abandon m).1, (after_abandon m).2]
    exact h.abandon hm

end Kept

end ManagedCalls
