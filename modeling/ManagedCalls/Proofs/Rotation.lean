import ManagedCalls.Proofs.InterpreterDiscipline
import ManagedCalls.Proofs.Roster

/-!
The order in which a scheduler steps its threads. Whatever is spawned, ticked and
run, every thread is in one place, a turn goes to the first thread in the queue, and
until a thread has its next turn all others that were live have had one.
-/

namespace ManagedCalls

open Stateful

variable {κ : Type}

inductive SchedulerAction (κ : Type) where
  | spawn (t : Thread κ)
  | tick
  | run (limit : Nat)
  /-- What others make of the domain and of the log. -/
  | elsewhere (domain : Domain) (log : Log)

namespace SchedulerAction

/-- The scheduler after an action, whether the action fails or not. -/
def perform (ctx : Context κ) (w : World κ) : SchedulerAction κ → World κ
  | spawn t => w.spawn t
  | tick => after (World.tick ctx) w
  | run limit => after (World.run ctx limit) w
  | elsewhere domain log => { w with domain, log }

def performAll (ctx : Context κ) : List (SchedulerAction κ) → World κ → World κ
  | [], w => w
  | a :: rest, w => performAll ctx rest (a.perform ctx w)

def isSpawn : SchedulerAction κ → Bool
  | spawn _ => true
  | _ => false

end SchedulerAction

namespace Roster

def perform (ctx : Context κ) (r : Roster κ) : SchedulerAction κ → Roster κ
  | .spawn t => r.spawn t
  | .tick => after (tick ctx) r
  | .run limit => after (run ctx limit) r
  | .elsewhere domain log => r.setMachine domain log

def performAll (ctx : Context κ) : List (SchedulerAction κ) → Roster κ → Roster κ
  | [], r => r
  | a :: rest, r => performAll ctx rest (r.perform ctx a)

theorem world_perform (ctx : Context κ) (r : Roster κ) (a : SchedulerAction κ) :
    (r.perform ctx a).world = a.perform ctx r.world := by
  cases a with
  | spawn t => simp [perform, spawn, world, SchedulerAction.perform, World.spawn,
      World.setScheduler, World.note]
  | tick => exact (after_plain (world_tick ctx r)).1.symm
  | run limit => exact (after_plain (world_runSince ctx r.ticks limit r)).1.symm
  | elsewhere domain log => rfl

theorem world_performAll (ctx : Context κ) (actions : List (SchedulerAction κ)) (r : Roster κ) :
    (performAll ctx actions r).world = SchedulerAction.performAll ctx actions r.world := by
  induction actions generalizing r with
  | nil => rfl
  | cons a rest ih =>
    rw [performAll, ih, world_perform]
    rfl

/-- A run is a row of ticks, no more than its limit has left. -/
theorem runSince_eq_ticks (ctx : Context κ) (start limit : Nat) (r : Roster κ) :
    ∃ n ≤ start + limit - r.ticks,
      after (runSince ctx start limit) r = performAll ctx (List.replicate n .tick) r := by
  unfold after
  fun_induction runSince ctx start limit r with
  | case1 r hempty => exact ⟨0, Nat.zero_le _, rfl⟩
  | case2 r hsome hspent => exact ⟨0, Nat.zero_le _, rfl⟩
  | case3 r hsome hleft goesOn r' htick ih =>
    obtain ⟨n, hn, hticks⟩ := ih
    have hfirst : r.perform ctx .tick = r' := after_of_ok htick
    have hcount : r'.ticks = r.ticks + 1 := by rw [← after_of_ok htick, ticks_tick]
    refine ⟨n + 1, by omega, ?_⟩
    rw [List.replicate_succ, performAll, hfirst, ← hticks]
  | case4 r hsome hleft e r' htick =>
    have hfirst : r.perform ctx .tick = r' := after_of_error htick
    refine ⟨1, by omega, ?_⟩
    rw [List.replicate_one, performAll, performAll, hfirst]

theorem run_eq_ticks (ctx : Context κ) (limit : Nat) (r : Roster κ) :
    ∃ n ≤ limit, r.perform ctx (.run limit) = performAll ctx (List.replicate n .tick) r := by
  obtain ⟨n, hn, hticks⟩ := runSince_eq_ticks ctx r.ticks limit r
  exact ⟨n, by omega, hticks⟩

/-- A faithful roster in which every failed tick has aborted one thread. -/
structure Accounted (r : Roster κ) : Prop extends Faithful r where
  aborted_length : r.aborted.length = r.history.failedTicks

namespace Accounted

variable {r : Roster κ}

theorem tick (h : r.Accounted) (ctx : Context κ) :
    (r.perform ctx .tick).Accounted ∧
      (r.perform ctx .tick).history.spawns = r.history.spawns := by
  obtain ⟨r', told, -, hturned, hticked⟩ := tick_told ctx r
  obtain ⟨hspawns, hfailed, haborted⟩ := hticked.counts hturned.length_le
  refine ⟨⟨h.toFaithful.tick ctx, ?_⟩, hspawns⟩
  rw [perform, haborted, hfailed, h.aborted_length]

theorem ticks (h : r.Accounted) (ctx : Context κ) (n : Nat) :
    (performAll ctx (List.replicate n .tick) r).Accounted ∧
      (performAll ctx (List.replicate n .tick) r).history.spawns = r.history.spawns := by
  induction n generalizing r with
  | zero => exact ⟨h, rfl⟩
  | succ n ih =>
    obtain ⟨hfirst, hspawns⟩ := h.tick ctx
    obtain ⟨hrest, hspawns'⟩ := ih hfirst
    exact ⟨hrest, hspawns'.trans hspawns⟩

theorem perform (h : r.Accounted) (ctx : Context κ) (a : SchedulerAction κ) :
    (r.perform ctx a).Accounted ∧
      (r.perform ctx a).history.spawns = r.history.spawns + a.isSpawn.toNat := by
  cases a with
  | spawn t => exact ⟨⟨h.toFaithful.spawn t, h.aborted_length⟩, rfl⟩
  | tick => exact h.tick ctx
  | run limit =>
    obtain ⟨n, -, hticks⟩ := run_eq_ticks ctx limit r
    rw [hticks]
    exact h.ticks ctx n
  | elsewhere domain log =>
    exact ⟨⟨⟨h.orderly, h.live_eq, h.finished_eq, h.aborted_eq⟩, h.aborted_length⟩, rfl⟩

theorem performAll (h : r.Accounted) (ctx : Context κ) (actions : List (SchedulerAction κ)) :
    (Roster.performAll ctx actions r).Accounted ∧
      (Roster.performAll ctx actions r).history.spawns =
        r.history.spawns + actions.countP SchedulerAction.isSpawn := by
  induction actions generalizing r with
  | nil => exact ⟨h, rfl⟩
  | cons a rest ih =>
    obtain ⟨hfirst, hspawns⟩ := h.perform ctx a
    obtain ⟨hrest, hspawns'⟩ := ih hfirst
    refine ⟨hrest, ?_⟩
    have hcount : (a :: rest).countP SchedulerAction.isSpawn =
        rest.countP SchedulerAction.isSpawn + a.isSpawn.toNat := by
      rw [List.countP_cons]
      cases a.isSpawn with
      | true => rfl
      | false => rfl
    rw [Roster.performAll, hspawns', hspawns, hcount]
    omega

end Accounted

/-- Where the threads of a roster are and how they took turns. -/
structure Rotates (r : Roster κ) : Prop where
  /-- Every thread that was spawned is in one place, once. -/
  conserved : (numbers r.live ++ (numbers r.finished ++ numbers r.aborted)).Perm
    (List.range r.history.spawns)
  aborted_length : r.aborted.length = r.history.failedTicks
  live_eq : numbers r.live = r.history.queue
  finished_eq : numbers r.finished = r.history.judged .completes
  /-- A thread that completed or failed has no more turns. -/
  left : ∀ {later earlier : History} {number : Nat} {v : Verdict},
    r.history = later ++ .turn number v :: earlier → v ≠ .lives → number ∉ later.turns
  /-- Between two turns of a thread that follow each other, every other thread that
  was live at the first one has had one turn. -/
  fair : ∀ {later between earlier : History} {number : Nat} {v v' : Verdict},
    r.history = later ++ .turn number v' :: (between ++ .turn number v :: earlier) →
      number ∉ between.turns →
      ∀ other ∈ History.queue (.turn number v :: earlier), other ≠ number →
        between.turns.count other = 1

theorem Accounted.rotates {r : Roster κ} (h : r.Accounted) : r.Rotates where
  conserved := by
    rw [h.live_eq, h.finished_eq, h.aborted_eq]
    exact h.orderly.everybody_perm
  aborted_length := h.aborted_length
  live_eq := h.live_eq
  finished_eq := h.finished_eq
  left := by
    intro later earlier number v hsplit hleft
    have horder := h.orderly
    rw [hsplit] at horder
    exact horder.no_turn_after hleft
  fair := by
    intro later between earlier number v v' hsplit hnext other hother hne
    have horder := h.orderly
    rw [hsplit] at horder
    have hqueue := horder.turns_between hnext
    have hnodup : (History.queue (.turn number v :: earlier)).Nodup := by
      have hparts : History.Orderly
          ((later ++ .turn number v' :: between) ++ .turn number v :: earlier) := by
        simpa using horder
      exact hparts.of_append.queue_nodup
    rw [hqueue] at hother hnodup
    have hmem : other ∈ between.turns := by
      rcases List.mem_append.mp hother with hmem | hlast
      · exact hmem
      · exact absurd (List.mem_singleton.mp hlast) hne
    exact List.count_eq_one_of_mem hnodup.of_append_left hmem

/-- Whatever is spawned, ticked and run, and whatever others do in between, every
thread is live, finished or aborted, a failed tick has aborted one of them, and the
threads take turns in a fair way. The next tick steps the threads of the queue in
its order, all of them unless it fails. A run is a row of ticks. -/
theorem turns_rotate (ctx : Context κ) (domain : Domain) (log : Log)
    (actions : List (SchedulerAction κ)) :
    let r := performAll ctx actions (start domain log)
    r.world = SchedulerAction.performAll ctx actions ⟨Scheduler.empty, domain, log⟩ ∧
      r.history.spawns = actions.countP SchedulerAction.isSpawn ∧ r.Rotates ∧
      (∃ told, Ticked r (r.perform ctx .tick) (!(outcome (World.tick ctx) r.world).isOk) told) ∧
      ∀ limit, ∃ n ≤ limit,
        r.perform ctx (.run limit) = performAll ctx (List.replicate n .tick) r := by
  intro r
  have hstart : (start domain log : Roster κ).Accounted := ⟨.start domain log, rfl⟩
  obtain ⟨haccounted, hspawns⟩ := hstart.performAll ctx actions
  obtain ⟨r', told, -, -, hticked⟩ := tick_told ctx r
  rw [← (after_plain (world_tick ctx r)).2] at hticked
  refine ⟨world_performAll ctx actions _, ?_, haccounted.rotates, ⟨told, hticked⟩,
    fun limit => run_eq_ticks ctx limit r⟩
  rw [hspawns]
  exact Nat.zero_add _

/-- Three threads of which the second fails in the second tick, and a fourth one that
comes before the third tick. -/
def brokenTick : List (SchedulerAction Empty) :=
  let worker (id : Nat) : Thread Empty :=
    ((Thread.new id).push (.int32 7)).call 0 Interpreter.smallMethod
  [.spawn (worker 1), .spawn ((Thread.new 2).call 0 Interpreter.smallMethod), .spawn (worker 3),
    .tick, .tick, .spawn (worker 4), .tick]

theorem turns_rotate_past_failure :
    let ctx := Interpreter.smallContext { maxTransitions := 1 }
    let r := performAll ctx brokenTick (start (Domain.empty 64 none) (Log.empty .error))
    let between : History :=
      [.spawned 3, .tickEnded true, .turn 1 .fails, .turn 0 .lives, .tickEnded false]
    (∃ later earlier, r.history =
        later ++ .turn 2 .lives :: (between ++ .turn 2 .lives :: earlier) ∧
      History.queue (.turn 2 .lives :: earlier) = [0, 1, 2]) ∧
      numbers r.live = [2, 0, 3] ∧ numbers r.aborted = [1] ∧ between.turns.count 0 = 1 := by
  intro ctx r between
  obtain ⟨-, -, hrotates, -⟩ :=
    turns_rotate ctx (Domain.empty 64 none) (Log.empty .error) brokenTick
  let later : History := [.tickEnded false, .turn 3 .lives, .turn 0 .lives]
  let earlier : History :=
    [.turn 1 .lives, .turn 0 .lives, .spawned 2, .spawned 1, .spawned 0]
  have hhistory : r.history =
      later ++ .turn 2 .lives :: (between ++ .turn 2 .lives :: earlier) := by decide +kernel
  have hqueue : History.queue (.turn 2 .lives :: earlier) = [0, 1, 2] := by decide
  have hlive : numbers r.live = [2, 0, 3] := by decide +kernel
  have haborted : numbers r.aborted = [1] := by decide +kernel
  have honce := hrotates.fair hhistory (by decide) 0 (by rw [hqueue]; decide) (by decide)
  exact ⟨⟨later, earlier, hhistory, hqueue⟩, hlive, haborted, honce⟩

end Roster

end ManagedCalls
