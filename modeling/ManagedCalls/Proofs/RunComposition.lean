import ManagedCalls.Proofs.Fleet
import ManagedCalls.Proofs.InterpreterDiscipline

/-!
Runs of a scheduler one after another. A run starts ticks while threads are live, at most
as many as its limit, and the first tick that fails ends it. A run that its limit stops has
left the scheduler just where a longer run would have had it, so the next run goes on in its
place. Every other run has come to an end, and a longer one ends in the same way.
-/

namespace ManagedCalls

open Stateful

variable {κ : Type}

namespace RunOutcome

def ticks : RunOutcome → Nat
  | completed n | tickLimit n => n

/-- The outcome if so many ticks came before. -/
def later (before : Nat) : RunOutcome → RunOutcome
  | completed n => completed (before + n)
  | tickLimit n => tickLimit (before + n)

end RunOutcome

namespace World

/-- So many ticks are started in a row, each of them with live threads. Only the last one
may fail. -/
inductive Ticks (ctx : Context κ) : Nat → World κ → Except Fault Unit → World κ → Prop
  | none {w : World κ} : Ticks ctx 0 w (.ok ()) w
  | next {n : Nat} {live : Bool} {w w' w'' : World κ} {r : Except Fault Unit}
      (hlive : w.scheduler.threads ≠ []) (htick : tick ctx w = .ok live w')
      (hrest : Ticks ctx n w' r w'') : Ticks ctx (n + 1) w r w''
  | fails {w w' : World κ} {e : Fault} (hlive : w.scheduler.threads ≠ [])
      (htick : tick ctx w = .error e w') : Ticks ctx 1 w (.error e) w'

theorem Ticks.ticks_eq {ctx : Context κ} {n : Nat} {w w' : World κ} {r : Except Fault Unit}
    (h : Ticks ctx n w r w') : w'.scheduler.ticks = w.scheduler.ticks + n := by
  induction h with
  | none => rfl
  | next hlive htick hrest ih =>
    have hcount := ticks_of_tick htick
    omega
  | fails hlive htick => exact ticks_of_fault htick

/-- How a run ends that has started with the counter at `start`. What it reports is read
off the counter. -/
inductive Stops (ctx : Context κ) (start limit : Nat) (w : World κ) :
    EStateM.Result Fault (World κ) RunOutcome → Prop
  | completed {n : Nat} {w' : World κ} (hticks : Ticks ctx n w (.ok ()) w')
      (hleft : w'.scheduler.ticks ≤ start + limit) (hdone : w'.scheduler.threads = []) :
      Stops ctx start limit w (.ok (.completed (w'.scheduler.ticks - start)) w')
  | tickLimit {n : Nat} {w' : World κ} (hticks : Ticks ctx n w (.ok ()) w')
      (hspent : w'.scheduler.ticks = start + limit) (hlive : w'.scheduler.threads ≠ []) :
      Stops ctx start limit w (.ok (.tickLimit (w'.scheduler.ticks - start)) w')
  | fails {n : Nat} {e : Fault} {w' : World κ} (hticks : Ticks ctx n w (.error e) w')
      (hleft : w'.scheduler.ticks ≤ start + limit) : Stops ctx start limit w (.error e w')

theorem Stops.next {ctx : Context κ} {start limit : Nat} {w w' : World κ} {live : Bool}
    {result : EStateM.Result Fault (World κ) RunOutcome} (hlive : w.scheduler.threads ≠ [])
    (htick : tick ctx w = .ok live w') (h : Stops ctx start limit w' result) :
    Stops ctx start limit w result := by
  cases h with
  | completed hticks hleft hdone => exact .completed (.next hlive htick hticks) hleft hdone
  | tickLimit hticks hspent hlast => exact .tickLimit (.next hlive htick hticks) hspent hlast
  | fails hticks hleft => exact .fails (.next hlive htick hticks) hleft

theorem runSince_stops (ctx : Context κ) (start limit : Nat) (w : World κ)
    (hstart : start ≤ w.scheduler.ticks) (hleft : w.scheduler.ticks ≤ start + limit) :
    Stops ctx start limit w (runSince ctx start limit w) := by
  induction w using runSince_induction ctx start limit with
  | done w hdone =>
    rw [runSince_of_done hdone]
    exact .completed .none hleft hdone
  | spent w hlive hspent =>
    rw [runSince_of_spent hlive hspent]
    exact .tickLimit .none (by omega) hlive
  | goesOn w w' live hlive hnext htick ih =>
    have hcount := ticks_of_tick htick
    rw [runSince_of_tick hlive hnext htick]
    exact (ih (by omega) (by omega)).next hlive htick
  | fails w w' e hlive hnext htick =>
    have hcount := ticks_of_fault htick
    rw [runSince_of_fault hlive hnext htick]
    exact .fails (.fails hlive htick) (by omega)

theorem run_stops (ctx : Context κ) (a : Nat) (w : World κ) :
    ∃ result, run ctx a w = result ∧ Stops ctx w.scheduler.ticks a w result :=
  ⟨_, rfl, runSince_stops ctx _ a w (Nat.le_refl _) (Nat.le_add_right _ a)⟩

/-- What is reported of a run are the ticks it has started. -/
theorem run_ticks (ctx : Context κ) (a : Nat) (w : World κ) :
    ∃ n ≤ a, Ticks ctx n w ((outcome (run ctx a) w).map fun _ => ()) (after (run ctx a) w) ∧
      ∀ o, outcome (run ctx a) w = .ok o → o.ticks = n := by
  obtain ⟨result, hrun, hstops⟩ := run_stops ctx a w
  cases hstops with
  | @completed n w' hticks hbound | @tickLimit n w' hticks hbound =>
    have hcount := hticks.ticks_eq
    rw [outcome_of_ok hrun, after_of_ok hrun]
    refine ⟨n, by omega, hticks, fun o ho => ?_⟩
    cases ho
    exact Nat.sub_eq_of_eq_add' hcount
  | @fails n e w' hticks hleft =>
    have hcount := hticks.ticks_eq
    rw [outcome_of_error hrun, after_of_error hrun]
    exact ⟨n, by omega, hticks, fun o ho => by cases ho⟩

theorem run_eq_tickLimit_iff (ctx : Context κ) (a n : Nat) (w : World κ) :
    outcome (run ctx a) w = .ok (.tickLimit n) ↔
      n = a ∧ (outcome (run ctx a) w).isOk ∧ (after (run ctx a) w).scheduler.threads ≠ [] := by
  obtain ⟨result, hrun, hstops⟩ := run_stops ctx a w
  cases hstops with
  | completed hticks hleft hdone =>
    rw [outcome_of_ok hrun, after_of_ok hrun]
    constructor
    · intro h
      cases h
    · intro h
      exact absurd hdone h.2.2
  | tickLimit hticks hspent hlive =>
    rw [outcome_of_ok hrun, after_of_ok hrun, Nat.sub_eq_of_eq_add' hspent]
    constructor
    · intro h
      cases h
      exact ⟨rfl, rfl, hlive⟩
    · intro h
      rw [h.1]
  | fails hticks hleft =>
    rw [outcome_of_error hrun]
    constructor
    · intro h
      cases h
    · intro h
      cases h.2.1

theorem run_completed_iff (ctx : Context κ) (a : Nat) (w : World κ) :
    (∃ t ≤ a, outcome (run ctx a) w = .ok (.completed t)) ↔
      (outcome (run ctx a) w).isOk ∧ (after (run ctx a) w).scheduler.threads = [] := by
  obtain ⟨result, hrun, hstops⟩ := run_stops ctx a w
  cases hstops with
  | completed hticks hleft hdone =>
    rw [outcome_of_ok hrun, after_of_ok hrun]
    exact ⟨fun _ => ⟨rfl, hdone⟩, fun _ => ⟨_, Nat.sub_le_iff_le_add'.mpr hleft, rfl⟩⟩
  | tickLimit hticks hspent hlive =>
    rw [outcome_of_ok hrun, after_of_ok hrun]
    constructor
    · rintro ⟨t, -, h⟩
      cases h
    · intro h
      exact absurd h.2 hlive
  | fails hticks hleft =>
    rw [outcome_of_error hrun]
    constructor
    · rintro ⟨t, -, h⟩
      cases h
    · intro h
      cases h.1

/-- A longer run goes on where the limit stopped the shorter one. -/
theorem runSince_add_limit (ctx : Context κ) (start a b : Nat) (w : World κ) :
    runSince ctx start (a + b) w =
      match runSince ctx start a w with
      | .ok (.tickLimit _) w' => runSince ctx start (a + b) w'
      | result => result := by
  induction w using runSince_induction ctx start a with
  | done w hdone => rw [runSince_of_done hdone, runSince_of_done hdone]
  | spent w hlive hspent => rw [runSince_of_spent hlive hspent]
  | goesOn w w' live hlive hleft htick ih =>
    rw [runSince_of_tick hlive hleft htick, ← ih]
    exact runSince_of_tick hlive (by omega) htick
  | fails w w' e hlive hleft htick =>
    rw [runSince_of_fault hlive hleft htick]
    exact runSince_of_fault hlive (by omega) htick

/-- Ticks that came before a run are only added to its outcome. -/
theorem runSince_add_start (ctx : Context κ) (start before limit : Nat) (w : World κ)
    (hbefore : start + before ≤ w.scheduler.ticks) :
    runSince ctx start (before + limit) w =
      match runSince ctx (start + before) limit w with
      | .ok o w' => .ok (o.later before) w'
      | .error e w' => .error e w' := by
  induction w using runSince_induction ctx (start + before) limit with
  | done w hdone =>
    have hran : w.scheduler.ticks - start = before + (w.scheduler.ticks - (start + before)) := by
      omega
    rw [runSince_of_done hdone, runSince_of_done hdone, hran]
    rfl
  | spent w hlive hspent =>
    have hran : w.scheduler.ticks - start = before + (w.scheduler.ticks - (start + before)) := by
      omega
    rw [runSince_of_spent hlive hspent, runSince_of_spent hlive (by omega), hran]
    rfl
  | goesOn w w' live hlive hleft htick ih =>
    have hcount := ticks_of_tick htick
    rw [runSince_of_tick hlive hleft htick, runSince_of_tick hlive (by omega) htick]
    exact ih (by omega)
  | fails w w' e hlive hleft htick =>
    rw [runSince_of_fault hlive hleft htick]
    exact runSince_of_fault hlive (by omega) htick

theorem run_add_of_tickLimit {ctx : Context κ} {a n : Nat} {w w₁ : World κ}
    (h : run ctx a w = .ok (.tickLimit n) w₁) (b : Nat) :
    outcome (run ctx (a + b)) w = (outcome (run ctx b) w₁).map (.later a) ∧
      after (run ctx (a + b)) w = after (run ctx b) w₁ := by
  have hspent : w₁.scheduler.ticks = w.scheduler.ticks + a := by
    obtain ⟨result, hrun, hstops⟩ := run_stops ctx a w
    rw [h] at hrun
    subst hrun
    cases hstops with
    | tickLimit hticks hspent hlive => exact hspent
  have hshorter : runSince ctx w.scheduler.ticks a w = .ok (.tickLimit n) w₁ := h
  have hlonger : run ctx (a + b) w = runSince ctx w.scheduler.ticks (a + b) w₁ := by
    rw [run, runSince_add_limit, hshorter]
  rw [runSince_add_start ctx _ a b w₁ (Nat.le_of_eq hspent.symm), ← hspent] at hlonger
  cases hrest : run ctx b w₁ with
  | ok o w₂ =>
    have hboth : run ctx (a + b) w = .ok (o.later a) w₂ := by
      rw [hlonger, show runSince ctx w₁.scheduler.ticks b w₁ = .ok o w₂ from hrest]
    rw [outcome_of_ok hboth, after_of_ok hboth, outcome_of_ok hrest, after_of_ok hrest]
    exact ⟨rfl, rfl⟩
  | error e w₂ =>
    have hboth : run ctx (a + b) w = .error e w₂ := by
      rw [hlonger, show runSince ctx w₁.scheduler.ticks b w₁ = .error e w₂ from hrest]
    rw [outcome_of_error hboth, after_of_error hboth, outcome_of_error hrest,
      after_of_error hrest]
    exact ⟨rfl, rfl⟩

/-- Only a run that its limit stopped is changed by a longer limit. -/
theorem run_add_of_ended {ctx : Context κ} {a : Nat} {w : World κ}
    (h : ∀ n w₁, run ctx a w ≠ .ok (.tickLimit n) w₁) (b : Nat) :
    run ctx (a + b) w = run ctx a w := by
  have hlonger := runSince_add_limit ctx w.scheduler.ticks a b w
  unfold run at h ⊢
  rw [hlonger]
  cases hrun : runSince ctx w.scheduler.ticks a w with
  | ok o w₁ =>
    cases o with
    | completed t => rfl
    | tickLimit n => exact absurd hrun (h n w₁)
  | error e w₁ => rfl

/-- A run starts no more ticks than its limit, counts those it starts, and reports how many
they were. If none fails it stops at its limit where threads are live, and is complete
where none is. A run that its limit stopped and the next run together do what one run with
both limits does; a run that was complete or failed is not changed by a longer limit. -/
theorem runs_compose (ctx : Context κ) (w : World κ) (a b : Nat) :
    (∃ n ≤ a, Ticks ctx n w ((outcome (run ctx a) w).map fun _ => ()) (after (run ctx a) w) ∧
      (after (run ctx a) w).scheduler.ticks = w.scheduler.ticks + n ∧
      ∀ o, outcome (run ctx a) w = .ok o → o.ticks = n) ∧
    (∀ n, outcome (run ctx a) w = .ok (.tickLimit n) ↔
      n = a ∧ (outcome (run ctx a) w).isOk ∧ (after (run ctx a) w).scheduler.threads ≠ []) ∧
    ((∃ t ≤ a, outcome (run ctx a) w = .ok (.completed t)) ↔
      (outcome (run ctx a) w).isOk ∧ (after (run ctx a) w).scheduler.threads = []) ∧
    (∀ n w₁, run ctx a w = .ok (.tickLimit n) w₁ →
      outcome (run ctx (a + b)) w = (outcome (run ctx b) w₁).map (.later a) ∧
        after (run ctx (a + b)) w = after (run ctx b) w₁) ∧
    (∀ t w₁, run ctx a w = .ok (.completed t) w₁ →
      run ctx (a + b) w = .ok (.completed t) w₁) ∧
    (∀ e w₁, run ctx a w = .error e w₁ → run ctx (a + b) w = .error e w₁) := by
  refine ⟨?_, fun n => run_eq_tickLimit_iff ctx a n w, run_completed_iff ctx a w,
    fun n w₁ h => run_add_of_tickLimit h b, fun t w₁ h => ?_, fun e w₁ h => ?_⟩
  · obtain ⟨n, hn, hticks, hreported⟩ := run_ticks ctx a w
    exact ⟨n, hn, hticks, hticks.ticks_eq, hreported⟩
  · rw [run_add_of_ended (fun n w' hlimit => by rw [h] at hlimit; cases hlimit), h]
  · rw [run_add_of_ended (fun n w' hlimit => by rw [h] at hlimit; cases hlimit), h]

/-- Two threads have called the small method. The second one has these arguments. -/
def smallCallers (arguments : List Value) : World Empty :=
  let caller (id : Nat) (operands : List Value) : Thread Empty :=
    { (Thread.new id).call 0 Interpreter.smallMethod with operands }
  ⟨⟨[caller 1 [.int32 7], caller 2 arguments], [], 0⟩, Domain.empty 64 none, Log.empty .error⟩

theorem exists_of_outcome {x : Drive κ RunOutcome} {w : World κ} {o : RunOutcome}
    (h : (outcome x w).toOption = some o) : ∃ w', x w = .ok o w' := by
  cases hrun : x w with
  | ok o' w' =>
    rw [outcome_of_ok hrun] at h
    obtain rfl : o' = o := Option.some.inj h
    exact ⟨w', rfl⟩
  | error e w' =>
    rw [outcome_of_error hrun] at h
    cases h

/-- With one transition in each step both threads are done in the fourth tick. Without its
argument the second one fails in the second tick. -/
theorem runs_compose_of_callers :
    let ctx := Interpreter.smallContext { maxTransitions := 1 }
    (∃ w₁, run ctx 3 (smallCallers [.int32 5]) = .ok (.tickLimit 3) w₁ ∧
      outcome (run ctx (3 + 2)) (smallCallers [.int32 5]) =
        (outcome (run ctx 2) w₁).map (.later 3)) ∧
    (∃ w₁, run ctx 4 (smallCallers [.int32 5]) = .ok (.completed 4) w₁ ∧
      run ctx (4 + 2) (smallCallers [.int32 5]) = .ok (.completed 4) w₁) ∧
    ∃ e w₁, run ctx 2 (smallCallers []) = .error e w₁ ∧
      run ctx (2 + 2) (smallCallers []) = .error e w₁ := by
  intro ctx
  have hlimit : (outcome (run ctx 3) (smallCallers [.int32 5])).toOption =
      some (.tickLimit 3) := by decide +kernel
  have hdone : (outcome (run ctx 4) (smallCallers [.int32 5])).toOption =
      some (.completed 4) := by decide +kernel
  have hfails : (outcome (run ctx 2) (smallCallers [])).toOption = none := by decide +kernel
  obtain ⟨w₁, hlimit⟩ := exists_of_outcome hlimit
  obtain ⟨w₂, hdone⟩ := exists_of_outcome hdone
  refine ⟨⟨w₁, hlimit, ?_⟩, ⟨w₂, hdone, ?_⟩, ?_⟩
  · obtain ⟨-, -, -, hgoesOn, -, -⟩ := runs_compose ctx (smallCallers [.int32 5]) 3 2
    exact (hgoesOn 3 w₁ hlimit).1
  · obtain ⟨-, -, -, -, hsame, -⟩ := runs_compose ctx (smallCallers [.int32 5]) 4 2
    exact hsame 4 w₂ hdone
  · obtain ⟨-, -, -, -, -, hsame⟩ := runs_compose ctx (smallCallers []) 2 2
    cases hrun : run ctx 2 (smallCallers []) with
    | ok o w₃ =>
      rw [outcome_of_ok hrun] at hfails
      cases hfails
    | error e w₃ => exact ⟨e, w₃, rfl, hsame e w₃ hrun⟩

end World

end ManagedCalls
