import ManagedCalls.Proofs.LogBlindness

/-!
The limit on transitions only says where steps are cut. A thread that is stepped again
and again makes the same transitions under every limit, and a step takes up where the
one before it left off. So whether the thread comes to an end, what the end is and
what it leaves in the domain do not depend on the limit. A step never makes more
transitions than its limit allows.
-/

namespace ManagedCalls

open Stateful

variable {κ : Type} {ctx : Context κ}

/-- The context with another limit on the transitions of a step. Without one, a step
is as patient as told. -/
def Context.within (ctx : Context κ) (limit patience : Nat) : Context κ :=
  { ctx with config := { ctx.config with maxTransitions := limit }, patience }

theorem Transition.run_within (ctx : Context κ) (limit patience : Nat) :
    run (ctx.within limit patience) = run ctx := rfl

theorem advance_within (limit patience bound : Nat) (m : Machine κ) :
    advance (ctx.within limit patience) bound m = advance ctx bound m := by
  induction bound generalizing m with
  | zero => rfl
  | succ bound ih =>
    rw [advance, advance, Transition.run_within]
    simp only [ih]

/-- Some transitions in a row, after which the thread goes on. -/
inductive Goes (ctx : Context κ) : Nat → Machine κ → Machine κ → Prop
  | refl (m : Machine κ) : Goes ctx 0 m m
  | cons {n : Nat} {m m₁ m₂ : Machine κ} (hlive : m.thread.isComplete = false)
      (hrun : Transition.run ctx m = .ok .continue m₁) (hrest : Goes ctx n m₁ m₂) :
      Goes ctx (n + 1) m m₂

/-- The transitions of a thread up to its end, whether it yields between them or not:
how many there are, how the last one ends, and the thread and the domain then. -/
inductive Finishes (ctx : Context κ) :
    Nat → Machine κ → Except Fault Unit → Thread κ → Domain → Prop
  | done {m : Machine κ} (hdone : m.thread.isComplete = true) :
      Finishes ctx 0 m (.ok ()) m.thread m.domain
  | next {n : Nat} {m m' : Machine κ} {tick : Tick} {r : Except Fault Unit} {t : Thread κ}
      {d : Domain} (hlive : m.thread.isComplete = false)
      (hrun : Transition.run ctx m = .ok tick m') (hrest : Finishes ctx n m' r t d) :
      Finishes ctx (n + 1) m r t d
  | fails {m m' : Machine κ} {e : Fault} (hlive : m.thread.isComplete = false)
      (hrun : Transition.run ctx m = .error e m') :
      Finishes ctx 1 m (.error e) m'.thread m'.domain

namespace Finishes

variable {n : Nat} {m : Machine κ} {r : Except Fault Unit} {t : Thread κ} {d : Domain}

theorem relog (hctx : ctx.IgnoresLog) (h : Finishes ctx n m r t d) (log : Log) :
    Finishes ctx n { m with log } r t d := by
  induction h generalizing log with
  | done hdone => exact .done hdone
  | @next n m m' tick r t d hlive hrun hrest ih =>
    obtain ⟨log', hsame⟩ := Transition.run_logBlind hctx m log
    rw [hrun] at hsame
    exact .next hlive hsame (ih log')
  | @fails m m' e hlive hrun =>
    obtain ⟨log', hsame⟩ := Transition.run_logBlind hctx m log
    rw [hrun] at hsame
    exact @fails _ _ _ { m' with log := log' } _ hlive hsame

/-- After a transition that succeeds, those that remain. -/
theorem remaining {m' : Machine κ} {tick : Tick} (h : Finishes ctx n m r t d)
    (hlive : m.thread.isComplete = false) (hrun : Transition.run ctx m = .ok tick m') :
    ∃ k, n = k + 1 ∧ Finishes ctx k m' r t d := by
  cases h with
  | done hdone =>
    rw [hlive] at hdone
    cases hdone
  | @next k _ m'' tick' _ _ _ _ hrun' hrest =>
    obtain ⟨-, rfl⟩ := EStateM.Result.ok.inj (hrun.symm.trans hrun')
    exact ⟨k, rfl, hrest⟩
  | fails _ hrun' => cases hrun.symm.trans hrun'

/-- A thread has one end. -/
theorem unique {k : Nat} {r' : Except Fault Unit} {t' : Thread κ} {d' : Domain}
    (h : Finishes ctx n m r t d) (h' : Finishes ctx k m r' t' d') : r = r' ∧ t = t' ∧ d = d' := by
  induction h generalizing k with
  | done hdone =>
    cases h' with
    | done _ => exact ⟨rfl, rfl, rfl⟩
    | next hlive _ _ =>
      rw [hdone] at hlive
      cases hlive
    | fails hlive _ =>
      rw [hdone] at hlive
      cases hlive
  | next hlive hrun _ ih =>
    obtain ⟨k, -, hrest'⟩ := h'.remaining hlive hrun
    exact ih hrest'
  | fails hlive hrun =>
    cases h' with
    | done hdone =>
      rw [hlive] at hdone
      cases hdone
    | next _ hrun' _ => cases hrun.symm.trans hrun'
    | fails _ hrun' =>
      obtain ⟨rfl, rfl⟩ := EStateM.Result.error.inj (hrun.symm.trans hrun')
      exact ⟨rfl, rfl, rfl⟩

end Finishes

namespace Goes

variable {n k : Nat} {m m' : Machine κ} {r : Except Fault Unit} {t : Thread κ} {d : Domain}

theorem finishes (h : Goes ctx n m m') (hrest : Finishes ctx k m' r t d) :
    Finishes ctx (n + k) m r t d := by
  induction h with
  | refl m =>
    rw [Nat.zero_add]
    exact hrest
  | @cons n m m₁ m₂ hlive hrun _ ih =>
    have hnext : Finishes ctx (n + k + 1) m r t d := .next hlive hrun (ih hrest)
    rwa [Nat.add_right_comm] at hnext

theorem remaining (h : Goes ctx n m m') (hall : Finishes ctx k m r t d) :
    ∃ j, k = n + j ∧ Finishes ctx j m' r t d := by
  induction h generalizing k with
  | refl m => exact ⟨k, (Nat.zero_add k).symm, hall⟩
  | cons hlive hrun _ ih =>
    obtain ⟨i, rfl, hi⟩ := hall.remaining hlive hrun
    obtain ⟨j, rfl, hj⟩ := ih hi
    exact ⟨j, by omega, hj⟩

end Goes

/-- A step that makes some transitions, with its outcome and the machine it leaves:
it completes the thread, stops where it may not go on, or ends with a transition that
yields or fails. -/
inductive Performs (ctx : Context κ) : Nat → Machine κ → Except Fault Bool → Machine κ → Prop
  | completes {n : Nat} {m m' : Machine κ} (hgoes : Goes ctx n m m')
      (hdone : m'.thread.isComplete = true) : Performs ctx n m (.ok false) m'
  | stops {n : Nat} {m m' : Machine κ} (log : Log) (hgoes : Goes ctx n m m')
      (hlive : m'.thread.isComplete = false) : Performs ctx n m (.ok true) { m' with log }
  | yields {n : Nat} {m m' m'' : Machine κ} (hgoes : Goes ctx n m m')
      (hlive : m'.thread.isComplete = false) (hrun : Transition.run ctx m' = .ok .yield m'') :
      Performs ctx (n + 1) m (.ok !m''.thread.isComplete) m''
  | fails {n : Nat} {m m' m'' : Machine κ} {e : Fault} (hgoes : Goes ctx n m m')
      (hlive : m'.thread.isComplete = false) (hrun : Transition.run ctx m' = .error e m'') :
      Performs ctx (n + 1) m (.error e) m''

/-- How a run of transitions comes to rest. -/
inductive Rests (ctx : Context κ) (bound : Nat) (m : Machine κ) :
    EStateM.Result Fault (Machine κ) Rest → Prop
  | complete {n : Nat} {m' : Machine κ} (hn : n ≤ bound) (hgoes : Goes ctx n m m')
      (hdone : m'.thread.isComplete = true) : Rests ctx bound m (.ok .complete m')
  | spent {m' : Machine κ} (hgoes : Goes ctx bound m m') (hlive : m'.thread.isComplete = false) :
      Rests ctx bound m (.ok .spent m')
  | yielded {n : Nat} {m' m'' : Machine κ} (hn : n < bound) (hgoes : Goes ctx n m m')
      (hlive : m'.thread.isComplete = false) (hrun : Transition.run ctx m' = .ok .yield m'') :
      Rests ctx bound m (.ok .yielded m'')
  | failed {n : Nat} {m' m'' : Machine κ} {e : Fault} (hn : n < bound) (hgoes : Goes ctx n m m')
      (hlive : m'.thread.isComplete = false) (hrun : Transition.run ctx m' = .error e m'') :
      Rests ctx bound m (.error e m'')

theorem Rests.cons {bound : Nat} {m m₁ : Machine κ} (hlive : m.thread.isComplete = false)
    (hrun : Transition.run ctx m = .ok .continue m₁)
    {result : EStateM.Result Fault (Machine κ) Rest} (h : Rests ctx bound m₁ result) :
    Rests ctx (bound + 1) m result := by
  cases h with
  | complete hn hgoes hdone => exact .complete (Nat.succ_le_succ hn) (.cons hlive hrun hgoes) hdone
  | spent hgoes hlive' => exact .spent (.cons hlive hrun hgoes) hlive'
  | yielded hn hgoes hlive' hrun' =>
    exact .yielded (Nat.succ_lt_succ hn) (.cons hlive hrun hgoes) hlive' hrun'
  | failed hn hgoes hlive' hrun' =>
    exact .failed (Nat.succ_lt_succ hn) (.cons hlive hrun hgoes) hlive' hrun'

theorem advance_rests (ctx : Context κ) (bound : Nat) (m : Machine κ) :
    Rests ctx bound m (advance ctx bound m) := by
  induction bound generalizing m with
  | zero =>
    unfold advance
    by_cases hdone : m.thread.isComplete = true
    · rw [if_pos hdone]
      exact .complete (Nat.le_refl 0) (.refl m) hdone
    · rw [if_neg hdone]
      exact .spent (.refl m) (Bool.not_eq_true _ ▸ hdone)
  | succ bound ih =>
    unfold advance
    by_cases hdone : m.thread.isComplete = true
    · rw [if_pos hdone]
      exact .complete (Nat.zero_le _) (.refl m) hdone
    · rw [if_neg hdone]
      have hlive : m.thread.isComplete = false := Bool.not_eq_true _ ▸ hdone
      cases hrun : Transition.run ctx m with
      | error e m' => exact .failed (Nat.succ_pos _) (.refl m) hlive hrun
      | ok tick m' =>
        cases tick with
        | «continue» => exact (ih m').cons hlive hrun
        | yield => exact .yielded (Nat.succ_pos _) (.refl m) hlive hrun

/-- A step is a run of transitions. What it makes of one that was cut short depends on
whether there is a limit. -/
theorem step_within (ctx : Context κ) (limit patience : Nat) (m : Machine κ) :
    step (ctx.within limit patience) m =
      match advance ctx (if limit = 0 then patience else limit) m with
      | .error e m' => .error e m'
      | .ok .spent m' =>
        if limit = 0 then .error (.unfinished patience) m'
        else .ok true { m' with log := m'.log.add (.yieldsAfter m'.thread.id limit) }
      | .ok _ m' => .ok (!m'.thread.isComplete) m' := by
  have hlimit : (ctx.within limit patience).config.maxTransitions = limit := rfl
  have hpatience : (ctx.within limit patience).patience = patience := rfl
  unfold step
  dsimp only [bind, EStateM.bind]
  rw [hlimit, hpatience, advance_within]
  cases advance ctx (if limit = 0 then patience else limit) m with
  | error e m' => rfl
  | ok rest m' =>
    cases rest with
    | yielded => rfl
    | complete => rfl
    | spent =>
      by_cases hnone : limit = 0
      · simp only [hnone, if_true]
        rfl
      · simp only [hnone, if_false]
        rfl

/-- A step makes no more transitions than its bound, and some unless the thread is
done. Without a limit it may run out of patience. -/
theorem step_performs (ctx : Context κ) (limit patience : Nat) (m : Machine κ) :
    (∃ n ≤ if limit = 0 then patience else limit,
      (0 < n ∨ outcome (step (ctx.within limit patience)) m = .ok false) ∧
      Performs ctx n m (outcome (step (ctx.within limit patience)) m)
        (after (step (ctx.within limit patience)) m)) ∨
    limit = 0 ∧ ∃ m', Goes ctx patience m m' ∧ m'.thread.isComplete = false ∧
      step (ctx.within limit patience) m = .error (.unfinished patience) m' := by
  have hrests := advance_rests ctx (if limit = 0 then patience else limit) m
  have hstep := step_within ctx limit patience m
  generalize advance ctx (if limit = 0 then patience else limit) m = result at hrests hstep
  cases hrests with
  | @complete n m' hn hgoes hdone =>
    left
    have hstep : step (ctx.within limit patience) m = .ok false m' := by simpa [hdone] using hstep
    rw [outcome_of_ok hstep, after_of_ok hstep]
    exact ⟨n, hn, Or.inr rfl, .completes hgoes hdone⟩
  | @spent m' hgoes hlive =>
    by_cases hnone : limit = 0
    · subst hnone
      exact Or.inr ⟨rfl, m', hgoes, hlive, hstep⟩
    · left
      simp only [hnone, if_false] at hstep hgoes ⊢
      rw [outcome_of_ok hstep, after_of_ok hstep]
      exact ⟨limit, Nat.le_refl _, Or.inl (Nat.pos_of_ne_zero hnone), .stops _ hgoes hlive⟩
  | @yielded n m' m'' hn hgoes hlive hrun =>
    left
    rw [outcome_of_ok hstep, after_of_ok hstep]
    exact ⟨n + 1, hn, Or.inl (Nat.succ_pos n), .yields hgoes hlive hrun⟩
  | @failed n m' m'' e hn hgoes hlive hrun =>
    left
    rw [outcome_of_error hstep, after_of_error hstep]
    exact ⟨n + 1, hn, Or.inl (Nat.succ_pos n), .fails hgoes hlive hrun⟩

namespace Performs

variable {n k : Nat} {m m' : Machine κ} {out : Except Fault Bool} {r : Except Fault Unit}
  {t : Thread κ} {d : Domain}

theorem finishes_done (h : Performs ctx n m out m') (hout : out = .ok false) :
    Finishes ctx n m (.ok ()) m'.thread m'.domain := by
  cases h with
  | completes hgoes hdone => exact hgoes.finishes (.done hdone)
  | stops => cases hout
  | yields hgoes hlive hrun =>
    have hdone : m'.thread.isComplete = true := by simpa using hout
    exact hgoes.finishes (.next hlive hrun (.done hdone))
  | fails => cases hout

theorem finishes_failed {e : Fault} (h : Performs ctx n m out m') (hout : out = .error e) :
    Finishes ctx n m (.error e) m'.thread m'.domain := by
  cases h with
  | completes => cases hout
  | stops => cases hout
  | yields => cases hout
  | fails hgoes hlive hrun =>
    obtain rfl := Except.error.inj hout
    exact hgoes.finishes (.fails hlive hrun)

/-- A thread that still has frames after a step goes on from there. -/
theorem finishes (hctx : ctx.IgnoresLog) (h : Performs ctx n m out m') (hout : out = .ok true)
    (hrest : Finishes ctx k m' r t d) : Finishes ctx (n + k) m r t d := by
  cases h with
  | completes => cases hout
  | @stops n m m₁ log hgoes hlive => exact hgoes.finishes (hrest.relog hctx m₁.log)
  | @yields n m m₁ m' hgoes hlive hrun =>
    have hall := hgoes.finishes (.next hlive hrun hrest)
    rwa [Nat.add_right_comm]
  | fails => cases hout

theorem remaining (hctx : ctx.IgnoresLog) (h : Performs ctx n m out m') (hout : out = .ok true)
    (hall : Finishes ctx k m r t d) : ∃ j, k = n + j ∧ Finishes ctx j m' r t d := by
  cases h with
  | completes => cases hout
  | @stops n m m₁ log hgoes hlive =>
    obtain ⟨j, hj, hrest⟩ := hgoes.remaining hall
    exact ⟨j, hj, hrest.relog hctx log⟩
  | yields hgoes hlive hrun =>
    obtain ⟨i, rfl, hyields⟩ := hgoes.remaining hall
    obtain ⟨j, rfl, hrest⟩ := hyields.remaining hlive hrun
    exact ⟨j, by omega, hrest⟩
  | fails => cases hout

end Performs

/-- Steps a thread until it is done or a step fails, at most `count` times. -/
def steps (ctx : Context κ) : Nat → Machine κ → Option (Except Fault Unit × Machine κ)
  | 0, _ => none
  | count + 1, m =>
    match step ctx m with
    | .ok true m' => steps ctx count m'
    | .ok false m' => some (.ok (), m')
    | .error e m' => some (.error e, m')

/-- Steps that come to an end have made the transitions of the thread, unless one ran
out of patience. -/
theorem finishes_of_steps (hctx : ctx.IgnoresLog) {limit patience count : Nat} {m m' : Machine κ}
    {r : Except Fault Unit} (h : steps (ctx.within limit patience) count m = some (r, m')) :
    (∃ n, Finishes ctx n m r m'.thread m'.domain) ∨
      limit = 0 ∧ r = .error (.unfinished patience) := by
  induction count generalizing m with
  | zero => cases h
  | succ count ih =>
    rw [steps] at h
    rcases step_performs ctx limit patience m with ⟨n, -, -, hperforms⟩ |
      ⟨hnone, m₁, -, -, hstep⟩
    · cases hstep : step (ctx.within limit patience) m with
      | error e m₁ =>
        rw [outcome_of_error hstep, after_of_error hstep] at hperforms
        rw [hstep] at h
        obtain ⟨rfl, rfl⟩ := Prod.mk.inj (Option.some.inj h)
        exact Or.inl ⟨n, hperforms.finishes_failed rfl⟩
      | ok goesOn m₁ =>
        rw [outcome_of_ok hstep, after_of_ok hstep] at hperforms
        rw [hstep] at h
        cases goesOn with
        | false =>
          obtain ⟨rfl, rfl⟩ := Prod.mk.inj (Option.some.inj h)
          exact Or.inl ⟨n, hperforms.finishes_done rfl⟩
        | true =>
          refine (ih h).imp_left fun ⟨k, hrest⟩ => ?_
          exact ⟨n + k, hperforms.finishes hctx rfl hrest⟩
    · rw [hstep] at h
      obtain ⟨rfl, rfl⟩ := Prod.mk.inj (Option.some.inj h)
      exact Or.inr ⟨hnone, rfl⟩

/-- A thread with so many transitions comes to its end in as many steps and one, if
steps without a limit are patient enough. -/
theorem steps_of_finishes (hctx : ctx.IgnoresLog) {limit patience count n : Nat} {m : Machine κ}
    {r : Except Fault Unit} {t : Thread κ} {d : Domain} (hpatient : limit = 0 → n < patience)
    (hcount : n < count) (h : Finishes ctx n m r t d) :
    ∃ log, steps (ctx.within limit patience) count m = some (r, ⟨t, d, log⟩) := by
  induction count generalizing n m with
  | zero => omega
  | succ count ih =>
    rw [steps]
    rcases step_performs ctx limit patience m with ⟨k, -, hmoves, hperforms⟩ |
      ⟨hnone, m₁, hgoes, -, -⟩
    · cases hstep : step (ctx.within limit patience) m with
      | error e m₁ =>
        rw [outcome_of_error hstep, after_of_error hstep] at hperforms
        obtain ⟨rfl, rfl, rfl⟩ := h.unique (hperforms.finishes_failed rfl)
        exact ⟨m₁.log, rfl⟩
      | ok goesOn m₁ =>
        rw [outcome_of_ok hstep, after_of_ok hstep] at hperforms
        cases goesOn with
        | false =>
          obtain ⟨rfl, rfl, rfl⟩ := h.unique (hperforms.finishes_done rfl)
          exact ⟨m₁.log, rfl⟩
        | true =>
          have hsome : 0 < k := by
            rcases hmoves with hsome | hdone
            · exact hsome
            · rw [outcome_of_ok hstep] at hdone
              cases hdone
          obtain ⟨j, rfl, hrest⟩ := hperforms.remaining hctx rfl h
          refine ih ?_ (by omega) hrest
          intro hnone
          have hlong := hpatient hnone
          omega
    · obtain ⟨j, rfl, -⟩ := hgoes.remaining h
      have hshort := hpatient hnone
      omega

/-- Steps under a limit, as patient as need be, bring a thread to an end: how it ends,
and the thread and the domain then. -/
def Ends (ctx : Context κ) (limit : Nat) (m : Machine κ) (r : Except Fault Unit) (t : Thread κ)
    (d : Domain) : Prop :=
  ∃ count enough, ∀ patience, enough ≤ patience →
    ∃ log, steps (ctx.within limit patience) count m = some (r, ⟨t, d, log⟩)

theorem ends_iff (hctx : ctx.IgnoresLog) {limit : Nat} {m : Machine κ} {r : Except Fault Unit}
    {t : Thread κ} {d : Domain} : Ends ctx limit m r t d ↔ ∃ n, Finishes ctx n m r t d := by
  constructor
  · rintro ⟨count, enough, hends⟩
    obtain ⟨log, hsteps⟩ := hends enough (Nat.le_refl _)
    obtain ⟨log', hsteps'⟩ := hends (enough + 1) (Nat.le_succ _)
    rcases finishes_of_steps hctx hsteps with hfinishes | ⟨-, hspent⟩
    · exact hfinishes
    · rcases finishes_of_steps hctx hsteps' with hfinishes | ⟨-, hspent'⟩
      · exact hfinishes
      · -- running out of patience is no end, for it comes later with more patience
        rw [hspent] at hspent'
        injection hspent' with hspent'
        injection hspent' with hsame
        omega
  · rintro ⟨n, hfinishes⟩
    refine ⟨n + 1, n + 1, fun patience hpatience => ?_⟩
    exact steps_of_finishes hctx (fun _ => hpatience) (Nat.lt_succ_self n) hfinishes

/-- Steps under one limit bring a thread to an end just if those under any other limit
do, and then to the same one, with the same thread and the same domain. Under a limit
no step makes more transitions than it allows. -/
theorem limit_transparent (hctx : ctx.IgnoresLog) (m : Machine κ) :
    (∀ limit other r t d, Ends ctx limit m r t d → Ends ctx other m r t d) ∧
      ∀ limit patience, limit ≠ 0 → ∃ n ≤ limit,
        Performs ctx n m (outcome (step (ctx.within limit patience)) m)
          (after (step (ctx.within limit patience)) m) := by
  constructor
  · intro limit other r t d hends
    exact (ends_iff hctx).mpr ((ends_iff hctx).mp hends)
  · intro limit patience hlimit
    rcases step_performs ctx limit patience m with ⟨n, hn, -, hperforms⟩ | ⟨hnone, -⟩
    · rw [if_neg hlimit] at hn
      exact ⟨n, hn, hperforms⟩
    · exact absurd hnone hlimit

namespace Interpreter

/-- A thread that has called the small method with its argument, or without it. -/
def smallCaller (arguments : List Value) : Machine Empty :=
  ⟨{ (Thread.new 1).call 0 smallMethod with operands := arguments }, Domain.empty 64 none,
    Log.empty .error⟩

/-- Steps of one transition each take more than three steps where one without a limit
is enough, and the thread fails in the same way if the argument is missing. -/
theorem limit_transparent_to_caller :
    let ctx := smallContext {}
    ctx.IgnoresLog ∧
      (steps (ctx.within 1 0) 3 (smallCaller [.int32 7])).isNone ∧
      (steps (ctx.within 0 9) 1 (smallCaller [.int32 7])).isSome ∧
      (∃ t d, t.frames = [] ∧ Ends ctx 1 (smallCaller [.int32 7]) (.ok ()) t d ∧
        Ends ctx 0 (smallCaller [.int32 7]) (.ok ()) t d) ∧
      ∃ e t d, t.frames.length = 1 ∧ Ends ctx 1 (smallCaller []) (.error e) t d ∧
        Ends ctx 0 (smallCaller []) (.error e) t d := by
  intro ctx
  have hctx : ctx.IgnoresLog := plainContext_ignoresLog _ _ _
  have hcut : (steps (ctx.within 1 0) 3 (smallCaller [.int32 7])).isNone := by decide +kernel
  have hwhole : (steps (ctx.within 0 9) 1 (smallCaller [.int32 7])).isSome := by decide +kernel
  have hends {m m' : Machine Empty} {r : Except Fault Unit}
      (hsteps : steps (ctx.within 1 0) 5 m = some (r, m')) : Ends ctx 1 m r m'.thread m'.domain :=
    (ends_iff hctx).mpr ((finishes_of_steps hctx hsteps).resolve_right (by simp))
  refine ⟨hctx, hcut, hwhole, ?_, ?_⟩
  · have hrun : (steps (ctx.within 1 0) 5 (smallCaller [.int32 7])).map
        (fun x => (x.1.toOption, x.2.thread.frames.length)) = some (some (), 0) := by
      decide +kernel
    obtain ⟨⟨r, m'⟩, hsteps, hlast⟩ := Option.map_eq_some_iff.mp hrun
    obtain ⟨hok, hframes⟩ := Prod.mk.inj hlast
    have hend := hends hsteps
    cases r with
    | error e => cases hok
    | ok =>
      have hother := (limit_transparent hctx (smallCaller [.int32 7])).1 1 0 _ _ _ hend
      exact ⟨m'.thread, m'.domain, List.length_eq_zero_iff.mp hframes, hend, hother⟩
  · have hrun : (steps (ctx.within 1 0) 5 (smallCaller [])).map
        (fun x => (x.1.toOption, x.2.thread.frames.length)) = some (none, 1) := by
      decide +kernel
    obtain ⟨⟨r, m'⟩, hsteps, hlast⟩ := Option.map_eq_some_iff.mp hrun
    obtain ⟨hfailed, hframes⟩ := Prod.mk.inj hlast
    have hend := hends hsteps
    cases r with
    | ok => cases hfailed
    | error e =>
      have hother := (limit_transparent hctx (smallCaller [])).1 1 0 _ _ _ hend
      exact ⟨e, m'.thread, m'.domain, hframes, hend, hother⟩

end Interpreter

end ManagedCalls
