import ManagedCalls.Proofs.NativeInvocation
import ManagedCalls.Proofs.TransitionLimit

/-!
The engine cannot spin. Its own transitions take a frame from one stage to the next, or take
it off and come to the frame below. So there is only so much for the engine to do until it
asks the host again, which executes methods and polls native calls: at most one transition
for each frame and two more. A step without a limit therefore comes to rest just if the host
goes on no more than finitely often.
-/

namespace ManagedCalls

open Stateful

variable {κ : Type}

/-- In these states the host is asked, by executing the method or polling the native call. -/
def FrameState.isHosted : FrameState → Bool
  | nativeExec | interpretedExec => true
  | _ => false

/-- How many transitions of its own the engine can make with the frame on top. -/
def FrameState.stages : FrameState → Nat
  | resolve => 3
  | awaitAssembly _ => 2
  | assemblyResolved | bodySetup | teardown => 1
  | nativeExec | interpretedExec => 0

/-- How many transitions the engine can make of its own. Behind a frame that is torn down
comes the one below. -/
def engineWork : List (Frame κ) → Nat
  | [] => 0
  | f :: rest => f.state.stages + if f.state = .teardown then engineWork rest else 0

theorem FrameState.stages_le (s : FrameState) : s.stages ≤ 3 := by
  cases s with
  | resolve | awaitAssembly | assemblyResolved | bodySetup | teardown | nativeExec
  | interpretedExec => simp [stages]

theorem engineWork_le (frames : List (Frame κ)) : engineWork frames ≤ frames.length + 2 := by
  induction frames with
  | nil => exact Nat.zero_le _
  | cons f rest ih =>
    rw [engineWork, List.length_cons]
    by_cases hteardown : f.state = .teardown
    · rw [if_pos hteardown, hteardown, FrameState.stages]
      omega
    · have hstages := f.state.stages_le
      rw [if_neg hteardown]
      omega

/-- Whether the next transition asks the host. -/
def Machine.asksHost (m : Machine κ) : Bool := m.thread.frames.head?.any (·.state.isHosted)

theorem engineWork_pos {m : Machine κ} (hlive : m.thread.isComplete = false)
    (hengine : m.asksHost = false) : 0 < engineWork m.thread.frames := by
  unfold Thread.isComplete at hlive
  unfold Machine.asksHost at hengine
  cases hframes : m.thread.frames with
  | nil => simp [hframes] at hlive
  | cons f rest =>
    have hhosted : f.state.isHosted = false := by simpa [hframes] using hengine
    have hstages : 0 < f.state.stages := by
      cases hstate : f.state <;> simp [hstate, FrameState.isHosted, FrameState.stages] at hhosted ⊢
    rw [engineWork]
    omega

/-- A transition of the engine takes a frame on or off. -/
theorem Transition.Rule.engineWork_lt {ctx : Context κ} {t t' : Thread κ} {d d' : Domain}
    {out : Except Fault Tick} (h : Rule ctx t d out t' d') (hout : out = .ok .continue)
    (hengine : t.frames.head?.any (·.state.isHosted) = false) :
    engineWork t'.frames < engineWork t.frames := by
  cases h with
  | noFrame | unresolved | outstanding | loadFailed | unbound | unready | rolledBack | callMissing
  | unreleased => cases hout
  | foundBody htop hstate | collected htop hstate | bound _ htop hstate | activated htop hstate
  | tornDown htop hstate => simp [htop, engineWork, hstate, FrameState.stages]
  | @foundMember f rest row target resolution d' events htop hstate =>
    -- an assembly that is there already saves the stage of waiting
    cases resolution with
    | loaded | pending => simp [htop, engineWork, hstate, Frame.afterResolution, FrameState.stages]
  | polled htop hstate | executed _ htop hstate =>
    simp [htop, hstate, FrameState.isHosted] at hengine

theorem engineWork_run_lt {ctx : Context κ} {m m' : Machine κ} (hengine : m.asksHost = false)
    (hrun : Transition.run ctx m = .ok .continue m') :
    engineWork m'.thread.frames < engineWork m.thread.frames := by
  have hrule := Transition.run_follows ctx m
  rw [Transition.Follows, outcome_of_ok hrun, after_of_ok hrun] at hrule
  exact hrule.engineWork_lt rfl hengine

/-- Transitions in a row after which the thread goes on: so many the engine has made of its
own, and so many that asked the host. -/
inductive Alternates (ctx : Context κ) : Nat → Nat → Machine κ → Machine κ → Prop
  | refl (m : Machine κ) : Alternates ctx 0 0 m m
  | engine {n k : Nat} {m m₁ m₂ : Machine κ} (hlive : m.thread.isComplete = false)
      (hengine : m.asksHost = false) (hrun : Transition.run ctx m = .ok .continue m₁)
      (hrest : Alternates ctx n k m₁ m₂) : Alternates ctx (n + 1) k m m₂
  | host {n k : Nat} {m m₁ m₂ : Machine κ} (hlive : m.thread.isComplete = false)
      (hhost : m.asksHost = true) (hrun : Transition.run ctx m = .ok .continue m₁)
      (hrest : Alternates ctx n k m₁ m₂) : Alternates ctx n (k + 1) m m₂

/-- Where the engine stops of its own accord, and how many transitions this takes: the thread
has no frames, the host is asked, or the next transition yields or fails. -/
inductive EngineStops (ctx : Context κ) : Nat → Machine κ → Prop
  | complete {m : Machine κ} (hdone : m.thread.isComplete = true) : EngineStops ctx 0 m
  | hosted {m : Machine κ} (hlive : m.thread.isComplete = false) (hhost : m.asksHost = true) :
      EngineStops ctx 0 m
  | yields {m m' : Machine κ} (hlive : m.thread.isComplete = false) (hengine : m.asksHost = false)
      (hrun : Transition.run ctx m = .ok .yield m') : EngineStops ctx 1 m
  | fails {m m' : Machine κ} {e : Fault} (hlive : m.thread.isComplete = false)
      (hengine : m.asksHost = false) (hrun : Transition.run ctx m = .error e m') :
      EngineStops ctx 1 m

namespace Alternates

variable {ctx : Context κ} {n k n' k' : Nat} {m m' m'' : Machine κ}

theorem trans (h : Alternates ctx n k m m') (h' : Alternates ctx n' k' m' m'') :
    Alternates ctx (n + n') (k + k') m m'' := by
  induction h with
  | refl m =>
    rw [Nat.zero_add, Nat.zero_add]
    exact h'
  | engine hlive hengine hrun _ ih =>
    rw [Nat.add_right_comm]
    exact .engine hlive hengine hrun (ih h')
  | host hlive hhost hrun _ ih =>
    rw [Nat.add_right_comm _ 1]
    exact .host hlive hhost hrun (ih h')

theorem goes (h : Alternates ctx n k m m') : Goes ctx (n + k) m m' := by
  induction h with
  | refl m => exact .refl m
  | engine hlive _ hrun _ ih =>
    rw [Nat.add_right_comm]
    exact .cons hlive hrun ih
  | host hlive _ hrun _ ih => exact .cons hlive hrun ih

theorem engine_of_outcome (hlive : m.thread.isComplete = false) (hengine : m.asksHost = false)
    (hgoes : (outcome (Transition.run ctx) m).toOption = some .continue)
    (hrest : Alternates ctx n k (after (Transition.run ctx) m) m') :
    Alternates ctx (n + 1) k m m' := by
  cases hrun : Transition.run ctx m with
  | error e m₁ =>
    rw [outcome_of_error hrun] at hgoes
    cases hgoes
  | ok tick m₁ =>
    rw [outcome_of_ok hrun] at hgoes
    cases hgoes
    rw [after_of_ok hrun] at hrest
    exact .engine hlive hengine hrun hrest

/-- Whatever the engine does before the host is asked makes its work less. -/
theorem add_engineWork_le (h : Alternates ctx n k m m') (hnone : k = 0) :
    n + engineWork m'.thread.frames ≤ engineWork m.thread.frames := by
  induction h with
  | refl m => exact Nat.le_of_eq (Nat.zero_add _)
  | engine hlive hengine hrun _ ih =>
    have hrest := ih hnone
    have hless := engineWork_run_lt hengine hrun
    omega
  | host => cases hnone

end Alternates

/-- The engine stops as soon as its work is done. -/
theorem engine_stops (ctx : Context κ) (m : Machine κ) :
    ∃ n j m', Alternates ctx n 0 m m' ∧ EngineStops ctx j m' ∧
      n + j ≤ engineWork m.thread.frames := by
  -- the work of the frames carries the induction, not their number: a frame that is taken
  -- off may uncover one with three stages before it
  induction hwork : engineWork m.thread.frames using Nat.strongRecOn generalizing m with
  | ind work ih =>
    subst hwork
    cases hlive : m.thread.isComplete with
    | true => exact ⟨0, 0, m, .refl m, .complete hlive, Nat.zero_le _⟩
    | false =>
      cases hengine : m.asksHost with
      | true => exact ⟨0, 0, m, .refl m, .hosted hlive hengine, Nat.zero_le _⟩
      | false =>
        have hpos := engineWork_pos hlive hengine
        cases hrun : Transition.run ctx m with
        | error e m₁ => exact ⟨0, 1, m, .refl m, .fails hlive hengine hrun, hpos⟩
        | ok tick m₁ =>
          cases tick with
          | yield => exact ⟨0, 1, m, .refl m, .yields hlive hengine hrun, hpos⟩
          | «continue» =>
            have hless := engineWork_run_lt hengine hrun
            obtain ⟨n, j, m', hgoes, hstops, hle⟩ := ih _ hless m₁ rfl
            exact ⟨n + 1, j, m', .engine hlive hengine hrun hgoes, hstops, by omega⟩

/-- From some limit on, transitions come to rest, and always in the same way. -/
def ComesToRest (ctx : Context κ) (m : Machine κ) : Prop :=
  ∃ enough result, (∀ m', result ≠ .ok .spent m') ∧
    ∀ limit, enough ≤ limit → advance ctx limit m = result

namespace ComesToRest

variable {ctx : Context κ} {n k : Nat} {m m' : Machine κ}

theorem of_complete (hdone : m.thread.isComplete = true) : ComesToRest ctx m := by
  refine ⟨0, .ok .complete m, fun m' => by simp, fun limit _ => ?_⟩
  cases limit with
  | zero => rw [advance, if_pos hdone]
  | succ limit => rw [advance, if_pos hdone]

/-- A transition that leads to no further one. -/
theorem of_run (hlive : m.thread.isComplete = false)
    (hlast : ∀ m', Transition.run ctx m ≠ .ok .continue m') : ComesToRest ctx m := by
  have hnot : ¬m.thread.isComplete = true := by simp [hlive]
  cases hrun : Transition.run ctx m with
  | error e m₁ =>
    refine ⟨1, .error e m₁, fun m' => by simp, fun limit hle => ?_⟩
    obtain ⟨limit, rfl⟩ := Nat.exists_eq_add_of_le' hle
    rw [advance, if_neg hnot, hrun]
  | ok tick m₁ =>
    cases tick with
    | yield =>
      refine ⟨1, .ok .yielded m₁, fun m' => by simp, fun limit hle => ?_⟩
      obtain ⟨limit, rfl⟩ := Nat.exists_eq_add_of_le' hle
      rw [advance, if_neg hnot, hrun]
    | «continue» => exact absurd hrun (hlast m₁)

theorem cons (hlive : m.thread.isComplete = false)
    (hrun : Transition.run ctx m = .ok .continue m') (h : ComesToRest ctx m') :
    ComesToRest ctx m := by
  obtain ⟨enough, result, hresult, hadvance⟩ := h
  refine ⟨enough + 1, result, hresult, fun limit hle => ?_⟩
  obtain ⟨limit, rfl⟩ : ∃ l, limit = l + 1 := Nat.exists_eq_add_of_le' (by omega)
  rw [advance, if_neg (by simp [hlive]), hrun]
  exact hadvance limit (by omega)

theorem of_goes (hgoes : Goes ctx n m m') (h : ComesToRest ctx m') : ComesToRest ctx m := by
  induction hgoes with
  | refl m => exact h
  | cons hlive hrun _ ih => exact cons hlive hrun (ih h)

end ComesToRest

/-- A host that goes on no more than so often lets the thread come to rest: the engine stops
between any two times, and after the last one. -/
theorem comesToRest_of_bounded {ctx : Context κ} {bound : Nat} {m : Machine κ}
    (hbound : ∀ n k m', Alternates ctx n k m m' → k ≤ bound) : ComesToRest ctx m := by
  -- the induction is on how often the host may still go on
  induction bound using Nat.strongRecOn generalizing m with
  | ind bound ih =>
    obtain ⟨n, j, m', hgoes, hstops, -⟩ := engine_stops ctx m
    refine .of_goes hgoes.goes ?_
    cases hstops with
    | complete hdone => exact .of_complete hdone
    | yields hlive _ hrun => exact .of_run hlive fun m'' h => by cases hrun.symm.trans h
    | fails hlive _ hrun => exact .of_run hlive fun m'' h => by cases hrun.symm.trans h
    | hosted hlive hhost =>
      by_cases hlast : ∀ m'', Transition.run ctx m' ≠ .ok .continue m''
      · exact .of_run hlive hlast
      · obtain ⟨m'', hrun⟩ := not_forall_not.mp hlast
        have hnext : Alternates ctx n 1 m m'' :=
          hgoes.trans (.host hlive hhost hrun (.refl m''))
        have hsome := hbound _ _ _ hnext
        refine .cons hlive hrun (ih (bound - 1) (by omega) fun a b m₃ hrest => ?_)
        have hall := hbound _ _ _ (hnext.trans hrest)
        omega

/-- Transitions that go on use up every smaller limit. -/
theorem Goes.spent {ctx : Context κ} {n limit : Nat} {m m' : Machine κ} (h : Goes ctx n m m')
    (hlt : limit < n) : ∃ m'', advance ctx limit m = .ok .spent m'' := by
  induction h generalizing limit with
  | refl => exact absurd hlt (Nat.not_lt_zero _)
  | @cons n m m₁ m₂ hlive hrun _ ih =>
    cases limit with
    | zero => exact ⟨m, by rw [advance, hlive]; rfl⟩
    | succ limit =>
      rw [advance, if_neg (by simp [hlive]), hrun]
      exact ih (Nat.lt_of_succ_lt_succ hlt)

/-- A step without a limit ends: whatever more patience it is given, the result is the same.
Running out of patience is no such end, for the fault tells how much there was. -/
def StepEnds (ctx : Context κ) (m : Machine κ) : Prop :=
  ∃ enough result, ∀ patience, enough ≤ patience → step (ctx.within 0 patience) m = result

theorem step_of_spent {ctx : Context κ} {patience : Nat} {m m' : Machine κ}
    (h : advance ctx patience m = .ok .spent m') :
    step (ctx.within 0 patience) m = .error (.unfinished patience) m' := by
  rw [step_within, if_pos rfl, h]
  rfl

theorem stepEnds_of_comesToRest {ctx : Context κ} {m : Machine κ} (h : ComesToRest ctx m) :
    StepEnds ctx m := by
  obtain ⟨enough, result, hresult, hadvance⟩ := h
  have hstep (patience : Nat) (hle : enough ≤ patience) := step_within ctx 0 patience m
  simp only [if_pos] at hstep
  cases result with
  | error e m' =>
    refine ⟨enough, .error e m', fun patience hle => ?_⟩
    rw [hstep patience hle, hadvance patience hle]
  | ok rest m' =>
    cases rest with
    | spent => exact absurd rfl (hresult m')
    | yielded | complete =>
      refine ⟨enough, .ok (!m'.thread.isComplete) m', fun patience hle => ?_⟩
      rw [hstep patience hle, hadvance patience hle]

theorem le_of_stepEnds {ctx : Context κ} {m : Machine κ} (h : StepEnds ctx m) :
    ∃ bound, ∀ n m', Goes ctx n m m' → n ≤ bound := by
  obtain ⟨enough, result, hstep⟩ := h
  refine ⟨enough + 1, fun n m' hgoes => Nat.not_lt.mp fun hlong => ?_⟩
  obtain ⟨m₁, hspent⟩ := hgoes.spent (Nat.lt_of_succ_lt hlong)
  obtain ⟨m₂, hspent'⟩ := hgoes.spent hlong
  have hfirst := hstep enough (Nat.le_refl _)
  have hsecond := hstep (enough + 1) (Nat.le_succ _)
  rw [step_of_spent hspent] at hfirst
  rw [step_of_spent hspent', ← hfirst] at hsecond
  injection hsecond with hfault
  injection hfault with hsame
  omega

/-- Before it asks the host, the engine makes at most two transitions more than the thread has
frames, the one that yields or fails among them. So a step without a limit ends just if the
host, asked again and again, goes on no more than so many times. -/
theorem engine_cannot_spin (ctx : Context κ) (m : Machine κ) :
    (∀ n m', Alternates ctx n 0 m m' → n ≤ m.thread.depth + 2) ∧
      (∃ n j m', Alternates ctx n 0 m m' ∧ EngineStops ctx j m' ∧
        n + j ≤ m.thread.depth + 2) ∧
      (StepEnds ctx m ↔ ∃ bound, ∀ n k m', Alternates ctx n k m m' → k ≤ bound) := by
  have hwork : engineWork m.thread.frames ≤ m.thread.depth + 2 := engineWork_le _
  refine ⟨fun n m' h => ?_, ?_, ?_, ?_⟩
  · have hless := h.add_engineWork_le rfl
    omega
  · obtain ⟨n, j, m', hgoes, hstops, hle⟩ := engine_stops ctx m
    exact ⟨n, j, m', hgoes, hstops, by omega⟩
  · intro hends
    obtain ⟨bound, hbound⟩ := le_of_stepEnds hends
    refine ⟨bound, fun n k m' h => ?_⟩
    have hall := hbound _ _ h.goes
    omega
  · rintro ⟨bound, hbound⟩
    exact stepEnds_of_comesToRest (comesToRest_of_bounded hbound)

namespace Interpreter

/-- A frame is torn down above a call that is not yet resolved, and the assembly that it leads
to is served at once. -/
def tornDownCaller : Machine Empty :=
  ⟨⟨1,
      [{ id := 2, calling := 0, method := smallMember, state := .teardown },
        { id := 1, calling := 0, method := smallMember }],
      [], 3⟩,
    Domain.empty 64 (some fun _ => .serves 1), Log.empty .error⟩

/-- With two frames the engine may make four transitions until it polls the native call. -/
theorem engine_work_is_met :
    tornDownCaller.thread.depth = 2 ∧
      ∃ m, Alternates mathContext 4 0 tornDownCaller m ∧ m.asksHost = true := by
  let next (m : Machine Empty) := after (Transition.run mathContext) m
  refine ⟨rfl, next (next (next (next tornDownCaller))), ?_, by decide +kernel⟩
  iterate 4
    refine .engine_of_outcome (by decide +kernel) (by decide +kernel) (by decide +kernel) ?_
  exact .refl _

end Interpreter

end ManagedCalls
