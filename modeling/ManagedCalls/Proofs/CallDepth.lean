import ManagedCalls.Proofs.FrameInvariants
import ManagedCalls.Proofs.ReentrantHosts

/-!
The limit on the depth of calls. It is looked at when a frame is resolved and not
when it is called, so any number of frames may stand beyond it. As long as all
transitions of a thread are made under one limit, only frames within it leave the
resolve phase. Those beyond it stay as they were called and request no load.
-/

namespace ManagedCalls

open Stateful

variable {κ : Type} {limit : Nat}

/-- Frames with as many below them as the limit allows were called and nothing more,
and none of them has requested a load. The topmost frame comes first. -/
def Shallow (limit : Nat) (issuers : List Nat) : List (Frame κ) → Prop
  | [] => True
  | f :: rest => (limit ≤ rest.length → f.Called ∧ f.id ∉ issuers) ∧ Shallow limit issuers rest

namespace Shallow

variable {issuers : List Nat} {fs : List (Frame κ)}

theorem of_length_le (h : fs.length ≤ limit) : Shallow limit issuers fs := by
  induction fs with
  | nil => trivial
  | cons f rest ih =>
    rw [List.length_cons] at h
    exact ⟨fun hlimit => by omega, ih (by omega)⟩

/-- A frame within the limit may change at will. -/
theorem set (h : Shallow limit issuers fs) (g : Frame κ) {i : Nat}
    (hi : fs.length ≤ limit + i) : Shallow limit issuers (fs.set i g) := by
  induction fs generalizing i with
  | nil => trivial
  | cons f rest ih =>
    rw [List.length_cons] at hi
    cases i with
    | zero => exact ⟨fun hlimit => by omega, h.2⟩
    | succ i =>
      refine ⟨fun hlimit => ?_, ih h.2 (by omega)⟩
      rw [List.length_set] at hlimit
      exact h.1 hlimit

theorem at_depth {above below : List (Frame κ)} {f : Frame κ}
    (h : Shallow limit issuers (above ++ f :: below)) (hdepth : limit ≤ below.length) :
    f.Called ∧ f.id ∉ issuers := by
  induction above with
  | nil => exact h.1 hdepth
  | cons _ above ih => exact ih h.2

end Shallow

/-- A thread that keeps to the limit. All the numbers it knows were given out. -/
structure Thread.Bounded (limit : Nat) (issuers : List Nat) (t : Thread κ) : Prop where
  shallow : Shallow limit issuers t.frames
  frame_lt : ∀ f ∈ t.frames, f.id < t.nextFrame
  issuer_lt : ∀ id ∈ issuers, id < t.nextFrame

namespace Thread.Bounded

variable {issuers : List Nat} {t : Thread κ}

/-- The topmost frame has changed and keeps its number. -/
theorem top {f g : Frame κ} {rest : List (Frame κ)} (h : t.Bounded limit issuers)
    (htop : t.frames = f :: rest) (hid : g.id = f.id) (hcalled : f.Called → g.Called) :
    Bounded limit issuers { t with frames := g :: rest } := by
  have hshallow := h.shallow
  have hlt := h.frame_lt
  rw [htop] at hshallow hlt
  refine ⟨⟨?_, hshallow.2⟩, ?_, h.issuer_lt⟩
  · intro hlimit
    obtain ⟨hf, hissued⟩ := hshallow.1 hlimit
    exact ⟨hcalled hf, hid ▸ hissued⟩
  · intro k hk
    rcases List.mem_cons.mp hk with rfl | hk
    · exact hid ▸ hlt f List.mem_cons_self
    · exact hlt k (List.mem_cons_of_mem _ hk)

theorem call (h : t.Bounded limit issuers) (assembly : Nat) (method : Token) :
    (t.call assembly method).Bounded limit issuers := by
  have hnew : t.nextFrame ∉ issuers := fun hmem => Nat.lt_irrefl _ (h.issuer_lt _ hmem)
  refine ⟨⟨fun _ => ⟨⟨_, _, _, _, rfl⟩, hnew⟩, h.shallow⟩, ?_, ?_⟩
  · intro f hf
    rcases List.mem_cons.mp hf with rfl | hf
    · exact Nat.lt_succ_self _
    · exact Nat.lt_succ_of_lt (h.frame_lt f hf)
  · exact fun id hid => Nat.lt_succ_of_lt (h.issuer_lt id hid)

theorem host {program : Program κ} {t' : Thread κ} {d d' : Domain}
    (h : t.Bounded limit issuers) (hrule : HostAction.Rule program t d t' d') :
    t'.Bounded limit issuers := by
  cases hrule with
  | operands values => exact ⟨h.shallow, h.frame_lt, h.issuer_lt⟩
  | called assembly method => exact h.call assembly method
  | touched htop htouched | stored htop htouched =>
    exact h.top htop (by rw [htouched.same]) fun hf => hf.of_touched htouched
  | asked a => exact h

theorem cleared (h : t.Bounded limit issuers) : t.cleared.Bounded limit issuers :=
  ⟨trivial, fun _ hf => absurd hf List.not_mem_nil, h.issuer_lt⟩

end Thread.Bounded

namespace Transition

/-- Putting a call back changes the frame at its depth at most. -/
theorem settlePoll_sets (below : Nat) (call : NativeCall κ) (status : Except Fault NativeStatus)
    (m : Machine κ) :
    (after (settlePoll below call status) m).thread = m.thread ∨
      ∃ i f, m.thread.frames.length = below + i + 1 ∧ m.thread.frames[i]? = some f ∧
        (after (settlePoll below call status) m).thread =
          { m.thread with
            frames := m.thread.frames.set i
              { f with nativeCall := some call, state := polledState f.state status } } := by
  by_cases hbelow : below < m.thread.frames.length
  · cases hframe : m.thread.frames[m.thread.frames.length - 1 - below]? with
    | none => exact Or.inl (by simp [after, settlePoll, hbelow, hframe])
    | some f =>
      refine Or.inr ⟨m.thread.frames.length - 1 - below, f, by omega, hframe, ?_⟩
      cases status with
      | error e => simp [after, settlePoll, hbelow, hframe, Act.setThread, polledState]
      | ok status =>
        cases status with
        | pending => simp [after, settlePoll, hbelow, hframe, Act.setThread, polledState]
        | complete => simp [after, settlePoll, hbelow, hframe, Act.setThread, polledState]
  · exact Or.inl (by simp [after, settlePoll, hbelow])

/-- Without a host the topmost frame leaves or changes, and keeps its number. -/
theorem Rule.engine {ctx : Context κ} {t t' : Thread κ} {d d' : Domain} {r : Except Fault Tick}
    (h : Rule ctx t d r t' d') {f : Frame κ} {rest : List (Frame κ)} (htop : t.frames = f :: rest)
    (hnative : f.state ≠ .nativeExec) (hinterpreted : f.state ≠ .interpretedExec) :
    t'.nextFrame = t.nextFrame ∧
      (t'.frames = t.frames ∨ t'.frames = rest ∨ ∃ g, t'.frames = g :: rest ∧ g.id = f.id) := by
  have hsame {f' : Frame κ} {rest' : List (Frame κ)} (h : t.frames = f' :: rest') :
      f' = f ∧ rest' = rest := List.cons.inj (h.symm.trans htop)
  cases h with
  | noFrame | unresolved | outstanding | loadFailed | unbound | unready | rolledBack
    | callMissing => exact ⟨rfl, Or.inl rfl⟩
  | foundBody htop' | collected htop' | bound _ htop' | unreleased htop' =>
    obtain ⟨rfl, rfl⟩ := hsame htop'
    exact ⟨rfl, Or.inr (Or.inr ⟨_, rfl, rfl⟩)⟩
  | @foundMember _ _ _ _ resolution _ _ htop' =>
    obtain ⟨rfl, rfl⟩ := hsame htop'
    cases resolution with
    | loaded assembly => exact ⟨rfl, Or.inr (Or.inr ⟨_, rfl, rfl⟩)⟩
    | pending ticket => exact ⟨rfl, Or.inr (Or.inr ⟨_, rfl, rfl⟩)⟩
  | activated htop' _ _ _ hpop =>
    obtain ⟨rfl, rfl⟩ := hsame htop'
    exact ⟨by rw [(Thread.popValues_eq hpop).2], Or.inr (Or.inr ⟨_, rfl, rfl⟩)⟩
  | tornDown htop' =>
    obtain ⟨rfl, rfl⟩ := hsame htop'
    exact ⟨rfl, Or.inr (Or.inl rfl)⟩
  | polled htop' hstate =>
    obtain ⟨rfl, rfl⟩ := hsame htop'
    exact absurd hstate hnative
  | executed _ htop' hstate =>
    obtain ⟨rfl, rfl⟩ := hsame htop'
    exact absurd hstate hinterpreted

/-- A frame beyond the limit is not resolved. -/
theorem run_of_deep {ctx : Context κ} (hlimit : 0 < limit)
    (hctx : ctx.config.maxCallDepth = limit) {m : Machine κ} {f : Frame κ}
    {rest : List (Frame κ)} (htop : m.thread.frames = f :: rest) (hstate : f.state = .resolve)
    (hdeep : limit ≤ rest.length) :
    ∃ log, run ctx m = .error (.callDepthExceeded m.thread.depth limit) { m with log } := by
  refine ⟨m.log.add (.entersPhase f.id f.method f.phase), ?_⟩
  have hover : ¬ limit = 0 ∧ limit < m.thread.depth := by
    rw [Thread.depth, htop, List.length_cons]
    omega
  simp [run, topFrame_eq htop, Act.note, hstate, resolve, checkDepth, hctx, hover]

end Transition

theorem Frame.Called.state_eq {f : Frame κ} (h : f.Called) : f.state = .resolve := by
  obtain ⟨id, calling, method, ip, rfl⟩ := h
  rfl

theorem mem_issuer {m m' : Machine κ} {f : Frame κ} {rest : List (Frame κ)}
    (htop : m.thread.frames = f :: rest) {id : Nat} (h : id ∈ issuer m m') : id = f.id := by
  unfold issuer at h
  split at h
  · cases h
  · simpa [Thread.top?, htop] using h

namespace Thread.Bounded

variable {issuers : List Nat}

/-- A frame that is not as it was called stands within the limit. -/
theorem within_of_state {t : Thread κ} {f : Frame κ} {rest : List (Frame κ)}
    (h : t.Bounded limit issuers) (htop : t.frames = f :: rest) (hstate : f.state ≠ .resolve) :
    rest.length < limit := by
  have hshallow := h.shallow
  rw [htop] at hshallow
  by_contra hdeep
  exact hstate (hshallow.1 (by omega)).1.state_eq

theorem engine {ctx : Context κ} (hlimit : 0 < limit) (hctx : ctx.config.maxCallDepth = limit)
    {m : Machine κ} {f : Frame κ} {rest : List (Frame κ)} (h : m.thread.Bounded limit issuers)
    (htop : m.thread.frames = f :: rest) (hnative : f.state ≠ .nativeExec)
    (hinterpreted : f.state ≠ .interpretedExec) :
    (after (Transition.run ctx) m).thread.Bounded limit
      (issuer m (after (Transition.run ctx) m) ++ issuers) := by
  by_cases hdeep : f.state = .resolve ∧ limit ≤ rest.length
  · obtain ⟨log, hrun⟩ := Transition.run_of_deep hlimit hctx htop hdeep.1 hdeep.2
    rw [after_of_error hrun]
    simpa [issuer] using h
  · -- within the limit the new issuer is no frame that the invariant speaks of
    have hwithin : rest.length < limit := by
      by_cases hstate : f.state = .resolve
      · exact Nat.lt_of_not_le fun hle => hdeep ⟨hstate, hle⟩
      · exact h.within_of_state htop hstate
    have hlt : ∀ k ∈ f :: rest, k.id < m.thread.nextFrame := htop ▸ h.frame_lt
    obtain ⟨hnext, hframes⟩ :=
      (Transition.run_follows ctx m).engine htop hnative hinterpreted
    have hissuer : ∀ id ∈ issuer m (after (Transition.run ctx) m) ++ issuers,
        id < (after (Transition.run ctx) m).thread.nextFrame := by
      intro id hid
      rw [hnext]
      rcases List.mem_append.mp hid with hid | hid
      · rw [mem_issuer htop hid]
        exact hlt f List.mem_cons_self
      · exact h.issuer_lt id hid
    refine ⟨Shallow.of_length_le ?_, ?_, hissuer⟩
    · rcases hframes with hframes | hframes | ⟨g, hframes, -⟩
      · rw [hframes, htop, List.length_cons]
        omega
      · rw [hframes]
        omega
      · rw [hframes, List.length_cons]
        omega
    · intro k hk
      rw [hnext]
      rcases hframes with hframes | hframes | ⟨g, hframes, hid⟩
      · exact h.frame_lt k (hframes ▸ hk)
      · exact hlt k (List.mem_cons_of_mem _ (hframes ▸ hk))
      · rw [hframes] at hk
        rcases List.mem_cons.mp hk with rfl | hk
        · rw [hid]
          exact hlt f List.mem_cons_self
        · exact hlt k (List.mem_cons_of_mem _ hk)

/-- The call goes back to the depth it was taken from, which is within the limit. -/
theorem settlePoll {m : Machine κ} {below : Nat} (h : m.thread.Bounded limit issuers)
    (hbelow : below < limit) (call : NativeCall κ) (status : Except Fault NativeStatus) :
    (after (Transition.settlePoll below call status) m).thread.Bounded limit issuers := by
  rcases Transition.settlePoll_sets below call status m with hsame | ⟨i, f, hi, hf, hset⟩
  · rw [hsame]
    exact h
  · rw [hset]
    refine ⟨h.shallow.set _ (by omega), ?_, h.issuer_lt⟩
    intro k hk
    rcases List.mem_or_eq_of_mem_set hk with hk | rfl
    · exact h.frame_lt k hk
    · exact h.frame_lt f (List.mem_of_getElem? hf)

end Thread.Bounded

theorem Lives.bounded (hlimit : 0 < limit) {m m' : Machine κ} {issuers more : List Nat}
    (h : Lives limit m more m') (hm : m.thread.Bounded limit issuers) :
    m'.thread.Bounded limit (more ++ issuers) := by
  induction h generalizing issuers with
  | still => exact hm
  | host _ program a ih => exact (ih hm).host (HostAction.perform_rule program a _)
  | abandoned _ ih =>
    rw [(after_abandon _).1]
    exact (ih hm).cleared
  | meanwhile _ d log ih => exact ih hm
  | engine _ ctx hctx htop hnative hinterpreted ih =>
    rw [List.append_assoc]
    exact (ih hm).engine hlimit hctx htop hnative hinterpreted
  | @polled _ _ _ _ _ f rest _ htop hstate _ call status ih ihpoll =>
    have hbefore := ih hm
    have hopened := hbefore.top (g := { f with nativeCall := none }) htop rfl fun hf => by
      rw [hf.state_eq] at hstate
      cases hstate
    have hwithin := hbefore.within_of_state htop (by simp [hstate])
    rw [List.append_assoc]
    exact (ihpoll hopened).settlePoll hwithin call status

namespace Thread

theorem Bounded.new (id : Nat) : (Thread.new id : Thread κ).Bounded limit [] :=
  ⟨trivial, fun _ hf => absurd hf List.not_mem_nil, fun _ hid => absurd hid List.not_mem_nil⟩

/-- At every moment of its life a thread under one limit has frames outside the resolve
phase only within the limit. Every frame beyond it is in the resolve phase, owns no
slots and has requested no load; a transition of such a frame is refused and changes
neither the thread nor the domain. Whatever is done to the thread next, with a host
that may step it from inside or not, is again part of such a life. -/
theorem depth_bounded (hlimit : 0 < limit) {id : Nat} {d : Domain} {log : Log}
    {issuers : List Nat} {m : Machine κ} (h : Lives limit ⟨Thread.new id, d, log⟩ issuers m) :
    (∀ above f below, m.thread.frames = above ++ f :: below →
      (f.state ≠ .resolve → below.length + 1 ≤ limit) ∧
      (limit < below.length + 1 → f.state = .resolve ∧ f.Empty ∧ f.id ∉ issuers)) ∧
    (∀ ctx : Context κ, ctx.config.maxCallDepth = limit → limit < m.thread.depth →
      outcome (Transition.run ctx) m = .error (.callDepthExceeded m.thread.depth limit) ∧
        (after (Transition.run ctx) m).thread = m.thread ∧
        (after (Transition.run ctx) m).domain = m.domain) ∧
    ∀ ctx : Context κ, ctx.Within limit → ∀ a : ThreadAction, ∃ more,
      Lives limit ⟨Thread.new id, d, log⟩ (more ++ issuers) (after (a.perform ctx) m) := by
  have hbounded := h.bounded hlimit (.new id)
  rw [List.append_nil] at hbounded
  refine ⟨?_, ?_, ?_⟩
  · intro above f below hframes
    have hdeep : limit < below.length + 1 → f.Called ∧ f.id ∉ issuers := by
      intro hdepth
      exact Shallow.at_depth (hframes ▸ hbounded.shallow) (by omega)
    refine ⟨?_, ?_⟩
    · intro hstate
      by_contra hdepth
      exact hstate (hdeep (by omega)).1.state_eq
    · intro hdepth
      obtain ⟨hcalled, hissued⟩ := hdeep hdepth
      obtain ⟨id, calling, method, ip, rfl⟩ := hcalled
      exact ⟨rfl, ⟨rfl, rfl⟩, hissued⟩
  · intro ctx hctx hdepth
    cases htop : m.thread.frames with
    | nil =>
      rw [Thread.depth, htop] at hdepth
      cases hdepth
    | cons f rest =>
      have hrest : limit ≤ rest.length := by
        rw [Thread.depth, htop, List.length_cons] at hdepth
        omega
      have hshallow := hbounded.shallow
      rw [htop] at hshallow
      obtain ⟨log', hrun⟩ :=
        Transition.run_of_deep hlimit hctx htop (hshallow.1 hrest).1.state_eq hrest
      exact ⟨outcome_of_error hrun, by rw [after_of_error hrun], by rw [after_of_error hrun]⟩
  · intro ctx hctx a
    obtain ⟨more, hmore⟩ := Act.Within.perform hctx a m
    exact ⟨more, h.trans hmore⟩

end Thread

namespace Interpreter

/-- An assembly that refers to a member of another one, and this other one: a poll of
its member calls the member twice and then steps the thread from inside. -/
def recursiveProgram : Program ScriptedCall :=
  [(AssemblyBuilder.new "App"
      |>.assemblyRef "Lib"
      |>.typeRef ⟨.assemblyRef, 1⟩ "Lib" "Host"
      |>.memberRef ⟨.typeRef, 1⟩ "poll" [0x00, 0x00, 0x01]).build,
    (AssemblyBuilder.new "Lib"
      |>.withNative (NativeLibrary.empty.register "Lib.Host" "poll"
        (ScriptedCall.entry [[.call 0 smallMember, .call 0 smallMember, .step]]))).build]

def recursiveContext : Context ScriptedCall :=
  context recursiveProgram { maxCallDepth := 2, maxTransitions := 8 } SignatureDecoder.standard 1

def recursiveStart : Machine ScriptedCall :=
  ⟨Thread.new 1, Domain.empty 64 (some Loader.deferred), Log.empty .error⟩

/-- The member was called and waits for its assembly, which then was loaded. -/
def recursiveLoaded : Machine ScriptedCall :=
  let called := after (HostAction.perform recursiveProgram (.call 0 smallMember)) recursiveStart
  let waiting := after (Transition.run recursiveContext) called
  after (HostAction.perform recursiveProgram (.domain (.settle 0 (.loaded 1)))) waiting

/-- The thread was stepped once more. -/
def recursiveDeep : Machine ScriptedCall :=
  after (ThreadAction.perform recursiveContext .step) recursiveLoaded

theorem recursiveLoaded_lives : Lives 2 recursiveStart [1] recursiveLoaded := by
  let called := after (HostAction.perform recursiveProgram (.call 0 smallMember)) recursiveStart
  have hcalled : Lives 2 recursiveStart [] called := (Lives.still _).host _ _
  have hwaiting := hcalled.engine recursiveContext rfl rfl (by decide) (by decide)
  have hissuer : issuer called (after (Transition.run recursiveContext) called) = [1] := by
    decide +kernel
  rw [hissuer] at hwaiting
  exact hwaiting.host recursiveProgram (.domain (.settle 0 (.loaded 1)))

end Interpreter

open Interpreter

/-- A poll puts two frames on top of one that has requested a load, under a limit of two. -/
theorem Thread.depth_bounded_under_poll :
    recursiveDeep.thread.frames.map (fun f => (f.id, f.state)) =
        [(3, .resolve), (2, .resolve), (1, .nativeExec)] ∧
      ∃ issuers, 1 ∈ issuers ∧ Lives 2 recursiveStart issuers recursiveDeep ∧
        (∀ above f below, recursiveDeep.thread.frames = above ++ f :: below →
          (f.state ≠ .resolve → below.length + 1 ≤ 2) ∧
          (2 < below.length + 1 → f.state = .resolve ∧ f.Empty ∧ f.id ∉ issuers)) ∧
        outcome (Transition.run recursiveContext) recursiveDeep =
          .error (.callDepthExceeded 3 2) := by
  have hframes : recursiveDeep.thread.frames.map (fun f => (f.id, f.state)) =
      [(3, .resolve), (2, .resolve), (1, .nativeExec)] := by
    decide +kernel
  have hdepth : recursiveDeep.thread.depth = 3 := by
    have hlength := congrArg List.length hframes
    rwa [List.length_map] at hlength
  have hctx : recursiveContext.Within 2 :=
    context_within recursiveProgram { maxCallDepth := 2, maxTransitions := 8 }
      SignatureDecoder.standard 1
  obtain ⟨-, -, hnext⟩ := depth_bounded (by decide) recursiveLoaded_lives
  obtain ⟨more, hlives⟩ : ∃ more, Lives 2 recursiveStart (more ++ [1]) recursiveDeep :=
    hnext recursiveContext hctx .step
  obtain ⟨hbounded, hrefused, -⟩ := depth_bounded (by decide) hlives
  refine ⟨hframes, more ++ [1], by simp, hlives, hbounded, ?_⟩
  rw [(hrefused recursiveContext hctx.limit_eq (by omega)).1, hdepth]

end ManagedCalls
