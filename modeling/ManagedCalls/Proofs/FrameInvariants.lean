import ManagedCalls.Proofs.InterpreterDiscipline
import ManagedCalls.Proofs.Materialization
import ManagedCalls.Proofs.ThreadActions
import Mathlib.Logic.Relation

/-!
The life of frames. In each phase a frame has what the phase needs and nothing
that only a later one makes. A transition moves the topmost frame along an edge
between phases or leaves it where it is, and touches no frame below. Frames are
numbered in the order of their calls, so numbers rise towards the top and no
number comes back.
-/

namespace ManagedCalls

open Stateful

variable {κ : Type}

namespace Frame

def Empty (f : Frame κ) : Prop := f.arguments = [] ∧ f.locals = []

/-- What a frame has in its phase. -/
def WellFormed (f : Frame κ) : Prop :=
  match f.state with
  | .resolve =>
    f.executing = none ∧ f.body = none ∧ f.target = none ∧ f.signature = none ∧ f.Empty ∧
      f.nativeCall = none
  | .awaitAssembly _ => f.target.isSome ∧ f.executing = none ∧ f.Empty
  | .assemblyResolved => f.target.isSome ∧ f.executing.isSome ∧ f.Empty
  | .bodySetup => f.body.isSome ∧ f.executing = some f.calling ∧ f.Empty
  | .nativeExec => f.target.isSome ∧ f.signature.isSome ∧ f.nativeCall.isSome ∧ f.Empty
  | .interpretedExec =>
    f.body.isSome ∧ ∃ signature, f.signature = some signature ∧
      f.arguments.length = signature.argumentCount ∧
      f.locals.length = (f.localsSig.getD []).length
  | .teardown => True

theorem Called.wellFormed {f : Frame κ} (h : f.Called) : f.WellFormed := by
  obtain ⟨id, calling, method, ip, rfl⟩ := h
  exact ⟨rfl, rfl, rfl, rfl, ⟨rfl, rfl⟩, rfl⟩

theorem Touched.state_eq {f g : Frame κ} (h : f.Touched g) (hf : f.state ≠ .interpretedExec) :
    g.state = f.state := by
  rcases h.state with hg | ⟨hexec, -⟩
  · exact hg
  · exact absurd hexec hf

theorem Touched.empty {f g : Frame κ} (h : f.Touched g) (hf : f.Empty) : g.Empty := by
  have harguments := h.count .argument
  have hlocals := h.count .localVar
  rw [slots, slots, hf.1] at harguments
  rw [slots, slots, hf.2] at hlocals
  exact ⟨List.length_eq_zero_iff.mp harguments, List.length_eq_zero_iff.mp hlocals⟩

/-- What a frame has does not depend on what a host can change, once the slots
keep their number. -/
theorem Touched.wellFormed {f g : Frame κ} (h : f.Touched g) (hf : f.WellFormed) :
    g.WellFormed := by
  have harguments : g.arguments.length = f.arguments.length := h.count .argument
  have hlocals : g.locals.length = f.locals.length := h.count .localVar
  have hempty := h.empty
  obtain ⟨state, ip, arguments, locals, rfl⟩ :
      ∃ state ip arguments locals, g = { f with state, ip, arguments, locals } :=
    ⟨_, _, _, _, h.same⟩
  rcases h.state with hstate | ⟨-, hstate⟩
  · obtain rfl : state = f.state := hstate
    unfold WellFormed at hf ⊢
    cases hphase : f.state with
    | resolve =>
      rw [hphase] at hf
      obtain ⟨hexecuting, hbody, htarget, hsignature, hslots, hcall⟩ := hf
      exact ⟨hexecuting, hbody, htarget, hsignature, hempty hslots, hcall⟩
    | awaitAssembly ticket =>
      rw [hphase] at hf
      exact ⟨hf.1, hf.2.1, hempty hf.2.2⟩
    | assemblyResolved =>
      rw [hphase] at hf
      exact ⟨hf.1, hf.2.1, hempty hf.2.2⟩
    | bodySetup =>
      rw [hphase] at hf
      exact ⟨hf.1, hf.2.1, hempty hf.2.2⟩
    | nativeExec =>
      rw [hphase] at hf
      exact ⟨hf.1, hf.2.1, hf.2.2.1, hempty hf.2.2.2⟩
    | interpretedExec =>
      rw [hphase] at hf
      obtain ⟨hbody, signature, hsignature, hcount, hlocalCount⟩ := hf
      exact ⟨hbody, signature, hsignature, harguments.trans hcount, hlocals.trans hlocalCount⟩
    | teardown => trivial
  · obtain rfl : state = .teardown := hstate
    trivial

end Frame

/-- The edges between phases. A frame in teardown has none: it is taken off. -/
inductive FrameState.Edge : FrameState → FrameState → Prop
  | hasBody : Edge .resolve .bodySetup
  | waits (ticket : Nat) : Edge .resolve (.awaitAssembly ticket)
  | isLoaded : Edge .resolve .assemblyResolved
  | resumes (ticket : Nat) : Edge (.awaitAssembly ticket) .assemblyResolved
  | binds : Edge .assemblyResolved .nativeExec
  | activates : Edge .bodySetup .interpretedExec
  | completes : Edge .nativeExec .teardown
  | returns : Edge .interpretedExec .teardown

/-- What a frame is called with, and keeps. -/
structure Activation where
  id : Nat
  calling : Nat
  method : Token
  deriving DecidableEq

def Frame.activation (f : Frame κ) : Activation := ⟨f.id, f.calling, f.method⟩

/-- The same activation, in the same phase or one edge further. -/
structure Frame.Advances (f g : Frame κ) : Prop where
  same : g.activation = f.activation
  state : g.state = f.state ∨ f.state.Edge g.state

theorem Frame.Touched.advances {f g : Frame κ} (h : f.Touched g) : f.Advances g where
  same := by
    rw [h.same]
    rfl
  state := by
    rcases h.state with hstate | ⟨hf, hg⟩
    · exact Or.inl hstate
    · rw [hf, hg]
      exact Or.inr .returns

/-- Frames that were called while the next number rose from `first` to `next`. -/
structure CalledFrames (first next : Nat) (new : List (Frame κ)) : Prop where
  called : ∀ f ∈ new, f.Called
  ge : ∀ f ∈ new, first ≤ f.id
  lt : ∀ f ∈ new, f.id < next
  sorted : new.Pairwise fun f g => g.id < f.id

theorem CalledFrames.nil (first next : Nat) : CalledFrames first next ([] : List (Frame κ)) where
  called := by simp
  ge := by simp
  lt := by simp
  sorted := List.Pairwise.nil

/-- What one transition does to the frames of a thread: the topmost frame
advances, with callees on top only if a host was at work, or it leaves. -/
inductive Thread.Moves (t t' : Thread κ) : Prop
  | idle (hframes : t.frames = []) (h : t' = t)
  | advanced {f g : Frame κ} {rest new : List (Frame κ)} (htop : t.frames = f :: rest)
      (hframes : t'.frames = new ++ g :: rest) (hnext : t.nextFrame ≤ t'.nextFrame)
      (h : f.Advances g) (hwf : f.WellFormed → g.WellFormed)
      (hnew : CalledFrames t.nextFrame t'.nextFrame new)
      (hhost : new = [] ∨ f.state = .nativeExec ∨ f.state = .interpretedExec)
  | left {f : Frame κ} {rest : List (Frame κ)} (htop : t.frames = f :: rest)
      (hstate : f.state = .teardown) (hframes : t'.frames = rest)
      (hnext : t'.nextFrame = t.nextFrame)

/-- A host leaves the frame it worked on, with callees on top. -/
theorem Thread.Grows.top {t t' : Thread κ} (h : t.Grows t') {f : Frame κ}
    {rest : List (Frame κ)} (htop : t.frames = f :: rest) :
    ∃ new g, t'.frames = new ++ g :: rest ∧ f.Touched g ∧
      CalledFrames t.nextFrame t'.nextFrame new := by
  obtain ⟨new, base, hframes, htouched, hnew, hsorted⟩ := h.frames_eq
  rw [htop] at htouched
  cases htouched with
  | @top _ g _ hfg =>
    refine ⟨new, g, hframes, hfg, ?_, ?_, ?_, hsorted⟩
    · exact fun f hf => (hnew f hf).1
    · exact fun f hf => (hnew f hf).2.1
    · exact fun f hf => (hnew f hf).2.2

namespace Transition

/-- A transition without a host gives the topmost frame's successor in its place. -/
theorem moves_of_engine {t t' : Thread κ} {f g : Frame κ} {rest : List (Frame κ)}
    (htop : t.frames = f :: rest) (hframes : t'.frames = g :: rest)
    (hnext : t'.nextFrame = t.nextFrame) (h : f.Advances g)
    (hwf : f.WellFormed → g.WellFormed) : t.Moves t' :=
  .advanced htop hframes (Nat.le_of_eq hnext.symm) h hwf (.nil _ _) (Or.inl rfl)

theorem moves_of_unchanged (t : Thread κ) : t.Moves t := by
  cases hframes : t.frames with
  | nil => exact .idle hframes rfl
  | cons f rest =>
    exact moves_of_engine hframes hframes rfl (Frame.Touched.refl f).advances id

theorem polledState_cases (state : FrameState) (status : Except Fault NativeStatus) :
    polledState state status = state ∨ polledState state status = .teardown := by
  match status with
  | .ok .complete => exact Or.inr rfl
  | .ok .pending => exact Or.inl rfl
  | .error e => exact Or.inl rfl

/-- A poll comes to actions on the thread without the call; then the call goes back
to its frame, which may be done. -/
theorem pollCall_cases {ctx : Context κ} (hctx : ctx.Disciplined) {start : Machine κ}
    {f : Frame κ} {rest : List (Frame κ)} {call call' : NativeCall κ}
    {status : Except Fault NativeStatus} {m : Machine κ} (htop : start.thread.frames = f :: rest)
    (hstate : f.state = .nativeExec) (hpoll : pollCall ctx call start = .ok (status, call') m) :
    ∃ actions new g, m = HostAction.performAll ctx.program actions start ∧
      start.thread.nextFrame ≤ m.thread.nextFrame ∧
      CalledFrames start.thread.nextFrame m.thread.nextFrame new ∧ f.Touched g ∧
      m.thread.frames = new ++ g :: rest ∧
      (after (settlePoll rest.length call' status) m).thread =
        { m.thread with
          frames := new ++
            { g with nativeCall := some call', state := polledState .nativeExec status } ::
              rest } := by
  obtain ⟨actions, rfl⟩ := pollCall_actions hctx call start hpoll
  have hgrows := HostAction.performAll_grows ctx.program actions start
  obtain ⟨new, g, hframes, htouched, hnew⟩ := hgrows.top htop
  have hg : g.state = .nativeExec := (htouched.state_eq (by simp [hstate])).trans hstate
  have hsettled := settlePoll_frames hframes call' status
  rw [hg] at hsettled
  exact ⟨actions, new, g, rfl, hgrows.nextFrame_le, hnew, htouched, hframes, hsettled⟩

/-- A frame that was without its call for the time of a poll has it back. -/
theorem polled_wellFormed {f g : Frame κ} (hstate : f.state = .nativeExec) (hf : f.WellFormed)
    (h : Frame.Touched { f with nativeCall := none } g) (call : NativeCall κ)
    (status : Except Fault NativeStatus) :
    Frame.WellFormed
      { g with nativeCall := some call, state := polledState .nativeExec status } := by
  rw [Frame.WellFormed, hstate] at hf
  obtain ⟨htarget, hsignature, -, hslots⟩ := hf
  have hempty := h.empty hslots
  have hgtarget : g.target = f.target := by rw [h.same]
  have hgsignature : g.signature = f.signature := by rw [h.same]
  rcases polledState_cases .nativeExec status with hpolled | hpolled
  · rw [hpolled]
    exact ⟨hgtarget ▸ htarget, hgsignature ▸ hsignature, rfl, hempty⟩
  · rw [hpolled]
    trivial

theorem Rule.moves {ctx : Context κ} (hctx : ctx.Disciplined) {t t' : Thread κ} {d d' : Domain}
    {r : Except Fault Tick} (h : Rule ctx t d r t' d') : t.Moves t' := by
  cases h with
  | noFrame | unresolved | outstanding | loadFailed | unbound | unready | rolledBack
    | callMissing => exact moves_of_unchanged t
  | @foundBody f rest body htop hstate hbody =>
    refine moves_of_engine htop rfl rfl ⟨rfl, Or.inr (hstate ▸ .hasBody)⟩ ?_
    intro hf
    rw [Frame.WellFormed, hstate] at hf
    exact ⟨rfl, rfl, hf.2.2.2.2.1⟩
  | @foundMember f rest row target resolution d' events htop hstate htarget hresolve =>
    cases resolution with
    | loaded assembly =>
      refine moves_of_engine htop rfl rfl ⟨rfl, Or.inr (hstate ▸ .isLoaded)⟩ ?_
      intro hf
      rw [Frame.WellFormed, hstate] at hf
      exact ⟨rfl, rfl, hf.2.2.2.2.1⟩
    | pending ticket =>
      refine moves_of_engine htop rfl rfl ⟨rfl, Or.inr (hstate ▸ .waits ticket)⟩ ?_
      intro hf
      rw [Frame.WellFormed, hstate] at hf
      exact ⟨rfl, hf.1, hf.2.2.2.2.1⟩
  | @collected f rest ticket assembly htop hstate hfinish =>
    refine moves_of_engine htop rfl rfl ⟨rfl, Or.inr (hstate ▸ .resumes ticket)⟩ ?_
    intro hf
    rw [Frame.WellFormed, hstate] at hf
    exact ⟨hf.1, rfl, hf.2.2⟩
  | @bound f rest target signature call htop hstate htarget hsignature =>
    refine moves_of_engine htop rfl rfl ⟨rfl, Or.inr (hstate ▸ .binds)⟩ ?_
    intro hf
    rw [Frame.WellFormed, hstate] at hf
    exact ⟨hf.1, rfl, rfl, hf.2.2⟩
  | @activated f rest body signature locals vs t' arguments slots p htop hstate hbody hsignature
      hpop hmade =>
    obtain ⟨hcount, rfl⟩ := Thread.popValues_eq hpop
    have hmakes := materializeFrame_makes signature (locals.getD []) body.initLocals vs d.pool
    rw [hmade] at hmakes
    obtain ⟨-, harguments, hslots⟩ := hmakes
    refine moves_of_engine htop rfl rfl ⟨rfl, Or.inr (hstate ▸ .activates)⟩ ?_
    intro _
    exact ⟨by rw [hbody]; rfl, signature, rfl, harguments.trans hcount, hslots⟩
  | @polled f rest call call' log status m htop hstate hcall hpoll =>
    obtain ⟨actions, new, g, -, hnext, hnew, htouched, -, hsettled⟩ :=
      pollCall_cases (f := { f with nativeCall := none }) hctx rfl hstate hpoll
    rw [hsettled]
    refine .advanced htop rfl hnext ⟨htouched.advances.same, ?_⟩ ?_ hnew (Or.inr (Or.inl hstate))
    · rw [hstate]
      rcases polledState_cases .nativeExec status with hpolled | hpolled
      · exact Or.inl hpolled
      · rw [hpolled]
        exact Or.inr .completes
    · intro hf
      exact polled_wellFormed hstate hf htouched call' status
  | @executed f rest log htop hstate =>
    obtain ⟨actions, hactions⟩ := hctx.execute ⟨t, d, log⟩
    have hgrows := HostAction.performAll_grows ctx.program actions ⟨t, d, log⟩
    rw [← hactions] at hgrows
    obtain ⟨new, g, hframes, htouched, hnew⟩ := hgrows.top htop
    exact .advanced htop hframes hgrows.nextFrame_le htouched.advances htouched.wellFormed hnew
      (Or.inr (Or.inr hstate))
  | @tornDown f rest htop hstate hrelease => exact .left htop hstate rfl rfl
  | @unreleased f rest e htop hstate hrelease =>
    refine moves_of_engine htop rfl rfl ⟨rfl, Or.inl rfl⟩ ?_
    intro _
    rw [Frame.WellFormed, show f.drained.state = .teardown from hstate]
    trivial

end Transition

namespace Thread

structure WellFormed (t : Thread κ) : Prop where
  frames : ∀ f ∈ t.frames, f.WellFormed
  sorted : t.frames.Pairwise fun f g => g.id < f.id
  below : ∀ f ∈ t.frames, f.id < t.nextFrame

theorem WellFormed.new (id : Nat) : (Thread.new id : Thread κ).WellFormed where
  frames := by simp [Thread.new]
  sorted := List.Pairwise.nil
  below := by simp [Thread.new]

/-- What one action does to the frames: some are gone, the others are the same
activations, and frames that were just called come on top. -/
structure Evolves (t t' : Thread κ) : Prop where
  nextFrame_le : t.nextFrame ≤ t'.nextFrame
  frames_eq : ∃ new old, t'.frames = new ++ old ∧
    CalledFrames t.nextFrame t'.nextFrame new ∧
    (old.map Frame.activation).Sublist (t.frames.map Frame.activation) ∧
    ((∀ f ∈ t.frames, f.WellFormed) → ∀ g ∈ old, g.WellFormed)

namespace Evolves

/-- Frames may go, from wherever they are. -/
theorem of_sublist {t t' : Thread κ} (hframes : t'.frames.Sublist t.frames)
    (hnext : t'.nextFrame = t.nextFrame) : t.Evolves t' :=
  ⟨Nat.le_of_eq hnext.symm, [], t'.frames, rfl, .nil _ _, hframes.map _,
    fun hwf g hg => hwf g (hframes.subset hg)⟩

theorem of_top {t t' : Thread κ} {f g : Frame κ} {rest new : List (Frame κ)}
    (htop : t.frames = f :: rest) (hframes : t'.frames = new ++ g :: rest)
    (hnext : t.nextFrame ≤ t'.nextFrame) (hsame : g.activation = f.activation)
    (hwf : f.WellFormed → g.WellFormed) (hnew : CalledFrames t.nextFrame t'.nextFrame new) :
    t.Evolves t' := by
  refine ⟨hnext, new, g :: rest, hframes, hnew, ?_, ?_⟩
  · rw [htop, List.map_cons, List.map_cons, hsame]
  · intro hall k hk
    rw [htop] at hall
    rcases List.mem_cons.mp hk with rfl | hk
    · exact hwf (hall f List.mem_cons_self)
    · exact hall k (List.mem_cons_of_mem _ hk)

theorem of_moves {t t' : Thread κ} (h : t.Moves t') : t.Evolves t' := by
  cases h with
  | idle hframes h => exact of_sublist (by rw [h]) (by rw [h])
  | advanced htop hframes hnext h hwf hnew hhost => exact of_top htop hframes hnext h.same hwf hnew
  | left htop hstate hframes hnext =>
    refine of_sublist ?_ hnext
    rw [hframes, htop]
    exact List.sublist_cons_self _ _

theorem of_rule {program : Program κ} {t t' : Thread κ} {d d' : Domain}
    (h : HostAction.Rule program t d t' d') : t.Evolves t' := by
  cases h with
  | operands values => exact of_sublist (List.Sublist.refl _) rfl
  | asked a => exact of_sublist (List.Sublist.refl _) rfl
  | touched htop h | stored htop h =>
    exact of_top htop (List.nil_append _).symm (Nat.le_refl _) h.advances.same h.wellFormed
      (.nil _ _)
  | called assembly method =>
    refine ⟨Nat.le_succ _, [{ id := t.nextFrame, calling := assembly, method }], t.frames, rfl,
      ⟨?_, ?_, ?_, List.pairwise_singleton _ _⟩, List.Sublist.refl _, fun hwf => hwf⟩
    · simp [Frame.Called]
    · simp
    · simp [Thread.call]

theorem wellFormed {t t' : Thread κ} (h : t.Evolves t') (ht : t.WellFormed) : t'.WellFormed := by
  obtain ⟨new, old, hframes, hnew, hold, hwf⟩ := h.frames_eq
  have hle := h.nextFrame_le
  have hids : (old.map Frame.id).Sublist (t.frames.map Frame.id) := by
    have hmap := hold.map Activation.id
    rwa [List.map_map, List.map_map] at hmap
  have hbelow : ∀ g ∈ old, g.id < t.nextFrame := by
    intro g hg
    obtain ⟨f, hf, hid⟩ := List.mem_map.mp (hids.subset (List.mem_map_of_mem hg))
    exact hid ▸ ht.below f hf
  have hsorted : old.Pairwise fun f g => g.id < f.id := by
    have hall : (t.frames.map Frame.id).Pairwise fun m n => n < m :=
      List.pairwise_map.mpr ht.sorted
    exact List.pairwise_map.mp (hall.sublist hids)
  constructor
  · intro f hf
    rw [hframes] at hf
    rcases List.mem_append.mp hf with hf | hf
    · exact (hnew.called f hf).wellFormed
    · exact hwf ht.frames f hf
  · rw [hframes]
    refine List.pairwise_append.mpr ⟨hnew.sorted, hsorted, ?_⟩
    intro f hf g hg
    have hge := hnew.ge f hf
    have hlt := hbelow g hg
    omega
  · intro f hf
    rw [hframes] at hf
    rcases List.mem_append.mp hf with hf | hf
    · exact hnew.lt f hf
    · have hlt := hbelow f hf
      omega

end Evolves

/-- The frames of a later thread with numbers below the next one of an earlier
thread were all there before. -/
structure Precedes (t t' : Thread κ) : Prop where
  nextFrame_le : t.nextFrame ≤ t'.nextFrame
  origin : ∀ g ∈ t'.frames, t.nextFrame ≤ g.id ∨ g.activation ∈ t.frames.map Frame.activation

theorem Precedes.refl (t : Thread κ) : t.Precedes t :=
  ⟨Nat.le_refl _, fun _ hg => Or.inr (List.mem_map_of_mem hg)⟩

theorem Precedes.evolves {t t' t'' : Thread κ} (h : t.Precedes t') (h' : t'.Evolves t'') :
    t.Precedes t'' := by
  have hle := h.nextFrame_le
  obtain ⟨new, old, hframes, hnew, hold, -⟩ := h'.frames_eq
  refine ⟨Nat.le_trans hle h'.nextFrame_le, ?_⟩
  intro g hg
  rw [hframes] at hg
  rcases List.mem_append.mp hg with hg | hg
  · have hge := hnew.ge g hg
    exact Or.inl (by omega)
  · obtain ⟨f, hf, hsame⟩ := List.mem_map.mp (hold.subset (List.mem_map_of_mem hg))
    have hid : f.id = g.id := congrArg Activation.id hsame
    rw [← hsame, ← hid]
    exact h.origin f hf

/-- One action on a thread, whatever the domain and the log are by then. -/
def Acted (ctx : Context κ) (t t' : Thread κ) : Prop :=
  ∃ (a : ThreadAction) (d : Domain) (log : Log), t' = (after (a.perform ctx) ⟨t, d, log⟩).thread

/-- Any number of actions, with anything happening to the domain in between. -/
def Life (ctx : Context κ) : Thread κ → Thread κ → Prop := Relation.ReflTransGen (Acted ctx)

theorem kept_of_evolves {ctx : Context κ} (hctx : ctx.Disciplined) {I : Thread κ → Prop}
    (hI : ∀ {t t' : Thread κ}, t.Evolves t' → I t → I t') : Kept ctx fun t _ => I t where
  host := fun hrule => hI (.of_rule hrule)
  transition := fun hrule => hI (.of_moves (hrule.moves hctx))
  abandon := hI (.of_sublist (List.nil_sublist _) rfl)

namespace Life

theorem kept {ctx : Context κ} (hctx : ctx.Disciplined) {I : Thread κ → Prop}
    (hI : ∀ {t t' : Thread κ}, t.Evolves t' → I t → I t') {t t' : Thread κ} (h : Life ctx t t')
    (ht : I t) : I t' := by
  induction h with
  | refl => exact ht
  | tail _ hacted ih =>
    obtain ⟨a, d, log, rfl⟩ := hacted
    exact (kept_of_evolves hctx hI).perform a ih

theorem precedes {ctx : Context κ} (hctx : ctx.Disciplined) {t t' : Thread κ}
    (h : Life ctx t t') : t.Precedes t' :=
  h.kept hctx (fun hevolves hprecedes => hprecedes.evolves hevolves) (.refl t)

theorem of_performAll (ctx : Context κ) (actions : List ThreadAction) (m : Machine κ) :
    Life ctx m.thread (ThreadAction.performAll ctx actions m).thread := by
  induction actions generalizing m with
  | nil => exact .refl
  | cons a rest ih => exact .head ⟨a, m.domain, m.log, rfl⟩ (ih _)

end Life

/-- Frames with one number are one frame. -/
theorem WellFormed.eq_of_id {t : Thread κ} (h : t.WellFormed) {f g : Frame κ}
    (hf : f ∈ t.frames) (hg : g ∈ t.frames) (hid : f.id = g.id) : f = g := by
  have hnodup : (t.frames.map Frame.id).Nodup := by
    refine List.pairwise_map.mpr (h.sorted.imp ?_)
    intro a b hlt
    omega
  exact List.inj_on_of_nodup_map hnodup hf hg hid

/-- At every moment of a thread's life its frames have what their phases need and
are numbered from the bottom to the top. A number that is on the stack at two
moments is that of one activation, which was there all the time between. The
next transition moves the topmost frame along an edge at most. -/
theorem frames_over_life {ctx : Context κ} (hctx : ctx.Disciplined) {id : Nat} {t : Thread κ}
    (ht : Life ctx (Thread.new id) t) :
    t.WellFormed ∧
      (∀ t₁ t₂, Life ctx t t₁ → Life ctx t₁ t₂ → ∀ f ∈ t.frames, ∀ g ∈ t₂.frames, g.id = f.id →
        g.activation = f.activation ∧ f.activation ∈ t₁.frames.map Frame.activation) ∧
      ∀ d log, t.Moves (after (Transition.run ctx) ⟨t, d, log⟩).thread := by
  have hwf : t.WellFormed := ht.kept hctx (fun hevolves h => hevolves.wellFormed h) (.new id)
  refine ⟨hwf, ?_, ?_⟩
  · intro t₁ t₂ h₁ h₂ f hf g hg hid
    have hprecedes₁ := h₁.precedes hctx
    have hprecedes₂ := h₂.precedes hctx
    have hlt := hwf.below f hf
    have hle := hprecedes₁.nextFrame_le
    rcases hprecedes₂.origin g hg with hge | hmem
    · omega
    · obtain ⟨k, hk, hkg⟩ := List.mem_map.mp hmem
      have hkid : k.id = g.id := congrArg Activation.id hkg
      rcases hprecedes₁.origin k hk with hge | hmem'
      · omega
      · obtain ⟨f', hf', hfk⟩ := List.mem_map.mp hmem'
        have hfid : f'.id = k.id := congrArg Activation.id hfk
        obtain rfl : f' = f := hwf.eq_of_id hf' hf (by omega)
        have hsame : g.activation = f'.activation := hkg.symm.trans hfk.symm
        exact ⟨hsame, hsame ▸ hmem⟩
  · intro d log
    exact (Transition.run_follows ctx ⟨t, d, log⟩).moves hctx

/-- A method is interpreted and has called a member that waits to be loaded. -/
theorem frames_over_life_of_waiting_callee :
    let ctx := Interpreter.smallContext {}
    let start : Machine Empty :=
      ⟨Thread.new 1, Domain.empty 64 (some Loader.deferred), Log.empty .error⟩
    let actions : List ThreadAction :=
      [.host (.push (.int32 7)), .host (.call 0 Interpreter.smallMethod), .transition, .transition,
        .host (.call 0 Interpreter.smallMember), .transition]
    let t := (ThreadAction.performAll ctx actions start).thread
    ctx.Disciplined ∧ Life ctx (Thread.new 1) t ∧
      t.frames.map Frame.state = [.awaitAssembly 0, .interpretedExec] ∧ t.WellFormed ∧
      (∀ t₁ t₂, Life ctx t t₁ → Life ctx t₁ t₂ → ∀ f ∈ t.frames, ∀ g ∈ t₂.frames, g.id = f.id →
        g.activation = f.activation ∧ f.activation ∈ t₁.frames.map Frame.activation) ∧
      ∀ d log, t.Moves (after (Transition.run ctx) ⟨t, d, log⟩).thread := by
  intro ctx start actions t
  have hctx : ctx.Disciplined := Interpreter.plainContext_disciplined _ _ _
  have ht : Life ctx (Thread.new 1) t := Life.of_performAll ctx actions start
  have hstates : t.frames.map Frame.state = [.awaitAssembly 0, .interpretedExec] := by
    decide +kernel
  exact ⟨hctx, ht, hstates, frames_over_life hctx ht⟩

end Thread

end ManagedCalls
