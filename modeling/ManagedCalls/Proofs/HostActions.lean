import ManagedCalls.Proofs.DomainActions
import ManagedCalls.Proofs.PoolGrowth
import ManagedCalls.Proofs.TransitionRules

/-!
What a host may do to a thread while an instruction executes or a native call is
polled: work on the operand stack, call, return, write slots and the instruction
pointer of the topmost frame, and use the domain. A disciplined context does
nothing else. Whatever a host does, the frames below the topmost one stay as they
are, the topmost one keeps all but its slots, its instruction pointer and its
readiness for teardown, and only frames that were just called come on top.
-/

namespace ManagedCalls

open Stateful

variable {κ : Type}

inductive HostAction where
  | push (v : Value)
  | pop
  | popValues (count : Nat)
  | call (assembly : Nat) (method : Token)
  | ret
  | write (role : SlotRole) (index : Nat) (v : Value)
  | setIp (ip : Nat)
  | domain (a : DomainAction)
  | note (e : Event)

namespace HostAction

def perform (program : Program κ) : HostAction → Act κ Unit
  | push v => Act.push v
  | pop => modify fun m => { m with thread := m.thread.pop.2 }
  | popValues count => do
    let _ ← Act.popValues count
  | call assembly method => do
    let _ ← Act.call program assembly method
  | ret => Act.returnFromFrame
  | write role index v => Act.writeSlot role index v
  | setIp ip => do
    let frame ← Act.topFrame
    Act.setTop { frame with ip }
  | domain a => modify fun m => { m with domain := a.perform program.nameOf m.domain }
  | note e => Act.note e

/-- The machine after some actions. One that fails stops none of the others: a
host may go on after a failure or not. -/
def performAll (program : Program κ) : List HostAction → Machine κ → Machine κ
  | [], m => m
  | a :: rest, m => performAll program rest (after (a.perform program) m)

theorem performAll_append (program : Program κ) (first second : List HostAction) (m : Machine κ) :
    performAll program (first ++ second) m =
      performAll program second (performAll program first m) := by
  induction first generalizing m with
  | nil => rfl
  | cons a rest ih => exact ih _

end HostAction

/-- A computation that comes to a list of actions, whether it fails or not. The
list may be another one every time. -/
def Act.ByHost {α : Type} (program : Program κ) (x : Act κ α) : Prop :=
  ∀ m, ∃ actions, after x m = HostAction.performAll program actions m

/-- Executing an instruction and polling a call of the host come to actions. -/
structure Context.Disciplined (ctx : Context κ) : Prop where
  execute : ctx.execute.ByHost ctx.program
  poll : ∀ call m, ∃ actions,
    (ctx.poll call m).2.2 = HostAction.performAll ctx.program actions m

namespace Slot

theorem write_cases {s s' : Slot} {p p' : Pool} {v : Value} (h : s.write p v = .ok (s', p')) :
    (∀ role, s'.holding? role = s.holding? role) ∧
      (p' = p ∨ ∃ handle type, s = .pooled handle type ∧ p.store handle v = .ok p') := by
  cases s with
  | pooled handle type =>
    cases hstore : p.store handle v with
    | error e =>
      rw [write, hstore] at h
      cases h
    | ok q =>
      rw [write, hstore] at h
      obtain ⟨rfl, rfl⟩ := Prod.mk.inj (Except.ok.inj h)
      exact ⟨fun _ => rfl, Or.inr ⟨handle, type, rfl, hstore⟩⟩
  | inline old =>
    obtain ⟨rfl, rfl⟩ := Prod.mk.inj (Except.ok.inj h)
    exact ⟨fun _ => rfl, Or.inl rfl⟩
  | pending type =>
    obtain ⟨rfl, rfl⟩ := Prod.mk.inj (Except.ok.inj h)
    exact ⟨fun _ => rfl, Or.inl rfl⟩

theorem holdings_set {role : SlotRole} {ss : List Slot} {index : Nat} {s s' : Slot}
    (hs : ss[index]? = some s) (hsame : s'.holding? role = s.holding? role) :
    holdings role (ss.set index s') = holdings role ss := by
  induction ss generalizing index with
  | nil => rfl
  | cons head rest ih =>
    cases index with
    | zero =>
      obtain rfl : head = s := Option.some.inj hs
      simp [holdings, List.filterMap_cons, hsame]
    | succ n =>
      have hrest := ih hs
      simp only [holdings] at hrest
      simp [holdings, List.filterMap_cons, hrest]

end Slot

/-- What a host can make of the frame it works on. -/
structure Frame.Touched (f g : Frame κ) : Prop where
  same : g = { f with state := g.state, ip := g.ip, arguments := g.arguments, locals := g.locals }
  state : g.state = f.state ∨ f.state = .interpretedExec ∧ g.state = .teardown
  count : ∀ role, (g.slots role).length = (f.slots role).length
  holdings : ∀ role, Slot.holdings role (g.slots role) = Slot.holdings role (f.slots role)

/-- A frame that was called and not looked at by a transition yet. -/
def Frame.Called (f : Frame κ) : Prop :=
  ∃ id calling method ip, f = { id, calling, method, ip }

namespace Frame

theorem slots_congr {f g : Frame κ} (harguments : g.arguments = f.arguments)
    (hlocals : g.locals = f.locals) (role : SlotRole) : g.slots role = f.slots role := by
  cases role with
  | argument => exact harguments
  | localVar => exact hlocals

theorem Touched.of_same_slots {f g : Frame κ}
    (hsame : g =
      { f with state := g.state, ip := g.ip, arguments := g.arguments, locals := g.locals })
    (hstate : g.state = f.state ∨ f.state = .interpretedExec ∧ g.state = .teardown)
    (harguments : g.arguments = f.arguments) (hlocals : g.locals = f.locals) : f.Touched g where
  same := hsame
  state := hstate
  count := fun role => by rw [slots_congr harguments hlocals role]
  holdings := fun role => by rw [slots_congr harguments hlocals role]

theorem Touched.refl (f : Frame κ) : f.Touched f := .of_same_slots rfl (Or.inl rfl) rfl rfl

theorem Touched.trans {f g h : Frame κ} (hfg : f.Touched g) (hgh : g.Touched h) : f.Touched h where
  same := by
    rw [hgh.same, hfg.same]
  state := by
    rcases hfg.state with hg | ⟨hf, hg⟩
    · rcases hgh.state with hh | ⟨hg', hh⟩
      · exact Or.inl (hh.trans hg)
      · exact Or.inr ⟨hg ▸ hg', hh⟩
    · rcases hgh.state with hh | ⟨hg', hh⟩
      · exact Or.inr ⟨hf, hh.trans hg⟩
      · exact Or.inr ⟨hf, hh⟩
  count := fun role => (hgh.count role).trans (hfg.count role)
  holdings := fun role => (hgh.holdings role).trans (hfg.holdings role)

theorem Called.of_touched {f g : Frame κ} (hf : f.Called) (h : f.Touched g) : g.Called := by
  obtain ⟨id, calling, method, ip, rfl⟩ := hf
  have hstate : g.state = .resolve := by
    rcases h.state with hg | ⟨hf, -⟩
    · exact hg
    · cases hf
  have harguments : g.arguments = [] := List.length_eq_zero_iff.mp (h.count .argument)
  have hlocals : g.locals = [] := List.length_eq_zero_iff.mp (h.count .localVar)
  refine ⟨id, calling, method, g.ip, ?_⟩
  rw [h.same, hstate, harguments, hlocals]

theorem Touched.of_withSlots (f : Frame κ) {role : SlotRole} {ss : List Slot}
    (hcount : ss.length = (f.slots role).length)
    (hholdings : Slot.holdings role ss = Slot.holdings role (f.slots role)) :
    f.Touched (f.withSlots role ss) where
  same := by
    cases role with
    | argument => rfl
    | localVar => rfl
  state := by
    cases role with
    | argument => exact Or.inl rfl
    | localVar => exact Or.inl rfl
  count := by
    intro role'
    cases role with
    | argument =>
      cases role' with
      | argument => exact hcount
      | localVar => rfl
    | localVar =>
      cases role' with
      | argument => rfl
      | localVar => exact hcount
  holdings := by
    intro role'
    cases role with
    | argument =>
      cases role' with
      | argument => exact hholdings
      | localVar => rfl
    | localVar =>
      cases role' with
      | argument => rfl
      | localVar => exact hholdings

/-- A write keeps what every slot owns. The pool changes only where a slot of the
frame keeps its value there. -/
theorem writeSlot_cases {f g : Frame κ} {p p' : Pool} {role : SlotRole} {index : Nat}
    {v : Value} (h : f.writeSlot p role index v = .ok (g, p')) :
    f.Touched g ∧ (p' = p ∨ ∃ handle type, .pooled handle type ∈ f.slots role ∧
      p.store handle v = .ok p') := by
  unfold writeSlot at h
  split at h
  · cases h
  next slot hslot =>
    cases hwrite : slot.write p v with
    | error e =>
      rw [hwrite] at h
      cases h
    | ok written =>
      obtain ⟨slot', q⟩ := written
      rw [hwrite] at h
      obtain ⟨rfl, rfl⟩ := Prod.mk.inj (Except.ok.inj h)
      obtain ⟨howner, hpool⟩ := Slot.write_cases hwrite
      have htouched := Touched.of_withSlots f (List.length_set ..)
        (Slot.holdings_set hslot (howner role))
      refine ⟨htouched, ?_⟩
      rcases hpool with rfl | ⟨handle, type, rfl, hstore⟩
      · exact Or.inl rfl
      · exact Or.inr ⟨handle, type, List.mem_of_getElem? hslot, hstore⟩

end Frame

/-- The frames are the same but for the topmost one, which a host has worked on. -/
inductive TopTouched : List (Frame κ) → List (Frame κ) → Prop
  | none : TopTouched [] []
  | top {f g : Frame κ} (rest : List (Frame κ)) (h : f.Touched g) :
      TopTouched (f :: rest) (g :: rest)

theorem TopTouched.refl (fs : List (Frame κ)) : TopTouched fs fs := by
  cases fs with
  | nil => exact .none
  | cons f rest => exact .top rest (Frame.Touched.refl f)

theorem TopTouched.trans {fs gs hs : List (Frame κ)} (h : TopTouched fs gs)
    (h' : TopTouched gs hs) : TopTouched fs hs := by
  cases h with
  | none => exact h'
  | top rest hfg =>
    cases h' with
    | top _ hgh => exact .top rest (hfg.trans hgh)

/-- A thread after a host worked on it: called frames on top of touched ones. -/
structure Thread.Grows (t t' : Thread κ) : Prop where
  id_eq : t'.id = t.id
  nextFrame_le : t.nextFrame ≤ t'.nextFrame
  frames_eq : ∃ new base, t'.frames = new ++ base ∧ TopTouched t.frames base ∧
    (∀ f ∈ new, f.Called ∧ t.nextFrame ≤ f.id ∧ f.id < t'.nextFrame) ∧
    new.Pairwise fun f g => g.id < f.id

namespace Thread.Grows

theorem of_frames_eq {t t' : Thread κ} (hid : t'.id = t.id)
    (hframes : TopTouched t.frames t'.frames) (hnext : t'.nextFrame = t.nextFrame) : t.Grows t' :=
  ⟨hid, hnext ▸ Nat.le_refl _, [], t'.frames, rfl, hframes, by simp, List.Pairwise.nil⟩

theorem refl (t : Thread κ) : t.Grows t := of_frames_eq rfl (TopTouched.refl _) rfl

theorem trans {t t' t'' : Thread κ} (h : t.Grows t') (h' : t'.Grows t'') : t.Grows t'' := by
  obtain ⟨new, base, hframes, htouched, hnew, hsorted⟩ := h.frames_eq
  obtain ⟨new', base', hframes', htouched', hnew', hsorted'⟩ := h'.frames_eq
  have hle := h.nextFrame_le
  have hle' := h'.nextFrame_le
  refine ⟨h'.id_eq.trans h.id_eq, Nat.le_trans hle hle', ?_⟩
  cases new with
  | nil =>
    -- nothing was called in between, so the topmost frame is the same one
    rw [hframes, List.nil_append] at htouched'
    refine ⟨new', base', hframes', htouched.trans htouched', ?_, hsorted'⟩
    intro f hf
    obtain ⟨hcalled, hge, hlt⟩ := hnew' f hf
    exact ⟨hcalled, by omega, hlt⟩
  | cons g new =>
    rw [hframes, List.cons_append] at htouched'
    cases htouched' with
    | @top _ k _ hgk =>
      obtain ⟨hg, hgge, hglt⟩ := hnew g List.mem_cons_self
      have hkid : k.id = g.id := by rw [hgk.same]
      have hbelow := (List.pairwise_cons.mp hsorted).1
      refine ⟨new' ++ k :: new, base, by rw [hframes', List.append_assoc]; rfl, htouched, ?_, ?_⟩
      · intro f hf
        rcases List.mem_append.mp hf with hf | hf
        · obtain ⟨hcalled, hge, hlt⟩ := hnew' f hf
          exact ⟨hcalled, by omega, hlt⟩
        · rcases List.mem_cons.mp hf with rfl | hf
          · exact ⟨hg.of_touched hgk, by omega, by omega⟩
          · obtain ⟨hcalled, hge, hlt⟩ := hnew f (List.mem_cons_of_mem _ hf)
            exact ⟨hcalled, hge, by omega⟩
      · refine List.pairwise_append.mpr ⟨hsorted', ?_, ?_⟩
        · refine List.pairwise_cons.mpr ⟨?_, (List.pairwise_cons.mp hsorted).2⟩
          intro f hf
          have := hbelow f hf
          omega
        · intro f hf f' hf'
          obtain ⟨-, hge, -⟩ := hnew' f hf
          rcases List.mem_cons.mp hf' with rfl | hf'
          · omega
          · obtain ⟨-, -, hlt⟩ := hnew f' (List.mem_cons_of_mem _ hf')
            omega

theorem of_call (t : Thread κ) (assembly : Nat) (method : Token) :
    t.Grows (t.call assembly method) where
  id_eq := rfl
  nextFrame_le := Nat.le_succ _
  frames_eq := by
    refine ⟨[{ id := t.nextFrame, calling := assembly, method }], t.frames, rfl,
      TopTouched.refl _, ?_, List.pairwise_singleton _ _⟩
    intro f hf
    obtain rfl := List.mem_singleton.mp hf
    exact ⟨⟨_, _, _, _, rfl⟩, Nat.le_refl _, Nat.lt_succ_self _⟩

end Thread.Grows

namespace HostAction

/-- What one action can do to the thread and to the domain. -/
inductive Rule (program : Program κ) (t : Thread κ) (d : Domain) : Thread κ → Domain → Prop
  | operands (values : List Value) : Rule program t d { t with operands := values } d
  | called (assembly : Nat) (method : Token) : Rule program t d (t.call assembly method) d
  | touched {f g : Frame κ} {rest : List (Frame κ)} (htop : t.frames = f :: rest)
      (h : f.Touched g) : Rule program t d { t with frames := g :: rest } d
  | stored {f g : Frame κ} {rest : List (Frame κ)} {role : SlotRole} {handle : Nat}
      {type : TypeSig} {v : Value} {p : Pool} (htop : t.frames = f :: rest) (h : f.Touched g)
      (hslot : .pooled handle type ∈ f.slots role) (hstore : d.pool.store handle v = .ok p) :
      Rule program t d { t with frames := g :: rest } { d with pool := p }
  | asked (a : DomainAction) : Rule program t d t (a.perform program.nameOf d)

theorem perform_rule (program : Program κ) (a : HostAction) (m : Machine κ) :
    Rule program m.thread m.domain (after (a.perform program) m).thread
      (after (a.perform program) m).domain := by
  have hidle : Rule program m.thread m.domain m.thread m.domain := .operands m.thread.operands
  cases a with
  | push v => exact .operands _
  | pop => exact .operands _
  | popValues count =>
    cases hpop : m.thread.popValues count with
    | error e => simpa [perform, after, Act.popValues, hpop] using hidle
    | ok popped =>
      obtain ⟨vs, t⟩ := popped
      have hrule : Rule program m.thread m.domain t m.domain :=
        (Thread.popValues_eq hpop).2 ▸ .operands _
      simpa [perform, after, Act.popValues, hpop, Act.setThread] using hrule
  | call assembly method => exact .called assembly method
  | ret =>
    cases htop : m.thread.frames with
    | nil =>
      simpa [perform, after, Act.returnFromFrame, Thread.returnFromFrame, Thread.top?, htop] using
        hidle
    | cons f rest =>
      by_cases hstate : f.state = .interpretedExec
      · have htouched : f.Touched { f with state := .teardown } :=
          .of_same_slots rfl (Or.inr ⟨hstate, rfl⟩) rfl rfl
        have hrule : Rule program m.thread m.domain _ _ := .touched htop htouched
        simpa [perform, after, Act.returnFromFrame, Thread.returnFromFrame, Thread.top?, htop,
          hstate, Act.setThread, Thread.setTop] using hrule
      · simpa [perform, after, Act.returnFromFrame, Thread.returnFromFrame, Thread.top?, htop,
          hstate] using hidle
  | write role index v =>
    cases htop : m.thread.frames with
    | nil => simpa [perform, after, Act.writeSlot, Act.topFrame, Thread.top?, htop] using hidle
    | cons f rest =>
      have hframe := Transition.topFrame_eq htop
      cases hwrite : f.writeSlot m.domain.pool role index v with
      | error e => simpa [perform, after, Act.writeSlot, hframe, hwrite] using hidle
      | ok written =>
        obtain ⟨g, p⟩ := written
        obtain ⟨htouched, hpool⟩ := Frame.writeSlot_cases hwrite
        have hrule : Rule program m.thread m.domain { m.thread with frames := g :: rest }
            { m.domain with pool := p } := by
          rcases hpool with rfl | ⟨handle, type, hslot, hstore⟩
          · exact .touched htop htouched
          · exact .stored htop htouched hslot hstore
        simpa [perform, after, Act.writeSlot, hframe, hwrite, Act.setTop, Act.setPool,
          Thread.setTop, htop] using hrule
  | setIp ip =>
    cases htop : m.thread.frames with
    | nil => simpa [perform, after, Act.topFrame, Thread.top?, htop] using hidle
    | cons f rest =>
      have htouched : f.Touched { f with ip } := .of_same_slots rfl (Or.inl rfl) rfl rfl
      have hrule : Rule program m.thread m.domain _ _ := .touched htop htouched
      simpa [perform, after, Transition.topFrame_eq htop, Act.setTop, Thread.setTop, htop] using
        hrule
  | domain a => exact .asked a
  | note e => exact hidle

theorem Rule.grows {program : Program κ} {t t' : Thread κ} {d d' : Domain}
    (h : Rule program t d t' d') : t.Grows t' := by
  cases h with
  | operands values => exact .of_frames_eq rfl (TopTouched.refl _) rfl
  | called assembly method => exact .of_call t assembly method
  | touched htop h => exact .of_frames_eq rfl (htop ▸ .top _ h) rfl
  | stored htop h hslot hstore => exact .of_frames_eq rfl (htop ▸ .top _ h) rfl
  | asked a => exact .refl t

/-- What every action keeps is kept by all of them together. -/
theorem performAll_kept (program : Program κ) {I : Thread κ → Domain → Prop}
    (h : ∀ {t d t' d'}, Rule program t d t' d' → I t d → I t' d') (actions : List HostAction)
    (m : Machine κ) (hm : I m.thread m.domain) :
    I (performAll program actions m).thread (performAll program actions m).domain := by
  induction actions generalizing m with
  | nil => exact hm
  | cons a rest ih => exact ih _ (h (perform_rule program a m) hm)

theorem performAll_grows (program : Program κ) (actions : List HostAction) (m : Machine κ) :
    m.thread.Grows (performAll program actions m).thread :=
  performAll_kept program (I := fun t _ => m.thread.Grows t)
    (fun hrule hgrows => hgrows.trans hrule.grows) actions m (.refl _)

end HostAction

namespace Transition

/-- A poll, too, comes to a list of actions. A plain function takes its arguments
off the operand stack, notes its result and pushes it. -/
theorem pollCall_actions {ctx : Context κ} (hctx : ctx.Disciplined) (call : NativeCall κ)
    (m : Machine κ) {status : Except Fault NativeStatus} {call' : NativeCall κ} {m' : Machine κ}
    (hpoll : pollCall ctx call m = .ok (status, call') m') :
    ∃ actions, m' = HostAction.performAll ctx.program actions m := by
  cases call with
  | custom c =>
    obtain ⟨actions, hactions⟩ := hctx.poll c m
    have hm : (ctx.poll c m).2.2 = m' := (EStateM.Result.ok.inj hpoll).2
    exact ⟨actions, hm ▸ hactions⟩
  | function run argumentCount =>
    cases hpop : m.thread.popValues argumentCount with
    | error e =>
      have hrun : pollFunction run argumentCount m = .error e m := by
        simp [pollFunction, Act.popValues, hpop]
      rw [pollCall, hrun] at hpoll
      exact ⟨[], (EStateM.Result.ok.inj hpoll).2.symm⟩
    | ok popped =>
      obtain ⟨vs, t⟩ := popped
      have hafter : after (HostAction.perform ctx.program (.popValues argumentCount)) m =
          { m with thread := t } := by
        simp [HostAction.perform, after, Act.popValues, hpop, Act.setThread]
      cases hvalue : run vs with
      | error e =>
        have hrun : pollFunction run argumentCount m = .error e { m with thread := t } := by
          simp [pollFunction, Act.popValues, hpop, Act.setThread, hvalue]
        rw [pollCall, hrun] at hpoll
        refine ⟨[.popValues argumentCount], ?_⟩
        rw [HostAction.performAll, HostAction.performAll, hafter]
        exact (EStateM.Result.ok.inj hpoll).2.symm
      | ok result =>
        let e : Event := .nativeReturned t.id vs.length result
        cases result with
        | none =>
          have hrun : pollFunction run argumentCount m =
              .ok .complete { m with thread := t, log := m.log.add e } := by
            simp [pollFunction, Act.popValues, hpop, Act.setThread, hvalue, Act.note, e]
          rw [pollCall, hrun] at hpoll
          refine ⟨[.popValues argumentCount, .note e], ?_⟩
          rw [HostAction.performAll, hafter]
          exact (EStateM.Result.ok.inj hpoll).2.symm
        | some v =>
          have hrun : pollFunction run argumentCount m =
              .ok .complete { m with thread := t.push v, log := m.log.add e } := by
            simp [pollFunction, Act.popValues, hpop, Act.setThread, hvalue, Act.note, Act.push, e]
          rw [pollCall, hrun] at hpoll
          refine ⟨[.popValues argumentCount, .note e, .push v], ?_⟩
          rw [HostAction.performAll, hafter]
          exact (EStateM.Result.ok.inj hpoll).2.symm

/-- The state of a frame whose call was polled. -/
def polledState (state : FrameState) : Except Fault NativeStatus → FrameState
  | .ok .complete => .teardown
  | _ => state

/-- The call goes back to the frame it was taken from. -/
theorem settlePoll_frames {m : Machine κ} {new rest : List (Frame κ)} {g : Frame κ}
    (hframes : m.thread.frames = new ++ g :: rest) (call : NativeCall κ)
    (status : Except Fault NativeStatus) :
    (after (settlePoll rest.length call status) m).thread =
      { m.thread with
        frames := new ++
          { g with nativeCall := some call, state := polledState g.state status } :: rest } := by
  have hindex : m.thread.frames.length - 1 - rest.length = new.length := by
    rw [hframes, List.length_append, List.length_cons]
    omega
  have hbelow : rest.length < m.thread.frames.length := by
    rw [hframes, List.length_append, List.length_cons]
    omega
  have hget : m.thread.frames[new.length]? = some g := by simp [hframes]
  have hset (h : Frame κ) : m.thread.frames.set new.length h = new ++ h :: rest := by
    simp [hframes]
  cases status with
  | error e =>
    simp [after, settlePoll, hindex, hbelow, hget, hset, Act.setThread, polledState]
  | ok status =>
    cases status with
    | pending =>
      simp [after, settlePoll, hindex, hbelow, hget, hset, Act.setThread, polledState]
    | complete =>
      simp [after, settlePoll, hindex, hbelow, hget, hset, Act.setThread, polledState]

end Transition

end ManagedCalls
