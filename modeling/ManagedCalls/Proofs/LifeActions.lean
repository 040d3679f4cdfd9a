import ManagedCalls.Proofs.FrameIsolation
import ManagedCalls.Proofs.NativeInvocation

/-!
The life of a thread, one action after the other. A poll with everything its host does
meanwhile is taken apart: one action takes the call out of its frame, another one puts
it back, and what happens in between stands between them. Only a host's write changes
the slots of a frame that runs, so the writes of a life tell what its slots hold.
-/

namespace ManagedCalls

open Stateful

variable {κ : Type}

/-- What can happen to a thread at one time. -/
inductive LifeAction (κ : Type) where
  | host (program : Program κ) (a : HostAction)
  | abandon
  /-- Other threads use the domain, and the log grows. -/
  | meanwhile (d : Domain) (log : Log)
  /-- A transition that no host has a part in. -/
  | engine (ctx : Context κ)
  /-- The call of the topmost frame is taken out to be polled. -/
  | beginPoll
  /-- A call that was polled goes back to the frame with so many frames below it. -/
  | endPoll (below : Nat) (call : NativeCall κ) (status : Except Fault NativeStatus)

/-- A write to a slot that has succeeded, with the number of the frame. -/
structure SlotWrite where
  frame : Nat
  role : SlotRole
  index : Nat
  value : Value

namespace LifeAction

/-- The machine after an action, whether it fails or not. A phase that a host has a
part in is not for the engine, and one that does not poll begins no poll. -/
def perform (m : Machine κ) : LifeAction κ → Machine κ
  | host program a => after (a.perform program) m
  | abandon => after Act.abandon m
  | meanwhile d log => ⟨m.thread, d, log⟩
  | engine ctx =>
    match m.thread.top?.map Frame.state with
    | some .nativeExec | some .interpretedExec => m
    | _ => after (Transition.run ctx) m
  | beginPoll =>
    match m.thread.top? with
    | some f =>
      if f.state = .nativeExec then
        { m with thread := m.thread.setTop { f with nativeCall := none } }
      else m
    | none => m
  | endPoll below call status => after (Transition.settlePoll below call status) m

def performAll : List (LifeAction κ) → Machine κ → Machine κ
  | [], m => m
  | a :: rest, m => performAll rest (a.perform m)

/-- The write of an action, if it is one and succeeds. -/
def write? (m : Machine κ) : LifeAction κ → Option SlotWrite
  | host _ (.write role index v) =>
    match m.thread.top?, outcome (Act.writeSlot role index v) m with
    | some f, .ok _ => some ⟨f.id, role, index, v⟩
    | _, _ => none
  | _ => none

/-- The writes of a life, in their order. -/
def writes : List (LifeAction κ) → Machine κ → List SlotWrite
  | [], _ => []
  | a :: rest, m => (a.write? m).toList ++ writes rest (a.perform m)

theorem performAll_append (first second : List (LifeAction κ)) (m : Machine κ) :
    performAll (first ++ second) m = performAll second (performAll first m) := by
  induction first generalizing m with
  | nil => rfl
  | cons a rest ih => exact ih _

theorem performAll_concat (actions : List (LifeAction κ)) (a : LifeAction κ) (m : Machine κ) :
    performAll (actions ++ [a]) m = a.perform (performAll actions m) :=
  performAll_append actions [a] m

theorem perform_engine (ctx : Context κ) {m : Machine κ} {f : Frame κ} {rest : List (Frame κ)}
    (htop : m.thread.frames = f :: rest) (hnative : f.state ≠ .nativeExec)
    (hinterpreted : f.state ≠ .interpretedExec) :
    (engine ctx).perform m = after (Transition.run ctx) m := by
  simp only [perform, Thread.top?, htop, List.head?_cons, Option.map_some]
  split
  next hstate => exact absurd (Option.some.inj hstate) hnative
  next hstate => exact absurd (Option.some.inj hstate) hinterpreted
  next => rfl

theorem perform_beginPoll {m : Machine κ} {f : Frame κ} {rest : List (Frame κ)}
    (htop : m.thread.frames = f :: rest) (hstate : f.state = .nativeExec) :
    beginPoll.perform m =
      { m with thread := { m.thread with frames := { f with nativeCall := none } :: rest } } := by
  simp [perform, Thread.top?, htop, hstate, Thread.setTop]

end LifeAction

/-- Everything that can happen to a thread comes to a list of actions. -/
theorem Lives.exists_actions {limit : Nat} {m m' : Machine κ} {issuers : List Nat}
    (h : Lives limit m issuers m') : ∃ actions, LifeAction.performAll actions m = m' := by
  induction h with
  | still => exact ⟨[], rfl⟩
  | host _ program a ih =>
    obtain ⟨actions, rfl⟩ := ih
    exact ⟨actions ++ [.host program a], LifeAction.performAll_concat _ _ _⟩
  | abandoned _ ih =>
    obtain ⟨actions, rfl⟩ := ih
    exact ⟨actions ++ [.abandon], LifeAction.performAll_concat _ _ _⟩
  | meanwhile _ d log ih =>
    obtain ⟨actions, rfl⟩ := ih
    exact ⟨actions ++ [.meanwhile d log], LifeAction.performAll_concat _ _ _⟩
  | engine _ ctx _ htop hnative hinterpreted ih =>
    obtain ⟨actions, rfl⟩ := ih
    refine ⟨actions ++ [.engine ctx], ?_⟩
    rw [LifeAction.performAll_concat, LifeAction.perform_engine ctx htop hnative hinterpreted]
  | @polled _ _ _ _ _ _ rest _ htop hstate _ call status ih ihpoll =>
    obtain ⟨actions, rfl⟩ := ih
    obtain ⟨inside, rfl⟩ := ihpoll
    refine ⟨actions ++ (.beginPoll :: inside) ++ [.endPoll rest.length call status], ?_⟩
    rw [LifeAction.performAll_concat, LifeAction.performAll_append, LifeAction.performAll,
      LifeAction.perform_beginPoll htop hstate]
    rfl

namespace Frame

/-- The frame has been activated. -/
def Runs (f : Frame κ) : Prop := f.state = .interpretedExec ∨ f.state = .teardown

theorem slots_withSlots (f : Frame κ) (role other : SlotRole) (ss : List Slot) :
    (f.withSlots role ss).slots other = if other = role then ss else f.slots other := by
  cases role with
  | argument => cases other <;> rfl
  | localVar => cases other <;> rfl

/-- A successful write replaces its slot. -/
theorem writeSlot_eq_ok {f g : Frame κ} {p p' : Pool} {role : SlotRole} {index : Nat} {v : Value} :
    f.writeSlot p role index v = .ok (g, p') ↔
      ∃ s s', (f.slots role)[index]? = some s ∧ s.write p v = .ok (s', p') ∧
        g = f.withSlots role ((f.slots role).set index s') := by
  unfold writeSlot
  cases hs : (f.slots role)[index]? with
  | none => simp
  | some s =>
    cases hwrite : s.write p v with
    | error e => simp [hwrite, Except.map]
    | ok written =>
      obtain ⟨s', q⟩ := written
      simp only [hwrite, Except.map, Except.ok.injEq, Prod.mk.injEq, Option.some.injEq]
      constructor
      · rintro ⟨rfl, rfl⟩
        exact ⟨s, s', rfl, by rw [hwrite], rfl⟩
      · rintro ⟨_, other, rfl, hother, rfl⟩
        rw [hwrite] at hother
        obtain ⟨rfl, rfl⟩ := Prod.mk.inj (Except.ok.inj hother)
        exact ⟨rfl, rfl⟩

end Frame

theorem Act.writeSlot_apply {m : Machine κ} {f : Frame κ} {rest : List (Frame κ)}
    (htop : m.thread.frames = f :: rest) (role : SlotRole) (index : Nat) (v : Value) :
    Act.writeSlot role index v m =
      match f.writeSlot m.domain.pool role index v with
      | .ok (g, p) =>
        .ok () ⟨{ m.thread with frames := g :: rest }, m.domain.withPool p, m.log⟩
      | .error e => .error e m := by
  cases hwrite : f.writeSlot m.domain.pool role index v with
  | error e => simp [Act.writeSlot, Transition.topFrame_eq htop, hwrite]
  | ok written =>
    simp [Act.writeSlot, Transition.topFrame_eq htop, hwrite, Act.setTop, Act.setPool,
      Thread.setTop, htop, Domain.withPool]

/-- What an action that is no write makes of a frame. One that runs keeps its locals,
unless it is drained. -/
structure Frame.Follows (f g : Frame κ) : Prop where
  id_eq : g.id = f.id
  state : f.Runs → g.state = f.state ∨ g.state = .teardown
  locals : f.Runs → g.locals = f.locals ∨ g.locals = [] ∧ g.state = .teardown

theorem Frame.Follows.of_locals {f g : Frame κ} (hid : g.id = f.id)
    (hstate : g.state = f.state ∨ g.state = .teardown) (hlocals : g.locals = f.locals) :
    f.Follows g :=
  ⟨hid, fun _ => hstate, fun _ => Or.inl hlocals⟩

/-- What one action does to the frames of a thread, with its write. -/
inductive Thread.Lived (t : Thread κ) : Option SlotWrite → Thread κ → Prop
  | left {t' : Thread κ} (hframes : t'.frames.Sublist t.frames)
      (hnext : t'.nextFrame = t.nextFrame) : Lived t none t'
  | called (assembly : Nat) (method : Token) : Lived t none (t.call assembly method)
  | changed {t' : Thread κ} {n : Nat} {f g : Frame κ} (hf : t.frames[n]? = some f)
      (hframes : t'.frames = t.frames.set n g) (hnext : t'.nextFrame = t.nextFrame)
      (h : f.Follows g) : Lived t none t'
  | wrote {f g : Frame κ} {rest : List (Frame κ)} {p p' : Pool} {role : SlotRole} {index : Nat}
      {v : Value} (htop : t.frames = f :: rest)
      (hwrite : f.writeSlot p role index v = .ok (g, p')) :
      Lived t (some ⟨f.id, role, index, v⟩) { t with frames := g :: rest }

namespace Thread.Lived

theorem still {t t' : Thread κ} (hframes : t'.frames = t.frames)
    (hnext : t'.nextFrame = t.nextFrame) : t.Lived none t' :=
  .left (hframes ▸ List.Sublist.refl _) hnext

theorem unchanged {t t' : Thread κ} (h : t' = t) : t.Lived none t' :=
  still (congrArg Thread.frames h) (congrArg Thread.nextFrame h)

theorem top {t t' : Thread κ} {f g : Frame κ} {rest : List (Frame κ)}
    (htop : t.frames = f :: rest) (hframes : t'.frames = g :: rest)
    (hnext : t'.nextFrame = t.nextFrame) (h : f.Follows g) : t.Lived none t' :=
  .changed (n := 0) (by rw [htop]; rfl) (by rw [hframes, htop]; rfl) hnext h

end Thread.Lived

namespace LifeAction

theorem write_lived (program : Program κ) (role : SlotRole) (index : Nat) (v : Value)
    (m : Machine κ) :
    m.thread.Lived ((host program (.write role index v)).write? m)
      ((host program (.write role index v)).perform m).thread := by
  rw [perform, HostAction.perform]
  cases htop : m.thread.frames with
  | nil =>
    have hrun : Act.writeSlot role index v m = .error .emptyCallStack m := by
      simp [Act.writeSlot, Act.topFrame, Thread.top?, htop]
    have hnone : (host program (.write role index v)).write? m = none := by
      simp [write?, Thread.top?, htop]
    rw [hnone, after_of_error hrun]
    exact .unchanged rfl
  | cons f rest =>
    have hrun := Act.writeSlot_apply htop role index v
    cases hwrite : f.writeSlot m.domain.pool role index v with
    | error e =>
      rw [hwrite] at hrun
      have hnone : (host program (.write role index v)).write? m = none := by
        simp [write?, Thread.top?, htop, outcome_of_error hrun]
      rw [hnone, after_of_error hrun]
      exact .unchanged rfl
    | ok written =>
      obtain ⟨g, p⟩ := written
      rw [hwrite] at hrun
      have hsome : (host program (.write role index v)).write? m =
          some ⟨f.id, role, index, v⟩ := by
        simp [write?, Thread.top?, htop, outcome_of_ok hrun]
      rw [hsome, after_of_ok hrun]
      exact .wrote htop hwrite

theorem host_lived (program : Program κ) (a : HostAction) (m : Machine κ) :
    m.thread.Lived ((host program a).write? m) ((host program a).perform m).thread := by
  rw [perform]
  cases a with
  | push v => exact .still rfl rfl
  | pop => exact .still rfl rfl
  | popValues count =>
    cases hpop : m.thread.popValues count with
    | error e => exact .unchanged (by simp [after, HostAction.perform, Act.popValues, hpop])
    | ok popped =>
      obtain ⟨vs, t⟩ := popped
      have hthread : (after (HostAction.perform program (.popValues count)) m).thread = t := by
        simp [after, HostAction.perform, Act.popValues, hpop, Act.setThread]
      obtain ⟨-, rfl⟩ := Thread.popValues_eq hpop
      rw [hthread]
      exact .still rfl rfl
  | call assembly method => exact .called assembly method
  | ret =>
    cases htop : m.thread.frames with
    | nil =>
      exact .unchanged (by
        simp [after, HostAction.perform, Act.returnFromFrame, Thread.returnFromFrame, Thread.top?,
          htop])
    | cons f rest =>
      by_cases hstate : f.state = .interpretedExec
      · have hthread : (after (HostAction.perform program .ret) m).thread =
            { m.thread with frames := { f with state := .teardown } :: rest } := by
          simp [after, HostAction.perform, Act.returnFromFrame, Thread.returnFromFrame,
            Thread.top?, htop, hstate, Act.setThread, Thread.setTop]
        rw [hthread]
        exact .top htop rfl rfl (.of_locals rfl (Or.inr rfl) rfl)
      · exact .unchanged (by
          simp [after, HostAction.perform, Act.returnFromFrame, Thread.returnFromFrame,
            Thread.top?, htop, hstate])
  | write role index v => exact write_lived program role index v m
  | setIp ip =>
    cases htop : m.thread.frames with
    | nil =>
      exact .unchanged (by simp [after, HostAction.perform, Act.topFrame, Thread.top?, htop])
    | cons f rest =>
      have hthread : (after (HostAction.perform program (.setIp ip)) m).thread =
          { m.thread with frames := { f with ip } :: rest } := by
        simp [after, HostAction.perform, Transition.topFrame_eq htop, Act.setTop, Thread.setTop,
          htop]
      rw [hthread]
      exact .top htop rfl rfl (.of_locals rfl (Or.inl rfl) rfl)
  | domain a => exact .unchanged rfl
  | note e => exact .unchanged rfl

/-- Without a host the topmost frame leaves, or it is drained, or it did not run yet. -/
theorem run_lived (ctx : Context κ) {m : Machine κ} {f : Frame κ} {rest : List (Frame κ)}
    (htop : m.thread.frames = f :: rest) (hnative : f.state ≠ .nativeExec)
    (hinterpreted : f.state ≠ .interpretedExec) :
    m.thread.Lived none (after (Transition.run ctx) m).thread := by
  have hrule : Transition.Follows ctx (Transition.run ctx) m := Transition.run_follows ctx m
  by_cases hteardown : f.state = .teardown
  · obtain ⟨-, hleaves⟩ := hrule.torn htop hteardown
    split at hleaves
    · obtain ⟨-, hthread⟩ := hleaves
      rw [hthread]
      exact .left (htop ▸ List.sublist_cons_self _ _) rfl
    · obtain ⟨-, hthread⟩ := hleaves
      rw [hthread]
      exact .top htop rfl rfl ⟨rfl, fun _ => Or.inl rfl, fun _ => Or.inr ⟨rfl, hteardown⟩⟩
  · have hidle : ¬ f.Runs := not_or.mpr ⟨hinterpreted, hteardown⟩
    obtain ⟨hnext, hsame | hleft | ⟨g, hframes, hid⟩⟩ := hrule.engine htop hnative hinterpreted
    · exact .still hsame hnext
    · exact .left (by rw [hleft, htop]; exact List.sublist_cons_self _ _) hnext
    · exact .top htop hframes hnext
        ⟨hid, fun hruns => absurd hruns hidle, fun hruns => absurd hruns hidle⟩

theorem perform_lived (a : LifeAction κ) (m : Machine κ) :
    m.thread.Lived (a.write? m) (a.perform m).thread := by
  cases a with
  | host program a => exact host_lived program a m
  | abandon =>
    rw [perform, (after_abandon m).1]
    exact .left (List.nil_sublist _) rfl
  | meanwhile d log => exact .unchanged rfl
  | engine ctx =>
    cases htop : m.thread.frames with
    | nil =>
      exact .unchanged (by simp [perform, after, Transition.run, Act.topFrame, Thread.top?, htop])
    | cons f rest =>
      by_cases hnative : f.state = .nativeExec
      · exact .unchanged (by simp [perform, Thread.top?, htop, hnative])
      · by_cases hinterpreted : f.state = .interpretedExec
        · exact .unchanged (by simp [perform, Thread.top?, htop, hinterpreted])
        · rw [perform_engine ctx htop hnative hinterpreted]
          exact run_lived ctx htop hnative hinterpreted
  | beginPoll =>
    cases htop : m.thread.frames with
    | nil => exact .unchanged (by simp [perform, Thread.top?, htop])
    | cons f rest =>
      by_cases hstate : f.state = .nativeExec
      · rw [perform_beginPoll htop hstate]
        exact .top htop rfl rfl (.of_locals rfl (Or.inl rfl) rfl)
      · exact .unchanged (by simp [perform, Thread.top?, htop, hstate])
  | endPoll below call status =>
    rw [perform]
    rcases Transition.settlePoll_sets below call status m with hsame | ⟨i, f, -, hf, hset⟩
    · exact .unchanged hsame
    · rw [hset]
      have hstate := Transition.polledState_cases f.state status
      exact .changed hf rfl rfl (.of_locals rfl hstate rfl)

theorem perform_emptyBeforeRun (a : LifeAction κ) {m : Machine κ} (h : m.thread.EmptyBeforeRun) :
    (a.perform m).thread.EmptyBeforeRun := by
  cases a with
  | host program a => exact h.host (HostAction.perform_rule program a m)
  | abandon =>
    rw [perform, (after_abandon m).1]
    exact fun _ hf => absurd hf List.not_mem_nil
  | meanwhile d log => exact h
  | engine ctx =>
    cases htop : m.thread.frames with
    | nil =>
      simpa [perform, after, Transition.run, Act.topFrame, Thread.top?, htop] using h
    | cons f rest =>
      by_cases hnative : f.state = .nativeExec
      · simpa [perform, Thread.top?, htop, hnative] using h
      · by_cases hinterpreted : f.state = .interpretedExec
        · simpa [perform, Thread.top?, htop, hinterpreted] using h
        · rw [perform_engine ctx htop hnative hinterpreted]
          exact h.engine (Transition.run_follows ctx m) htop hnative hinterpreted
  | beginPoll =>
    cases htop : m.thread.frames with
    | nil => simpa [perform, Thread.top?, htop] using h
    | cons f rest =>
      by_cases hstate : f.state = .nativeExec
      · rw [perform_beginPoll htop hstate]
        exact h.top htop fun hf => hf
      · simpa [perform, Thread.top?, htop, hstate] using h
  | endPoll below call status => exact h.settlePoll below call status

end LifeAction

/-- Frames are numbered in the order of their calls, and all numbers were given out. -/
structure Thread.Numbered (t : Thread κ) : Prop where
  sorted : (t.frames.map Frame.id).Pairwise fun m n => n < m
  below : ∀ id ∈ t.frames.map Frame.id, id < t.nextFrame

namespace Thread

variable {t t' : Thread κ} {w : Option SlotWrite}

/-- Frames go, or one with a new number comes on top. -/
theorem Lived.ids (h : t.Lived w t') :
    ((t'.frames.map Frame.id).Sublist (t.frames.map Frame.id) ∧ t'.nextFrame = t.nextFrame) ∨
      t'.frames.map Frame.id = t.nextFrame :: t.frames.map Frame.id ∧
        t'.nextFrame = t.nextFrame + 1 := by
  cases h with
  | left hframes hnext => exact Or.inl ⟨hframes.map _, hnext⟩
  | called assembly method => exact Or.inr ⟨rfl, rfl⟩
  | changed hf hframes hnext hfollows =>
    obtain ⟨hlt, rfl⟩ := List.getElem?_eq_some_iff.mp hf
    have hsame : t'.frames.map Frame.id = t.frames.map Frame.id := by
      rw [hframes, List.map_set, hfollows.id_eq, ← List.map_set, List.set_getElem_self]
    exact Or.inl ⟨hsame ▸ List.Sublist.refl _, hnext⟩
  | wrote htop hwrite =>
    refine Or.inl ⟨?_, rfl⟩
    rw [htop, List.map_cons, List.map_cons, (Frame.writeSlot_cases hwrite).1.same]

theorem Lived.nextFrame_le (h : t.Lived w t') : t.nextFrame ≤ t'.nextFrame := by
  rcases h.ids with ⟨-, hnext⟩ | ⟨-, hnext⟩
  · omega
  · omega

theorem Numbered.new (id : Nat) : (Thread.new id : Thread κ).Numbered :=
  ⟨List.Pairwise.nil, fun _ hid => absurd hid List.not_mem_nil⟩

theorem Numbered.lived (ht : t.Numbered) (h : t.Lived w t') : t'.Numbered := by
  rcases h.ids with ⟨hids, hnext⟩ | ⟨hids, hnext⟩
  · refine ⟨ht.sorted.sublist hids, fun id hid => ?_⟩
    rw [hnext]
    exact ht.below id (hids.subset hid)
  · refine ⟨hids ▸ List.pairwise_cons.mpr ⟨ht.below, ht.sorted⟩, fun id hid => ?_⟩
    rw [hids, List.mem_cons] at hid
    rcases hid with rfl | hid
    · omega
    · have hlt := ht.below id hid
      omega

/-- Frames with one number are one frame. -/
theorem Numbered.eq_of_id (h : t.Numbered) {f g : Frame κ} (hf : f ∈ t.frames)
    (hg : g ∈ t.frames) (hid : f.id = g.id) : f = g :=
  List.inj_on_of_nodup_map (h.sorted.imp fun hlt => Nat.ne_of_gt hlt) hf hg hid

end Thread

end ManagedCalls
