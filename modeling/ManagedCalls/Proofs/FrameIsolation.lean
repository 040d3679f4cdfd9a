import ManagedCalls.Proofs.SlotOwnership

/-!
What a transition leaves alone. All frames of all threads keep values in one pool,
and the frames of one thread share its operand stack. Still a transition reaches
no further than the frame that was on top when it began: the frames below it and
those of the other threads stay as they are and read the same values. The reason
is that storage has one owner, which also holds beside storage that was lost with
its thread.
-/

namespace ManagedCalls

open Stateful Pool

variable {κ : Type}

/-- Pools with the same cells under the handles of the given storage. -/
def Pool.SameAt (p p' : Pool) (held : List Holding) : Prop :=
  ∀ x ∈ held, p'.find? x.handle = p.find? x.handle

namespace Pool.SameAt

variable {p p' p'' base : Pool} {held others : List Holding}

theorem refl (p : Pool) (held : List Holding) : SameAt p p held := fun _ _ => rfl

theorem trans (h : SameAt p p' held) (h' : SameAt p' p'' held) : SameAt p p'' held :=
  fun x hx => (h' x hx).trans (h x hx)

theorem mono (h : SameAt p p' held) (hsub : others ⊆ held) : SameAt p p' others :=
  fun x hx => h x (hsub hx)

/-- Storage that is made lies under new handles. -/
theorem of_made {made : List Holding} (h : Holds base p held) (hmade : Holds p p' made) :
    SameAt p p' held := by
  intro x hx
  obtain ⟨fresh, hgrowth, -⟩ := hmade
  exact hgrowth.find?_of_lt (h.handle_lt hx)

/-- A store into storage of one owner leaves that of others alone. -/
theorem of_store (h : Holds base p (held ++ others)) {x : Holding} (hx : x ∈ held) {v : Value}
    (hstore : p.store x.handle v = .ok p') : SameAt p p' others := by
  intro y hy
  refine find?_store_of_ne hstore fun heq => ?_
  have hnodup := h.nodup
  rw [List.map_append] at hnodup
  exact List.disjoint_of_nodup_append hnodup (List.mem_map_of_mem hx)
    (heq ▸ List.mem_map_of_mem hy)

end Pool.SameAt

/-- A slot reads its own storage only. -/
theorem Slot.read_of_sameAt {p p' : Pool} {s : Slot} {role : SlotRole}
    (h : SameAt p p' (Slot.holdings role [s])) : s.read p' = s.read p := by
  cases s with
  | inline v => rfl
  | pending type => rfl
  | pooled handle type =>
    have hfind : p'.find? handle = p.find? handle := h _ List.mem_cons_self
    simp only [Slot.read, Pool.load, hfind]

/-- Slots give back their own storage only. -/
theorem Release.find?_slots {ss : List Slot} {handle : Nat} (r : Release)
    (h : ∀ type, .pooled handle type ∉ ss) :
    (r.slots ss).pool.find? handle = r.pool.find? handle := by
  induction ss generalizing r with
  | nil => rfl
  | cons s rest ih =>
    have hslot : (r.slot s).pool.find? handle = r.pool.find? handle := by
      cases s with
      | inline v => rfl
      | pending type => rfl
      | pooled own type =>
        have hne : handle ≠ own := by
          rintro rfl
          exact h type List.mem_cons_self
        cases hfree : r.pool.free own with
        | error e => simp [Release.slot, Slot.release, hfree, Except.map]
        | ok p' =>
          have hsame := Pool.find?_free_of_ne hfree hne
          simpa [Release.slot, Slot.release, hfree, Except.map] using hsame
    have hrest := ih (r.slot s) fun type hmem => h type (List.mem_cons_of_mem _ hmem)
    exact hrest.trans hslot

namespace Frame

/-- The handles of the pool storage that a frame owns. -/
def handles (f : Frame κ) : List Nat := f.holdings.map Holding.handle

theorem find?_release {f : Frame κ} {p : Pool} {handle : Nat} (h : handle ∉ f.handles) :
    (f.release p).pool.find? handle = p.find? handle := by
  refine Release.find?_slots (Release.start p) fun type hmem => h ?_
  have hholding : ∃ role, (⟨handle, type, role⟩ : Holding) ∈ f.holdings := by
    rcases List.mem_append.mp hmem with hargument | hlocal
    · exact ⟨.argument, mem_holdings.mpr hargument⟩
    · exact ⟨.localVar, mem_holdings.mpr hlocal⟩
  obtain ⟨role, hholding⟩ := hholding
  exact List.mem_map.mpr ⟨_, hholding, rfl⟩

/-- What a frame owns is there before its release and gone after it. -/
theorem release_contains {f : Frame κ} {p : Pool} {budget : Nat} {others : List Holding}
    (h : Holds (Pool.empty budget) p (f.holdings ++ others)) {handle : Nat}
    (hmem : handle ∈ f.handles) :
    p.contains handle = true ∧ (f.release p).pool.contains handle = false := by
  constructor
  · rw [h.contains_iff, List.map_append]
    exact List.mem_append_left _ hmem
  · have hnodup := h.nodup
    rw [List.map_append] at hnodup
    have hgone := List.disjoint_of_nodup_append hnodup hmem
    rwa [← Bool.not_eq_true, (release_holds h).2.contains_iff]

theorem holdings_subset {fs gs : List (Frame κ)} (h : fs ⊆ gs) (others : List Holding) :
    fs.flatMap holdings ++ others ⊆ gs.flatMap holdings ++ others := by
  intro x hx
  rw [List.mem_append, List.mem_flatMap] at hx ⊢
  exact hx.imp_left fun ⟨f, hf, hxf⟩ => ⟨f, h hf, hxf⟩

/-- A frame reads its own storage only. -/
theorem readSlot_of_sameAt {f : Frame κ} {p p' : Pool} (h : SameAt p p' f.holdings)
    (role : SlotRole) (index : Nat) : f.readSlot p' role index = f.readSlot p role index := by
  unfold readSlot
  cases hslot : (f.slots role)[index]? with
  | none => rfl
  | some s =>
    have hown : Slot.holdings role [s] ⊆ f.holdings := by
      intro x hx
      obtain ⟨rfl, hs⟩ := Slot.mem_holdings.mp hx
      rw [mem_holdings, List.mem_singleton.mp hs]
      exact List.mem_of_getElem? hslot
    simp only [Slot.read_of_sameAt (h.mono hown)]

end Frame

section

variable {base : Pool} {others : List Holding}

theorem HostAction.Rule.sameAt {program : Program κ} {t t' : Thread κ} {d d' : Domain}
    (h : Rule program t d t' d') (hold : Holds base d.pool (t.holdings ++ others)) :
    SameAt d.pool d'.pool (t.frames.tail.flatMap Frame.holdings ++ others) := by
  cases h with
  | operands | called | touched => exact .refl _ _
  | @stored f g rest role handle type v p htop htouched hslot hstore =>
    rw [Thread.holdings_of_top htop, List.append_assoc] at hold
    rw [htop]
    exact .of_store hold (Frame.mem_holdings (x := ⟨handle, type, role⟩).mpr hslot) hstore
  | asked a =>
    rw [DomainAction.perform_pool]
    exact .refl _ _

/-- However many frames a host calls on top, it does not reach below the one it
started with. -/
theorem HostAction.performAll_sameAt (program : Program κ) (actions : List HostAction)
    {m : Machine κ} {f : Frame κ} {rest : List (Frame κ)} (htop : m.thread.frames = f :: rest)
    (hold : Holds base m.domain.pool (m.thread.holdings ++ others)) :
    SameAt m.domain.pool (performAll program actions m).domain.pool
      (rest.flatMap Frame.holdings ++ others) := by
  let below := rest.flatMap Frame.holdings ++ others
  have hrun := performAll_kept program
    (I := fun t d => m.thread.Grows t ∧ Holds base d.pool (t.holdings ++ others) ∧
      SameAt m.domain.pool d.pool below) ?_ actions m ⟨.refl _, hold, .refl _ _⟩
  · exact hrun.2.2
  · rintro t d t' d' hrule ⟨hgrows, hholds, hsame⟩
    obtain ⟨new, g, hframes, -, -⟩ := hgrows.top htop
    have hrest : rest ⊆ t.frames.tail := by
      rw [hframes]
      cases new with
      | nil => exact List.Subset.refl _
      | cons top new => exact fun k hk => List.mem_append_right _ (List.mem_cons_of_mem _ hk)
    have hstep := (hrule.sameAt hholds).mono (Frame.holdings_subset hrest others)
    exact ⟨hgrows.trans hrule.grows, hrule.holds hholds, hsame.trans hstep⟩

theorem Transition.Rule.sameAt {ctx : Context κ} (hctx : ctx.Disciplined) {t t' : Thread κ}
    {d d' : Domain} {r : Except Fault Tick} (h : Rule ctx t d r t' d')
    (hold : Holds base d.pool (t.holdings ++ others)) :
    SameAt d.pool d'.pool (t.frames.tail.flatMap Frame.holdings ++ others) := by
  have hunchanged {p : Pool} (hpool : p = d.pool) :
      SameAt d.pool p (t.frames.tail.flatMap Frame.holdings ++ others) := by
    rw [hpool]
    exact .refl _ _
  have hfinish (ticket : Nat) : (d.finishLoad ctx.program.nameOf ticket).2.1.pool = d.pool :=
    DomainAction.perform_pool ctx.program.nameOf (.finish ticket) d
  have hbelow : t.frames.tail.flatMap Frame.holdings ++ others ⊆ t.holdings ++ others :=
    Frame.holdings_subset (fun _ => List.mem_of_mem_tail) others
  cases h with
  | noFrame | unresolved | unbound | unready | callMissing | foundBody | bound =>
    exact hunchanged rfl
  | outstanding | loadFailed | collected => exact hunchanged (hfinish _)
  | @foundMember f rest row target resolution d' events htop hstate htarget hresolve =>
    have hpool :=
      DomainAction.perform_pool ctx.program.nameOf (.resolve target.assemblyRef.name) d
    rw [DomainAction.perform, hresolve] at hpool
    exact hunchanged hpool
  | @rolledBack f rest signature locals initLocals vs e p htop hstate hmade =>
    have hmakes := materializeFrame_makes signature locals initLocals vs d.pool
    rw [hmade] at hmakes
    exact (SameAt.of_made hold hmakes).mono hbelow
  | @activated f rest body signature locals vs t' arguments slots p htop hstate hbody hsignature
      hpop hmade =>
    have hmakes := materializeFrame_makes signature (locals.getD []) body.initLocals vs d.pool
    rw [hmade] at hmakes
    exact (SameAt.of_made hold hmakes.1).mono hbelow
  | @polled f rest call call' log status m htop hstate hcall hpoll =>
    let start : Machine κ := ⟨{ t with frames := { f with nativeCall := none } :: rest }, d, log⟩
    have hstart : Holds base start.domain.pool (start.thread.holdings ++ others) := by
      rw [Thread.holdings_of_top htop] at hold
      exact hold
    obtain ⟨actions, rfl⟩ := pollCall_actions hctx call start hpoll
    rw [htop]
    exact HostAction.performAll_sameAt ctx.program actions rfl hstart
  | executed log htop hstate =>
    obtain ⟨actions, hactions⟩ := hctx.execute ⟨t, d, log⟩
    rw [hactions, htop]
    exact HostAction.performAll_sameAt ctx.program actions htop hold
  | @tornDown f rest htop hstate hrelease | @unreleased f rest e htop hstate hrelease =>
    have hnodup := hold.nodup
    rw [Thread.holdings_of_top htop, List.append_assoc, List.map_append] at hnodup
    rw [htop]
    intro x hx
    refine Frame.find?_release fun hmem => ?_
    exact List.disjoint_of_nodup_append hnodup hmem (List.mem_map_of_mem hx)

/-- The frames below the topmost one stay below. -/
theorem Transition.Rule.frames_below {ctx : Context κ} (hctx : ctx.Disciplined) {t t' : Thread κ}
    {d d' : Domain} {r : Except Fault Tick} (h : Rule ctx t d r t' d') :
    ∃ above, t'.frames = above ++ t.frames.tail := by
  cases h.moves hctx with
  | idle hframes hsame => exact ⟨[], by rw [hsame, hframes]; rfl⟩
  | @advanced f g rest new htop hframes _ _ _ _ _ =>
    exact ⟨new ++ [g], by rw [hframes, htop, List.append_assoc]; rfl⟩
  | left htop _ hframes _ => exact ⟨[], by rw [hframes, htop]; rfl⟩

/-- A frame in teardown is released. It leaves if this succeeds, and stays without its
slots if not. -/
theorem Transition.Rule.torn {ctx : Context κ} {t t' : Thread κ} {d d' : Domain}
    {r : Except Fault Tick} {f : Frame κ} {rest : List (Frame κ)} (h : Rule ctx t d r t' d')
    (htop : t.frames = f :: rest) (hstate : f.state = .teardown) :
    d' = d.withPool (f.release d.pool).pool ∧
      match (f.release d.pool).failure with
      | none => r = .ok .continue ∧ t' = { t with frames := rest }
      | some e => r = .error e ∧ t' = { t with frames := f.drained :: rest } := by
  have hframe {g : Frame κ} {below : List (Frame κ)} (hg : t.frames = g :: below) :
      g = f ∧ below = rest := List.cons.inj (hg.symm.trans htop)
  cases h with
  | noFrame hframes => cases hframes.symm.trans htop
  | unresolved _ hg hother | foundBody hg hother | foundMember hg hother | outstanding hg hother
  | collected hg hother | loadFailed hg hother | unbound _ hg hother | bound _ hg hother
  | unready _ hg hother | rolledBack hg hother | activated hg hother | callMissing hg hother
  | polled hg hother | executed _ hg hother =>
    obtain ⟨rfl, rfl⟩ := hframe hg
    cases hother.symm.trans hstate
  | tornDown hg _ hreleased =>
    obtain ⟨rfl, rfl⟩ := hframe hg
    rw [hreleased]
    exact ⟨rfl, rfl, rfl⟩
  | unreleased hg _ hfails =>
    obtain ⟨rfl, rfl⟩ := hframe hg
    rw [hfails]
    exact ⟨rfl, rfl, rfl⟩

/-- A frame in teardown whose storage is there leaves, and gives back just that. -/
theorem Transition.Rule.teardown {ctx : Context κ} {t t' : Thread κ} {d d' : Domain}
    {r : Except Fault Tick} {f : Frame κ} {rest : List (Frame κ)} (h : Rule ctx t d r t' d')
    (htop : t.frames = f :: rest) (hstate : f.state = .teardown)
    (hreleased : (f.release d.pool).failure = none) :
    r = .ok .continue ∧ t' = { t with frames := rest } ∧ d'.pool = (f.release d.pool).pool := by
  obtain ⟨hdomain, hleaves⟩ := h.torn htop hstate
  rw [hreleased] at hleaves
  exact ⟨hleaves.1, hleaves.2, congrArg Domain.pool hdomain⟩

end

namespace Fleet

/-- The fleet after something that one thread does, in the scheduler or outside it,
whether it fails or not. -/
def act {α : Type} (x : Act κ α) (fleet : Fleet κ) (index : Nat) : Fleet κ :=
  match fleet.threads[index]? with
  | none => fleet
  | some t =>
    let m := after x ⟨t, fleet.domain, fleet.world.log⟩
    let ts := fleet.threads.set index m.thread
    let scheduled := ts.drop fleet.held.length
    let live := fleet.world.scheduler.threads.length
    { held := ts.take fleet.held.length
      world :=
        { scheduler :=
            { fleet.world.scheduler with
              threads := scheduled.take live, finished := scheduled.drop live }
          domain := m.domain
          log := m.log } }

/-- The fleet after one transition of a thread, whether the transition fails or not. -/
def turn (ctx : Context κ) (fleet : Fleet κ) (index : Nat) : Fleet κ :=
  fleet.act (Transition.run ctx) index

theorem act_eq {α : Type} (x : Act κ α) {fleet : Fleet κ} {index : Nat} {t : Thread κ}
    (ht : fleet.threads[index]? = some t) :
    let m := after x ⟨t, fleet.domain, fleet.world.log⟩
    (fleet.act x index).threads = fleet.threads.set index m.thread ∧
      (fleet.act x index).domain = m.domain := by
  intro m
  unfold act
  rw [ht]
  refine ⟨?_, rfl⟩
  dsimp only [threads]
  rw [List.take_append_drop, List.take_append_drop]

theorem turn_eq (ctx : Context κ) {fleet : Fleet κ} {index : Nat} {t : Thread κ}
    (ht : fleet.threads[index]? = some t) :
    let m := after (Transition.run ctx) ⟨t, fleet.domain, fleet.world.log⟩
    (fleet.turn ctx index).threads = fleet.threads.set index m.thread ∧
      (fleet.turn ctx index).domain = m.domain :=
  act_eq (Transition.run ctx) ht

end Fleet

/-- Anything that happens to a fleet, single transitions included. -/
inductive FleetMove where
  | action (a : FleetAction)
  | turn (index : Nat)

namespace FleetMove

def perform (ctx : Context κ) (fleet : Fleet κ) : FleetMove → Fleet κ
  | action a => a.perform ctx fleet
  | turn index => fleet.turn ctx index

def performAll (ctx : Context κ) : List FleetMove → Fleet κ → Fleet κ
  | [], fleet => fleet
  | a :: rest, fleet => performAll ctx rest (a.perform ctx fleet)

end FleetMove

theorem FleetKept.turn {ctx : Context κ} {lossy : Prop} {P : List (Thread κ) → Domain → Prop}
    (h : FleetKept ctx lossy P) (fleet : Fleet κ) (index : Nat)
    (hfleet : P fleet.threads fleet.domain) :
    P (fleet.turn ctx index).threads (fleet.turn ctx index).domain := by
  cases ht : fleet.threads[index]? with
  | none =>
    have hsame : fleet.turn ctx index = fleet := by rw [Fleet.turn, Fleet.act, ht]
    rw [hsame]
    exact hfleet
  | some t =>
    obtain ⟨hthreads, hdomain⟩ := Fleet.turn_eq ctx ht
    obtain ⟨hlt, rfl⟩ := List.getElem?_eq_some_iff.mp ht
    let m : Machine κ := ⟨fleet.threads[index], fleet.domain, fleet.world.log⟩
    have hfront := h.perm (List.getElem_cons_eraseIdx_perm hlt).symm hfleet
    have hacted := h.act .transition m hfront
    rw [ThreadAction.perform, after_discard] at hacted
    rw [hthreads, hdomain]
    exact h.perm (List.set_perm_cons_eraseIdx hlt _).symm hacted

theorem FleetKept.performMoves {ctx : Context κ} {P : List (Thread κ) → Domain → Prop}
    (h : FleetKept ctx True P) (moves : List FleetMove) (fleet : Fleet κ)
    (hfleet : P fleet.threads fleet.domain) :
    P (FleetMove.performAll ctx moves fleet).threads
      (FleetMove.performAll ctx moves fleet).domain := by
  induction moves generalizing fleet with
  | nil => exact hfleet
  | cons move rest ih =>
    apply ih
    cases move with
    | action a => exact h.perform fleet a (Or.inl trivial) hfleet
    | turn index => exact h.turn fleet index hfleet

/-- The pool holds the storage of all threads, and some that threads took with them
when they got lost. -/
structure HoldsAmong (base : Pool) (ts : List (Thread κ)) (d : Domain) : Prop where
  wellFormed : ∀ t ∈ ts, t.WellFormed
  holds : ∃ lost, Holds base d.pool (ts.flatMap Thread.holdings ++ lost)

/-- The storage of one thread comes first, that of the others and lost one behind it. -/
theorem Pool.Holds.front {base p : Pool} {ts : List (Thread κ)} {lost : List Holding}
    (h : Holds base p (ts.flatMap Thread.holdings ++ lost)) {index : Nat} {t : Thread κ}
    (ht : ts[index]? = some t) :
    Holds base p (t.holdings ++ ((ts.eraseIdx index).flatMap Thread.holdings ++ lost)) := by
  obtain ⟨hlt, rfl⟩ := List.getElem?_eq_some_iff.mp ht
  have hfront := (List.getElem_cons_eraseIdx_perm hlt).symm.flatMap_right Thread.holdings
  rw [List.flatMap_cons] at hfront
  rw [← List.append_assoc]
  exact h.perm (hfront.append_right lost)

/-- One thread, with what the others hold and what was lost behind it. -/
theorem HoldsAmong.front {base : Pool} {ts : List (Thread κ)} {d : Domain}
    (h : HoldsAmong base ts d) {index : Nat} {t : Thread κ} (ht : ts[index]? = some t) :
    ∃ lost, Holds base d.pool
      (t.holdings ++ ((ts.eraseIdx index).flatMap Thread.holdings ++ lost)) := by
  obtain ⟨hwf, lost, hholds⟩ := h
  exact ⟨lost, hholds.front ht⟩

theorem holdsAmong_kept {ctx : Context κ} (hctx : ctx.Disciplined) (base : Pool) :
    FleetKept ctx True fun ts d => HoldsAmong base ts d where
  perm := by
    rintro ts ts' d hperm ⟨hwf, lost, hholds⟩
    refine ⟨fun t ht => hwf t (hperm.mem_iff.mpr ht), lost, ?_⟩
    exact hholds.perm ((hperm.flatMap_right _).append_right _)
  create := by
    rintro ts d id ⟨hwf, lost, hholds⟩
    exact ⟨List.forall_mem_cons.mpr ⟨.new id, hwf⟩, lost, hholds⟩
  act := by
    rintro ts a m ⟨hwf, lost, hholds⟩
    obtain ⟨hone, hothers⟩ := List.forall_mem_cons.mp hwf
    rw [List.flatMap_cons, List.append_assoc] at hholds
    have hkept := (holds_kept hctx base _).perform a (m := m) ⟨hone, hholds⟩
    refine ⟨List.forall_mem_cons.mpr ⟨hkept.1, hothers⟩, lost, ?_⟩
    rw [List.flatMap_cons, List.append_assoc]
    exact hkept.2
  gone := by
    rintro t ts d - ⟨hwf, lost, hholds⟩
    refine ⟨(List.forall_mem_cons.mp hwf).2, t.holdings ++ lost, ?_⟩
    rw [List.flatMap_cons] at hholds
    rw [← List.append_assoc]
    exact hholds.perm (List.perm_append_comm.append_right _)
  domain := by
    rintro ts d a ⟨hwf, lost, hholds⟩
    refine ⟨hwf, lost, ?_⟩
    rw [DomainAction.perform_pool]
    exact hholds

namespace Fleet

/-- Whatever was done with a domain and its threads, the next transition of any
thread, failing or not, leaves the other threads as they are and the frames below
its topmost one in place, and all these frames read the same values as before. A
frame in teardown is taken off, and just its storage is freed. -/
theorem frames_isolated {ctx : Context κ} (hctx : ctx.Disciplined) (poolBytes : Nat)
    (loader : Option Loader) (level : Level) (moves : List FleetMove) (index : Nat) {t : Thread κ}
    (ht : (FleetMove.performAll ctx moves
      (fresh poolBytes loader level)).threads[index]? = some t) :
    let fleet := FleetMove.performAll ctx moves (fresh poolBytes loader level)
    let fleet' := fleet.turn ctx index
    (∀ other, other ≠ index → fleet'.threads[other]? = fleet.threads[other]?) ∧
      ∃ t', fleet'.threads[index]? = some t' ∧
        (∃ above, t'.frames = above ++ t.frames.tail) ∧
        (∀ g, (g ∈ t.frames.tail ∨
            ∃ other u, other ≠ index ∧ fleet.threads[other]? = some u ∧ g ∈ u.frames) →
          ∀ role i, g.readSlot fleet'.pool role i = g.readSlot fleet.pool role i) ∧
        ∀ f rest, t.frames = f :: rest → f.state = .teardown →
          outcome (Transition.run ctx) ⟨t, fleet.domain, fleet.world.log⟩ = .ok .continue ∧
          t' = { t with frames := rest } ∧
          ∀ handle, if handle ∈ f.handles then
              fleet.pool.contains handle = true ∧ fleet'.pool.contains handle = false
            else fleet'.pool.find? handle = fleet.pool.find? handle := by
  intro fleet fleet'
  have hfleet : HoldsAmong (Pool.empty poolBytes) fleet.threads fleet.domain :=
    (holdsAmong_kept hctx (Pool.empty poolBytes)).performMoves moves _
      ⟨fun t ht => (List.not_mem_nil ht).elim, [], Holds.refl _⟩
  obtain ⟨lost, hold⟩ := hfleet.front ht
  let m : Machine κ := ⟨t, fleet.domain, fleet.world.log⟩
  have hrule : Transition.Follows ctx (Transition.run ctx) m := Transition.run_follows ctx m
  obtain ⟨hthreads, hdomain⟩ := turn_eq ctx ht
  refine ⟨?_, (after (Transition.run ctx) m).thread, ?_, hrule.frames_below hctx, ?_, ?_⟩
  · intro other hne
    rw [hthreads, List.getElem?_set_ne hne.symm]
  · rw [hthreads, List.getElem?_set_self (List.getElem?_eq_some_iff.mp ht).1]
  · intro g hg role i
    have hsame := hrule.sameAt hctx hold
    rw [← hdomain] at hsame
    refine Frame.readSlot_of_sameAt (hsame.mono fun x hx => ?_) role i
    rcases hg with hbelow | ⟨other, u, hne, hu, hgu⟩
    · exact List.mem_append_left _ (List.mem_flatMap.mpr ⟨g, hbelow, hx⟩)
    · have hmem : u ∈ fleet.threads.eraseIdx index :=
        List.mem_eraseIdx_iff_getElem?.mpr ⟨other, hne, hu⟩
      have hown : x ∈ u.holdings := List.mem_flatMap.mpr ⟨g, hgu, hx⟩
      exact List.mem_append_right _
        (List.mem_append_left _ (List.mem_flatMap.mpr ⟨u, hmem, hown⟩))
  · intro f rest htop hstate
    rw [Thread.holdings_of_top htop, List.append_assoc] at hold
    obtain ⟨hresult, hthread, hpool⟩ :=
      hrule.teardown htop hstate (Frame.release_holds hold).1
    rw [← hdomain] at hpool
    refine ⟨hresult, hthread, fun handle => ?_⟩
    have hreleased : fleet'.pool = (f.release fleet.pool).pool := hpool
    rw [hreleased]
    split
    next hmem => exact Frame.release_contains hold hmem
    next hmem => exact Frame.find?_release hmem

/-- A thread whose callee is about to be torn down, beside another thread that
runs and one that got lost with its storage. -/
def calleeDone : List FleetMove :=
  let activate : List FleetMove :=
    [.action (.act 0 (.host (.call 0 Interpreter.smallMethod))), .turn 0, .turn 0]
  [.action (.create 1), .action (.act 0 (.host (.push (.int32 7))))] ++ activate ++
    [.action (.act 0 (.host (.push (.int32 8))))] ++ activate ++
    [.turn 0, .action (.create 2), .action (.act 0 (.host (.push (.int32 9))))] ++ activate ++
    [.action (.create 3), .action (.act 0 (.host (.push (.int32 4))))] ++ activate ++
    [.action (.drop 0)]

theorem frames_isolated_at_teardown :
    let ctx := Interpreter.smallContext {}
    let fleet : Fleet Empty := FleetMove.performAll ctx calleeDone (fresh 64 none .error)
    let fleet' := fleet.turn ctx 1
    ctx.Disciplined ∧ fleet.threads.map Thread.id = [2, 1] ∧
      fleet'.pool.cells.map Cell.handle = [8, 7, 6, 5, 2, 1] ∧
      ∃ t f g, fleet.threads[1]? = some t ∧ t.frames = [f, g] ∧ f.state = .teardown ∧
        f.handles = [3, 4] ∧ fleet'.threads[1]? = some { t with frames := [g] } ∧
        (g.readSlot fleet.pool .argument 0).toOption = some (.int32 7) ∧
        (g.readSlot fleet'.pool .argument 0).toOption = some (.int32 7) := by
  intro ctx fleet fleet'
  have hctx : ctx.Disciplined := Interpreter.plainContext_disciplined _ _ _
  have hids : fleet.threads.map Thread.id = [2, 1] := by decide +kernel
  have hcells : fleet'.pool.cells.map Cell.handle = [8, 7, 6, 5, 2, 1] := by decide +kernel
  have hframes : (fleet.threads[1]?.map fun t => t.frames.map fun f =>
      (f.state, f.handles, (f.readSlot fleet.pool .argument 0).toOption)) =
        some [(.teardown, [3, 4], some (.int32 8)),
          (.interpretedExec, [1, 2], some (.int32 7))] := by
    decide +kernel
  obtain ⟨t, ht, htop⟩ := Option.map_eq_some_iff.mp hframes
  obtain ⟨f, rest, htop, hf, hrest⟩ := List.map_eq_cons_iff.mp htop
  obtain ⟨g, bottom, rfl, hg, hnone⟩ := List.map_eq_cons_iff.mp hrest
  obtain rfl := List.map_eq_nil_iff.mp hnone
  simp only [Prod.mk.injEq] at hf hg
  obtain ⟨-, t', ht', -, hreads, hteardown⟩ :=
    frames_isolated hctx 64 none .error calleeDone 1 ht
  obtain ⟨-, rfl, -⟩ := hteardown f [g] htop hf.1
  have hbelow := hreads g (Or.inl (by rw [htop]; exact List.mem_singleton_self g)) .argument 0
  exact ⟨hctx, hids, hcells, t, f, g, ht, htop, hf.1, hf.2.1, ht', hg.2.2, by rw [hbelow, hg.2.2]⟩

end Fleet

end ManagedCalls
