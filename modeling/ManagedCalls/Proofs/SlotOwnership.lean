import ManagedCalls.Proofs.Fleet
import ManagedCalls.Proofs.FrameInvariants

/-!
Who owns the storage of the pool. Every live cell belongs to exactly one slot of
one frame of one thread, and cell and slot agree on type and role. This is an
invariant of all threads together: a thread holds its storage beside that of the
others, and nothing it does touches theirs. Hence what a frame gives back is
always there to be given back.
-/

namespace ManagedCalls

open Stateful Pool

variable {κ : Type}

namespace Frame

/-- The storage of a frame's arguments and locals. -/
def holdings (f : Frame κ) : List Holding :=
  Slot.holdings .argument f.arguments ++ Slot.holdings .localVar f.locals

theorem mem_holdings {f : Frame κ} {x : Holding} :
    x ∈ f.holdings ↔ .pooled x.handle x.type ∈ f.slots x.role := by
  obtain ⟨handle, type, role⟩ := x
  rw [holdings, List.mem_append, Slot.mem_holdings, Slot.mem_holdings]
  cases role with
  | argument => simp [slots]
  | localVar => simp [slots]

theorem Empty.holdings_eq {f : Frame κ} (h : f.Empty) : f.holdings = [] := by
  rw [holdings, h.1, h.2]
  rfl

theorem Called.holdings_eq {f : Frame κ} (h : f.Called) : f.holdings = [] := by
  obtain ⟨id, calling, method, ip, rfl⟩ := h
  rfl

theorem Touched.holdings_eq {f g : Frame κ} (h : f.Touched g) : g.holdings = f.holdings := by
  have harguments : Slot.holdings .argument g.arguments = Slot.holdings .argument f.arguments :=
    h.holdings .argument
  have hlocals : Slot.holdings .localVar g.locals = Slot.holdings .localVar f.locals :=
    h.holdings .localVar
  rw [Frame.holdings, Frame.holdings, harguments, hlocals]

/-- A frame whose storage is there gives it back and nothing else. -/
theorem release_holds {base p : Pool} {others : List Holding} {f : Frame κ}
    (h : Holds base p (f.holdings ++ others)) :
    (f.release p).failure = none ∧ Holds base (f.release p).pool others := by
  rw [holdings, List.append_assoc] at h
  obtain ⟨hfirst, hlocals⟩ := Holds.release (r := Release.start p) f.arguments h
  obtain ⟨hsecond, hothers⟩ := Holds.release f.locals hlocals
  have hslots : f.release p = ((Release.start p).slots f.arguments).slots f.locals :=
    List.foldl_append
  rw [hslots]
  exact ⟨hsecond.trans hfirst, hothers⟩

end Frame

namespace Thread

def holdings (t : Thread κ) : List Holding := t.frames.flatMap Frame.holdings

theorem holdings_of_top {t : Thread κ} {f : Frame κ} {rest : List (Frame κ)}
    (htop : t.frames = f :: rest) :
    t.holdings = f.holdings ++ rest.flatMap Frame.holdings := by
  rw [holdings, htop, List.flatMap_cons]

theorem holdings_of_called {t : Thread κ} {new old : List (Frame κ)} {first next : Nat}
    (hframes : t.frames = new ++ old) (hnew : CalledFrames first next new) :
    t.holdings = old.flatMap Frame.holdings := by
  have hnone : new.flatMap Frame.holdings = [] :=
    List.flatMap_eq_nil_iff.mpr fun f hf => (hnew.called f hf).holdings_eq
  rw [holdings, hframes, List.flatMap_append, hnone, List.nil_append]

theorem releaseFrames_holds {base : Pool} {others : List Holding} (fs : List (Frame κ))
    {r : Release} (h : Holds base r.pool (fs.flatMap Frame.holdings ++ others)) :
    (releaseFrames fs r).failure = r.failure ∧ Holds base (releaseFrames fs r).pool others := by
  induction fs generalizing r with
  | nil => exact ⟨rfl, h⟩
  | cons f rest ih =>
    rw [List.flatMap_cons, List.append_assoc] at h
    obtain ⟨hnone, hrest⟩ := Frame.release_holds h
    unfold releaseFrames
    dsimp only
    rw [hnone]
    exact ih hrest

end Thread

section

variable {base : Pool} {others : List Holding}

/-- What a host does keeps the storage of its thread and that of the others. -/
theorem HostAction.Rule.holds {program : Program κ} {t t' : Thread κ} {d d' : Domain}
    (h : Rule program t d t' d') (hold : Holds base d.pool (t.holdings ++ others)) :
    Holds base d'.pool (t'.holdings ++ others) := by
  cases h with
  | operands values => exact hold
  | called assembly method => exact hold
  | touched htop htouched =>
    rw [Thread.holdings_of_top htop] at hold
    rw [Thread.holdings_of_top rfl, htouched.holdings_eq]
    exact hold
  | @stored f g rest role handle type v p htop htouched hslot hstore =>
    have hmem : ⟨handle, type, role⟩ ∈ t.holdings ++ others := by
      rw [Thread.holdings_of_top htop, List.append_assoc]
      exact List.mem_append_left _ (Frame.mem_holdings.mpr hslot)
    have hstored : Holds base p (t.holdings ++ others) := hold.store hmem hstore
    rw [Thread.holdings_of_top htop] at hstored
    rw [Thread.holdings_of_top rfl, htouched.holdings_eq]
    exact hstored
  | asked a =>
    rw [DomainAction.perform_pool]
    exact hold

theorem HostAction.performAll_holds (program : Program κ) (actions : List HostAction)
    (m : Machine κ) (hold : Holds base m.domain.pool (m.thread.holdings ++ others)) :
    Holds base (performAll program actions m).domain.pool
      ((performAll program actions m).thread.holdings ++ others) :=
  performAll_kept program (I := fun t d => Holds base d.pool (t.holdings ++ others))
    (fun hrule hkept => hrule.holds hkept) actions m hold

/-- A transition keeps them too, where frames have what their phases need. -/
theorem Transition.Rule.holds {ctx : Context κ} (hctx : ctx.Disciplined) {t t' : Thread κ}
    {d d' : Domain} {r : Except Fault Tick} (h : Rule ctx t d r t' d') (hwf : t.WellFormed)
    (hold : Holds base d.pool (t.holdings ++ others)) :
    Holds base d'.pool (t'.holdings ++ others) := by
  -- a frame in place of the topmost one that has the same slots
  have hsame {f g : Frame κ} {rest : List (Frame κ)} {p : Pool} (htop : t.frames = f :: rest)
      (hslots : g.holdings = f.holdings) (hpool : p = d.pool) :
      Holds base p (Thread.holdings { t with frames := g :: rest } ++ others) := by
    rw [Thread.holdings_of_top htop] at hold
    rw [Thread.holdings_of_top rfl, hslots, hpool]
    exact hold
  have hfinish (ticket : Nat) : (d.finishLoad ctx.program.nameOf ticket).2.1.pool = d.pool :=
    DomainAction.perform_pool ctx.program.nameOf (.finish ticket) d
  cases h with
  | noFrame | unresolved | unbound | unready | callMissing => exact hold
  | outstanding | loadFailed =>
    rw [hfinish]
    exact hold
  | collected htop hstate hcollected => exact hsame htop rfl (hfinish _)
  | foundBody htop hstate hbody => exact hsame htop rfl rfl
  | @foundMember f rest row target resolution d' events htop hstate htarget hresolve =>
    have hpool : d'.pool = d.pool := by
      have hpool :=
        DomainAction.perform_pool ctx.program.nameOf (.resolve target.assemblyRef.name) d
      rwa [DomainAction.perform, hresolve] at hpool
    have hslots : Frame.holdings (Frame.afterResolution
        { f with target := some target, stackBase := t.operands.length } resolution) =
        f.holdings := by
      cases resolution with
      | loaded assembly => rfl
      | pending ticket => rfl
    exact hsame htop hslots hpool
  | bound call htop hstate htarget hsignature => exact hsame htop rfl rfl
  | @rolledBack f rest signature locals initLocals vs e p htop hstate hmade =>
    have hmakes := materializeFrame_makes signature locals initLocals vs d.pool
    rw [hmade] at hmakes
    exact hold.trans hmakes
  | @activated f rest body signature locals vs t' arguments slots p htop hstate hbody hsignature
      hpop hmade =>
    have hmakes := materializeFrame_makes signature (locals.getD []) body.initLocals vs d.pool
    rw [hmade] at hmakes
    have hf := hwf.frames f (htop ▸ List.mem_cons_self)
    rw [Frame.WellFormed, hstate] at hf
    -- the frame had no slots before, so nothing is forgotten
    have hbefore : t.holdings = rest.flatMap Frame.holdings := by
      rw [Thread.holdings_of_top htop, hf.2.2.holdings_eq, List.nil_append]
    have hmade := hold.trans hmakes.1
    rw [hbefore, ← List.append_assoc] at hmade
    rw [Thread.holdings_of_top rfl]
    exact hmade
  | @polled f rest call call' log status m htop hstate hcall hpoll =>
    let start : Machine κ := ⟨{ t with frames := { f with nativeCall := none } :: rest }, d, log⟩
    have hstart : Holds base d.pool (start.thread.holdings ++ others) := hsame htop rfl rfl
    obtain ⟨actions, new, g, rfl, -, hnew, -, hframes, hsettled⟩ :=
      pollCall_cases (f := { f with nativeCall := none }) hctx rfl hstate hpoll
    have hpolled := HostAction.performAll_holds ctx.program actions start hstart
    rw [Thread.holdings_of_called hframes hnew] at hpolled
    rw [hsettled, Thread.holdings_of_called rfl hnew]
    exact hpolled
  | executed log htop hstate =>
    obtain ⟨actions, hactions⟩ := hctx.execute ⟨t, d, log⟩
    rw [hactions]
    exact HostAction.performAll_holds ctx.program actions ⟨t, d, log⟩ hold
  | tornDown htop hstate hrelease =>
    rw [Thread.holdings_of_top htop, List.append_assoc] at hold
    exact (Frame.release_holds hold).2
  | unreleased htop hstate hrelease =>
    rw [Thread.holdings_of_top htop, List.append_assoc] at hold
    rw [(Frame.release_holds hold).1] at hrelease
    cases hrelease

theorem holds_kept {ctx : Context κ} (hctx : ctx.Disciplined) (base : Pool)
    (others : List Holding) :
    Kept ctx fun t d => t.WellFormed ∧ Holds base d.pool (t.holdings ++ others) where
  host := by
    intro t d t' d' hrule hkept
    exact ⟨(Thread.Evolves.of_rule hrule).wellFormed hkept.1, hrule.holds hkept.2⟩
  transition := by
    intro t d r t' d' hrule hkept
    have hevolves := Thread.Evolves.of_moves (hrule.moves hctx)
    exact ⟨hevolves.wellFormed hkept.1, hrule.holds hctx hkept.1 hkept.2⟩
  abandon := by
    intro t d hkept
    have hevolves : t.Evolves t.cleared := .of_sublist (List.nil_sublist _) rfl
    exact ⟨hevolves.wellFormed hkept.1, (Thread.releaseFrames_holds t.frames hkept.2).2⟩

end

/-- The frames of all threads have what their phases need, and the pool holds
their storage and nothing else. -/
structure HoldsAll (base : Pool) (ts : List (Thread κ)) (d : Domain) : Prop where
  wellFormed : ∀ t ∈ ts, t.WellFormed
  holds : Holds base d.pool (ts.flatMap Thread.holdings)

theorem holdsAll_kept {ctx : Context κ} (hctx : ctx.Disciplined) (base : Pool) :
    FleetKept ctx False fun ts d => HoldsAll base ts d where
  perm := by
    intro ts ts' d hperm h
    exact ⟨fun t ht => h.wellFormed t (hperm.mem_iff.mpr ht), h.holds.perm (hperm.flatMap_right _)⟩
  create := by
    intro ts d id h
    refine ⟨?_, h.holds⟩
    intro t ht
    rcases List.mem_cons.mp ht with rfl | ht
    · exact .new id
    · exact h.wellFormed t ht
  act := by
    intro ts a m h
    have hone := (holds_kept hctx base (ts.flatMap Thread.holdings)).perform a (m := m)
      ⟨h.wellFormed _ List.mem_cons_self, h.holds⟩
    refine ⟨?_, hone.2⟩
    intro t ht
    rcases List.mem_cons.mp ht with rfl | ht
    · exact hone.1
    · exact h.wellFormed t (List.mem_cons_of_mem _ ht)
  gone := by
    intro t ts d hgone h
    have hframes : t.frames = [] := hgone.resolve_left id
    have hnone : t.holdings = [] := by rw [Thread.holdings, hframes, List.flatMap_nil]
    have hholds := h.holds
    rw [List.flatMap_cons, hnone, List.nil_append] at hholds
    exact ⟨fun t ht => h.wellFormed t (List.mem_cons_of_mem _ ht), hholds⟩
  domain := by
    intro ts d a h
    refine ⟨h.wellFormed, ?_⟩
    rw [DomainAction.perform_pool]
    exact h.holds

/-- Where a slot is: in which thread, in which frame from the top, and where in
the frame. -/
@[ext] structure SlotPlace where
  thread : Nat
  frame : Nat
  role : SlotRole
  index : Nat
  deriving DecidableEq

namespace Fleet

def pool (fleet : Fleet κ) : Pool := fleet.domain.pool

def slot? (fleet : Fleet κ) (place : SlotPlace) : Option Slot :=
  fleet.threads[place.thread]?.bind fun t =>
    t.frames[place.frame]?.bind fun f => (f.slots place.role)[place.index]?

/-- Slots in pool storage and live cells belong together, one to one. -/
structure OwnsPool (fleet : Fleet κ) : Prop where
  injective : ∀ {place place' handle type type'}, fleet.slot? place = some (.pooled handle type) →
    fleet.slot? place' = some (.pooled handle type') → place = place'
  live : ∀ {place handle type}, fleet.slot? place = some (.pooled handle type) →
    ∃ c ∈ fleet.pool.cells, c.handle = handle ∧ c.type = type ∧ c.role = place.role
  owned : ∀ c ∈ fleet.pool.cells, ∃ place,
    fleet.slot? place = some (.pooled c.handle c.type) ∧ place.role = c.role
  nodup : (fleet.pool.cells.map Cell.handle).Nodup

end Fleet

/-- In a list without duplicates that is made of parts, an item is in one part. -/
theorem index_eq_of_mem_flatMap {α β : Type} {l : List α} {g : α → List β}
    (h : (l.flatMap g).Nodup) {i j : Nat} {a b : α} (hi : l[i]? = some a) (hj : l[j]? = some b)
    {x : β} (ha : x ∈ g a) (hb : x ∈ g b) : i = j := by
  have hpairwise := (List.nodup_flatMap.mp h).2
  obtain ⟨hilt, rfl⟩ := List.getElem?_eq_some_iff.mp hi
  obtain ⟨hjlt, rfl⟩ := List.getElem?_eq_some_iff.mp hj
  rcases Nat.lt_trichotomy i j with hlt | heq | hgt
  · exact absurd hb (List.pairwise_iff_getElem.mp hpairwise i j hilt hjlt hlt ha)
  · exact heq
  · exact absurd ha (List.pairwise_iff_getElem.mp hpairwise j i hjlt hilt hgt hb)

theorem Slot.index_eq_of_handle {role : SlotRole} {ss : List Slot}
    (h : ((holdings role ss).map Holding.handle).Nodup) {i j handle : Nat} {type type' : TypeSig}
    (hi : ss[i]? = some (.pooled handle type)) (hj : ss[j]? = some (.pooled handle type')) :
    i = j := by
  rw [holdings, List.filterMap_eq_flatMap_toList, List.map_flatMap] at h
  refine index_eq_of_mem_flatMap h hi hj (x := handle) ?_ ?_
  · simp [holding?]
  · simp [holding?]

theorem Slot.handle_mem {role : SlotRole} {ss : List Slot} {i handle : Nat} {type : TypeSig}
    (hi : ss[i]? = some (.pooled handle type)) :
    handle ∈ (holdings role ss).map Holding.handle :=
  List.mem_map.mpr
    ⟨⟨handle, type, role⟩, mem_holdings.mpr ⟨rfl, List.mem_of_getElem? hi⟩, rfl⟩

theorem Frame.index_eq_of_handle {f : Frame κ} (h : (f.holdings.map Holding.handle).Nodup)
    {role role' : SlotRole} {i j handle : Nat} {type type' : TypeSig}
    (hi : (f.slots role)[i]? = some (.pooled handle type))
    (hj : (f.slots role')[j]? = some (.pooled handle type')) : role = role' ∧ i = j := by
  rw [holdings, List.map_append] at h
  have hdisjoint := List.disjoint_of_nodup_append h
  cases role with
  | argument =>
    cases role' with
    | argument => exact ⟨rfl, Slot.index_eq_of_handle (List.Nodup.of_append_left h) hi hj⟩
    | localVar => exact absurd (Slot.handle_mem hj) (hdisjoint (Slot.handle_mem hi))
  | localVar =>
    cases role' with
    | argument => exact absurd (Slot.handle_mem hi) (hdisjoint (Slot.handle_mem hj))
    | localVar => exact ⟨rfl, Slot.index_eq_of_handle (List.Nodup.of_append_right h) hi hj⟩

namespace Fleet

/-- The thread and the frame of a slot. -/
theorem exists_of_slot? {fleet : Fleet κ} {place : SlotPlace} {s : Slot}
    (h : fleet.slot? place = some s) :
    ∃ t f, fleet.threads[place.thread]? = some t ∧ t.frames[place.frame]? = some f ∧
      (f.slots place.role)[place.index]? = some s := by
  obtain ⟨t, ht, hframe⟩ := Option.bind_eq_some_iff.mp h
  obtain ⟨f, hf, hs⟩ := Option.bind_eq_some_iff.mp hframe
  exact ⟨t, f, ht, hf, hs⟩

theorem slot?_eq {fleet : Fleet κ} {thread frame index : Nat} {role : SlotRole} {t : Thread κ}
    {f : Frame κ} {s : Slot} (ht : fleet.threads[thread]? = some t)
    (hf : t.frames[frame]? = some f) (hs : (f.slots role)[index]? = some s) :
    fleet.slot? ⟨thread, frame, role, index⟩ = some s := by
  simp [slot?, ht, hf, hs]

variable {fleet : Fleet κ} {budget : Nat}

/-- The handle of a slot is among those of its frame and of its thread. -/
theorem handle_mem {t : Thread κ} {f : Frame κ} {frame index handle : Nat} {role : SlotRole}
    {type : TypeSig} (hf : t.frames[frame]? = some f)
    (hs : (f.slots role)[index]? = some (.pooled handle type)) :
    handle ∈ f.holdings.map Holding.handle ∧ handle ∈ t.holdings.map Holding.handle := by
  have hmem : (⟨handle, type, role⟩ : Holding) ∈ f.holdings :=
    Frame.mem_holdings.mpr (List.mem_of_getElem? hs)
  have hmem' : (⟨handle, type, role⟩ : Holding) ∈ t.holdings :=
    List.mem_flatMap.mpr ⟨f, List.mem_of_getElem? hf, hmem⟩
  exact ⟨List.mem_map.mpr ⟨_, hmem, rfl⟩, List.mem_map.mpr ⟨_, hmem', rfl⟩⟩

theorem place_eq_of_handle
    (h : ((fleet.threads.flatMap Thread.holdings).map Holding.handle).Nodup)
    {place place' : SlotPlace} {handle : Nat} {type type' : TypeSig}
    (hs : fleet.slot? place = some (.pooled handle type))
    (hs' : fleet.slot? place' = some (.pooled handle type')) : place = place' := by
  obtain ⟨t, f, ht, hf, hslot⟩ := exists_of_slot? hs
  obtain ⟨t', f', ht', hf', hslot'⟩ := exists_of_slot? hs'
  obtain ⟨hframe, hthread⟩ := handle_mem hf hslot
  obtain ⟨hframe', hthread'⟩ := handle_mem hf' hslot'
  rw [List.map_flatMap] at h
  have hsameThread : place.thread = place'.thread :=
    index_eq_of_mem_flatMap h ht ht' hthread hthread'
  obtain rfl : t = t' := Option.some.inj (ht.symm.trans (hsameThread ▸ ht'))
  have hframes := (List.nodup_flatMap.mp h).1 t (List.mem_of_getElem? ht)
  rw [Thread.holdings, List.map_flatMap] at hframes
  have hsameFrame : place.frame = place'.frame :=
    index_eq_of_mem_flatMap hframes hf hf' hframe hframe'
  obtain rfl : f = f' := Option.some.inj (hf.symm.trans (hsameFrame ▸ hf'))
  have hslots := (List.nodup_flatMap.mp hframes).1 f (List.mem_of_getElem? hf)
  obtain ⟨hrole, hindex⟩ := Frame.index_eq_of_handle hslots hslot hslot'
  exact SlotPlace.ext hsameThread hsameFrame hrole hindex

theorem ownsPool_of_holds
    (h : Holds (Pool.empty budget) fleet.pool (fleet.threads.flatMap Thread.holdings)) :
    fleet.OwnsPool where
  injective := place_eq_of_handle h.nodup
  live := by
    intro place handle type hs
    obtain ⟨t, f, ht, hf, hslot⟩ := exists_of_slot? hs
    have hmem : (⟨handle, type, place.role⟩ : Holding) ∈ fleet.threads.flatMap Thread.holdings :=
      List.mem_flatMap.mpr ⟨t, List.mem_of_getElem? ht, List.mem_flatMap.mpr
        ⟨f, List.mem_of_getElem? hf, Frame.mem_holdings.mpr (List.mem_of_getElem? hslot)⟩⟩
    obtain ⟨c, hc, hholding⟩ := List.mem_map.mp (h.cells_perm.mem_iff.mpr hmem)
    obtain ⟨hhandle, htype, hrole⟩ := Holding.mk.inj hholding
    exact ⟨c, hc, hhandle, htype, hrole⟩
  owned := by
    intro c hc
    have hmem := h.cells_perm.mem_iff.mp (List.mem_map_of_mem hc)
    obtain ⟨t, ht, hframes⟩ := List.mem_flatMap.mp hmem
    obtain ⟨f, hf, hslots⟩ := List.mem_flatMap.mp hframes
    obtain ⟨thread, hthread⟩ := List.getElem?_of_mem ht
    obtain ⟨frame, hframe⟩ := List.getElem?_of_mem hf
    obtain ⟨index, hindex⟩ := List.getElem?_of_mem (Frame.mem_holdings.mp hslots)
    exact ⟨⟨thread, frame, c.role, index⟩, slot?_eq hthread hframe hindex, rfl⟩
  nodup := by
    have hnodup := h.nodup
    have hperm := h.cells_perm.map Holding.handle
    rw [List.map_map] at hperm
    exact hperm.nodup_iff.mpr hnodup

/-- The part of one item comes first, in another order. -/
theorem flatMap_perm_of_mem {α β : Type} {l : List α} (g : α → List β) {a : α} (h : a ∈ l) :
    ∃ rest, (l.flatMap g).Perm (g a ++ rest) := by
  obtain ⟨front, back, rfl⟩ := List.append_of_mem h
  refine ⟨(front ++ back).flatMap g, ?_⟩
  rw [← List.flatMap_cons]
  exact List.perm_middle.flatMap_right g

theorem release_succeeds
    (h : Holds (Pool.empty budget) fleet.pool (fleet.threads.flatMap Thread.holdings))
    {t : Thread κ} (ht : t ∈ fleet.threads) :
    (∀ f ∈ t.frames, (f.release fleet.pool).failure = none) ∧
      (t.abandon fleet.pool).1.failure = none := by
  obtain ⟨others, hothers⟩ := flatMap_perm_of_mem Thread.holdings ht
  have hthread : Holds (Pool.empty budget) fleet.pool (t.holdings ++ others) := h.perm hothers
  constructor
  · intro f hf
    obtain ⟨rest, hrest⟩ := flatMap_perm_of_mem Frame.holdings hf
    have hframe : Holds (Pool.empty budget) fleet.pool (f.holdings ++ (rest ++ others)) := by
      rw [← List.append_assoc]
      exact hthread.perm (hrest.append_right others)
    exact (Frame.release_holds hframe).1
  · exact (Thread.releaseFrames_holds (r := Release.start fleet.pool) t.frames hthread).1

/-- Whatever is done with a domain and its threads, as long as no thread with
frames gets lost, slots in pool storage and live cells belong together one to one
and agree on type and role. So no release of a frame or a thread ever fails. -/
theorem slots_own_pool {ctx : Context κ} (hctx : ctx.Disciplined) (poolBytes : Nat)
    (loader : Option Loader) (level : Level) (actions : List FleetAction)
    (hcareful : FleetAction.AllCareful ctx actions (fresh poolBytes loader level)) :
    let fleet := FleetAction.performAll ctx actions (fresh poolBytes loader level)
    fleet.OwnsPool ∧
      ∀ t ∈ fleet.threads, (∀ f ∈ t.frames, (f.release fleet.pool).failure = none) ∧
        (t.abandon fleet.pool).1.failure = none := by
  intro fleet
  have hfresh : HoldsAll (Pool.empty poolBytes) (fresh poolBytes loader level : Fleet κ).threads
      (fresh poolBytes loader level : Fleet κ).domain :=
    ⟨fun t ht => (List.not_mem_nil ht).elim, Holds.refl _⟩
  have hfleet := (holdsAll_kept hctx (Pool.empty poolBytes)).performAll actions _
    (Or.inr hcareful) hfresh
  refine ⟨ownsPool_of_holds hfleet.holds, ?_⟩
  intro t ht
  exact release_succeeds hfleet.holds ht

/-- A thread with an argument and a local in the pool, while another one given to
the scheduler fails and is aborted. -/
def abortedBeside : List FleetAction :=
  [.create 1, .act 0 (.host (.push (.int32 7))),
    .act 0 (.host (.call 0 Interpreter.smallMethod)), .act 0 .transition, .act 0 .transition,
    .create 2, .act 0 (.host (.call 0 Interpreter.smallMethod)), .spawn 0, .tick]

theorem slots_own_pool_beside_abort :
    let ctx := Interpreter.smallContext { releaseOnAbort := true }
    let start : Fleet Empty := fresh 64 none .error
    let fleet := FleetAction.performAll ctx abortedBeside start
    ctx.Disciplined ∧ FleetAction.AllCareful ctx abortedBeside start ∧
      fleet.pool.cells.map Cell.handle = [2, 1] ∧ fleet.threads.map Thread.id = [1] ∧
      fleet.OwnsPool ∧
      ∀ t ∈ fleet.threads, (∀ f ∈ t.frames, (f.release fleet.pool).failure = none) ∧
        (t.abandon fleet.pool).1.failure = none := by
  intro ctx start fleet
  have hctx : ctx.Disciplined := Interpreter.plainContext_disciplined _ _ _
  let waiting := FleetAction.performAll ctx (abortedBeside.take 8) start
  have hspares : World.Spares ctx (World.tick ctx waiting.world) := by
    cases World.tick ctx waiting.world with
    | ok live w => trivial
    | error e w => rfl
  have hcareful : FleetAction.AllCareful ctx abortedBeside start :=
    ⟨trivial, trivial, trivial, trivial, trivial, trivial, trivial, trivial, hspares, trivial⟩
  have hcells : fleet.pool.cells.map Cell.handle = [2, 1] := by decide +kernel
  have hthreads : fleet.threads.map Thread.id = [1] := by decide +kernel
  exact ⟨hctx, hcareful, hcells, hthreads,
    slots_own_pool hctx 64 none .error abortedBeside hcareful⟩

end Fleet

end ManagedCalls
