import ManagedCalls.Proofs.FrameIsolation
import ManagedCalls.Proofs.PoolAccounting
import ManagedCalls.Proofs.Roster

/-!
What becomes of a thread whose step fails, and of its storage. The tick ends and the
thread leaves the scheduler, while all others stay. If the scheduler releases what
the thread owned, every one of its cells is freed once and the pool belongs to the
remaining threads again. If not, its cells stay as they were at the failure, and
nothing that happens to the remaining threads reaches them.
-/

namespace ManagedCalls

open Stateful Pool

variable {κ : Type}

namespace Pool

/-- Frees some handles one after the other; all of them must be live when their turn
comes. -/
def freeAll : List Nat → Pool → Except Fault Pool
  | [], p => .ok p
  | handle :: rest, p =>
    match p.free handle with
    | .ok p' => freeAll rest p'
    | .error e => .error e

variable {base p p' : Pool}

theorem freeAll_cons {handle : Nat} {rest : List Nat} (h : freeAll (handle :: rest) p = .ok p') :
    ∃ p₁, p.free handle = .ok p₁ ∧ freeAll rest p₁ = .ok p' := by
  cases hfree : p.free handle with
  | ok p₁ => exact ⟨p₁, rfl, by simpa [freeAll, hfree] using h⟩
  | error e => simp [freeAll, hfree] at h

theorem freeAll_append {first rest : List Nat} (h : freeAll (first ++ rest) p = .ok p') :
    ∃ p₁, freeAll first p = .ok p₁ ∧ freeAll rest p₁ = .ok p' := by
  induction first generalizing p with
  | nil => exact ⟨p, rfl, h⟩
  | cons handle others ih =>
    obtain ⟨p₁, hfree, hothers⟩ := freeAll_cons h
    obtain ⟨p₂, hfirst, hrest⟩ := ih hothers
    exact ⟨p₂, by rw [freeAll, hfree]; exact hfirst, hrest⟩

theorem frees_freeAll {handles : List Nat} (h : freeAll handles p = .ok p') :
    p'.frees = p.frees + handles.length := by
  induction handles generalizing p with
  | nil => rw [Except.ok.inj h]; rfl
  | cons handle rest ih =>
    obtain ⟨p₁, hfree, hrest⟩ := freeAll_cons h
    obtain ⟨c, -, rfl⟩ := free_eq_ok.mp hfree
    rw [ih hrest, List.length_cons]
    dsimp only
    omega

theorem find?_freeAll {handles : List Nat} (h : freeAll handles p = .ok p') {other : Nat}
    (hother : other ∉ handles) : p'.find? other = p.find? other := by
  induction handles generalizing p with
  | nil => rw [Except.ok.inj h]
  | cons handle rest ih =>
    obtain ⟨hne, hrest⟩ := not_or.mp (mt List.mem_cons.mpr hother)
    obtain ⟨p₁, hfree, hfreed⟩ := freeAll_cons h
    rw [ih hfreed hrest]
    exact find?_free_of_ne hfree hne

/-- Storage that is held can be freed, and the rest is held still. -/
theorem Holds.freeAll {held others : List Holding} (h : Holds base p (held ++ others)) :
    ∃ p', Pool.freeAll (held.map Holding.handle) p = .ok p' ∧ Holds base p' others := by
  induction held generalizing p with
  | nil => exact ⟨p, rfl, h⟩
  | cons x rest ih =>
    obtain ⟨p₁, hfree, hrest⟩ := h.free
    obtain ⟨p', hfreed, hothers⟩ := ih hrest
    exact ⟨p', by rw [List.map_cons, Pool.freeAll, hfree]; exact hfreed, hothers⟩

end Pool

/-- Releasing slots frees their handles in a row. -/
theorem Release.pool_slots {role : SlotRole} {ss : List Slot} {r : Release} {p : Pool}
    (h : freeAll ((Slot.holdings role ss).map Holding.handle) r.pool = .ok p) :
    (r.slots ss).pool = p := by
  induction ss generalizing r with
  | nil => exact Except.ok.inj h
  | cons s rest ih =>
    cases s with
    | pooled handle type =>
      obtain ⟨p₁, hfree, hrest⟩ := freeAll_cons h
      have hslot : (r.slot (.pooled handle type)).pool = p₁ := by
        simp [Release.slot, Slot.release, hfree, Except.map]
      exact ih (r := r.slot (.pooled handle type)) (by rw [hslot]; exact hrest)
    | inline v => exact ih (r := r.slot (.inline v)) h
    | pending type => exact ih (r := r.slot (.pending type)) h

theorem Frame.pool_release {f : Frame κ} {p p' : Pool} (h : freeAll f.handles p = .ok p') :
    (f.release p).pool = p' := by
  rw [Frame.handles, Frame.holdings, List.map_append] at h
  obtain ⟨p₁, harguments, hlocals⟩ := freeAll_append h
  have hfirst : ((Release.start p).slots f.arguments).pool = p₁ := Release.pool_slots harguments
  have hslots : f.release p = ((Release.start p).slots f.arguments).slots f.locals :=
    List.foldl_append
  rw [hslots]
  exact Release.pool_slots (by rw [hfirst]; exact hlocals)

namespace Thread

/-- The handles of the pool storage that the frames of a thread own. -/
def handles (t : Thread κ) : List Nat := t.holdings.map Holding.handle

theorem pool_releaseFrames {fs : List (Frame κ)} {r : Release} {p : Pool}
    (h : freeAll (fs.flatMap Frame.handles) r.pool = .ok p) : (releaseFrames fs r).pool = p := by
  induction fs generalizing r with
  | nil => exact Except.ok.inj h
  | cons f rest ih =>
    rw [List.flatMap_cons] at h
    obtain ⟨p₁, hfirst, hrest⟩ := freeAll_append h
    rw [← Frame.pool_release hfirst] at hrest
    unfold releaseFrames
    dsimp only
    split
    · exact ih hrest
    · exact ih hrest

/-- All storage of a thread is given back, cell by cell, and no other. -/
structure GivesBack (t : Thread κ) (p p' : Pool) : Prop where
  freed : freeAll t.handles p = .ok p'
  frees_eq : p'.frees = p.frees + t.handles.length
  gone : ∀ handle ∈ t.handles, p'.find? handle = none
  others : ∀ handle ∉ t.handles, p'.find? handle = p.find? handle

theorem releasedPool_holds {base p : Pool} {others : List Holding} {t : Thread κ}
    (h : Holds base p (t.holdings ++ others)) :
    freeAll t.handles p = .ok (t.releasedPool p) ∧ Holds base (t.releasedPool p) others := by
  obtain ⟨p', hfreed, hothers⟩ := h.freeAll
  have hpool : t.releasedPool p = p' := by
    rw [Thread.holdings, List.map_flatMap] at hfreed
    exact pool_releaseFrames hfreed
  rw [hpool]
  exact ⟨hfreed, hothers⟩

theorem releasedPool_sameAt {base p : Pool} {others : List Holding} {t : Thread κ}
    (h : Holds base p (t.holdings ++ others)) : SameAt p (t.releasedPool p) others := by
  intro x hx
  have hnodup := h.nodup
  rw [List.map_append] at hnodup
  refine find?_freeAll (releasedPool_holds h).1 fun hmem => ?_
  exact List.disjoint_of_nodup_append hnodup hmem (List.mem_map_of_mem hx)

theorem givesBack {budget : Nat} {p : Pool} {others : List Holding} {t : Thread κ}
    (h : Holds (Pool.empty budget) p (t.holdings ++ others)) :
    t.GivesBack p (t.releasedPool p) where
  freed := (releasedPool_holds h).1
  frees_eq := frees_freeAll (releasedPool_holds h).1
  gone := by
    intro handle hmem
    have hnodup := h.nodup
    rw [List.map_append] at hnodup
    have hout := List.disjoint_of_nodup_append hnodup hmem
    exact Option.not_isSome_iff_eq_none.mp (mt (releasedPool_holds h).2.contains_iff.mp hout)
  others := fun handle hmem => find?_freeAll (releasedPool_holds h).1 hmem

end Thread

/-- What is done to one thread leaves storage of others as it was. -/
theorem sameAt_kept {ctx : Context κ} (hctx : ctx.Disciplined) (base start : Pool)
    {others kept : List Holding} (hsub : kept ⊆ others) :
    Kept ctx fun t d => (t.WellFormed ∧ Holds base d.pool (t.holdings ++ others)) ∧
      SameAt start d.pool kept where
  host := by
    rintro t d t' d' hrule ⟨hkept, hsame⟩
    have hstep := (hrule.sameAt hkept.2).mono fun x hx => List.mem_append_right _ (hsub hx)
    exact ⟨(holds_kept hctx base others).host hrule hkept, hsame.trans hstep⟩
  transition := by
    rintro t d r t' d' hrule ⟨hkept, hsame⟩
    have hstep := (hrule.sameAt hctx hkept.2).mono fun x hx => List.mem_append_right _ (hsub hx)
    exact ⟨(holds_kept hctx base others).transition hrule hkept, hsame.trans hstep⟩
  abandon := by
    rintro t d ⟨hkept, hsame⟩
    have hstep := (Thread.releasedPool_sameAt hkept.2).mono hsub
    exact ⟨(holds_kept hctx base others).abandon hkept, hsame.trans hstep⟩

/-- A thread that no longer takes part keeps its storage beside that of the others,
and its cells do not change. -/
theorem leaked_kept {ctx : Context κ} (hctx : ctx.Disciplined) (base start : Pool)
    (leaver : Thread κ) :
    FleetKept ctx True fun ts d =>
      HoldsAmong base (leaver :: ts) d ∧ SameAt start d.pool leaver.holdings where
  perm := by
    rintro ts ts' d hperm ⟨hholds, hsame⟩
    exact ⟨(holdsAmong_kept hctx base).perm (hperm.cons leaver) hholds, hsame⟩
  create := by
    rintro ts d id ⟨hholds, hsame⟩
    have hnew := (holdsAmong_kept hctx base).create id hholds
    exact ⟨(holdsAmong_kept hctx base).perm (.swap _ _ _) hnew, hsame⟩
  act := by
    rintro ts a m ⟨hholds, hsame⟩
    have hfront := (holdsAmong_kept hctx base).perm (.swap _ _ _) hholds
    have hacted := (holdsAmong_kept hctx base).act a m hfront
    obtain ⟨lost, hold⟩ := hfront.front List.getElem?_cons_zero
    have hsub : leaver.holdings ⊆ (leaver :: ts).flatMap Thread.holdings ++ lost := by
      intro x hx
      rw [List.flatMap_cons, List.append_assoc]
      exact List.mem_append_left _ hx
    have hthread : m.thread.WellFormed := hfront.wellFormed _ List.mem_cons_self
    have hkept := (sameAt_kept hctx base start hsub).perform a ⟨⟨hthread, hold⟩, hsame⟩
    exact ⟨(holdsAmong_kept hctx base).perm (.swap _ _ _) hacted, hkept.2⟩
  gone := by
    rintro t ts d hgone ⟨hholds, hsame⟩
    have hfront := (holdsAmong_kept hctx base).perm (.swap _ _ _) hholds
    exact ⟨(holdsAmong_kept hctx base).gone hgone hfront, hsame⟩
  domain := by
    rintro ts d a ⟨hholds, hsame⟩
    refine ⟨(holdsAmong_kept hctx base).domain a hholds, ?_⟩
    rw [DomainAction.perform_pool]
    exact hsame

namespace Fleet

variable {fleet : Fleet κ} {budget : Nat}

theorem holdsAmong {ctx : Context κ} (hctx : ctx.Disciplined) (poolBytes : Nat)
    (loader : Option Loader) (level : Level) (moves : List FleetMove) :
    HoldsAmong (Pool.empty poolBytes)
      (FleetMove.performAll ctx moves (fresh poolBytes loader level)).threads
      (FleetMove.performAll ctx moves (fresh poolBytes loader level)).domain :=
  (holdsAmong_kept hctx (Pool.empty poolBytes)).performMoves moves _
    ⟨fun _ ht => (List.not_mem_nil ht).elim, [], Holds.refl _⟩

/-- In a pool that belongs to the threads nothing was lost. -/
theorem OwnsPool.holdsAll (h : fleet.OwnsPool)
    (hamong : HoldsAmong (Pool.empty budget) fleet.threads fleet.domain) :
    HoldsAll (Pool.empty budget) fleet.threads fleet.domain := by
  obtain ⟨hwf, lost, hholds⟩ := hamong
  have hnone : lost = [] := by
    rw [List.eq_nil_iff_forall_not_mem]
    intro x hx
    obtain ⟨c, hc, rfl⟩ := List.mem_map.mp
      (hholds.cells_perm.mem_iff.mpr (List.mem_append_right _ hx))
    obtain ⟨place, hslot, -⟩ := h.owned c hc
    obtain ⟨t, f, ht, hf, hs⟩ := exists_of_slot? hslot
    have hown : c.handle ∈ (fleet.threads.flatMap Thread.holdings).map Holding.handle := by
      rw [List.map_flatMap]
      exact List.mem_flatMap.mpr ⟨t, List.mem_of_getElem? ht, (handle_mem hf hs).2⟩
    have hnodup := hholds.nodup
    rw [List.map_append] at hnodup
    exact List.disjoint_of_nodup_append hnodup hown (List.mem_map_of_mem hx)
  rw [hnone, List.append_nil] at hholds
  exact ⟨hwf, hholds⟩

/-- A pool without more cells than the threads know of belongs to them. -/
theorem ownsPool_of_length (h : HoldsAmong (Pool.empty budget) fleet.threads fleet.domain)
    (hlength : fleet.pool.cells.length ≤ (fleet.threads.flatMap Thread.holdings).length) :
    fleet.OwnsPool := by
  obtain ⟨-, lost, hholds⟩ := h
  have hcount := hholds.cells_perm.length_eq
  rw [List.length_map, List.length_append] at hcount
  have hnone : lost = [] := by
    rw [← List.length_eq_zero_iff]
    dsimp only [pool] at hlength
    omega
  rw [hnone, List.append_nil] at hholds
  exact ownsPool_of_holds hholds

end Fleet

namespace World

/-- A scheduler that has begun its next tick. -/
def counted (w : World κ) : World κ :=
  { w with scheduler := { w.scheduler with ticks := w.scheduler.ticks + 1 } }

/-- In a tick the threads before one place have had their turns, and the step of the
thread at this place fails. -/
def BreaksAt (ctx : Context κ) (w : World κ) (place : Nat) (why : Fault) (m : Machine κ) : Prop :=
  ∃ before t, w.scheduler.threads[place]? = some t ∧
    stepThreads ctx place w.counted = .ok () before ∧ before.scheduler.threads.head? = some t ∧
    step ctx ⟨t, before.domain, before.log⟩ = .error why m

end World

namespace Roster

/-- Threads with numbers in their order. -/
def numbered (first : Nat) (ts : List (Thread κ)) : List (Enrolled κ) :=
  (ts.zipIdx first).map fun x => ⟨x.2, x.1⟩

theorem map_thread_numbered (first : Nat) (ts : List (Thread κ)) :
    (numbered first ts).map Enrolled.thread = ts := by
  rw [numbered, List.map_map]
  exact List.zipIdx_map_fst first ts

theorem numbers_numbered (first : Nat) (ts : List (Thread κ)) :
    numbers (numbered first ts) = List.range' first ts.length := by
  rw [numbers, numbered, List.map_map]
  exact List.zipIdx_map_snd first ts

/-- A scheduler as it is. The live threads are numbered by their places, and the
finished ones after them. -/
def enroll (w : World κ) : Roster κ :=
  { live := numbered 0 w.scheduler.threads
    finished := numbered w.scheduler.threads.length w.scheduler.finished
    aborted := []
    ticks := w.scheduler.ticks
    domain := w.domain
    log := w.log
    history := [] }

theorem world_enroll (w : World κ) : (enroll w).world = w := by
  rw [world, enroll, map_thread_numbered, map_thread_numbered]

theorem numbers_enroll (w : World κ) :
    numbers (enroll w).live ++ numbers (enroll w).finished =
      List.range (w.scheduler.threads.length + w.scheduler.finished.length) := by
  rw [enroll, numbers_numbered, numbers_numbered, List.range_eq_range']
  simpa using List.range'_append_1 (s := 0) (m := w.scheduler.threads.length)
    (n := w.scheduler.finished.length)

@[simp] theorem abort_live (ctx : Context κ) (r : Roster κ) (rest : List (Enrolled κ))
    (number : Nat) (m : Machine κ) (why : Fault) : (r.abort ctx rest number m why).live = rest :=
  List.append_nil rest

@[simp] theorem abort_finished (ctx : Context κ) (r : Roster κ) (rest : List (Enrolled κ))
    (number : Nat) (m : Machine κ) (why : Fault) :
    (r.abort ctx rest number m why).finished = r.finished :=
  List.append_nil r.finished

@[simp] theorem abort_aborted (ctx : Context κ) (r : Roster κ) (rest : List (Enrolled κ))
    (number : Nat) (m : Machine κ) (why : Fault) :
    (r.abort ctx rest number m why).aborted = r.aborted ++ [⟨number, m.thread⟩] := rfl

theorem abort_domain (ctx : Context κ) (r : Roster κ) (rest : List (Enrolled κ)) (number : Nat)
    (m : Machine κ) (why : Fault) :
    (r.abort ctx rest number m why).domain =
      if ctx.config.releaseOnAbort = true then
        m.domain.withPool (m.thread.releasedPool m.domain.pool)
      else m.domain := by
  refine (World.abort_domain ctx _ m.thread why).trans ?_
  rw [(after_abandon _).2]
  rfl

/-- What is kept of all threads still holds when one of them fails. That one comes
first. -/
theorem FailsAt.kept {ctx : Context κ} {r before : Roster κ} {place : Nat} {first : Enrolled κ}
    {rest : List (Enrolled κ)} {e : Fault} {m : Machine κ}
    (h : FailsAt ctx r place before first rest e m) {lossy : Prop}
    {P : List (Thread κ) → Domain → Prop} (hkept : FleetKept ctx lossy P) (held : List (Thread κ))
    (hr : FleetKept.OfWorld P held r.world) :
    P (m.thread :: (held ++ (rest.map Enrolled.thread ++ before.finished.map Enrolled.thread)))
      m.domain := by
  have hreached : World.stepThreads ctx place r.world = .ok () before.world := by
    rw [world_stepThreads, h.reached]
    rfl
  have hbefore := hkept.stepThreads held place r.world hr (Or.inr (by rw [hreached]; trivial))
  rw [after_of_ok hreached, FleetKept.OfWorld, world, h.live_eq] at hbefore
  have hstep := hkept.step ⟨first.thread, before.domain, before.log⟩
    (hkept.perm List.perm_middle hbefore)
  rwa [after_of_error h.fails] at hstep

/-- A tick that fails does so at some place, and the thread there is aborted. -/
theorem tick_fails {ctx : Context κ} {w : World κ} {e : Fault}
    (h : outcome (World.tick ctx) w = .error e) :
    ∃ place before first rest m, FailsAt ctx (enroll w.counted) place before first rest e m ∧
      tick ctx (enroll w) =
        .error e ((before.abort ctx rest first.number m e).write (.tickEnded true)) := by
  have hplain := world_tick ctx (enroll w)
  rw [world_enroll] at hplain
  cases hrun : stepThreads ctx (enroll w).live.length
      { enroll w with ticks := (enroll w).ticks + 1 } with
  | ok done r' =>
    have htick : tick ctx (enroll w) = .ok (!r'.live.isEmpty) (r'.write (.tickEnded false)) := by
      rw [tick, hrun]
    rw [htick] at hplain
    rw [outcome_of_ok hplain] at h
    cases h
  | error e' r' =>
    have htick : tick ctx (enroll w) = .error e' (r'.write (.tickEnded true)) := by
      rw [tick, hrun]
    rw [htick] at hplain
    rw [outcome_of_error hplain] at h
    obtain rfl : e' = e := Except.error.inj h
    obtain ⟨place, before, first, rest, m, -, hfails, rfl⟩ :=
      stepThreads_fails (r := enroll w.counted) (Nat.le_refl _) hrun
    exact ⟨place, before, first, rest, m, hfails, htick⟩

theorem FailsAt.breaksAt {ctx : Context κ} {w : World κ} {before : Roster κ} {place : Nat}
    {first : Enrolled κ} {rest : List (Enrolled κ)} {e : Fault} {m : Machine κ}
    (h : FailsAt ctx (enroll w.counted) place before first rest e m) :
    w.BreaksAt ctx place e m := by
  refine ⟨before.world, first.thread, ?_, ?_, ?_, h.fails⟩
  · have hthreads : (enroll w.counted).live.map Enrolled.thread = w.scheduler.threads :=
      map_thread_numbered 0 w.scheduler.threads
    rw [← hthreads, List.getElem?_map, h.place_eq]
    rfl
  · rw [← world_enroll w.counted, world_stepThreads, h.reached]
    rfl
  · rw [world, h.live_eq]
    rfl

/-- Who is where after a tick that failed: one thread is aborted, the others are live
or finished. -/
theorem FailsAt.numbers_perm {ctx : Context κ} {w : World κ} {before : Roster κ} {place : Nat}
    {first : Enrolled κ} {rest : List (Enrolled κ)} {e : Fault} {m : Machine κ}
    (h : FailsAt ctx (enroll w) place before first rest e m) :
    first.number = place ∧ before.aborted = [] ∧
      (place :: (numbers rest ++ numbers before.finished)).Perm
        (List.range (w.scheduler.threads.length + w.scheduler.finished.length)) := by
  have hnumber : (numbers (enroll w).live)[place]? = some first.number := by
    rw [numbers, List.getElem?_map, h.place_eq]
    rfl
  rw [enroll, numbers_numbered, List.getElem?_eq_some_iff] at hnumber
  obtain ⟨hlt, heq⟩ := hnumber
  rw [List.getElem_range'] at heq
  have hplace : first.number = place := by omega
  have hturns := stepThreads_steps ctx place (enroll w)
    (Nat.le_of_lt (List.getElem?_eq_some_iff.mp h.place_eq).1)
  rw [h.reached] at hturns
  obtain ⟨told, hturned, -, hnone⟩ := hturns
  have haborted : before.aborted = [] := by
    have hnumbers := hturned.aborted_eq
    rw [hnone, List.append_nil] at hnumbers
    exact List.map_eq_nil_iff.mp hnumbers
  have hperm := hturned.perm
  rw [h.live_eq, haborted, numbers_cons, hplace] at hperm
  refine ⟨hplace, haborted, ?_⟩
  rw [← numbers_enroll]
  simpa [numbers, enroll] using hperm

end Roster

namespace Fleet

open Roster

section

variable {fleet : Fleet κ} {m : Machine κ} {budget : Nat}

/-- The remaining threads own the pool when the one that left has given all back. -/
theorem owns_released (h : HoldsAll (Pool.empty budget) (m.thread :: fleet.threads) m.domain)
    (hpool : fleet.pool = m.thread.releasedPool m.domain.pool) :
    m.thread.GivesBack m.domain.pool fleet.pool ∧ fleet.OwnsPool := by
  have hholds := h.holds
  rw [List.flatMap_cons] at hholds
  have hrest : Holds (Pool.empty budget) fleet.pool (fleet.threads.flatMap Thread.holdings) := by
    rw [hpool]
    exact (Thread.releasedPool_holds hholds).2
  refine ⟨?_, ownsPool_of_holds hrest⟩
  rw [hpool]
  exact Thread.givesBack hholds

/-- The cells of a thread that left without giving them back stay. -/
theorem find?_leaked {ctx : Context κ} (hctx : ctx.Disciplined)
    (h : HoldsAll (Pool.empty budget) (m.thread :: fleet.threads) m.domain)
    (hdomain : fleet.domain = m.domain) (later : List FleetMove) {handle : Nat}
    (hmem : handle ∈ m.thread.handles) :
    (FleetMove.performAll ctx later fleet).pool.find? handle = m.domain.pool.find? handle := by
  have hleaked := leaked_kept hctx (Pool.empty budget) m.domain.pool m.thread
  have hstart : HoldsAmong (Pool.empty budget) (m.thread :: fleet.threads) fleet.domain := by
    rw [hdomain]
    exact ⟨h.wellFormed, [], by rw [List.append_nil]; exact h.holds⟩
  have hsame : SameAt m.domain.pool fleet.domain.pool m.thread.holdings := by
    rw [hdomain]
    exact .refl _ _
  obtain ⟨x, hx, rfl⟩ := List.mem_map.mp hmem
  exact (hleaked.performMoves later fleet ⟨hstart, hsame⟩).2 x hx

end

/-- Whenever a tick fails where the threads own the whole pool, the thread at one
place of the queue has failed and is aborted, and all others are live or finished
still. With release on abort, just its storage is freed, each cell once, and the
remaining threads own the whole pool again. Without, all its cells stay as they
were at the failure, whatever happens later. -/
theorem abort_accounts {ctx : Context κ} (hctx : ctx.Disciplined) (poolBytes : Nat)
    (loader : Option Loader) (level : Level) (moves : List FleetMove)
    (hown : (FleetMove.performAll ctx moves (fresh poolBytes loader level)).OwnsPool) {why : Fault}
    (herror : outcome (World.tick ctx)
      (FleetMove.performAll ctx moves (fresh poolBytes loader level)).world = .error why) :
    let fleet := FleetMove.performAll ctx moves (fresh poolBytes loader level)
    let fleet' := FleetAction.tick.perform ctx fleet
    ∃ place m r', fleet.world.BreaksAt ctx place why m ∧
      Roster.tick ctx (enroll fleet.world) = .error why r' ∧ r'.world = fleet'.world ∧
      r'.aborted = [⟨place, m.thread⟩] ∧
      (place :: (numbers r'.live ++ numbers r'.finished)).Perm (List.range
        (fleet.world.scheduler.threads.length + fleet.world.scheduler.finished.length)) ∧
      m.thread.handles.Nodup ∧
      (∀ x ∈ m.thread.holdings, ∃ c, m.domain.pool.find? x.handle = some c ∧ c.holding = x) ∧
      (ctx.config.releaseOnAbort = true →
        m.thread.GivesBack m.domain.pool fleet'.pool ∧ fleet'.OwnsPool) ∧
      (ctx.config.releaseOnAbort = false → fleet'.domain = m.domain ∧
        ∀ (later : List FleetMove), ∀ handle ∈ m.thread.handles,
          (FleetMove.performAll ctx later fleet').pool.find? handle =
            m.domain.pool.find? handle) := by
  intro fleet fleet'
  obtain ⟨place, before, first, rest, m, hfails, htick⟩ := tick_fails herror
  obtain ⟨rfl, haborted, hperm⟩ := hfails.numbers_perm
  let r' := (before.abort ctx rest first.number m why).write (.tickEnded true)
  have hafter : r'.world = fleet'.world := by
    have hplain := world_tick ctx (enroll fleet.world)
    rw [htick, world_enroll] at hplain
    exact (after_of_error hplain).symm
  have hthreads : fleet'.threads =
      fleet.held ++ (rest.map Enrolled.thread ++ before.finished.map Enrolled.thread) := by
    rw [Fleet.threads, ← hafter]
    simp [fleet', FleetAction.perform, r', Roster.world, write]
  have hdomain : fleet'.domain = if ctx.config.releaseOnAbort = true then
      m.domain.withPool (m.thread.releasedPool m.domain.pool) else m.domain := by
    rw [Fleet.domain, ← hafter]
    exact abort_domain ctx before rest first.number m why
  have hfleet := hown.holdsAll (holdsAmong hctx poolBytes loader level moves)
  have hm := hfails.kept (holdsAll_kept hctx (Pool.empty poolBytes)) fleet.held
    (by rw [world_enroll]; exact hfleet)
  rw [← hthreads] at hm
  have hholds := hm.holds
  rw [List.flatMap_cons] at hholds
  have hnodup := hholds.nodup
  rw [List.map_append] at hnodup
  refine ⟨first.number, m, r', hfails.breaksAt, htick, hafter, ?_, ?_, hnodup.of_append_left, ?_,
    ?_, ?_⟩
  · simp [r', write, haborted]
  · simpa [r', write, fleet, World.counted] using hperm
  · exact fun x hx => hholds.find? (List.mem_append_left _ hx)
  · intro hrelease
    rw [if_pos hrelease] at hdomain
    exact owns_released hm (congrArg Domain.pool hdomain)
  · intro hkeep
    rw [hkeep, if_neg Bool.false_ne_true] at hdomain
    exact ⟨hdomain, fun later handle hmem => find?_leaked hctx hm hdomain later hmem⟩

/-- Two threads that run one method each. The second one has called a method without
its argument, which the next transition will notice. -/
def argumentMissing : List FleetMove :=
  let activate : List FleetMove :=
    [.action (.act 0 (.host (.push (.int32 7)))),
      .action (.act 0 (.host (.call 0 Interpreter.smallMethod))), .turn 0, .turn 0]
  .action (.create 1) :: activate ++ [.action (.spawn 0), .action (.create 2)] ++ activate ++
    [.action (.act 0 (.host (.call 0 Interpreter.smallMethod))), .turn 0, .action (.spawn 0)]

theorem abort_accounts_below_callee :
    let ctx (release : Bool) :=
      Interpreter.smallContext { maxTransitions := 1, releaseOnAbort := release }
    let fleet (release : Bool) : Fleet Empty :=
      FleetMove.performAll (ctx release) argumentMissing (fresh 64 none .error)
    let fleet' (release : Bool) := FleetAction.tick.perform (ctx release) (fleet release)
    (∀ release, (ctx release).Disciplined ∧ (fleet release).OwnsPool ∧
      (fleet release).threads.map Thread.id = [1, 2] ∧
      (fleet' release).threads.map Thread.id = [1] ∧
      ∃ why, outcome (World.tick (ctx release)) (fleet release).world = .error why) ∧
    ((fleet' true).pool.frees = 2 ∧ (fleet' true).pool.find? 3 = none ∧ (fleet' true).OwnsPool) ∧
    ((fleet' false).pool.frees = 0 ∧ (fleet' false).pool.contains 3 = true ∧
      ∀ later, (FleetMove.performAll (ctx false) later (fleet' false)).pool.find? 3 =
        (fleet' false).pool.find? 3) := by
  intro ctx fleet fleet'
  have hctx (release : Bool) : (ctx release).Disciplined :=
    Interpreter.plainContext_disciplined _ _ _
  have hown (release : Bool) : (fleet release).OwnsPool := by
    refine ownsPool_of_length (holdsAmong (hctx release) 64 none .error argumentMissing) ?_
    cases release with
    | true => decide +kernel
    | false => decide +kernel
  have hids : ∀ release, (fleet release).threads.map Thread.id = [1, 2] ∧
      (fleet' release).threads.map Thread.id = [1] := by decide +kernel
  have hfailed : ∀ release,
      (outcome (World.tick (ctx release)) (fleet release).world).isOk = false := by decide +kernel
  have herror (release : Bool) :
      ∃ why, outcome (World.tick (ctx release)) (fleet release).world = .error why := by
    cases hrun : outcome (World.tick (ctx release)) (fleet release).world with
    | ok live => simpa [hrun, Except.isOk, Except.toBool] using hfailed release
    | error why => exact ⟨why, rfl⟩
  have haborted : ∀ release, (after (Roster.tick (ctx release))
      (enroll (fleet release).world)).aborted.map (fun e => e.thread.handles) = [[3, 4]] := by
    decide +kernel
  have hmem {release : Bool} {why : Fault} {r' : Roster Empty} {place : Nat} {t : Thread Empty}
      (htick : Roster.tick (ctx release) (enroll (fleet release).world) = .error why r')
      (hgone : r'.aborted = [⟨place, t⟩]) : 3 ∈ t.handles := by
    have hhandles := haborted release
    rw [after_of_error htick, hgone] at hhandles
    have hown : t.handles = [3, 4] := List.singleton_inj.mp hhandles
    rw [hown]
    exact List.mem_cons_self
  refine ⟨fun release => ⟨hctx release, hown release, (hids release).1, (hids release).2,
    herror release⟩, ?_, ?_⟩
  · obtain ⟨why, hwhy⟩ := herror true
    obtain ⟨place, m, r', -, htick, -, hgone, -, -, -, hreleased, -⟩ :=
      abort_accounts (hctx true) 64 none .error argumentMissing (hown true) hwhy
    obtain ⟨hback, howns⟩ := hreleased rfl
    exact ⟨by decide +kernel, hback.gone 3 (hmem htick hgone), howns⟩
  · obtain ⟨why, hwhy⟩ := herror false
    obtain ⟨place, m, r', -, htick, -, hgone, -, -, -, -, hleaked⟩ :=
      abort_accounts (hctx false) 64 none .error argumentMissing (hown false) hwhy
    have hstays := (hleaked rfl).2
    refine ⟨by decide +kernel, by decide +kernel, fun later => ?_⟩
    exact (hstays later 3 (hmem htick hgone)).trans (hstays [] 3 (hmem htick hgone)).symm

end Fleet

end ManagedCalls
