import ManagedCalls.Proofs.AbortedThreads

/-!
Releases that meet stale handles: storage of a frame that was freed behind its back.
A stale handle spoils the result but stops nothing. Whatever is still there is freed
once and nothing else is touched, by the teardown of a frame as well as when a thread
is abandoned; the first stale handle is reported, and nothing is left to be released
a second time.
-/

namespace ManagedCalls

open Stateful Pool

variable {κ : Type}

namespace Pool

/-- Those of the handles that are live, in their order. -/
def liveAmong (p : Pool) (handles : List Nat) : List Nat := handles.filter p.contains

/-- The first of the handles that is not live. -/
def firstStale? (p : Pool) (handles : List Nat) : Option Nat :=
  handles.find? fun handle => !p.contains handle

/-- Each cell has a handle of its own. -/
def Distinct (p : Pool) : Prop := (p.cells.map Cell.handle).Nodup

variable {p p' p'' : Pool} {handle : Nat}

theorem Distinct.free (h : p.Distinct) (hfree : p.free handle = .ok p') : p'.Distinct := by
  obtain ⟨c, -, rfl⟩ := free_eq_ok.mp hfree
  exact h.sublist (List.Sublist.map _ List.eraseP_sublist)

/-- Frees handles behind the backs of their owners. Those that are not live are passed
over. -/
def freeSome (p : Pool) (handles : List Nat) : Pool :=
  handles.foldl (fun p handle => (p.free handle).toOption.getD p) p

theorem Distinct.freeSome (h : p.Distinct) (handles : List Nat) :
    (p.freeSome handles).Distinct := by
  induction handles generalizing p with
  | nil => exact h
  | cons handle rest ih =>
    rw [Pool.freeSome, List.foldl_cons]
    cases hfree : p.free handle with
    | error e => exact ih h
    | ok p' => exact ih (h.free hfree)

/-- A handle is gone after its storage was freed. -/
theorem Distinct.find?_free (h : p.Distinct) (hfree : p.free handle = .ok p') :
    p'.find? handle = none := by
  obtain ⟨c, hfind, rfl⟩ := free_eq_ok.mp hfree
  obtain ⟨hc, rfl⟩ := cell_of_find? hfind
  -- the first cell with the handle is erased, and there is no second one
  obtain ⟨first, front, back, hfront, hfirst, hcells, herase⟩ :=
    List.exists_of_eraseP (p := fun x => x.handle == c.handle) hc (beq_self_eq_true _)
  have hnodup : ((front ++ first :: back).map Cell.handle).Nodup := hcells ▸ h
  rw [List.map_append, List.map_cons, List.nodup_append, List.nodup_cons] at hnodup
  have hback : c.handle ∉ back.map Cell.handle := beq_iff_eq.mp hfirst ▸ hnodup.2.1.1
  rw [Pool.find?, herase, List.find?_eq_none]
  intro x hx
  rcases List.mem_append.mp hx with hx | hx
  · exact hfront x hx
  · intro heq
    exact hback (beq_iff_eq.mp heq ▸ List.mem_map_of_mem hx)

theorem Distinct.freeAll (h : p.Distinct) {handles : List Nat}
    (hfreed : Pool.freeAll handles p = .ok p') : p'.Distinct := by
  induction handles generalizing p with
  | nil => exact Except.ok.inj hfreed ▸ h
  | cons handle rest ih =>
    obtain ⟨p₁, hfree, hrest⟩ := freeAll_cons hfreed
    exact ih (h.free hfree) hrest

theorem freeAll_trans {first rest : List Nat} (hfirst : freeAll first p = .ok p')
    (hrest : freeAll rest p' = .ok p'') : freeAll (first ++ rest) p = .ok p'' := by
  induction first generalizing p with
  | nil => exact Except.ok.inj hfirst ▸ hrest
  | cons handle others ih =>
    obtain ⟨p₁, hfree, hothers⟩ := freeAll_cons hfirst
    rw [List.cons_append, freeAll, hfree]
    exact ih hothers

theorem contains_eq_of_find? (h : p'.find? handle = p.find? handle) :
    p'.contains handle = p.contains handle := by
  rw [contains, contains, h]

/-- What is live among some handles is freed, each once and in their order. No handle
is left of them, and under the others nothing has changed. -/
structure Reclaims (p p' : Pool) (handles : List Nat) : Prop where
  freed : freeAll (p.liveAmong handles) p = .ok p'
  frees_eq : p'.frees = p.frees + (p.liveAmong handles).length
  gone : ∀ handle ∈ handles, p'.find? handle = none
  others : ∀ handle ∉ handles, p'.find? handle = p.find? handle

namespace Reclaims

theorem refl (p : Pool) : Reclaims p p [] :=
  ⟨rfl, rfl, fun _ h => (List.not_mem_nil h).elim, fun _ _ => rfl⟩

/-- A handle that is stale already needs nothing. -/
theorem of_stale (h : p.contains handle = false) : Reclaims p p [handle] where
  freed := by simp [liveAmong, h, Pool.freeAll]
  frees_eq := by simp [liveAmong, h]
  gone := by
    intro other hother
    rw [List.mem_singleton.mp hother]
    simpa [contains] using h
  others := fun _ _ => rfl

theorem of_free (hdistinct : p.Distinct) (hfree : p.free handle = .ok p') :
    Reclaims p p' [handle] := by
  have hlive : p.liveAmong [handle] = [handle] := by
    have hcontains := free_succeeds_iff.mp ⟨p', hfree⟩
    simp [liveAmong, hcontains]
  have hfreed : Pool.freeAll (p.liveAmong [handle]) p = .ok p' := by
    rw [hlive, Pool.freeAll, hfree]
    rfl
  refine ⟨hfreed, frees_freeAll hfreed, ?_, ?_⟩
  · intro other hother
    rw [List.mem_singleton.mp hother]
    exact hdistinct.find?_free hfree
  · intro other hother
    exact find?_free_of_ne hfree (mt List.mem_singleton.mpr hother)

variable {handles later : List Nat}

theorem contains_of_disjoint (h : Reclaims p p' handles) (hdisjoint : handles.Disjoint later) :
    ∀ handle ∈ later, p'.contains handle = p.contains handle :=
  fun handle hlater => contains_eq_of_find? (h.others handle fun hmem => hdisjoint hmem hlater)

theorem liveAmong_eq (h : Reclaims p p' handles) (hdisjoint : handles.Disjoint later) :
    p'.liveAmong later = p.liveAmong later :=
  List.filter_congr (h.contains_of_disjoint hdisjoint)

theorem firstStale?_eq (h : Reclaims p p' handles) (hdisjoint : handles.Disjoint later) :
    p'.firstStale? later = p.firstStale? later := by
  rw [firstStale?, firstStale?, ← List.head?_filter, ← List.head?_filter]
  refine congrArg List.head? (List.filter_congr fun handle hmem => ?_)
  rw [h.contains_of_disjoint hdisjoint handle hmem]

theorem trans (h : Reclaims p p' handles) (h' : Reclaims p' p'' later)
    (hdisjoint : handles.Disjoint later) : Reclaims p p'' (handles ++ later) := by
  have hlive : p.liveAmong (handles ++ later) = p.liveAmong handles ++ p'.liveAmong later := by
    rw [h.liveAmong_eq hdisjoint]
    exact List.filter_append ..
  have hfreed : Pool.freeAll (p.liveAmong (handles ++ later)) p = .ok p'' := by
    rw [hlive]
    exact freeAll_trans h.freed h'.freed
  refine ⟨hfreed, frees_freeAll hfreed, ?_, ?_⟩
  · intro handle hmem
    by_cases hlater : handle ∈ later
    · exact h'.gone handle hlater
    · rw [h'.others handle hlater]
      exact h.gone handle ((List.mem_append.mp hmem).resolve_right hlater)
  · intro handle hmem
    obtain ⟨hfirst, hlater⟩ := not_or.mp (mt List.mem_append.mpr hmem)
    rw [h'.others handle hlater, h.others handle hfirst]

theorem distinct (h : Reclaims p p' handles) (hdistinct : p.Distinct) : p'.Distinct :=
  hdistinct.freeAll h.freed

end Reclaims

end Pool

namespace Release

/-- A release went on over some handles: it freed what was live, kept the first failure
and, as long as there is none, has counted what it freed. -/
structure Reclaims (r r' : Release) (handles : List Nat) : Prop where
  pool : r.pool.Reclaims r'.pool handles
  failure_eq : r'.failure = r.failure.or ((r.pool.firstStale? handles).map .invalidHandle)
  released_eq : r'.failure = none →
    r'.released = r.released + (r.pool.liveAmong handles).length

namespace Reclaims

variable {r r' r'' : Release} {handles later : List Nat}

theorem refl (r : Release) : Reclaims r r [] :=
  ⟨.refl r.pool, by simp [firstStale?], fun _ => rfl⟩

theorem trans (h : Reclaims r r' handles) (h' : Reclaims r' r'' later)
    (hdisjoint : handles.Disjoint later) : Reclaims r r'' (handles ++ later) := by
  have hfailure : r''.failure =
      r'.failure.or ((r.pool.firstStale? later).map Fault.invalidHandle) := by
    rw [h'.failure_eq, h.pool.firstStale?_eq hdisjoint]
  refine ⟨h.pool.trans h'.pool hdisjoint, ?_, ?_⟩
  · rw [hfailure, h.failure_eq, Option.or_assoc, ← Option.map_or]
    rw [firstStale?, firstStale?, firstStale?, List.find?_append]
  · intro hnone
    have hnone' : r'.failure = none := by
      rw [hfailure] at hnone
      exact (Option.or_eq_none_iff.mp hnone).1
    rw [h'.released_eq hnone, h.released_eq hnone', h.pool.liveAmong_eq hdisjoint]
    simp only [liveAmong, List.filter_append, List.length_append]
    omega

/-- The result of a release that had not begun. -/
theorem result_eq {p : Pool} (h : Reclaims (Release.start p) r handles) :
    r.result = match p.firstStale? handles with
      | none => .ok (p.liveAmong handles).length
      | some handle => .error (.invalidHandle handle) := by
  have hfailure : r.failure = (p.firstStale? handles).map .invalidHandle := h.failure_eq
  cases hstale : p.firstStale? handles with
  | some handle =>
    rw [hstale] at hfailure
    rw [result, hfailure]
    rfl
  | none =>
    rw [hstale] at hfailure
    have hcount := h.released_eq hfailure
    rw [result, hfailure]
    dsimp only
    rw [hcount]
    simp [Release.start]

end Reclaims

/-- One slot: its handle is freed if it is live and is a failure if it is not. -/
theorem slot_reclaims (r : Release) (hdistinct : r.pool.Distinct) (s : Slot) :
    Reclaims r (r.slot s) s.handle?.toList := by
  cases s with
  | inline v => exact .refl r
  | pending type => exact .refl r
  | pooled handle type =>
    cases hcontains : r.pool.contains handle with
    | true =>
      obtain ⟨p, hfree⟩ := free_succeeds_iff.mpr hcontains
      have hslot : r.slot (.pooled handle type) =
          { r with released := r.released + 1, pool := p } := by
        simp [Release.slot, Slot.release, hfree, Except.map]
      rw [hslot]
      refine ⟨.of_free hdistinct hfree, ?_, fun _ => ?_⟩
      · simp [Slot.handle?, firstStale?, hcontains]
      · simp [Slot.handle?, liveAmong, hcontains]
    | false =>
      have hfind : r.pool.find? handle = none := by simpa [contains] using hcontains
      have hslot : r.slot (.pooled handle type) =
          { r with failure := r.failure.or (some (.invalidHandle handle)) } := by
        simp [Release.slot, Slot.release, Pool.free, hfind, Except.map]
      rw [hslot]
      refine ⟨.of_stale hcontains, ?_, fun _ => ?_⟩
      · simp [Slot.handle?, firstStale?, hcontains]
      · simp [Slot.handle?, liveAmong, hcontains]

/-- All slots in a row, whichever of their handles are stale. -/
theorem slots_reclaims (ss : List Slot) (r : Release) (hdistinct : r.pool.Distinct)
    (hnodup : (ss.filterMap Slot.handle?).Nodup) :
    Reclaims r (r.slots ss) (ss.filterMap Slot.handle?) := by
  induction ss generalizing r with
  | nil => exact .refl r
  | cons s rest ih =>
    have hhandles : (s :: rest).filterMap Slot.handle? =
        s.handle?.toList ++ rest.filterMap Slot.handle? := by
      cases hs : s.handle? with
      | none => simp [hs]
      | some handle => simp [hs]
    rw [hhandles] at hnodup ⊢
    have hone := slot_reclaims r hdistinct s
    have hrest := ih (r.slot s) (hone.pool.distinct hdistinct) hnodup.of_append_right
    exact hone.trans hrest (List.disjoint_of_nodup_append hnodup)

end Release

theorem Slot.map_handle_holdings (role : SlotRole) (ss : List Slot) :
    (Slot.holdings role ss).map Holding.handle = ss.filterMap Slot.handle? := by
  rw [Slot.holdings, List.map_filterMap]
  refine List.filterMap_congr fun s _ => ?_
  cases s with
  | pooled handle type => rfl
  | inline v => rfl
  | pending type => rfl

namespace Frame

variable {f : Frame κ} {p : Pool}

/-- The handles of the arguments come before those of the locals. -/
theorem handles_eq (f : Frame κ) :
    f.handles = (f.arguments ++ f.locals).filterMap Slot.handle? := by
  rw [handles, holdings, List.map_append, Slot.map_handle_holdings, Slot.map_handle_holdings,
    List.filterMap_append]

theorem release_reclaims (hdistinct : p.Distinct) (hnodup : f.handles.Nodup) :
    Release.Reclaims (Release.start p) (f.release p) f.handles := by
  rw [handles_eq] at hnodup ⊢
  exact Release.slots_reclaims _ _ hdistinct hnodup

end Frame

namespace Thread

theorem handles_eq (t : Thread κ) : t.handles = t.frames.flatMap Frame.handles := by
  rw [handles, holdings, List.map_flatMap]
  rfl

/-- The release of a frame goes on in that of its thread, except that a frame with a
failure is not counted. -/
theorem releaseFrames_cons (f : Frame κ) (rest : List (Frame κ)) (r : Release)
    (hdistinct : r.pool.Distinct) (hnodup : f.handles.Nodup) :
    ∃ r₁, releaseFrames (f :: rest) r = releaseFrames rest r₁ ∧
      Release.Reclaims r r₁ f.handles := by
  have hone := Frame.release_reclaims hdistinct hnodup
  have hfailure : (f.release r.pool).failure =
      (r.pool.firstStale? f.handles).map .invalidHandle := hone.failure_eq
  cases hstale : r.pool.firstStale? f.handles with
  | some handle =>
    rw [hstale, Option.map_some] at hfailure
    let r₁ : Release :=
      { r with
        failure := r.failure.or (some (.invalidHandle handle)), pool := (f.release r.pool).pool }
    refine ⟨r₁, by rw [releaseFrames, hfailure], hone.pool, by rw [hstale]; rfl, ?_⟩
    intro hnone
    cases (Option.or_eq_none_iff.mp hnone).2
  | none =>
    rw [hstale, Option.map_none] at hfailure
    let r₁ : Release :=
      { r with
        released := r.released + (f.release r.pool).released, pool := (f.release r.pool).pool }
    refine ⟨r₁, by rw [releaseFrames, hfailure], hone.pool, by rw [hstale]; simp [r₁], ?_⟩
    intro _
    have hcount := hone.released_eq hfailure
    simp only [Release.start, Nat.zero_add] at hcount
    rw [← hcount]

theorem releaseFrames_reclaims (fs : List (Frame κ)) (r : Release) (hdistinct : r.pool.Distinct)
    (hnodup : (fs.flatMap Frame.handles).Nodup) :
    Release.Reclaims r (releaseFrames fs r) (fs.flatMap Frame.handles) := by
  induction fs generalizing r with
  | nil => exact .refl r
  | cons f rest ih =>
    rw [List.flatMap_cons] at hnodup ⊢
    obtain ⟨r₁, hrun, hone⟩ := releaseFrames_cons f rest r hdistinct hnodup.of_append_left
    have hrest := ih r₁ (hone.pool.distinct hdistinct) hnodup.of_append_right
    rw [hrun]
    exact hone.trans hrest (List.disjoint_of_nodup_append hnodup)

theorem abandon_reclaims {t : Thread κ} {p : Pool} (hdistinct : p.Distinct)
    (hnodup : t.handles.Nodup) :
    Release.Reclaims (Release.start p) (t.abandon p).1 t.handles := by
  rw [handles_eq] at hnodup ⊢
  exact releaseFrames_reclaims t.frames (Release.start p) hdistinct hnodup

end Thread

namespace Transition

variable {m : Machine κ} {f : Frame κ} {rest : List (Frame κ)}

/-- A frame in teardown gives back what is there, and leaves if nothing was stale. -/
theorem run_teardown (ctx : Context κ) (htop : m.thread.frames = f :: rest)
    (hstate : f.state = .teardown) (hdistinct : m.domain.pool.Distinct)
    (hnodup : f.handles.Nodup) :
    (∃ p, (after (run ctx) m).domain = m.domain.withPool p ∧
      m.domain.pool.Reclaims p f.handles) ∧
      match m.domain.pool.firstStale? f.handles with
      | none =>
        outcome (run ctx) m = .ok .continue ∧
          (after (run ctx) m).thread = { m.thread with frames := rest }
      | some handle =>
        outcome (run ctx) m = .error (.invalidHandle handle) ∧
          (after (run ctx) m).thread = { m.thread with frames := f.drained :: rest } := by
  have hrule : Follows ctx (run ctx) m := run_follows ctx m
  obtain ⟨hdomain, hleaves⟩ := hrule.torn htop hstate
  have hrelease := Frame.release_reclaims hdistinct hnodup
  have hfailure : (f.release m.domain.pool).failure =
      (m.domain.pool.firstStale? f.handles).map .invalidHandle := hrelease.failure_eq
  refine ⟨⟨_, hdomain, hrelease.pool⟩, ?_⟩
  rw [hfailure] at hleaves
  cases hstale : m.domain.pool.firstStale? f.handles with
  | none => simpa [hstale] using hleaves
  | some handle => simpa [hstale] using hleaves

/-- A frame without slots leaves, and the pool is not touched. -/
theorem run_drained (ctx : Context κ) (htop : m.thread.frames = f.drained :: rest)
    (hstate : f.state = .teardown) :
    outcome (run ctx) m = .ok .continue ∧
      (after (run ctx) m).thread = { m.thread with frames := rest } ∧
      (after (run ctx) m).domain = m.domain := by
  have hrule : Follows ctx (run ctx) m := run_follows ctx m
  obtain ⟨hdomain, hresult, hthread⟩ := hrule.torn htop hstate
  exact ⟨hresult, hthread, hdomain⟩

end Transition

theorem outcome_abandon (m : Machine κ) :
    outcome Act.abandon m = (m.thread.abandon m.domain.pool).1.result := by
  cases hresult : (Thread.releaseFrames m.thread.frames (Release.start m.domain.pool)).result with
  | ok released =>
    simp [outcome, Act.abandon, Thread.abandon, Act.setThread, Act.setPool, Act.note, hresult]
  | error e =>
    simp [outcome, Act.abandon, Thread.abandon, Act.setThread, Act.setPool, Act.note, hresult]

/-- A thread without frames has nothing to give back. -/
theorem abandon_cleared {m : Machine κ} {t : Thread κ} (h : m.thread = t.cleared) :
    outcome Act.abandon m = .ok 0 ∧ (after Act.abandon m).thread = m.thread ∧
      (after Act.abandon m).domain = m.domain := by
  obtain ⟨hthread, hdomain⟩ := after_abandon m
  rw [outcome_abandon, hthread, hdomain, h]
  exact ⟨rfl, rfl, rfl⟩

namespace Machine

/-- No two cells of the pool have the same handle, and no two slots of the thread.
Which handles are live is left open. -/
structure Distinct (m : Machine κ) : Prop where
  cells : m.domain.pool.Distinct
  slots : m.thread.handles.Nodup

theorem Distinct.frame {m : Machine κ} (h : m.Distinct) {f : Frame κ} {rest : List (Frame κ)}
    (htop : m.thread.frames = f :: rest) : f.handles.Nodup := by
  have hslots := h.slots
  rw [Thread.handles_eq, htop, List.flatMap_cons] at hslots
  exact hslots.of_append_left

/-- Handles are distinct in whatever way a domain and its threads were used, and
whatever was freed behind the backs of the threads then. -/
theorem Distinct.of_fleet {ctx : Context κ} (hctx : ctx.Disciplined) (poolBytes : Nat)
    (loader : Option Loader) (level : Level) (moves : List FleetMove) (behind : List Nat)
    (log : Log) {index : Nat} {t : Thread κ}
    (ht : (FleetMove.performAll ctx moves
      (Fleet.fresh poolBytes loader level)).threads[index]? = some t) :
    let fleet := FleetMove.performAll ctx moves (Fleet.fresh poolBytes loader level)
    Machine.Distinct ⟨t, fleet.domain.withPool (fleet.pool.freeSome behind), log⟩ := by
  intro fleet
  obtain ⟨lost, hholds⟩ := (Fleet.holdsAmong hctx poolBytes loader level moves).front ht
  have hnodup := hholds.nodup
  have hcells : fleet.pool.Distinct := by
    have hperm := hholds.cells_perm.map Holding.handle
    rw [List.map_map] at hperm
    exact hperm.nodup_iff.mpr hnodup
  rw [List.map_append] at hnodup
  exact ⟨hcells.freeSome behind, hnodup.of_append_left⟩

/-- Any of the handles of a thread may have been freed behind its back. A frame in
teardown frees what is left of its own, each handle once, and nothing else. If none
was stale it leaves; otherwise the first stale one is reported and the frame stays
without slots, to leave with the next transition, which does not touch the pool. An
abandoned thread frees what is left of all its frames in the same way. It has no
frames and no operands then, reports how many handles were freed or the first stale
one, from the top frame down, and abandoning it once more does nothing. -/
theorem releases_past_stale_handles (ctx : Context κ) (m : Machine κ) (h : m.Distinct) :
    (∀ f rest, m.thread.frames = f :: rest → f.state = .teardown →
      let m' := after (Transition.run ctx) m
      (∃ p, m'.domain = m.domain.withPool p ∧ m.domain.pool.Reclaims p f.handles) ∧
        match m.domain.pool.firstStale? f.handles with
        | none =>
          outcome (Transition.run ctx) m = .ok .continue ∧
            m'.thread = { m.thread with frames := rest }
        | some handle =>
          outcome (Transition.run ctx) m = .error (.invalidHandle handle) ∧
            m'.thread = { m.thread with frames := f.drained :: rest } ∧
            outcome (Transition.run ctx) m' = .ok .continue ∧
            (after (Transition.run ctx) m').thread = { m.thread with frames := rest } ∧
            (after (Transition.run ctx) m').domain = m'.domain) ∧
    let m' := after Act.abandon m
    (∃ p, m'.domain = m.domain.withPool p ∧ m.domain.pool.Reclaims p m.thread.handles) ∧
      m'.thread = { m.thread with frames := [], operands := [] } ∧
      (outcome Act.abandon m =
        match m.domain.pool.firstStale? m.thread.handles with
        | none => .ok (m.domain.pool.liveAmong m.thread.handles).length
        | some handle => .error (.invalidHandle handle)) ∧
      outcome Act.abandon m' = .ok 0 ∧ (after Act.abandon m').thread = m'.thread ∧
      (after Act.abandon m').domain = m'.domain := by
  constructor
  · intro f rest htop hstate m'
    obtain ⟨hpool, hleaves⟩ := Transition.run_teardown ctx htop hstate h.cells (h.frame htop)
    refine ⟨hpool, ?_⟩
    cases hstale : m.domain.pool.firstStale? f.handles with
    | none =>
      rw [hstale] at hleaves
      exact hleaves
    | some handle =>
      rw [hstale] at hleaves
      obtain ⟨hresult, hthread⟩ := hleaves
      have htop' : m'.thread.frames = f.drained :: rest := by rw [hthread]
      obtain ⟨hnext, hgone, hsame⟩ := Transition.run_drained ctx htop' hstate
      refine ⟨hresult, hthread, hnext, ?_, hsame⟩
      rw [hgone, hthread]
  · intro m'
    obtain ⟨hthread, hdomain⟩ := after_abandon m
    have hrelease := Thread.abandon_reclaims h.cells h.slots
    refine ⟨⟨_, hdomain, hrelease.pool⟩, hthread, ?_, abandon_cleared hthread⟩
    rw [outcome_abandon]
    exact hrelease.result_eq

/-- A thread whose callee is about to be torn down. One handle of the callee is stale,
and one of its caller. -/
def staleMachine : Machine Empty :=
  let fleet : Fleet Empty := FleetMove.performAll (Interpreter.smallContext {}) Fleet.calleeDone
    (Fleet.fresh 64 none .error)
  ⟨fleet.threads[1]?.getD (Thread.new 0), fleet.domain.withPool (fleet.pool.freeSome [4, 1]),
    fleet.world.log⟩

theorem releases_past_stale_handles_of_callee :
    let ctx := Interpreter.smallContext {}
    let torn := after (Transition.run ctx) staleMachine
    let abandoned := after Act.abandon staleMachine
    staleMachine.Distinct ∧ ∃ f g, staleMachine.thread.frames = [f, g] ∧ f.state = .teardown ∧
      f.handles = [3, 4] ∧ g.handles = [1, 2] ∧
      staleMachine.domain.pool.liveAmong [3, 4, 1, 2] = [3, 2] ∧
      outcome (Transition.run ctx) staleMachine = .error (.invalidHandle 4) ∧
      torn.domain.pool.find? 3 = none ∧ torn.thread.frames = [f.drained, g] ∧
      outcome (Transition.run ctx) torn = .ok .continue ∧
      (after (Transition.run ctx) torn).thread.frames = [g] ∧
      outcome Act.abandon staleMachine = .error (.invalidHandle 4) ∧
      abandoned.domain.pool.find? 2 = none ∧
      abandoned.domain.pool.frees = staleMachine.domain.pool.frees + 2 ∧
      outcome Act.abandon abandoned = .ok 0 := by
  intro ctx torn abandoned
  have hdistinct : staleMachine.Distinct := by
    have hctx : ctx.Disciplined := Interpreter.plainContext_disciplined _ _ _
    let fleet : Fleet Empty :=
      FleetMove.performAll ctx Fleet.calleeDone (Fleet.fresh 64 none .error)
    have hthread : fleet.threads[1]?.isSome = true := by decide +kernel
    obtain ⟨t, ht⟩ := Option.isSome_iff_exists.mp hthread
    have hm : staleMachine = ⟨fleet.threads[1]?.getD (Thread.new 0),
        fleet.domain.withPool (fleet.pool.freeSome [4, 1]), fleet.world.log⟩ := rfl
    rw [hm, ht]
    exact .of_fleet hctx 64 none .error Fleet.calleeDone [4, 1] fleet.world.log ht
  have hframes : staleMachine.thread.frames.map (fun f => (f.state, f.handles)) =
      [(.teardown, [3, 4]), (.interpretedExec, [1, 2])] := by
    decide +kernel
  obtain ⟨f, rest, htop, hf, hrest⟩ := List.map_eq_cons_iff.mp hframes
  obtain ⟨g, bottom, rfl, hg, hnone⟩ := List.map_eq_cons_iff.mp hrest
  obtain rfl := List.map_eq_nil_iff.mp hnone
  obtain ⟨hstate, hf⟩ := Prod.mk.inj hf
  have hg := (Prod.mk.inj hg).2
  have hhandles : staleMachine.thread.handles = [3, 4, 1, 2] := by
    simp [Thread.handles_eq, htop, hf, hg]
  have hlive : staleMachine.domain.pool.liveAmong [3, 4, 1, 2] = [3, 2] := by decide +kernel
  have hcallee : staleMachine.domain.pool.firstStale? [3, 4] = some 4 := by decide +kernel
  have hall : staleMachine.domain.pool.firstStale? [3, 4, 1, 2] = some 4 := by decide +kernel
  obtain ⟨hteardown, ⟨p', hdomain', hback'⟩, -, habandon, hagain, -, -⟩ :=
    releases_past_stale_handles ctx staleMachine hdistinct
  obtain ⟨⟨p, hdomain, hback⟩, hleaves⟩ := hteardown f [g] htop hstate
  rw [hf] at hback hleaves
  rw [hhandles] at hback' habandon
  rw [hcallee] at hleaves
  rw [hall] at habandon
  obtain ⟨hresult, hthread, hnext, hgone, -⟩ := hleaves
  have hfrees := hback'.frees_eq
  rw [hlive] at hfrees
  refine ⟨hdistinct, f, g, htop, hstate, hf, hg, hlive, hresult, ?_, by rw [hthread], hnext,
    by rw [hgone], habandon, ?_, ?_, hagain⟩
  · rw [hdomain]
    exact hback.gone 3 (by decide)
  · rw [hdomain']
    exact hback'.gone 2 (by decide)
  · rw [hdomain']
    exact hfrees

end Machine

end ManagedCalls
