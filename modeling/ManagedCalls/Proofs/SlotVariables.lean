import ManagedCalls.Proofs.Activation
import ManagedCalls.Proofs.LifeActions
import ManagedCalls.Proofs.StorageConversion

/-!
Slots as variables. A write to a slot of the topmost frame either is refused and
changes nothing, or is what the slot reads from then on, while every other slot of
every frame of every thread reads as before. Storage has one owner, so this holds
although all of them keep their values in one pool. A local without storage has no
value until something is written to it, and then has what was written last.
-/

namespace ManagedCalls

open Stateful Pool

variable {κ : Type}

theorem Pool.store_eq_error {p : Pool} {handle : Nat} {c : Cell} {v : Value} {e : Fault}
    (hfind : p.find? handle = some c) (hsized : c.type.staticSize = some c.bytes.length) :
    p.store handle v = .error e ↔
      c.type.core.accepts v.kind = false ∧ e = .typeMismatch c.type v := by
  have haccepts : c.type.core.accepts v.kind = (Storage.encode? c.type v).isSome := by
    rw [← Storage.isSome_convert? (by rw [hsized]; rfl), Storage.convert?, Option.isSome_map]
  simp only [store, hfind]
  cases hencode : Storage.encode? c.type v with
  | none => simp [haccepts, hencode, eq_comm]
  | some bytes => simp [haccepts, hencode]

namespace Slot

variable {p p' : Pool} {s s' : Slot} {v : Value}

/-- What the slot reads once the value was written to it. A slot in the pool has what
the storage makes of the value, if it takes it. -/
def stored? : Slot → Value → Option Value
  | pooled _ type, v => Storage.convert? type v
  | inline _, v | pending _, v => some v

/-- The storage of the slot is there, with the type and size it is known to have. -/
def Backed (p : Pool) (s : Slot) : Prop :=
  ∀ handle type, s = pooled handle type →
    ∃ c, p.find? handle = some c ∧ c.type = type ∧ type.staticSize = some c.bytes.length

theorem write_eq_error (hs : s.Backed p) {e : Fault} :
    s.write p v = .error e ↔ ∃ handle type, s = pooled handle type ∧
      type.core.accepts v.kind = false ∧ e = .typeMismatch type v := by
  cases s with
  | pooled handle type =>
    obtain ⟨c, hfind, rfl, hsized⟩ := hs handle type rfl
    have hstore : (pooled handle c.type).write p v = .error e ↔ p.store handle v = .error e := by
      rw [write]
      cases p.store handle v <;> simp [Except.map]
    rw [hstore, store_eq_error hfind hsized]
    simp
  | inline old => simp [write]
  | pending type => simp [write]

theorem read_of_write (hs : s.Backed p) (h : s.write p v = .ok (s', p')) :
    ∃ w, s.stored? v = some w ∧ s'.read p' = .ok (some w) := by
  cases s with
  | pooled handle type =>
    obtain ⟨c, hfind, rfl, hsized⟩ := hs handle type rfl
    cases hstore : p.store handle v with
    | error e => simp [write, hstore, Except.map] at h
    | ok q =>
      simp only [write, hstore, Except.map, Except.ok.injEq, Prod.mk.injEq] at h
      obtain ⟨rfl, rfl⟩ := h
      obtain ⟨w, hconvert, hload⟩ := load_store hfind hsized hstore
      exact ⟨w, hconvert, by rw [read, hload]; rfl⟩
  | inline old =>
    obtain ⟨rfl, rfl⟩ := Prod.mk.inj (Except.ok.inj h)
    exact ⟨v, rfl, rfl⟩
  | pending type =>
    obtain ⟨rfl, rfl⟩ := Prod.mk.inj (Except.ok.inj h)
    exact ⟨v, rfl, rfl⟩

end Slot

/-- Why a write to a slot of the frame fails. -/
inductive Frame.Refuses (f : Frame κ) (role : SlotRole) (index : Nat) (v : Value) : Fault → Prop
  | outOfRange (h : (f.slots role).length ≤ index) :
      Refuses f role index v (.slotOutOfRange f.id role index (f.slots role).length)
  | unstorable {handle : Nat} {type : TypeSig}
      (hslot : (f.slots role)[index]? = some (.pooled handle type))
      (hv : type.core.accepts v.kind = false) : Refuses f role index v (.typeMismatch type v)

namespace Frame

variable {base p p' : Pool} {others : List Holding} {f g : Frame κ} {role : SlotRole}
  {index : Nat} {v : Value}

theorem backed (hold : Holds base p (f.holdings ++ others)) {s : Slot}
    (hslot : (f.slots role)[index]? = some s) : s.Backed p := by
  rintro handle type rfl
  have hmem : (⟨handle, type, role⟩ : Holding) ∈ f.holdings ++ others :=
    List.mem_append_left _ (mem_holdings.mpr (List.mem_of_getElem? hslot))
  obtain ⟨c, hfind, hc⟩ := hold.find? hmem
  obtain rfl : c.type = type := congrArg Holding.type hc
  exact ⟨c, hfind, rfl, hold.staticSize_eq hmem hfind⟩

theorem writeSlot_eq_error (hold : Holds base p (f.holdings ++ others)) {e : Fault} :
    f.writeSlot p role index v = .error e ↔ f.Refuses role index v e := by
  cases hslot : (f.slots role)[index]? with
  | none =>
    simp only [writeSlot, hslot, Except.error.injEq]
    constructor
    · rintro rfl
      exact .outOfRange (List.getElem?_eq_none_iff.mp hslot)
    · rintro (_ | hother)
      · rfl
      · cases hslot.symm.trans hother
  | some s =>
    have hrun : f.writeSlot p role index v = .error e ↔ s.write p v = .error e := by
      simp only [writeSlot, hslot]
      cases s.write p v <;> simp [Except.map]
    rw [hrun, Slot.write_eq_error (backed hold hslot)]
    constructor
    · rintro ⟨handle, type, rfl, hv, rfl⟩
      exact .unstorable hslot hv
    · rintro (hout | ⟨hother, hv⟩)
      · have hlt := (List.getElem?_eq_some_iff.mp hslot).1
        omega
      · exact ⟨_, _, Option.some.inj (hslot.symm.trans hother), hv, rfl⟩

/-- The slot that was written reads the value, or what its storage makes of it. -/
theorem readSlot_written (hold : Holds base p (f.holdings ++ others))
    (h : f.writeSlot p role index v = .ok (g, p')) :
    ∃ s w, (f.slots role)[index]? = some s ∧ s.stored? v = some w ∧
      g.readSlot p' role index = .ok w := by
  obtain ⟨s, s', hslot, hwrite, rfl⟩ := writeSlot_eq_ok.mp h
  obtain ⟨w, hstored, hread⟩ := Slot.read_of_write (backed hold hslot) hwrite
  refine ⟨s, w, hslot, hstored, ?_⟩
  have hlt := (List.getElem?_eq_some_iff.mp hslot).1
  have hnow : ((f.withSlots role ((f.slots role).set index s')).slots role)[index]? = some s' := by
    rw [slots_withSlots, if_pos rfl, List.getElem?_set_self hlt]
  simp only [readSlot, hnow, hread]

/-- All other slots of the frame read as before. -/
theorem readSlot_other (hold : Holds base p (f.holdings ++ others))
    (h : f.writeSlot p role index v = .ok (g, p')) {role' : SlotRole} {index' : Nat}
    (hne : ¬ (role' = role ∧ index' = index)) :
    g.readSlot p' role' index' = f.readSlot p role' index' := by
  obtain ⟨s, s', hslot, hwrite, rfl⟩ := writeSlot_eq_ok.mp h
  have htouched := (writeSlot_cases h).1
  have hsame : ((f.withSlots role ((f.slots role).set index s')).slots role')[index']? =
      (f.slots role')[index']? := by
    rw [slots_withSlots]
    split
    next hrole =>
      obtain rfl := hrole
      rw [List.getElem?_set_ne fun hindex => hne ⟨rfl, hindex.symm⟩]
    next => rfl
  have hid : (f.withSlots role ((f.slots role).set index s')).id = f.id := by rw [htouched.same]
  unfold readSlot
  rw [hsame, htouched.count, hid]
  cases hother : (f.slots role')[index']? with
  | none => rfl
  | some other =>
    have hread : other.read p' = other.read p := by
      obtain ⟨-, rfl | ⟨handle, type, rfl, hstore⟩⟩ := Slot.write_cases hwrite
      · rfl
      · cases other with
        | inline old => rfl
        | pending type' => rfl
        | pooled handle' type' =>
          have hnodup := hold.nodup
          rw [List.map_append] at hnodup
          have hhandle : handle' ≠ handle := by
            rintro rfl
            exact hne (index_eq_of_handle hnodup.of_append_left hother hslot)
          rw [Slot.read, Slot.read, load, load, find?_store_of_ne hstore hhandle]
    simp only [hread]

theorem writeSlot_sameAt (hold : Holds base p (f.holdings ++ others))
    (h : f.writeSlot p role index v = .ok (g, p')) : SameAt p p' others := by
  obtain ⟨-, rfl | ⟨handle, type, hslot, hstore⟩⟩ := writeSlot_cases h
  · exact .refl _ _
  · exact .of_store hold (mem_holdings (x := ⟨handle, type, role⟩).mpr hslot) hstore

end Frame

namespace Fleet

/-- Pool storage is owned by the slots of the threads and by threads that got lost, each
cell by one of them. -/
def Owned (budget : Nat) (fleet : Fleet κ) : Prop :=
  ∃ lost, Holds (Pool.empty budget) fleet.pool (fleet.threads.flatMap Thread.holdings ++ lost)

/-- Whatever was done with a domain and its threads, storage has owners. -/
theorem owned_of_moves {ctx : Context κ} (hctx : ctx.Disciplined) (poolBytes : Nat)
    (loader : Option Loader) (level : Level) (moves : List FleetMove) :
    (FleetMove.performAll ctx moves (fresh poolBytes loader level)).Owned poolBytes :=
  ((holdsAmong_kept hctx (Pool.empty poolBytes)).performMoves moves _
    ⟨fun _ ht => (List.not_mem_nil ht).elim, [], Holds.refl _⟩).holds

/-- A frame by its thread and its place from the top. -/
def frame? (fleet : Fleet κ) (thread frame : Nat) : Option (Frame κ) :=
  fleet.threads[thread]?.bind fun t => t.frames[frame]?

/-- What is read from a slot, if its frame is there. -/
def read? (fleet : Fleet κ) (place : SlotPlace) : Option (Except Fault Value) :=
  (fleet.frame? place.thread place.frame).map fun f =>
    f.readSlot fleet.pool place.role place.index

/-- A frame as its slots take up storage: their numbers, and the handles among them. -/
def layout? (fleet : Fleet κ) (thread frame : Nat) : Option (Nat × Nat × List Nat) :=
  (fleet.frame? thread frame).map fun f => (f.arguments.length, f.locals.length, f.handles)

variable {budget : Nat} {fleet : Fleet κ} {thread : Nat} {t : Thread κ} {f : Frame κ}
  {rest : List (Frame κ)}

theorem act_of_unchanged {α : Type} {x : Act κ α} (ht : fleet.threads[thread]? = some t)
    (h : after x ⟨t, fleet.domain, fleet.world.log⟩ = ⟨t, fleet.domain, fleet.world.log⟩) :
    fleet.act x thread = fleet := by
  obtain ⟨hlt, rfl⟩ := List.getElem?_eq_some_iff.mp ht
  simp only [act, List.getElem?_eq_getElem hlt, h, List.set_getElem_self]
  simp [threads, domain]

/-- The frame on top of one thread has been replaced. -/
theorem frame?_of_top {fleet' : Fleet κ} {g : Frame κ} (ht : fleet.threads[thread]? = some t)
    (htop : t.frames = f :: rest)
    (hthreads : fleet'.threads = fleet.threads.set thread { t with frames := g :: rest })
    (other frame : Nat) :
    fleet'.frame? other frame =
      if other = thread ∧ frame = 0 then some g else fleet.frame? other frame := by
  have hlt := (List.getElem?_eq_some_iff.mp ht).1
  unfold frame?
  by_cases hother : other = thread
  · subst hother
    rw [hthreads, List.getElem?_set_self hlt, ht]
    cases frame with
    | zero => simp
    | succ n => simp [htop]
  · rw [hthreads, List.getElem?_set_ne (Ne.symm hother), if_neg fun h => hother h.1]

/-- The storage of other frames lies behind that of the topmost one. -/
theorem holdings_subset_of_frame? {lost : List Holding} {g : Frame κ}
    (ht : fleet.threads[thread]? = some t) (htop : t.frames = f :: rest) {other frame : Nat}
    (hg : fleet.frame? other frame = some g) (hne : ¬ (other = thread ∧ frame = 0)) :
    g.holdings ⊆ rest.flatMap Frame.holdings ++
      ((fleet.threads.eraseIdx thread).flatMap Thread.holdings ++ lost) := by
  obtain ⟨u, hu, hframe⟩ := Option.bind_eq_some_iff.mp hg
  intro x hx
  by_cases hother : other = thread
  · subst hother
    obtain rfl : t = u := Option.some.inj (ht.symm.trans hu)
    obtain ⟨n, rfl⟩ := Nat.exists_eq_succ_of_ne_zero fun hzero => hne ⟨rfl, hzero⟩
    rw [htop, List.getElem?_cons_succ] at hframe
    exact List.mem_append_left _ (List.mem_flatMap.mpr ⟨g, List.mem_of_getElem? hframe, hx⟩)
  · have hmem : u ∈ fleet.threads.eraseIdx thread :=
      List.mem_eraseIdx_iff_getElem?.mpr ⟨other, hother, hu⟩
    have hown : x ∈ u.holdings := List.mem_flatMap.mpr ⟨g, List.mem_of_getElem? hframe, hx⟩
    exact List.mem_append_right _ (List.mem_append_left _ (List.mem_flatMap.mpr ⟨u, hmem, hown⟩))

/-- What a write has done that was no failure: its slot reads the value, or what storage
makes of it, and all other slots read as before. No slot has come or gone. -/
structure Wrote (fleet fleet' : Fleet κ) (place : SlotPlace) (v : Value) : Prop where
  reads : ∃ s w, fleet.slot? place = some s ∧ s.stored? v = some w ∧
    fleet'.read? place = some (.ok w)
  others : ∀ other, other ≠ place → fleet'.read? other = fleet.read? other
  layout : ∀ thread frame, fleet'.layout? thread frame = fleet.layout? thread frame
  liveCount : fleet'.pool.liveCount = fleet.pool.liveCount

theorem wrote_of_writeSlot {fleet' : Fleet κ} {g : Frame κ} {role : SlotRole} {index : Nat}
    {v : Value} (hown : fleet.Owned budget) (ht : fleet.threads[thread]? = some t)
    (htop : t.frames = f :: rest)
    (hwrite : f.writeSlot fleet.pool role index v = .ok (g, fleet'.pool))
    (hthreads : fleet'.threads = fleet.threads.set thread { t with frames := g :: rest }) :
    fleet.Wrote fleet' ⟨thread, 0, role, index⟩ v := by
  obtain ⟨lost, hholds⟩ := hown
  have hold := hholds.front ht
  rw [Thread.holdings_of_top htop, List.append_assoc] at hold
  have hframe := frame?_of_top ht htop hthreads
  have hbefore : fleet.frame? thread 0 = some f := by
    rw [frame?, ht, Option.bind_some, htop, List.getElem?_cons_zero]
  have hsame := Frame.writeSlot_sameAt hold hwrite
  obtain ⟨htouched, hpool⟩ := Frame.writeSlot_cases hwrite
  refine ⟨?_, ?_, ?_, ?_⟩
  · obtain ⟨s, w, hslot, hstored, hread⟩ := Frame.readSlot_written hold hwrite
    refine ⟨s, w, slot?_eq ht (by rw [htop, List.getElem?_cons_zero]) hslot, hstored, ?_⟩
    rw [read?, hframe, if_pos ⟨rfl, rfl⟩, Option.map_some, hread]
  · intro other hne
    rw [read?, read?, hframe]
    split
    next htopmost =>
      rw [htopmost.1, htopmost.2, hbefore, Option.map_some, Option.map_some]
      refine congrArg some (Frame.readSlot_other hold hwrite fun hslot => hne ?_)
      exact SlotPlace.ext htopmost.1 htopmost.2 hslot.1 hslot.2
    next hbelow =>
      cases hother : fleet.frame? other.thread other.frame with
      | none => rfl
      | some k =>
        have hsub := hsame.mono (holdings_subset_of_frame? ht htop hother hbelow)
        exact congrArg some (Frame.readSlot_of_sameAt hsub _ _)
  · intro other frame
    rw [layout?, layout?, hframe]
    split
    next htopmost =>
      have harguments : g.arguments.length = f.arguments.length := htouched.count .argument
      have hlocals : g.locals.length = f.locals.length := htouched.count .localVar
      have hhandles : g.handles = f.handles :=
        congrArg (List.map Holding.handle) htouched.holdings_eq
      rw [htopmost.1, htopmost.2, hbefore, Option.map_some, Option.map_some, harguments, hlocals,
        hhandles]
    next => rfl
  · rcases hpool with hpool | ⟨handle, type, -, hstore⟩
    · rw [hpool]
    · obtain ⟨c, bytes, -, hstored⟩ := store_cases hstore
      have hcells := congrArg List.length (map_holding_setBytes handle bytes fleet.pool.cells)
      rw [List.length_map, List.length_map] at hcells
      rw [hstored]
      exact hcells

/-- A write to the topmost frame is refused, and nothing has changed, or it is done. -/
theorem write_exact (hown : fleet.Owned budget) (ht : fleet.threads[thread]? = some t)
    (htop : t.frames = f :: rest) (role : SlotRole) (index : Nat) (v : Value) :
    let write : Act κ Unit := Act.writeSlot role index v
    let m : Machine κ := ⟨t, fleet.domain, fleet.world.log⟩
    (∀ e, outcome write m = .error e ↔ f.Refuses role index v e) ∧
      (∀ e, outcome write m = .error e → fleet.act write thread = fleet) ∧
      (outcome write m = .ok () →
        fleet.Wrote (fleet.act write thread) ⟨thread, 0, role, index⟩ v) := by
  intro write m
  obtain ⟨lost, hholds⟩ := id hown
  have hold := hholds.front ht
  rw [Thread.holdings_of_top htop, List.append_assoc] at hold
  have hrefuses (e : Fault) :
      f.writeSlot fleet.pool role index v = .error e ↔ f.Refuses role index v e :=
    Frame.writeSlot_eq_error hold
  have hrun : write m = _ := Act.writeSlot_apply (m := m) htop role index v
  have hpool : m.domain.pool = fleet.pool := rfl
  rw [hpool] at hrun
  cases hwrite : f.writeSlot fleet.pool role index v with
  | error e =>
    rw [hwrite] at hrun
    refine ⟨fun e' => ?_, fun _ _ => act_of_unchanged ht (after_of_error hrun), fun hok => ?_⟩
    · rw [outcome_of_error hrun, ← hrefuses, hwrite]
      simp
    · rw [outcome_of_error hrun] at hok
      cases hok
  | ok written =>
    obtain ⟨g, p⟩ := written
    rw [hwrite] at hrun
    have hnever (e : Fault) : outcome write m ≠ .error e := by
      rw [outcome_of_ok hrun]
      exact fun h => by cases h
    refine ⟨fun e => ⟨fun h => absurd h (hnever e), fun h => ?_⟩,
      fun e h => absurd h (hnever e), fun _ => ?_⟩
    · rw [← hrefuses, hwrite] at h
      cases h
    · obtain ⟨hthreads, hdomain⟩ := act_eq write ht
      rw [after_of_ok hrun] at hthreads hdomain
      have hwritten : f.writeSlot fleet.pool role index v =
          .ok (g, (fleet.act write thread).pool) := by
        rw [hwrite, pool, hdomain]
        rfl
      exact wrote_of_writeSlot hown ht htop hwritten hthreads

end Fleet

namespace SlotWrite

def IsAt (w : SlotWrite) (frame : Nat) (role : SlotRole) (index : Nat) : Prop :=
  w.frame = frame ∧ w.role = role ∧ w.index = index

instance (w : SlotWrite) (frame : Nat) (role : SlotRole) (index : Nat) :
    Decidable (w.IsAt frame role index) := inferInstanceAs (Decidable (_ ∧ _))

/-- The value that was written last to a slot. -/
def last? (ws : List SlotWrite) (frame : Nat) (role : SlotRole) (index : Nat) : Option Value :=
  (ws.filter fun w => w.IsAt frame role index).getLast?.map value

theorem last?_singleton (w : SlotWrite) (frame : Nat) (role : SlotRole) (index : Nat) :
    last? [w] frame role index = if w.IsAt frame role index then some w.value else none := by
  by_cases h : w.IsAt frame role index <;> simp [last?, h]

theorem last?_append (first second : List SlotWrite) (frame : Nat) (role : SlotRole)
    (index : Nat) :
    last? (first ++ second) frame role index =
      (last? second frame role index).or (last? first frame role index) := by
  rw [last?, List.filter_append, List.getLast?_append, Option.map_or, last?, last?]

end SlotWrite

/-- A slot without storage, by the value that was written to it last. -/
def Slot.unpooled (type : TypeSig) : Option Value → Slot
  | none => .pending type
  | some v => .inline v

/-- A frame whose local has no storage, and has the value that was written to it last.
Once the frame is drained there are no locals. -/
def Frame.Carries (index : Nat) (type : TypeSig) (last : Option Value) (f : Frame κ) : Prop :=
  f.Runs ∧ f.locals[index]? = some (.unpooled type last) ∨ f.locals = [] ∧ f.state = .teardown

namespace Frame.Carries

variable {f g : Frame κ} {index : Nat} {type : TypeSig} {last : Option Value}

theorem runs (h : f.Carries index type last) : f.Runs := by
  rcases h with ⟨hruns, -⟩ | ⟨-, hstate⟩
  · exact hruns
  · exact Or.inr hstate

theorem follows (hf : f.Carries index type last) (h : f.Follows g) :
    g.Carries index type last := by
  have hruns := hf.runs
  rcases h.locals hruns with hlocals | hdrained
  · rcases hf with ⟨-, hslot⟩ | ⟨hnone, hstate⟩
    · refine Or.inl ⟨?_, by rw [hlocals, hslot]⟩
      rcases h.state hruns with hsame | hstate
      · exact hruns.imp hsame.trans hsame.trans
      · exact Or.inr hstate
    · refine Or.inr ⟨hlocals.trans hnone, ?_⟩
      rcases h.state hruns with hsame | hstate'
      · exact hsame.trans hstate
      · exact hstate'
  · exact Or.inr hdrained

/-- A write to the local is what it has from then on; another one leaves it as it is. -/
theorem wrote (hf : f.Carries index type last) {p p' : Pool} {role : SlotRole} {i : Nat}
    {v : Value} (h : f.writeSlot p role i v = .ok (g, p')) :
    g.Carries index type
      ((SlotWrite.last? [⟨f.id, role, i, v⟩] f.id .localVar index).or last) := by
  obtain ⟨s, s', hslot, hwrite, rfl⟩ := writeSlot_eq_ok.mp h
  cases role with
  | argument =>
    rw [SlotWrite.last?_singleton, if_neg fun hat => (nomatch hat.2.1), Option.none_or]
    exact hf
  | localVar =>
    rcases hf with ⟨hruns, hlocal⟩ | ⟨hnone, -⟩
    · refine Or.inl ⟨hruns, ?_⟩
      have hlt := (List.getElem?_eq_some_iff.mp hslot).1
      by_cases hindex : i = index
      · subst hindex
        obtain rfl : s = .unpooled type last := Option.some.inj (hslot.symm.trans hlocal)
        have hnow : s' = .inline v := by
          cases last with
          | none => exact (Prod.mk.inj (Except.ok.inj hwrite)).1.symm
          | some old => exact (Prod.mk.inj (Except.ok.inj hwrite)).1.symm
        rw [SlotWrite.last?_singleton, if_pos ⟨rfl, rfl, rfl⟩, hnow]
        exact List.getElem?_set_self hlt
      · rw [SlotWrite.last?_singleton, if_neg fun hat => hindex hat.2.2, Option.none_or, ← hlocal]
        exact List.getElem?_set_ne hindex
    · have hempty : (f.slots .localVar)[i]? = none := by
        rw [slots, hnone, List.getElem?_nil]
      cases hempty.symm.trans hslot

/-- The local is uninitialized until something is written to it. -/
theorem read (hf : f.Carries index type last) :
    f.locals = [] ∧ f.state = .teardown ∨
      ∀ p, f.readSlot p .localVar index =
        last.elim (.error (.uninitializedSlot f.id .localVar index)) .ok := by
  rcases hf with ⟨-, hslot⟩ | hdrained
  · refine Or.inr fun p => ?_
    have hlocal : (f.slots .localVar)[index]? = some (.unpooled type last) := hslot
    cases last with
    | none => simp only [readSlot, hlocal, Slot.unpooled, Slot.read, Option.elim]
    | some v => simp only [readSlot, hlocal, Slot.unpooled, Slot.read, Option.elim]
  · exact Or.inl hdrained

end Frame.Carries

/-- A thread in which the local of one frame has the value that was written to it last. -/
structure Thread.Watched (frame index : Nat) (type : TypeSig) (last : Option Value)
    (t : Thread κ) : Prop where
  numbered : t.Numbered
  known : frame < t.nextFrame
  carries : ∀ f ∈ t.frames, f.id = frame → f.Carries index type last

namespace Thread.Watched

variable {t t' : Thread κ} {frame index : Nat} {type : TypeSig} {last : Option Value}

/-- Of all that can happen only a write to the local gives it another value. -/
theorem lived (h : t.Watched frame index type last) {w : Option SlotWrite} (hl : t.Lived w t') :
    t'.Watched frame index type ((SlotWrite.last? w.toList frame .localVar index).or last) := by
  refine ⟨h.numbered.lived hl, Nat.lt_of_lt_of_le h.known hl.nextFrame_le, ?_⟩
  cases hl with
  | left hframes hnext => exact fun g hg => h.carries g (hframes.subset hg)
  | called assembly method =>
    intro g hg hid
    rcases List.mem_cons.mp hg with rfl | hg
    · exact absurd hid (Nat.ne_of_gt h.known)
    · exact h.carries g hg hid
  | changed hf hframes hnext hfollows =>
    intro g hg hid
    rw [hframes] at hg
    rcases List.mem_or_eq_of_mem_set hg with hg | rfl
    · exact h.carries g hg hid
    · have hcarries := h.carries _ (List.mem_of_getElem? hf) (hfollows.id_eq ▸ hid)
      exact hcarries.follows hfollows
  | @wrote f g rest p p' role i v htop hwrite =>
    have hid : g.id = f.id := by rw [(Frame.writeSlot_cases hwrite).1.same]
    have hcarries := h.carries
    have hsorted := h.numbered.sorted
    rw [htop] at hcarries hsorted
    intro k hk hkid
    rcases List.mem_cons.mp hk with rfl | hk
    · obtain rfl : f.id = frame := hid.symm.trans hkid
      exact (hcarries f List.mem_cons_self rfl).wrote hwrite
    · -- the frame that is written is another one
      have hlt := (List.pairwise_cons.mp hsorted).1 k.id (List.mem_map_of_mem hk)
      rw [Option.toList_some, SlotWrite.last?_singleton,
        if_neg fun hat => Nat.ne_of_gt hlt (hat.1.trans hkid.symm), Option.none_or]
      exact hcarries k (List.mem_cons_of_mem _ hk) hkid

theorem performAll (actions : List (LifeAction κ)) {m : Machine κ}
    (h : m.thread.Watched frame index type last) :
    (LifeAction.performAll actions m).thread.Watched frame index type
      ((SlotWrite.last? (LifeAction.writes actions m) frame .localVar index).or last) := by
  induction actions generalizing m last with
  | nil => exact h
  | cons a rest ih =>
    have hrest := ih (h.lived (a.perform_lived m))
    rw [← Option.or_assoc, ← SlotWrite.last?_append] at hrest
    exact hrest

end Thread.Watched

namespace LifeAction

theorem performAll_numbered (actions : List (LifeAction κ)) {m : Machine κ}
    (h : m.thread.Numbered) : (performAll actions m).thread.Numbered := by
  induction actions generalizing m with
  | nil => exact h
  | cons a rest ih => exact ih (h.lived (a.perform_lived m))

theorem performAll_emptyBeforeRun (actions : List (LifeAction κ)) {m : Machine κ}
    (h : m.thread.EmptyBeforeRun) : (performAll actions m).thread.EmptyBeforeRun := by
  induction actions generalizing m with
  | nil => exact h
  | cons a rest ih => exact ih (a.perform_emptyBeforeRun h)

/-- A local that is pending at some time of a thread's life is uninitialized until the
first write to it that succeeds, and then reads as what was written last. -/
theorem pending_until_written (id : Nat) (d : Domain) (log : Log)
    (before actions : List (LifeAction κ)) {f g : Frame κ} {index : Nat} {type : TypeSig} :
    let m := performAll before ⟨Thread.new id, d, log⟩
    f ∈ m.thread.frames → f.locals[index]? = some (.pending type) →
    g ∈ (performAll actions m).thread.frames → g.id = f.id →
      g.locals = [] ∧ g.state = .teardown ∨
        ∀ p, g.readSlot p .localVar index =
          (SlotWrite.last? (writes actions m) f.id .localVar index).elim
            (.error (.uninitializedSlot f.id .localVar index)) .ok := by
  intro m hf hpending hg hid
  have hnumbered : m.thread.Numbered := performAll_numbered before (.new id)
  have hempty : m.thread.EmptyBeforeRun :=
    performAll_emptyBeforeRun before fun _ hnone => absurd hnone List.not_mem_nil
  have hruns : f.Runs := by
    by_contra hidle
    obtain ⟨hinterpreted, hteardown⟩ := not_or.mp hidle
    rw [(hempty f hf hinterpreted hteardown).2, List.getElem?_nil] at hpending
    cases hpending
  have hstart : m.thread.Watched f.id index type none := by
    refine ⟨hnumbered, hnumbered.below f.id (List.mem_map_of_mem hf), fun k hk hkid => ?_⟩
    obtain rfl : k = f := hnumbered.eq_of_id hk hf hkid
    exact Or.inl ⟨hruns, hpending⟩
  have hwatched := hstart.performAll actions
  rw [Option.or_none] at hwatched
  have hread := (hwatched.carries g hg hid).read
  rw [hid] at hread
  exact hread

end LifeAction

/-- Whatever was done with a domain and its threads, its storage has owners; and where it
has, slots are variables. A write to the topmost frame of a thread fails just for a slot
that is not there and for a value that the slot's storage does not take, and then has
changed nothing. Else the slot reads the value, or what its storage makes of it, all
other slots of all frames of all threads read as before, and no slot and no storage has
come or gone. Over the life of a thread, with hosts that step it from inside or not, a
pending local is uninitialized until the first successful write to it, as long as its
frame has locals. -/
theorem slots_are_variables :
    (∀ (ctx : Context κ) (poolBytes : Nat) (loader : Option Loader) (level : Level)
        (moves : List FleetMove), ctx.Disciplined →
      (FleetMove.performAll ctx moves (Fleet.fresh poolBytes loader level)).Owned poolBytes) ∧
    (∀ (budget : Nat) (fleet : Fleet κ) (thread : Nat) (t : Thread κ) (f : Frame κ)
        (rest : List (Frame κ)), fleet.Owned budget → fleet.threads[thread]? = some t →
        t.frames = f :: rest → ∀ (role : SlotRole) (index : Nat) (v : Value),
      let write : Act κ Unit := Act.writeSlot role index v
      let m : Machine κ := ⟨t, fleet.domain, fleet.world.log⟩
      (∀ e, outcome write m = .error e ↔ f.Refuses role index v e) ∧
      (∀ e, outcome write m = .error e → fleet.act write thread = fleet) ∧
      (outcome write m = .ok () →
        fleet.Wrote (fleet.act write thread) ⟨thread, 0, role, index⟩ v)) ∧
    (∀ (id : Nat) (d : Domain) (log : Log) (before actions : List (LifeAction κ)),
      let m := LifeAction.performAll before ⟨Thread.new id, d, log⟩
      ∀ f ∈ m.thread.frames, ∀ (index : Nat) (type : TypeSig),
        f.locals[index]? = some (.pending type) →
      ∀ g ∈ (LifeAction.performAll actions m).thread.frames, g.id = f.id →
        g.locals = [] ∧ g.state = .teardown ∨
        ∀ p, g.readSlot p .localVar index =
          (SlotWrite.last? (LifeAction.writes actions m) f.id .localVar index).elim
            (.error (.uninitializedSlot f.id .localVar index)) .ok) ∧
    ∀ (limit : Nat) (m m' : Machine κ) (issuers : List Nat), Lives limit m issuers m' →
      ∃ actions, LifeAction.performAll actions m = m' :=
  ⟨fun _ poolBytes loader level moves hctx =>
      Fleet.owned_of_moves hctx poolBytes loader level moves,
    fun _ _ _ _ _ _ hown ht htop role index v => Fleet.write_exact hown ht htop role index v,
    fun id d log before actions _ hf _ _ hpending _ hg hid =>
      LifeAction.pending_until_written id d log before actions hf hpending hg hid,
    fun _ _ _ _ h => h.exists_actions⟩

/-- A method with an argument and a local in the pool and another local without storage
runs in two threads. -/
def receivers : Fleet Empty :=
  let receive : List FleetMove :=
    [.action (.act 0 (.host (.push (.object 5)))), .action (.act 0 (.host (.push (.int32 300)))),
      .action (.act 0 (.host (.push (.native 9)))),
      .action (.act 0 (.host (.call 0 Interpreter.smallMethod))), .turn 0, .turn 0]
  FleetMove.performAll (Transition.receiverContext 0x12)
    (.action (.create 1) :: receive ++ .action (.create 2) :: receive) (Fleet.fresh 64 none .error)

/-- The same method in the life of one thread. -/
def receiverStarts : List (LifeAction Empty) :=
  let ctx := Transition.receiverContext 0x12
  [.host ctx.program (.push (.object 5)), .host ctx.program (.push (.int32 300)),
    .host ctx.program (.push (.native 9)), .host ctx.program (.call 0 Interpreter.smallMethod),
    .engine ctx, .engine ctx]

/-- An object is refused by the argument in the pool, a number is cut to a byte, and the
other thread's argument stays as it was. The local without storage has no value while the
other local is written to, and has one from its own first write on. -/
theorem slots_are_variables_of_receivers :
    (∃ t f, receivers.threads[0]? = some t ∧ t.frames = [f] ∧
      let m : Machine Empty := ⟨t, receivers.domain, receivers.world.log⟩
      let stored := receivers.act (Act.writeSlot .argument 1 (.int32 200)) 0
      outcome (Act.writeSlot .argument 1 (.object 5)) m =
          .error (.typeMismatch .i1 (.object 5)) ∧
        receivers.act (Act.writeSlot .argument 1 (.object 5)) 0 = receivers ∧
        outcome (Act.writeSlot .localVar 2 .null) m = .error (.slotOutOfRange 1 .localVar 2 2) ∧
        stored.read? ⟨0, 0, .argument, 1⟩ = some (.ok (.int32 (-56))) ∧
        stored.read? ⟨1, 0, .argument, 1⟩ = receivers.read? ⟨1, 0, .argument, 1⟩) ∧
    let program := (Transition.receiverContext 0x12).program
    let m := LifeAction.performAll receiverStarts
      ⟨Thread.new 1, Domain.empty 64 none, Log.empty .error⟩
    let other : List (LifeAction Empty) := [.host program (.write .localVar 0 (.int64 3))]
    (∃ g, (LifeAction.performAll other m).thread.frames = [g] ∧
      ∀ p, g.readSlot p .localVar 1 = .error (.uninitializedSlot 1 .localVar 1)) ∧
    ∃ g, (LifeAction.performAll (other ++ [.host program (.write .localVar 1 (.object 7))])
        m).thread.frames = [g] ∧
      ∀ p, g.readSlot p .localVar 1 = .ok (.object 7) := by
  obtain ⟨howned, hexact, hpending, -⟩ := slots_are_variables (κ := Empty)
  refine ⟨?_, ?_⟩
  · have hctx : (Transition.receiverContext 0x12).Disciplined :=
      Interpreter.plainContext_disciplined _ _ _
    have hown : receivers.Owned 64 := howned _ 64 none .error _ hctx
    obtain ⟨t, f, ht, htop, harguments, hlocals, hid, hok⟩ :
        ∃ t f, receivers.threads[0]? = some t ∧ t.frames = [f] ∧
          f.arguments = [.inline (.object 5), .pooled 3 .i1, .inline (.native 9)] ∧
          f.locals = [.pooled 4 .i8, .pending .string] ∧ f.id = 1 ∧
          outcome (Act.writeSlot .argument 1 (.int32 200))
            ⟨t, receivers.domain, receivers.world.log⟩ = .ok () :=
      ⟨_, _, rfl, rfl, rfl, rfl, rfl, rfl⟩
    have hslot : (f.slots .argument)[1]? = some (.pooled 3 .i1) := by
      rw [Frame.slots, harguments]
      rfl
    have hwrite (role : SlotRole) (index : Nat) (v : Value) :=
      hexact 64 receivers 0 t f [] hown ht htop role index v
    have hrefused := ((hwrite .argument 1 (.object 5)).1 _).mpr (.unstorable hslot rfl)
    have hmissing := ((hwrite .localVar 2 .null).1 _).mpr
      (.outOfRange (by rw [Frame.slots, hlocals]; decide))
    rw [hid, Frame.slots, hlocals] at hmissing
    have hstored := (hwrite .argument 1 (.int32 200)).2.2 hok
    refine ⟨t, f, ht, htop, hrefused, (hwrite .argument 1 (.object 5)).2.1 _ hrefused, hmissing,
      ?_, hstored.others _ (by decide)⟩
    obtain ⟨s, w, hs, hw, hread⟩ := hstored.reads
    obtain rfl : .pooled 3 .i1 = s := Option.some.inj hs
    obtain rfl : .int32 (-56) = w := Option.some.inj hw
    exact hread
  · intro program m other
    obtain ⟨f, hf, hid, hlocal⟩ : ∃ f, f ∈ m.thread.frames ∧ f.id = 1 ∧
        f.locals[1]? = some (.pending .string) := ⟨_, List.mem_cons_self, rfl, rfl⟩
    have hreads (actions : List (LifeAction Empty)) (g : Frame Empty)
        (hg : g ∈ (LifeAction.performAll actions m).thread.frames) (hgid : g.id = 1)
        (hrunning : g.state = .interpretedExec) (p : Pool) :
        g.readSlot p .localVar 1 =
          (SlotWrite.last? (LifeAction.writes actions m) 1 .localVar 1).elim
            (.error (.uninitializedSlot 1 .localVar 1)) .ok := by
      have hread := hpending 1 (Domain.empty 64 none) (Log.empty .error) receiverStarts actions f
        hf 1 .string hlocal g hg (hgid.trans hid.symm)
      rw [hid] at hread
      refine hread.resolve_left (fun hdrained => ?_) p
      cases hrunning.symm.trans hdrained.2
    constructor
    · obtain ⟨g, hg, hgid, hrunning⟩ : ∃ g, (LifeAction.performAll other m).thread.frames = [g] ∧
          g.id = 1 ∧ g.state = .interpretedExec := ⟨_, rfl, rfl, rfl⟩
      exact ⟨g, hg, hreads other g (by rw [hg]; exact List.mem_singleton_self g) hgid hrunning⟩
    · let both := other ++ [.host program (.write .localVar 1 (.object 7))]
      obtain ⟨g, hg, hgid, hrunning⟩ : ∃ g, (LifeAction.performAll both m).thread.frames = [g] ∧
          g.id = 1 ∧ g.state = .interpretedExec := ⟨_, rfl, rfl, rfl⟩
      exact ⟨g, hg, hreads both g (by rw [hg]; exact List.mem_singleton_self g) hgid hrunning⟩

end ManagedCalls
