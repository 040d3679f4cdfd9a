import ManagedCalls.Storage.Slot
import Mathlib.Algebra.GroupWithZero.Nat
import Mathlib.Data.List.Nodup
import Mathlib.Data.List.Perm.Basic

/-!
What a pool holds beyond an earlier one. The cells allocated since then lie in
front, under handles the earlier pool had not given out; the counters and the
bytes in use follow them. Owners know their storage as holdings. Releasing the
holdings of some slots leaves a pool that holds the rest, and no release fails.
-/

namespace ManagedCalls

/-- Storage as its owner knows it. -/
structure Holding where
  handle : Nat
  type : TypeSig
  role : SlotRole

def Cell.holding (c : Cell) : Holding := ⟨c.handle, c.type, c.role⟩

namespace Slot

/-- The storage a slot of the given role owns. -/
def holding? (role : SlotRole) : Slot → Option Holding
  | pooled handle type => some ⟨handle, type, role⟩
  | inline _ => none
  | pending _ => none

def holdings (role : SlotRole) (ss : List Slot) : List Holding := ss.filterMap (holding? role)

@[simp] theorem holdings_nil (role : SlotRole) : holdings role [] = [] := rfl

@[simp] theorem holdings_pooled (role : SlotRole) (handle : Nat) (type : TypeSig) (ss : List Slot) :
    holdings role (pooled handle type :: ss) = ⟨handle, type, role⟩ :: holdings role ss := rfl

@[simp] theorem holdings_inline (role : SlotRole) (v : Value) (ss : List Slot) :
    holdings role (inline v :: ss) = holdings role ss := rfl

@[simp] theorem holdings_pending (role : SlotRole) (type : TypeSig) (ss : List Slot) :
    holdings role (pending type :: ss) = holdings role ss := rfl

theorem holdings_cons (role : SlotRole) (s : Slot) (ss : List Slot) :
    holdings role (s :: ss) = holdings role [s] ++ holdings role ss :=
  List.filterMap_append (l := [s])

theorem holdings_reverse (role : SlotRole) (ss : List Slot) :
    (holdings role ss.reverse).Perm (holdings role ss) :=
  (List.reverse_perm ss).filterMap _

theorem mem_holdings {role : SlotRole} {ss : List Slot} {x : Holding} :
    x ∈ holdings role ss ↔ x.role = role ∧ pooled x.handle x.type ∈ ss := by
  constructor
  · intro hx
    obtain ⟨s, hs, hown⟩ := List.mem_filterMap.mp hx
    cases s with
    | pooled handle type =>
      obtain rfl : ⟨handle, type, role⟩ = x := Option.some.inj hown
      exact ⟨rfl, hs⟩
    | inline v => cases hown
    | pending type => cases hown
  · rintro ⟨rfl, hx⟩
    exact List.mem_filterMap.mpr ⟨_, hx, rfl⟩

end Slot

theorem TypeSig.staticSize_le (type : TypeSig) {size : Nat} (h : type.staticSize = some size) :
    size ≤ 8 := by
  fun_induction TypeSig.staticSize type with
  | case17 held ih => exact ih h
  | case18 => cases h
  | _ =>
    have hsize := Option.some.inj h
    omega

theorem Storage.length_encode? {type : TypeSig} {v : Value} {bytes : Bytes}
    (h : Storage.encode? type v = some bytes) : bytes.length = 8 := by
  obtain ⟨w, -, rfl⟩ := Option.map_eq_some_iff.mp h
  exact length_toLittleEndian 8 _

namespace Pool

theorem find?_of_mem {cells : List Cell} (hnodup : (cells.map Cell.handle).Nodup) {c : Cell}
    (hc : c ∈ cells) : cells.find? (fun cell => cell.handle == c.handle) = some c := by
  induction cells with
  | nil => cases hc
  | cons cell rest ih =>
    obtain ⟨hout, hrest⟩ := List.nodup_cons.mp hnodup
    rcases List.mem_cons.mp hc with rfl | hc
    · simp
    · have hne : (cell.handle == c.handle) = false := by
        rw [beq_eq_false_iff_ne]
        intro heq
        exact hout (heq ▸ List.mem_map_of_mem hc)
      rw [List.find?_cons, hne]
      exact ih hrest hc

theorem cell_of_find? {p : Pool} {handle : Nat} {c : Cell} (h : p.find? handle = some c) :
    c ∈ p.cells ∧ c.handle = handle :=
  ⟨List.mem_of_find?_eq_some h, by simpa using List.find?_some h⟩

theorem store_cases {p p' : Pool} {handle : Nat} {v : Value} (h : p.store handle v = .ok p') :
    ∃ c bytes, p.find? handle = some c ∧
      p' = { p with cells := setBytes handle bytes p.cells } := by
  unfold store at h
  cases hfind : p.find? handle with
  | none =>
    rw [hfind] at h
    cases h
  | some c =>
    rw [hfind] at h
    dsimp only at h
    split at h
    · cases h
    · exact ⟨c, _, rfl, (Except.ok.inj h).symm⟩

theorem find?_store_of_ne {p p' : Pool} {handle other : Nat} {v : Value}
    (h : p.store handle v = .ok p') (hne : other ≠ handle) : p'.find? other = p.find? other := by
  obtain ⟨c, bytes, -, rfl⟩ := store_cases h
  simp [find?, find?_setBytes, hne]

theorem setBytes_append {front : List Cell} {handle : Nat} (bytes : Bytes) (back : List Cell)
    (h : ∃ c ∈ front, c.handle = handle) :
    setBytes handle bytes (front ++ back) = setBytes handle bytes front ++ back := by
  induction front with
  | nil =>
    obtain ⟨c, hc, -⟩ := h
    cases hc
  | cons cell rest ih =>
    by_cases hcell : cell.handle = handle
    · simp [setBytes, hcell]
    · obtain ⟨c, hc, hch⟩ := h
      rcases List.mem_cons.mp hc with rfl | hc
      · exact absurd hch hcell
      · simp [setBytes, hcell, ih ⟨c, hc, hch⟩]

theorem map_holding_setBytes (handle : Nat) (bytes : Bytes) (cells : List Cell) :
    (setBytes handle bytes cells).map Cell.holding = cells.map Cell.holding := by
  induction cells with
  | nil => rfl
  | cons cell rest ih =>
    by_cases h : cell.handle = handle
    · simp [setBytes, h, Cell.holding]
    · simp [setBytes, h, ih]

theorem mem_setBytes {handle : Nat} {bytes : Bytes} {cells : List Cell} {c : Cell}
    (h : c ∈ setBytes handle bytes cells) :
    c ∈ cells ∨ ∃ old, cells.find? (fun cell => cell.handle == handle) = some old ∧
      c = { old with bytes } := by
  induction cells with
  | nil => cases h
  | cons cell rest ih =>
    by_cases hcell : cell.handle = handle
    · subst hcell
      simp only [setBytes, if_true, List.mem_cons] at h
      rcases h with rfl | h
      · exact Or.inr ⟨cell, by simp, rfl⟩
      · exact Or.inl (List.mem_cons_of_mem _ h)
    · simp only [setBytes, hcell, if_false, List.mem_cons] at h
      rcases h with rfl | h
      · exact Or.inl List.mem_cons_self
      · rcases ih h with hrest | ⟨old, hold, heq⟩
        · exact Or.inl (List.mem_cons_of_mem _ hrest)
        · exact Or.inr ⟨old, by simp [hcell, hold], heq⟩

/-- New bytes of the old length keep the length of every cell. -/
theorem map_length_setBytes {handle : Nat} {bytes : Bytes} {cells : List Cell} {c : Cell}
    (hfind : cells.find? (fun cell => cell.handle == handle) = some c)
    (hlen : bytes.length = c.bytes.length) :
    (setBytes handle bytes cells).map (fun c => c.bytes.length) =
      cells.map fun c => c.bytes.length := by
  induction cells with
  | nil => rfl
  | cons cell rest ih =>
    by_cases h : cell.handle = handle
    · have hcell : cell = c := by simpa [h] using hfind
      subst hcell
      simp [setBytes, h, hlen]
    · have hne : (cell.handle == handle) = false := by simp [h]
      rw [List.find?_cons, hne] at hfind
      simp [setBytes, h, ih hfind]

end Pool

namespace Pool

/-- The pool is an earlier one with the cells `fresh` in front. -/
structure Growth (base p : Pool) (fresh : List Cell) : Prop where
  cells_eq : p.cells = fresh ++ base.cells
  sized : ∀ c ∈ fresh, c.type.staticSize = some c.bytes.length
  nodup : (fresh.map Cell.handle).Nodup
  handle_ge : ∀ c ∈ fresh, base.nextHandle ≤ c.handle
  handle_lt : ∀ c ∈ fresh, c.handle < p.nextHandle
  nextHandle_le : base.nextHandle ≤ p.nextHandle
  bytesInUse_eq : p.bytesInUse = base.bytesInUse + (fresh.map fun c => c.bytes.length).sum
  counters : ∃ gone, p.allocations = base.allocations + (gone + fresh.length) ∧
    p.frees = base.frees + gone
  budget_eq : p.budget = base.budget

namespace Growth

theorem refl (p : Pool) : Growth p p [] where
  cells_eq := rfl
  sized := by simp
  nodup := List.nodup_nil
  handle_ge := by simp
  handle_lt := by simp
  nextHandle_le := Nat.le_refl _
  bytesInUse_eq := rfl
  counters := ⟨0, rfl, rfl⟩
  budget_eq := rfl

theorem trans {a b c : Pool} {older newer : List Cell} (hab : Growth a b older)
    (hbc : Growth b c newer) : Growth a c (newer ++ older) where
  cells_eq := by rw [hbc.cells_eq, hab.cells_eq, List.append_assoc]
  sized := by
    intro cell hcell
    rcases List.mem_append.mp hcell with h | h
    · exact hbc.sized cell h
    · exact hab.sized cell h
  nodup := by
    rw [List.map_append]
    refine List.Nodup.append hbc.nodup hab.nodup ?_
    intro handle hnew hold
    obtain ⟨x, hx, rfl⟩ := List.mem_map.mp hnew
    obtain ⟨y, hy, hxy⟩ := List.mem_map.mp hold
    have hge := hbc.handle_ge x hx
    have hlt := hab.handle_lt y hy
    omega
  handle_ge := by
    intro cell hcell
    rcases List.mem_append.mp hcell with h | h
    · exact Nat.le_trans hab.nextHandle_le (hbc.handle_ge cell h)
    · exact hab.handle_ge cell h
  handle_lt := by
    intro cell hcell
    rcases List.mem_append.mp hcell with h | h
    · exact hbc.handle_lt cell h
    · exact Nat.lt_of_lt_of_le (hab.handle_lt cell h) hbc.nextHandle_le
  nextHandle_le := Nat.le_trans hab.nextHandle_le hbc.nextHandle_le
  bytesInUse_eq := by
    rw [hbc.bytesInUse_eq, hab.bytesInUse_eq, List.map_append, List.sum_append]
    omega
  counters := by
    obtain ⟨m, ham, hfm⟩ := hab.counters
    obtain ⟨n, han, hfn⟩ := hbc.counters
    refine ⟨m + n, ?_, ?_⟩
    · rw [han, ham, List.length_append]
      omega
    · omega
  budget_eq := hbc.budget_eq.trans hab.budget_eq

theorem find?_eq {base p : Pool} {fresh : List Cell} (h : Growth base p fresh) {c : Cell}
    (hc : c ∈ fresh) : p.find? c.handle = some c := by
  rw [Pool.find?, h.cells_eq, List.find?_append, find?_of_mem h.nodup hc]
  rfl

/-- Under handles that were given out before, nothing has changed. -/
theorem find?_of_lt {base p : Pool} {fresh : List Cell} (h : Growth base p fresh) {handle : Nat}
    (hlt : handle < base.nextHandle) : p.find? handle = base.find? handle := by
  have hnone : fresh.find? (fun c => c.handle == handle) = none := by
    rw [List.find?_eq_none]
    intro c hc heq
    have hge := h.handle_ge c hc
    rw [beq_iff_eq] at heq
    omega
  rw [Pool.find?, h.cells_eq, List.find?_append, hnone]
  rfl

/-- One allocation is a growth by one zeroed cell. -/
theorem of_allocate {p p' : Pool} {type : TypeSig} {role : SlotRole} {handle : Nat}
    (h : p.allocate type role = .ok (handle, p')) :
    ∃ c : Cell, c.holding = ⟨handle, type, role⟩ ∧ Growth p p' [c] := by
  unfold Pool.allocate at h
  split at h
  · cases h
  next size hsize =>
    split at h
    · cases h
    · obtain ⟨rfl, rfl⟩ := Prod.mk.inj (Except.ok.inj h)
      refine ⟨⟨p.nextHandle, type, role, List.replicate size 0⟩, rfl, ?_⟩
      exact
        { cells_eq := rfl
          sized := by simp [hsize]
          nodup := by simp
          handle_ge := by simp
          handle_lt := by simp
          nextHandle_le := Nat.le_succ _
          bytesInUse_eq := by simp
          counters := ⟨0, rfl, rfl⟩
          budget_eq := rfl }

/-- Storing into one of the new cells changes bytes only. -/
theorem store {base p p' : Pool} {fresh : List Cell} (h : Growth base p fresh) {c : Cell}
    (hc : c ∈ fresh) {v : Value} (hstore : p.store c.handle v = .ok p') :
    ∃ fresh', fresh'.map Cell.holding = fresh.map Cell.holding ∧ Growth base p' fresh' := by
  unfold Pool.store at hstore
  rw [h.find?_eq hc] at hstore
  dsimp only at hstore
  split at hstore
  · cases hstore
  next bytes hbytes =>
    obtain rfl := Except.ok.inj hstore
    have hsize : c.bytes.length ≤ 8 := TypeSig.staticSize_le _ (h.sized c hc)
    have hlen : (bytes.take c.bytes.length).length = c.bytes.length := by
      rw [List.length_take, Storage.length_encode? hbytes]
      omega
    have hfind := find?_of_mem h.nodup hc
    have hholding := map_holding_setBytes c.handle (bytes.take c.bytes.length) fresh
    have hlengths := map_length_setBytes hfind hlen
    have hhandles : (setBytes c.handle (bytes.take c.bytes.length) fresh).map Cell.handle =
        fresh.map Cell.handle := by
      simpa [Cell.holding, Function.comp_def] using
        congrArg (List.map Holding.handle) hholding
    have hsame (x : Cell) (hx : x ∈ setBytes c.handle (bytes.take c.bytes.length) fresh) :
        ∃ y ∈ fresh, y.handle = x.handle :=
      List.mem_map.mp (hhandles ▸ List.mem_map_of_mem hx)
    refine ⟨_, hholding, ?_⟩
    exact
      { cells_eq := by
          rw [h.cells_eq]
          exact setBytes_append _ _ ⟨c, hc, rfl⟩
        sized := by
          intro x hx
          rcases mem_setBytes hx with hx | ⟨old, hold, rfl⟩
          · exact h.sized x hx
          · obtain rfl := Option.some.inj (hfind.symm.trans hold)
            rw [hlen]
            exact h.sized c hc
        nodup := hhandles ▸ h.nodup
        handle_ge := by
          intro x hx
          obtain ⟨y, hy, heq⟩ := hsame x hx
          exact heq ▸ h.handle_ge y hy
        handle_lt := by
          intro x hx
          obtain ⟨y, hy, heq⟩ := hsame x hx
          exact heq ▸ h.handle_lt y hy
        nextHandle_le := h.nextHandle_le
        bytesInUse_eq := by rw [hlengths]; exact h.bytesInUse_eq
        counters := by
          have hcount := congrArg List.length hhandles
          rw [List.length_map, List.length_map] at hcount
          rw [hcount]
          exact h.counters
        budget_eq := h.budget_eq }

/-- Freeing one of the new cells takes just this cell out. -/
theorem free {base p : Pool} {fresh : List Cell} (h : Growth base p fresh) {c : Cell}
    (hc : c ∈ fresh) :
    ∃ p' rest, p.free c.handle = .ok p' ∧ fresh.Perm (c :: rest) ∧ Growth base p' rest := by
  obtain ⟨front, back, rfl⟩ := List.append_of_mem hc
  have hfront : ∀ x ∈ front, ¬ (x.handle == c.handle) = true := by
    intro x hx heq
    have hnodup := h.nodup
    rw [List.map_append, List.map_cons, List.nodup_append] at hnodup
    exact hnodup.2.2 x.handle (List.mem_map_of_mem hx) c.handle List.mem_cons_self
      (beq_iff_eq.mp heq)
  have herase : p.cells.eraseP (fun x => x.handle == c.handle) = front ++ back ++ base.cells := by
    rw [h.cells_eq, List.append_assoc, List.eraseP_append_right _ hfront]
    simp
  have hsub : ∀ x ∈ front ++ back, x ∈ front ++ c :: back := by
    intro x hx
    simp only [List.mem_append, List.mem_cons] at hx ⊢
    tauto
  refine ⟨_, front ++ back, by rw [Pool.free, h.find?_eq hc], List.perm_middle, ?_⟩
  exact
    { cells_eq := herase
      sized := fun x hx => h.sized x (hsub x hx)
      nodup := by
        refine List.Nodup.sublist (List.Sublist.map _ ?_) h.nodup
        exact List.Sublist.append (List.Sublist.refl _) (List.sublist_cons_self _ _)
      handle_ge := fun x hx => h.handle_ge x (hsub x hx)
      handle_lt := fun x hx => h.handle_lt x (hsub x hx)
      nextHandle_le := h.nextHandle_le
      bytesInUse_eq := by
        have hbytes := h.bytesInUse_eq
        simp only [List.map_append, List.map_cons, List.sum_append, List.sum_cons] at hbytes ⊢
        omega
      counters := by
        obtain ⟨gone, hallocs, hfrees⟩ := h.counters
        refine ⟨gone + 1, ?_, ?_⟩
        · simp only [List.length_append, List.length_cons] at hallocs ⊢
          omega
        · simp only
          omega
      budget_eq := h.budget_eq }

end Growth

/-- Beyond an earlier pool this one holds exactly the storage listed. -/
def Holds (base p : Pool) (held : List Holding) : Prop :=
  ∃ fresh, Growth base p fresh ∧ (fresh.map Cell.holding).Perm held

namespace Holds

variable {base p p' : Pool} {held : List Holding}

theorem refl (p : Pool) : Holds p p [] := ⟨[], Growth.refl p, List.Perm.refl _⟩

theorem perm {held' : List Holding} (h : Holds base p held) (hperm : held.Perm held') :
    Holds base p held' := by
  obtain ⟨fresh, hgrowth, hheld⟩ := h
  exact ⟨fresh, hgrowth, hheld.trans hperm⟩

theorem trans {newer : List Holding} (h : Holds base p held) (h' : Holds p p' newer) :
    Holds base p' (newer ++ held) := by
  obtain ⟨fresh, hgrowth, hheld⟩ := h
  obtain ⟨fresh', hgrowth', hheld'⟩ := h'
  refine ⟨fresh' ++ fresh, hgrowth.trans hgrowth', ?_⟩
  rw [List.map_append]
  exact hheld'.append hheld

/-- A pool that holds nothing more has the same cells; the counters may both
have moved, by the same amount. -/
theorem unchanged (h : Holds base p []) :
    p.cells = base.cells ∧ p.bytesInUse = base.bytesInUse ∧ p.budget = base.budget ∧
      ∃ n, p.allocations = base.allocations + n ∧ p.frees = base.frees + n := by
  obtain ⟨fresh, hgrowth, hheld⟩ := h
  obtain rfl : fresh = [] := List.map_eq_nil_iff.mp hheld.eq_nil
  exact ⟨hgrowth.cells_eq, hgrowth.bytesInUse_eq, hgrowth.budget_eq, hgrowth.counters⟩

/-- Beyond an empty pool a pool holds all its cells. -/
theorem cells_perm {budget : Nat} (h : Holds (Pool.empty budget) p held) :
    (p.cells.map Cell.holding).Perm held := by
  obtain ⟨fresh, hgrowth, hheld⟩ := h
  have hcells : p.cells = fresh := by rw [hgrowth.cells_eq, Pool.empty, List.append_nil]
  rwa [hcells]

theorem contains_iff {budget handle : Nat} (h : Holds (Pool.empty budget) p held) :
    p.contains handle = true ↔ handle ∈ held.map Holding.handle := by
  have hperm := h.cells_perm.map Holding.handle
  rw [List.map_map] at hperm
  rw [← hperm.mem_iff, contains, Pool.find?, List.find?_isSome]
  simp [Cell.holding]

theorem handle_lt (h : Holds base p held) {x : Holding} (hx : x ∈ held) :
    x.handle < p.nextHandle := by
  obtain ⟨fresh, hgrowth, hheld⟩ := h
  obtain ⟨c, hc, rfl⟩ := List.mem_map.mp (hheld.mem_iff.mpr hx)
  exact hgrowth.handle_lt c hc

/-- Storage that is held is there as its owner knows it. -/
theorem find? (h : Holds base p held) {x : Holding} (hx : x ∈ held) :
    ∃ c, p.find? x.handle = some c ∧ c.holding = x := by
  obtain ⟨fresh, hgrowth, hheld⟩ := h
  obtain ⟨c, hc, rfl⟩ := List.mem_map.mp (hheld.mem_iff.mpr hx)
  exact ⟨c, hgrowth.find?_eq hc, rfl⟩

/-- Storage that is held has the size of its type. -/
theorem staticSize_eq (h : Holds base p held) {x : Holding} (hx : x ∈ held) {c : Cell}
    (hfind : p.find? x.handle = some c) : c.type.staticSize = some c.bytes.length := by
  obtain ⟨fresh, hgrowth, hheld⟩ := h
  obtain ⟨own, hown, rfl⟩ := List.mem_map.mp (hheld.mem_iff.mpr hx)
  obtain rfl : own = c := Option.some.inj ((hgrowth.find?_eq hown).symm.trans hfind)
  exact hgrowth.sized own hown

theorem nodup (h : Holds base p held) : (held.map Holding.handle).Nodup := by
  obtain ⟨fresh, hgrowth, hheld⟩ := h
  have hperm := hheld.map Holding.handle
  rw [List.map_map] at hperm
  exact hperm.nodup_iff.mp hgrowth.nodup

theorem allocate (h : Holds base p held) {type : TypeSig} {role : SlotRole} {handle : Nat}
    (halloc : p.allocate type role = .ok (handle, p')) :
    Holds base p' (⟨handle, type, role⟩ :: held) := by
  obtain ⟨c, hc, hgrowth⟩ := Growth.of_allocate halloc
  have hone : Holds p p' [⟨handle, type, role⟩] := ⟨[c], hgrowth, by simp [hc]⟩
  exact h.trans hone

theorem store (h : Holds base p held) {x : Holding} (hx : x ∈ held) {v : Value}
    (hstore : p.store x.handle v = .ok p') : Holds base p' held := by
  obtain ⟨fresh, hgrowth, hheld⟩ := h
  obtain ⟨c, hc, rfl⟩ := List.mem_map.mp (hheld.mem_iff.mpr hx)
  obtain ⟨fresh', hsame, hgrowth'⟩ := hgrowth.store hc hstore
  exact ⟨fresh', hgrowth', hsame ▸ hheld⟩

theorem free {x : Holding} (h : Holds base p (x :: held)) :
    ∃ p', p.free x.handle = .ok p' ∧ Holds base p' held := by
  obtain ⟨fresh, hgrowth, hheld⟩ := h
  obtain ⟨c, hc, rfl⟩ := List.mem_map.mp (hheld.mem_iff.mpr List.mem_cons_self)
  obtain ⟨p', rest, hfree, hperm, hgrowth'⟩ := hgrowth.free hc
  refine ⟨p', hfree, rest, hgrowth', ?_⟩
  have hcons : (c.holding :: rest.map Cell.holding).Perm (c.holding :: held) :=
    (hperm.map Cell.holding).symm.trans hheld
  exact hcons.cons_inv

/-- Slots whose storage is held give it back without a failure. -/
theorem release {role : SlotRole} (ss : List Slot) {r : Release}
    (h : Holds base r.pool (Slot.holdings role ss ++ held)) :
    (r.slots ss).failure = r.failure ∧ Holds base (r.slots ss).pool held := by
  induction ss generalizing r with
  | nil => exact ⟨rfl, h⟩
  | cons s rest ih =>
    cases s with
    | pooled handle type =>
      obtain ⟨p', hfree, hp'⟩ := free h
      have hslot : r.slot (.pooled handle type) =
          { r with released := r.released + 1, pool := p' } := by
        simp [Release.slot, Slot.release, hfree, Except.map]
      have hrest := ih (r := r.slot (.pooled handle type)) (by rw [hslot]; exact hp')
      rw [hslot] at hrest
      rw [Release.slots, List.foldl_cons, hslot]
      exact hrest
    | inline v => exact ih h
    | pending type => exact ih h

end Holds

end Pool

end ManagedCalls
