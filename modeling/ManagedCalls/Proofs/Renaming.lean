import ManagedCalls.Proofs.AbortedThreads

/-!
Handles are only names. Storage that is made in a pool on which others have worked
meanwhile gets later handles, and nothing else about it is different. A pool mirrors
another one in some storage if it has the same cells there, under handles that are
shifted by what the others have taken. Allocating, storing, freeing and making the
slots of an activation go the same way in both pools, unless one of them meets its
budget.
-/

namespace ManagedCalls

open Pool

variable {κ : Type}

def Cell.rename (ρ : Nat → Nat) (c : Cell) : Cell := { c with handle := ρ c.handle }

def Holding.rename (ρ : Nat → Nat) (x : Holding) : Holding := { x with handle := ρ x.handle }

def Slot.rename (ρ : Nat → Nat) : Slot → Slot
  | pooled handle type => pooled (ρ handle) type
  | inline v => inline v
  | pending type => pending type

def Frame.rename (ρ : Nat → Nat) (f : Frame κ) : Frame κ :=
  { f with
    arguments := f.arguments.map (Slot.rename ρ)
    locals := f.locals.map (Slot.rename ρ) }

def Thread.rename (ρ : Nat → Nat) (t : Thread κ) : Thread κ :=
  { t with frames := t.frames.map (Frame.rename ρ) }

theorem Slot.holdings_rename (ρ : Nat → Nat) (role : SlotRole) (ss : List Slot) :
    holdings role (ss.map (rename ρ)) = (holdings role ss).map (Holding.rename ρ) := by
  induction ss with
  | nil => rfl
  | cons s rest ih =>
    cases s with
    | pooled handle type => simp [rename, ih, Holding.rename]
    | inline v => simpa [rename] using ih
    | pending type => simpa [rename] using ih

/-- Only the handles that slots own matter. -/
theorem Slot.map_rename_congr {ρ σ : Nat → Nat} {role : SlotRole} {ss : List Slot}
    (h : ∀ x ∈ holdings role ss, ρ x.handle = σ x.handle) :
    ss.map (rename ρ) = ss.map (rename σ) := by
  refine List.map_congr_left fun s hs => ?_
  cases s with
  | pooled handle type => exact congrArg (pooled · type) (h ⟨handle, type, role⟩
      (mem_holdings.mpr ⟨rfl, hs⟩))
  | inline v => rfl
  | pending type => rfl

theorem Slot.map_rename_rename (ρ σ : Nat → Nat) (ss : List Slot) :
    (ss.map (rename ρ)).map (rename σ) = ss.map (rename (σ ∘ ρ)) := by
  rw [List.map_map]
  refine List.map_congr_left fun s _ => ?_
  cases s with
  | pooled handle type => rfl
  | inline v => rfl
  | pending type => rfl

theorem Slot.map_rename_id (ss : List Slot) : ss.map (rename fun handle => handle) = ss := by
  refine (List.map_congr_left fun s _ => ?_).trans (List.map_id ss)
  cases s with
  | pooled handle type => rfl
  | inline v => rfl
  | pending type => rfl

namespace Frame

theorem slots_rename (ρ : Nat → Nat) (f : Frame κ) (role : SlotRole) :
    (f.rename ρ).slots role = (f.slots role).map (Slot.rename ρ) := by
  cases role with
  | argument => rfl
  | localVar => rfl

theorem rename_congr {ρ σ : Nat → Nat} {f : Frame κ}
    (h : ∀ x ∈ f.holdings, ρ x.handle = σ x.handle) : f.rename ρ = f.rename σ := by
  have harguments := Slot.map_rename_congr fun x hx => h x (List.mem_append_left _ hx)
  have hlocals := Slot.map_rename_congr fun x hx => h x (List.mem_append_right _ hx)
  rw [rename, rename, harguments, hlocals]

theorem rename_rename (ρ σ : Nat → Nat) (f : Frame κ) :
    (f.rename ρ).rename σ = f.rename (σ ∘ ρ) := by
  simp only [rename, Slot.map_rename_rename]

theorem rename_id (f : Frame κ) : f.rename (fun handle => handle) = f := by
  rw [rename, Slot.map_rename_id, Slot.map_rename_id]

theorem withSlots_rename (ρ : Nat → Nat) (f : Frame κ) (role : SlotRole) (ss : List Slot) :
    (f.withSlots role ss).rename ρ = (f.rename ρ).withSlots role (ss.map (Slot.rename ρ)) := by
  cases role with
  | argument => rfl
  | localVar => rfl

theorem holdings_rename (ρ : Nat → Nat) (f : Frame κ) :
    (f.rename ρ).holdings = f.holdings.map (Holding.rename ρ) := by
  rw [holdings, holdings, List.map_append, ← Slot.holdings_rename, ← Slot.holdings_rename]
  rfl

end Frame

namespace Thread

theorem holdings_rename (ρ : Nat → Nat) (t : Thread κ) :
    (t.rename ρ).holdings = t.holdings.map (Holding.rename ρ) := by
  rw [holdings, holdings, rename, List.flatMap_map, List.map_flatMap]
  exact List.flatMap_congr fun f _ => f.holdings_rename ρ

theorem rename_congr {ρ σ : Nat → Nat} {t : Thread κ}
    (h : ∀ x ∈ t.holdings, ρ x.handle = σ x.handle) : t.rename ρ = t.rename σ := by
  have hframes : t.frames.map (Frame.rename ρ) = t.frames.map (Frame.rename σ) :=
    List.map_congr_left fun f hf =>
      Frame.rename_congr fun x hx => h x (List.mem_flatMap.mpr ⟨f, hf, hx⟩)
  rw [rename, rename, hframes]

theorem rename_rename (ρ σ : Nat → Nat) (t : Thread κ) :
    (t.rename ρ).rename σ = t.rename (σ ∘ ρ) := by
  have hframes : (t.frames.map (Frame.rename ρ)).map (Frame.rename σ) =
      t.frames.map (Frame.rename (σ ∘ ρ)) := by
    rw [List.map_map]
    exact List.map_congr_left fun f _ => f.rename_rename ρ σ
  rw [rename, rename, rename, hframes]

/-- A thread whose handles keep their names is as it was. -/
theorem rename_eq_self {ρ : Nat → Nat} {t : Thread κ}
    (h : ∀ x ∈ t.holdings, ρ x.handle = x.handle) : t.rename ρ = t := by
  have hframes : t.frames.map (Frame.rename fun handle => handle) = t.frames :=
    (List.map_congr_left fun f _ => f.rename_id).trans (List.map_id t.frames)
  rw [rename_congr (σ := fun handle => handle) h, rename, hframes]

end Thread

/-- The pool was asked for more than its budget. -/
def Fault.isPoolLimit : Fault → Bool
  | poolLimitExceeded .. => true
  | _ => false

/-- Handles from `first` on lie `width` further. Beside the handles, the counts of
allocations that stand for each other. -/
structure Shift where
  first : Nat
  width : Nat
  before : Nat
  since : Nat

namespace Shift

variable (s : Shift)

def handle (h : Nat) : Nat := if h < s.first then h else h + s.width

theorem handle_of_lt {s : Shift} {h : Nat} (hlt : h < s.first) : s.handle h = h := if_pos hlt

theorem handle_of_le {s : Shift} {h : Nat} (hle : s.first ≤ h) : s.handle h = h + s.width :=
  if_neg (Nat.not_lt.mpr hle)

theorem handle_injective : Function.Injective s.handle := by
  intro g h heq
  unfold handle at heq
  split at heq
  · split at heq
    · exact heq
    · omega
  · split at heq
    · omega
    · omega

end Shift

/-- Storage in one pool and in another one on which others have worked. -/
structure Pool.Mirrors (s : Shift) (p q : Pool) (held : List Holding) : Prop where
  cell : ∀ x ∈ held, ∃ c, p.find? x.handle = some c ∧ c.holding = x ∧
    q.find? (s.handle x.handle) = some (c.rename s.handle)
  nodup : (held.map Holding.handle).Nodup
  handle_lt : ∀ x ∈ held, x.handle < p.nextHandle
  first_le : s.first ≤ p.nextHandle
  nextHandle_eq : q.nextHandle = p.nextHandle + s.width
  allocations_eq : q.allocations + s.before = p.allocations + s.since

namespace Pool.Mirrors

variable {s : Shift} {p q p' q' : Pool} {held others : List Holding}

theorem perm (h : Mirrors s p q held) (hperm : held.Perm others) : Mirrors s p q others where
  cell := fun x hx => h.cell x (hperm.mem_iff.mpr hx)
  nodup := (hperm.map _).nodup_iff.mp h.nodup
  handle_lt := fun x hx => h.handle_lt x (hperm.mem_iff.mpr hx)
  first_le := h.first_le
  nextHandle_eq := h.nextHandle_eq
  allocations_eq := h.allocations_eq

/-- Part of the storage is mirrored too. -/
theorem sublist (h : Mirrors s p q held) (hsub : others.Sublist held) : Mirrors s p q others where
  cell := fun x hx => h.cell x (hsub.subset hx)
  nodup := h.nodup.sublist (hsub.map _)
  handle_lt := fun x hx => h.handle_lt x (hsub.subset hx)
  first_le := h.first_le
  nextHandle_eq := h.nextHandle_eq
  allocations_eq := h.allocations_eq

/-- New storage gets handles that stand for each other. -/
theorem allocate (h : Mirrors s p q held) {type : TypeSig} {role : SlotRole} {g g' : Nat}
    (hleft : p.allocate type role = .ok (g, p')) (hright : q.allocate type role = .ok (g', q')) :
    g' = s.handle g ∧ Mirrors s p' q' (⟨g, type, role⟩ :: held) := by
  have hfind := find?_allocate hleft
  have hfind' := find?_allocate hright
  obtain ⟨size, -, -, rfl, rfl⟩ := allocate_eq_ok.mp hleft
  obtain ⟨size', -, -, rfl, rfl⟩ := allocate_eq_ok.mp hright
  have hnext : q.nextHandle = s.handle p.nextHandle := by
    rw [Shift.handle_of_le h.first_le]
    exact h.nextHandle_eq
  refine ⟨hnext, ?_⟩
  constructor
  · intro x hx
    rcases List.mem_cons.mp hx with rfl | hx
    · refine ⟨_, by rw [hfind, if_pos rfl], rfl, ?_⟩
      rw [hfind', if_pos hnext.symm, hnext]
      rfl
    · obtain ⟨c, hc, hholding, hc'⟩ := h.cell x hx
      have hne : x.handle ≠ p.nextHandle := Nat.ne_of_lt (h.handle_lt x hx)
      have hne' : s.handle x.handle ≠ q.nextHandle := by
        rw [hnext]
        exact s.handle_injective.ne hne
      exact ⟨c, by rw [hfind, if_neg hne, hc], hholding, by rw [hfind', if_neg hne', hc']⟩
  · rw [List.map_cons, List.nodup_cons]
    refine ⟨fun hmem => ?_, h.nodup⟩
    obtain ⟨x, hx, heq⟩ := List.mem_map.mp hmem
    have hlt := h.handle_lt x hx
    dsimp only at heq
    omega
  · intro x hx
    rcases List.mem_cons.mp hx with rfl | hx
    · exact Nat.lt_succ_self _
    · exact Nat.lt_succ_of_lt (h.handle_lt x hx)
  · exact Nat.le_succ_of_le h.first_le
  · have hwidth := h.nextHandle_eq
    dsimp only
    omega
  · have hcount := h.allocations_eq
    dsimp only
    omega

/-- A store is refused in both pools or in none. -/
theorem store (h : Mirrors s p q held) {x : Holding} (hx : x ∈ held) (v : Value) :
    (∃ e, p.store x.handle v = .error e ∧ q.store (s.handle x.handle) v = .error e) ∨
      ∃ p' q', p.store x.handle v = .ok p' ∧ q.store (s.handle x.handle) v = .ok q' ∧
        Mirrors s p' q' held := by
  obtain ⟨c, hc, -, hc'⟩ := h.cell x hx
  cases hbytes : Storage.encode? c.type v with
  | none =>
    have hbytes' : Storage.encode? (c.rename s.handle).type v = none := hbytes
    exact Or.inl ⟨.typeMismatch c.type v, by simp [Pool.store, hc, hbytes],
      by simp [Pool.store, hc', hbytes']; rfl⟩
  | some bytes =>
    have hbytes' : Storage.encode? (c.rename s.handle).type v = some bytes := hbytes
    refine Or.inr ⟨_, _, by simp [Pool.store, hc, hbytes]; rfl,
      by simp [Pool.store, hc', hbytes']; rfl, ?_⟩
    constructor
    · intro y hy
      obtain ⟨k, hk, hholding, hk'⟩ := h.cell y hy
      rw [Pool.find?] at hk hk'
      by_cases heq : y.handle = x.handle
      · refine ⟨{ k with bytes := bytes.take c.bytes.length }, ?_, hholding, ?_⟩
        · rw [Pool.find?, find?_setBytes, if_pos heq, hk]
          rfl
        · rw [Pool.find?, find?_setBytes, if_pos (by rw [heq]), hk']
          rfl
      · refine ⟨k, by rw [Pool.find?, find?_setBytes, if_neg heq, hk], hholding, ?_⟩
        rw [Pool.find?, find?_setBytes, if_neg (s.handle_injective.ne heq), hk']
    · exact h.nodup
    · exact h.handle_lt
    · exact h.first_le
    · exact h.nextHandle_eq
    · exact h.allocations_eq

theorem free {x : Holding} (h : Mirrors s p q (x :: held)) :
    ∃ p' q', p.free x.handle = .ok p' ∧ q.free (s.handle x.handle) = .ok q' ∧
      Mirrors s p' q' held := by
  obtain ⟨c, hc, -, hc'⟩ := h.cell x List.mem_cons_self
  have hleft := free_eq_ok.mpr ⟨c, hc, rfl⟩
  have hright := free_eq_ok.mpr ⟨c.rename s.handle, hc', rfl⟩
  have hnodup := h.nodup
  rw [List.map_cons, List.nodup_cons] at hnodup
  refine ⟨_, _, hleft, hright, ?_⟩
  constructor
  · intro y hy
    obtain ⟨k, hk, hholding, hk'⟩ := h.cell y (List.mem_cons_of_mem _ hy)
    have hne : y.handle ≠ x.handle := fun heq => hnodup.1 (heq ▸ List.mem_map_of_mem hy)
    refine ⟨k, ?_, hholding, ?_⟩
    · rw [find?_free_of_ne hleft hne, hk]
    · rw [find?_free_of_ne hright (s.handle_injective.ne hne), hk']
  · exact hnodup.2
  · exact fun y hy => h.handle_lt y (List.mem_cons_of_mem _ hy)
  · exact h.first_le
  · exact h.nextHandle_eq
  · exact h.allocations_eq

/-- An allocation goes the same way in both pools, unless one of them meets its budget. -/
theorem allocate_cases (h : Mirrors s p q held) (type : TypeSig) (role : SlotRole) :
    (∃ e, p.allocate type role = .error e ∧ q.allocate type role = .error e) ∨
      (∃ e, e.isPoolLimit = true ∧
        (p.allocate type role = .error e ∨ q.allocate type role = .error e)) ∨
      ∃ g p' q', p.allocate type role = .ok (g, p') ∧
        q.allocate type role = .ok (s.handle g, q') ∧
        Mirrors s p' q' (⟨g, type, role⟩ :: held) := by
  cases hsize : type.staticSize with
  | none => exact Or.inl ⟨.unsizedType type, by simp [Pool.allocate, hsize]⟩
  | some size =>
    by_cases hover : p.bytesInUse + size > p.budget
    · exact Or.inr (Or.inl ⟨_, rfl, Or.inl (by simp [Pool.allocate, hsize, hover]; rfl)⟩)
    by_cases hover' : q.bytesInUse + size > q.budget
    · exact Or.inr (Or.inl ⟨_, rfl, Or.inr (by simp [Pool.allocate, hsize, hover']; rfl)⟩)
    obtain ⟨g, p', hleft⟩ : ∃ g p', p.allocate type role = .ok (g, p') :=
      allocate_succeeds_iff.mpr ⟨size, hsize, Nat.not_lt.mp hover⟩
    obtain ⟨g', q', hright⟩ : ∃ g' q', q.allocate type role = .ok (g', q') :=
      allocate_succeeds_iff.mpr ⟨size, hsize, Nat.not_lt.mp hover'⟩
    obtain ⟨rfl, hmirrors⟩ := h.allocate hleft hright
    exact Or.inr (Or.inr ⟨g, p', q', hleft, hright, hmirrors⟩)

/-- Slots in mirrored storage give it back in both pools. -/
theorem release {role : SlotRole} (ss : List Slot) (r r' : Release)
    (h : Mirrors s r.pool r'.pool (Slot.holdings role ss ++ held))
    (hresult : r'.result = r.result) (hfailure : r.failure = none) :
    (r'.slots (ss.map (Slot.rename s.handle))).result = (r.slots ss).result ∧
      (r.slots ss).failure = none ∧
      Mirrors s (r.slots ss).pool (r'.slots (ss.map (Slot.rename s.handle))).pool held := by
  induction ss generalizing r r' with
  | nil => exact ⟨hresult, hfailure, h⟩
  | cons slot rest ih =>
    rw [Release.slots, List.map_cons, List.foldl_cons, Release.slots, List.foldl_cons]
    cases slot with
    | pooled handle type =>
      obtain ⟨p', q', hleft, hright, hmirrors⟩ := free h
      have hslot : r.slot (.pooled handle type) =
          { r with released := r.released + 1, pool := p' } := by
        simp [Release.slot, Slot.release, hleft, Except.map]
      have hslot' : r'.slot ((Slot.pooled handle type).rename s.handle) =
          { r' with released := r'.released + 1, pool := q' } := by
        simp [Slot.rename, Release.slot, Slot.release, hright, Except.map]
      rw [hslot, hslot']
      refine ih _ _ hmirrors ?_ hfailure
      rw [Release.result, Release.result, hfailure] at hresult ⊢
      cases hfailure' : r'.failure with
      | some e =>
        rw [hfailure'] at hresult
        cases hresult
      | none =>
        rw [hfailure'] at hresult
        exact congrArg (fun n => Except.ok (n + 1)) (Except.ok.inj hresult)
    | inline v => exact ih r r' h hresult hfailure
    | pending type => exact ih r r' h hresult hfailure

theorem rollBack {role : SlotRole} (ss : List Slot)
    (h : Mirrors s p q (Slot.holdings role ss ++ held)) :
    Mirrors s (ManagedCalls.rollBack ss p)
      (ManagedCalls.rollBack (ss.map (Slot.rename s.handle)) q) held :=
  (release ss (.start p) (.start q) h rfl rfl).2.2

end Pool.Mirrors

theorem Frame.release_mirrors {s : Shift} {p q : Pool} {held : List Holding} {f : Frame κ}
    (h : Mirrors s p q (f.holdings ++ held)) :
    ((f.rename s.handle).release q).result = (f.release p).result ∧
      (f.release p).failure = none ∧
      Mirrors s (f.release p).pool ((f.rename s.handle).release q).pool held := by
  rw [holdings, List.append_assoc] at h
  obtain ⟨hresult, hfailure, hlocals⟩ :=
    Mirrors.release f.arguments (.start p) (.start q) h rfl rfl
  have hslots : f.release p = ((Release.start p).slots f.arguments).slots f.locals :=
    List.foldl_append
  have hslots' : (f.rename s.handle).release q =
      ((Release.start q).slots (f.arguments.map (Slot.rename s.handle))).slots
        (f.locals.map (Slot.rename s.handle)) :=
    List.foldl_append
  rw [hslots, hslots']
  exact Mirrors.release f.locals _ _ hlocals hresult hfailure

namespace Frame

/-- A slot reads the same where its storage has the same bytes. -/
theorem readSlot_rename {ρ : Nat → Nat} {p q : Pool} {f : Frame κ}
    (h : ∀ x ∈ f.holdings, ∃ c, p.find? x.handle = some c ∧
      q.find? (ρ x.handle) = some (c.rename ρ)) (role : SlotRole) (index : Nat) :
    (f.rename ρ).readSlot q role index = f.readSlot p role index := by
  unfold readSlot
  rw [slots_rename, List.getElem?_map, List.length_map]
  cases hslot : (f.slots role)[index]? with
  | none => rfl
  | some slot =>
    cases slot with
    | inline v => rfl
    | pending type => rfl
    | pooled handle type =>
      obtain ⟨c, hc, hc'⟩ := h ⟨handle, type, role⟩ (mem_holdings.mpr (List.mem_of_getElem? hslot))
      simp [Slot.rename, Slot.read, Pool.load, hc, hc', Cell.rename, Except.map]

/-- A write is refused in both pools or in none. -/
theorem writeSlot_mirrors {s : Shift} {p q : Pool} {held : List Holding} {f : Frame κ}
    (h : Mirrors s p q held) (hsub : f.holdings ⊆ held) (role : SlotRole) (index : Nat)
    (v : Value) :
    (∃ e, f.writeSlot p role index v = .error e ∧
        (f.rename s.handle).writeSlot q role index v = .error e) ∨
      ∃ g p' q', f.writeSlot p role index v = .ok (g, p') ∧
        (f.rename s.handle).writeSlot q role index v = .ok (g.rename s.handle, q') ∧
        Mirrors s p' q' held := by
  unfold writeSlot
  rw [slots_rename, List.getElem?_map, List.length_map]
  have hset (slot : Slot) :
      (f.rename s.handle).withSlots role (((f.slots role).map (Slot.rename s.handle)).set index
        (slot.rename s.handle)) =
        (f.withSlots role ((f.slots role).set index slot)).rename s.handle := by
    rw [withSlots_rename, List.map_set]
  cases hslot : (f.slots role)[index]? with
  | none => exact Or.inl ⟨_, rfl, rfl⟩
  | some slot =>
    cases slot with
    | inline old =>
      refine Or.inr ⟨_, p, q, rfl, ?_, h⟩
      rw [← hset]
      rfl
    | pending type =>
      refine Or.inr ⟨_, p, q, rfl, ?_, h⟩
      rw [← hset]
      rfl
    | pooled handle type =>
      have hmem := hsub (mem_holdings.mpr (List.mem_of_getElem? hslot) :
        ⟨handle, type, role⟩ ∈ f.holdings)
      obtain ⟨e, hstore, hstore'⟩ | ⟨p', q', hstore, hstore', hstored⟩ := h.store hmem v
      · exact Or.inl ⟨e, by simp [Slot.write, hstore, Except.map],
          by simp [Slot.rename, Slot.write, hstore', Except.map]⟩
      · refine Or.inr ⟨_, p', q', by simp [Slot.write, hstore, Except.map]; rfl, ?_, hstored⟩
        rw [← hset]
        simp [Slot.rename, Slot.write, hstore', Except.map]

end Frame

/-- What comes of the same work in two pools that mirror each other: the same, with
what it has made in mirrored storage, or the same failure, unless one of them has met
its budget. -/
inductive Abreast {α : Type} (s : Shift) (held : List Holding) (owns : α → List Holding)
    (same : α → α) : Except Fault α × Pool → Except Fault α × Pool → Prop
  | made {a : α} {p q : Pool} (h : Mirrors s p q (owns a ++ held)) :
      Abreast s held owns same (.ok a, p) (.ok (same a), q)
  | failed {e : Fault} {p q : Pool} (h : Mirrors s p q held) :
      Abreast s held owns same (.error e, p) (.error e, q)
  | overLeft {e : Fault} {p : Pool} (r : Except Fault α × Pool) (h : e.isPoolLimit = true) :
      Abreast s held owns same (.error e, p) r
  | overRight {e : Fault} {q : Pool} (r : Except Fault α × Pool) (h : e.isPoolLimit = true) :
      Abreast s held owns same r (.error e, q)

section

variable {s : Shift} {p q : Pool} {held : List Holding}

/-- A slot with its storage. -/
abbrev SlotAbreast (s : Shift) (held : List Holding) (role : SlotRole) :
    Except Fault Slot × Pool → Except Fault Slot × Pool → Prop :=
  Abreast s held (fun slot => Slot.holdings role [slot]) (Slot.rename s.handle)

/-- Some slots with their storage. -/
abbrev SlotsAbreast (s : Shift) (held : List Holding) (role : SlotRole) :
    Except Fault (List Slot) × Pool → Except Fault (List Slot) × Pool → Prop :=
  Abreast s held (Slot.holdings role) (List.map (Slot.rename s.handle))

theorem pooledSlot_abreast (h : Mirrors s p q held) (type : TypeSig) (role : SlotRole)
    (v : Value) :
    SlotAbreast s held role (pooledSlot p type role v) (pooledSlot q type role v) := by
  unfold pooledSlot
  obtain ⟨e, hleft, hright⟩ | ⟨e, hlimit, hleft | hright⟩ |
    ⟨g, p', q', hleft, hright, hmirrors⟩ := h.allocate_cases type role
  · rw [hleft, hright]
    exact .failed h
  · rw [hleft]
    exact .overLeft _ hlimit
  · rw [hright]
    exact .overRight _ hlimit
  · rw [hleft, hright]
    dsimp only
    obtain ⟨e, hstore, hstore'⟩ | ⟨p₁, q₁, hstore, hstore', hstored⟩ :=
      hmirrors.store List.mem_cons_self v
    · rw [hstore, hstore']
      exact .failed (Mirrors.rollBack [.pooled g type] hmirrors)
    · rw [hstore, hstore']
      exact .made (a := Slot.pooled g type) hstored

theorem argumentSlot_abreast (h : Mirrors s p q held) (param : Option Param) (v : Value) :
    SlotAbreast s held .argument (argumentSlot p param v) (argumentSlot q param v) := by
  unfold argumentSlot
  cases param with
  | none => exact .made (a := Slot.inline v) h
  | some param =>
    dsimp only
    split
    · exact pooledSlot_abreast h param.type .argument v
    · exact .made (a := Slot.inline v) h

theorem localSlot_abreast (h : Mirrors s p q held) (initLocals : Bool) (l : LocalVar) :
    SlotAbreast s held .localVar (localSlot p initLocals l) (localSlot q initLocals l) := by
  unfold localSlot
  split
  · obtain ⟨e, hleft, hright⟩ | ⟨e, hlimit, hleft | hright⟩ |
      ⟨g, p', q', hleft, hright, hmirrors⟩ := h.allocate_cases l.type .localVar
    · rw [hleft, hright]
      exact .failed h
    · rw [hleft]
      exact .overLeft _ hlimit
    · rw [hright]
      exact .overRight _ hlimit
    · rw [hleft, hright]
      exact .made (a := Slot.pooled g l.type) hmirrors
  · exact .made (a := Slot.pending l.type) h

/-- Slots are made abreast one after the other, beside those already made. -/
theorem materialize_abreast {α : Type} {make : Pool → α → Except Fault Slot × Pool}
    {role : SlotRole}
    (hmake : ∀ {p q held} (a : α), Mirrors s p q held →
      SlotAbreast s held role (make p a) (make q a))
    (items : List α) (made : List Slot) (h : Mirrors s p q (Slot.holdings role made ++ held)) :
    SlotsAbreast s held role (materialize make items made p)
      (materialize make items (made.map (Slot.rename s.handle)) q) := by
  induction items generalizing made p q with
  | nil =>
    rw [materialize, materialize, ← List.map_reverse]
    exact .made (h.perm ((Slot.holdings_reverse role made).symm.append_right held))
  | cons a rest ih =>
    have hone := hmake a h
    rw [materialize, materialize]
    cases hleft : make p a with
    | mk r p' =>
    cases hright : make q a with
    | mk r' q' =>
    rw [hleft, hright] at hone
    cases hone with
    | @made slot _ _ hmirrors =>
      refine ih (slot :: made) ?_
      have hall : Slot.holdings role (slot :: made) =
          Slot.holdings role [slot] ++ Slot.holdings role made :=
        List.filterMap_append (l := [slot])
      rw [hall, List.append_assoc]
      exact hmirrors
    | failed hmirrors =>
      dsimp only
      rw [← List.map_reverse]
      exact .failed (Mirrors.rollBack made.reverse
        (hmirrors.perm ((Slot.holdings_reverse role made).symm.append_right held)))
    | overLeft _ hlimit => exact .overLeft _ hlimit
    | overRight _ hlimit => exact .overRight _ hlimit

theorem materializeArguments_abreast (h : Mirrors s p q held) (signature : MethodSig)
    (vs : List Value) :
    SlotsAbreast s held .argument (materializeArguments signature vs p)
      (materializeArguments signature vs q) :=
  materialize_abreast (fun a h => argumentSlot_abreast h _ a.1) vs.zipIdx [] h

theorem materializeLocals_abreast (h : Mirrors s p q held) (locals : LocalsSig)
    (initLocals : Bool) :
    SlotsAbreast s held .localVar (materializeLocals locals initLocals p)
      (materializeLocals locals initLocals q) :=
  materialize_abreast (fun l h => localSlot_abreast h initLocals l) locals [] h

/-- The slots of a whole activation. -/
theorem materializeFrame_abreast (h : Mirrors s p q held) (signature : MethodSig)
    (locals : LocalsSig) (initLocals : Bool) (vs : List Value) :
    Abreast s held (fun slots => Slot.holdings .argument slots.1 ++ Slot.holdings .localVar slots.2)
      (Prod.map (List.map (Slot.rename s.handle)) (List.map (Slot.rename s.handle)))
      (materializeFrame signature locals initLocals vs p)
      (materializeFrame signature locals initLocals vs q) := by
  have harguments := materializeArguments_abreast h signature vs
  unfold materializeFrame
  cases hleft : materializeArguments signature vs p with
  | mk r p' =>
  cases hright : materializeArguments signature vs q with
  | mk r' q' =>
  rw [hleft, hright] at harguments
  cases harguments with
  | failed hmirrors => exact .failed hmirrors
  | overLeft _ hlimit => exact .overLeft _ hlimit
  | overRight _ hlimit => exact .overRight _ hlimit
  | @made arguments _ _ hmirrors =>
    have hlocals := materializeLocals_abreast hmirrors locals initLocals
    dsimp only
    cases hleft : materializeLocals locals initLocals p' with
    | mk r p'' =>
    cases hright : materializeLocals locals initLocals q' with
    | mk r' q'' =>
    rw [hleft, hright] at hlocals
    cases hlocals with
    | failed hmirrors => exact .failed (hmirrors.rollBack arguments)
    | overLeft _ hlimit => exact .overLeft _ hlimit
    | overRight _ hlimit => exact .overRight _ hlimit
    | @made slots _ _ hmirrors =>
      refine .made (a := (arguments, slots)) (hmirrors.perm ?_)
      rw [← List.append_assoc]
      exact List.perm_append_comm.append_right held

end

end ManagedCalls
