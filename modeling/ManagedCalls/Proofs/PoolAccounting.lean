import ManagedCalls.Proofs.PoolGrowth
import Mathlib.Data.List.Induction

/-!
The books of a pool. Allocations, stores, loads and frees may name any handles,
stale ones among them, and may fail; after any sequence of them the counters
agree with the cells. A machine keeps the counters in 64-bit words. It takes the
bytes of an allocation before it knows that they fit, and gives them back if they
do not; none of its words ever wraps around.
-/

namespace ManagedCalls

/-- Something asked of a pool. -/
inductive PoolAction where
  | allocate (type : TypeSig) (role : SlotRole)
  | store (handle : Nat) (v : Value)
  | load (handle : Nat)
  | free (handle : Nat)

/-- The counters of a pool in machine words. -/
structure Ledger where
  nextHandle : UInt64
  bytesInUse : UInt64
  allocations : UInt64
  frees : UInt64

namespace Ledger

/-- Takes the bytes at once and gives them back if that was over the budget. -/
def allocate (l : Ledger) (budget size : UInt64) : Ledger :=
  let taken := { l with bytesInUse := l.bytesInUse + size }
  if budget < l.bytesInUse + size then { taken with bytesInUse := taken.bytesInUse - size }
  else { taken with nextHandle := l.nextHandle + 1, allocations := l.allocations + 1 }

def free (l : Ledger) (size : UInt64) : Ledger :=
  { l with bytesInUse := l.bytesInUse - size, frees := l.frees + 1 }

/-- The words are the counters of the pool: none of them has wrapped around. -/
structure Keeps (l : Ledger) (p : Pool) : Prop where
  nextHandle_eq : l.nextHandle.toNat = p.nextHandle
  bytesInUse_eq : l.bytesInUse.toNat = p.bytesInUse
  allocations_eq : l.allocations.toNat = p.allocations
  frees_eq : l.frees.toNat = p.frees

end Ledger

/-- A pool in use, the handles it has given out, the latest first, and its
counters as words. -/
structure PoolRun where
  pool : Pool
  issued : List Nat
  ledger : Ledger

def PoolRun.start (budget : Nat) : PoolRun := ⟨Pool.empty budget, [], ⟨1, 0, 0, 0⟩⟩

namespace PoolAction

/-- The handle that an action is about; for an allocation it is the next one. -/
def handle (p : Pool) : PoolAction → Nat
  | allocate _ _ => p.nextHandle
  | store handle _ | load handle | free handle => handle

/-- The pool that an action leaves if it succeeds. -/
def attempt (p : Pool) : PoolAction → Except Fault Pool
  | allocate type role => (p.allocate type role).map Prod.snd
  | store handle v => p.store handle v
  | load handle => (p.load handle).map fun _ => p
  | free handle => p.free handle

/-- The handle that an action gives out. -/
def issue? (p : Pool) : PoolAction → Option Nat
  | allocate type role => (p.allocate type role).toOption.map Prod.fst
  | store _ _ | load _ | free _ => none

/-- What an action does to the words. -/
def keep (p : Pool) (l : Ledger) : PoolAction → Ledger
  | allocate type _ =>
    match type.staticSize with
    | some size => l.allocate (.ofNat p.budget) (.ofNat size)
    | none => l
  | free handle =>
    match p.find? handle with
    | some cell => l.free (.ofNat cell.bytes.length)
    | none => l
  | store _ _ | load _ => l

def perform (r : PoolRun) (a : PoolAction) : PoolRun where
  pool := (a.attempt r.pool).toOption.getD r.pool
  issued := (a.issue? r.pool).toList ++ r.issued
  ledger := a.keep r.pool r.ledger

def performAll (budget : Nat) (actions : List PoolAction) : PoolRun :=
  actions.foldl perform (PoolRun.start budget)

end PoolAction

namespace Pool

theorem allocate_eq_ok {p p' : Pool} {type : TypeSig} {role : SlotRole} {handle : Nat} :
    p.allocate type role = .ok (handle, p') ↔
      ∃ size, type.staticSize = some size ∧ p.bytesInUse + size ≤ p.budget ∧
        handle = p.nextHandle ∧
        p' = { p with
          cells := ⟨p.nextHandle, type, role, List.replicate size 0⟩ :: p.cells
          nextHandle := p.nextHandle + 1
          bytesInUse := p.bytesInUse + size
          allocations := p.allocations + 1 } := by
  unfold allocate
  cases hsize : type.staticSize with
  | none => simp
  | some size =>
    by_cases hfits : p.bytesInUse + size ≤ p.budget
    · simp [hfits, Nat.not_lt.mpr hfits, eq_comm]
    · simp [hfits, Nat.not_le.mp hfits]

theorem free_eq_ok {p p' : Pool} {handle : Nat} :
    p.free handle = .ok p' ↔
      ∃ c, p.find? handle = some c ∧
        p' = { p with
          cells := p.cells.eraseP fun c => c.handle == handle
          bytesInUse := p.bytesInUse - c.bytes.length
          frees := p.frees + 1 } := by
  unfold free
  cases p.find? handle with
  | none => simp
  | some c => simp [eq_comm]

theorem allocate_succeeds_iff {p : Pool} {type : TypeSig} {role : SlotRole} :
    (∃ handle p', p.allocate type role = .ok (handle, p')) ↔
      ∃ size, type.staticSize = some size ∧ p.bytesInUse + size ≤ p.budget := by
  simp [allocate_eq_ok]

theorem free_succeeds_iff {p : Pool} {handle : Nat} :
    (∃ p', p.free handle = .ok p') ↔ p.contains handle = true := by
  simp [free_eq_ok, contains, Option.isSome_iff_exists]

theorem Growth.eq_cells {budget : Nat} {p : Pool} {fresh : List Cell}
    (h : Growth (Pool.empty budget) p fresh) : fresh = p.cells := by
  rw [h.cells_eq, Pool.empty, List.append_nil]

end Pool

namespace PoolRun

/-- What every action preserves. -/
structure Sound (budget : Nat) (r : PoolRun) : Prop where
  growth : Pool.Growth (Pool.empty budget) r.pool r.pool.cells
  bytesInUse_le : r.pool.bytesInUse ≤ budget
  nextHandle_eq : r.pool.nextHandle = r.pool.allocations + 1
  issued_length : r.issued.length = r.pool.allocations
  issued_nodup : r.issued.Nodup
  issued_lt : ∀ handle ∈ r.issued, handle < r.pool.nextHandle

namespace Sound

variable {budget : Nat} {r : PoolRun}

theorem budget_eq (h : Sound budget r) : r.pool.budget = budget := h.growth.budget_eq

theorem start (budget : Nat) : Sound budget (start budget) where
  growth := Pool.Growth.refl _
  bytesInUse_le := Nat.zero_le _
  nextHandle_eq := rfl
  issued_length := rfl
  issued_nodup := List.nodup_nil
  issued_lt := by simp [PoolRun.start]

theorem of_same (h : Sound budget r) {r' : PoolRun} (hpool : r'.pool = r.pool)
    (hissued : r'.issued = r.issued) : Sound budget r' := by
  obtain ⟨pool', issued', ledger'⟩ := r'
  obtain rfl : pool' = r.pool := hpool
  obtain rfl : issued' = r.issued := hissued
  exact ⟨h.growth, h.bytesInUse_le, h.nextHandle_eq, h.issued_length, h.issued_nodup, h.issued_lt⟩

theorem allocate (h : Sound budget r) {type : TypeSig} {role : SlotRole} {handle : Nat}
    {p' : Pool} (halloc : r.pool.allocate type role = .ok (handle, p')) (ledger : Ledger) :
    Sound budget ⟨p', handle :: r.issued, ledger⟩ := by
  obtain ⟨c, -, hgrowth⟩ := Pool.Growth.of_allocate halloc
  have hall := h.growth.trans hgrowth
  rw [hall.eq_cells] at hall
  obtain ⟨size, -, hfits, rfl, rfl⟩ := Pool.allocate_eq_ok.mp halloc
  have hnew : r.pool.nextHandle ∉ r.issued := fun hmem =>
    Nat.lt_irrefl _ (h.issued_lt _ hmem)
  exact
    { growth := hall
      bytesInUse_le := h.budget_eq ▸ hfits
      nextHandle_eq := congrArg (· + 1) h.nextHandle_eq
      issued_length := congrArg (· + 1) h.issued_length
      issued_nodup := List.nodup_cons.mpr ⟨hnew, h.issued_nodup⟩
      issued_lt := by
        intro old hold
        rcases List.mem_cons.mp hold with rfl | hold
        · exact Nat.lt_succ_self _
        · exact Nat.lt_succ_of_lt (h.issued_lt old hold) }

theorem store (h : Sound budget r) {handle : Nat} {v : Value} {p' : Pool}
    (hstore : r.pool.store handle v = .ok p') (ledger : Ledger) :
    Sound budget ⟨p', r.issued, ledger⟩ := by
  obtain ⟨c, bytes, hfind, rfl⟩ := Pool.store_cases hstore
  obtain ⟨hc, rfl⟩ := Pool.cell_of_find? hfind
  obtain ⟨fresh, -, hgrowth⟩ := h.growth.store hc hstore
  rw [hgrowth.eq_cells] at hgrowth
  exact ⟨hgrowth, h.bytesInUse_le, h.nextHandle_eq, h.issued_length, h.issued_nodup, h.issued_lt⟩

theorem free (h : Sound budget r) {handle : Nat} {p' : Pool}
    (hfree : r.pool.free handle = .ok p') (ledger : Ledger) :
    Sound budget ⟨p', r.issued, ledger⟩ := by
  obtain ⟨c, hfind, rfl⟩ := Pool.free_eq_ok.mp hfree
  obtain ⟨hc, rfl⟩ := Pool.cell_of_find? hfind
  obtain ⟨p', rest, hfree', -, hgrowth⟩ := h.growth.free hc
  obtain rfl := Except.ok.inj (hfree.symm.trans hfree')
  rw [hgrowth.eq_cells] at hgrowth
  exact
    { growth := hgrowth
      bytesInUse_le := Nat.le_trans (Nat.sub_le _ _) h.bytesInUse_le
      nextHandle_eq := h.nextHandle_eq
      issued_length := h.issued_length
      issued_nodup := h.issued_nodup
      issued_lt := h.issued_lt }

end Sound

end PoolRun

namespace PoolAction

open PoolRun

variable {budget : Nat} {r : PoolRun} {a : PoolAction}

/-- What an action that succeeds has done. -/
theorem attempt_cases {p p' : Pool} (h : a.attempt p = .ok p') :
    (∃ type role, a = allocate type role ∧ p.allocate type role = .ok (p.nextHandle, p')) ∨
    (∃ handle v, a = store handle v ∧ p.store handle v = .ok p') ∨
    (∃ handle, a = load handle ∧ p' = p) ∨
    ∃ handle, a = free handle ∧ p.free handle = .ok p' := by
  cases a with
  | allocate type role =>
    cases halloc : p.allocate type role with
    | error e =>
      rw [attempt, halloc] at h
      cases h
    | ok result =>
      obtain ⟨handle, p₁⟩ := result
      rw [attempt, halloc] at h
      obtain rfl : p₁ = p' := Except.ok.inj h
      obtain ⟨size, -, -, rfl, -⟩ := Pool.allocate_eq_ok.mp halloc
      exact Or.inl ⟨type, role, rfl, halloc⟩
  | store handle v => exact Or.inr (Or.inl ⟨handle, v, rfl, h⟩)
  | load handle =>
    cases hload : p.load handle with
    | error e =>
      rw [attempt, hload] at h
      cases h
    | ok v =>
      rw [attempt, hload] at h
      exact Or.inr (Or.inr (Or.inl ⟨handle, rfl, (Except.ok.inj h).symm⟩))
  | free handle => exact Or.inr (Or.inr (Or.inr ⟨handle, rfl, h⟩))

theorem perform_of_ok {p' : Pool} (h : a.attempt r.pool = .ok p') : (a.perform r).pool = p' := by
  rw [perform, h]
  rfl

/-- An action that fails changes neither the pool nor the handles given out. -/
theorem perform_of_error {e : Fault} (h : a.attempt r.pool = .error e) :
    (a.perform r).pool = r.pool ∧ (a.perform r).issued = r.issued := by
  refine ⟨by rw [perform, h]; rfl, ?_⟩
  cases a with
  | allocate type role =>
    cases halloc : r.pool.allocate type role with
    | ok result =>
      rw [attempt, halloc] at h
      cases h
    | error e => simp [perform, issue?, halloc, Except.toOption]
  | store handle v => rfl
  | load handle => rfl
  | free handle => rfl

theorem perform_sound (h : Sound budget r) (a : PoolAction) : Sound budget (a.perform r) := by
  cases hrun : a.attempt r.pool with
  | error e =>
    obtain ⟨hpool, hissued⟩ := perform_of_error hrun
    exact h.of_same hpool hissued
  | ok p' =>
    have hpool := perform_of_ok hrun
    obtain ⟨type, role, rfl, halloc⟩ | ⟨handle, v, rfl, hstore⟩ | ⟨handle, rfl, rfl⟩ |
      ⟨handle, rfl, hfree⟩ := attempt_cases hrun
    · refine (h.allocate halloc r.ledger).of_same hpool ?_
      simp [perform, issue?, halloc, Except.toOption]
    · exact (h.store hstore r.ledger).of_same hpool rfl
    · exact h.of_same hpool rfl
    · exact (h.free hfree r.ledger).of_same hpool rfl

theorem performAll_concat (budget : Nat) (actions : List PoolAction) (a : PoolAction) :
    performAll budget (actions ++ [a]) = a.perform (performAll budget actions) := by
  rw [performAll, List.foldl_append]
  rfl

theorem performAll_sound (budget : Nat) (actions : List PoolAction) :
    Sound budget (performAll budget actions) := by
  induction actions using List.reverseRecOn with
  | nil => exact Sound.start budget
  | append_singleton actions a ih =>
    rw [performAll_concat]
    exact perform_sound ih a

/-- An action changes nothing under other handles than its own. -/
theorem find?_perform_of_ne {other : Nat} (hne : other ≠ a.handle r.pool) :
    (a.perform r).pool.find? other = r.pool.find? other := by
  cases hrun : a.attempt r.pool with
  | error e => rw [(perform_of_error hrun).1]
  | ok p' =>
    rw [perform_of_ok hrun]
    obtain ⟨type, role, rfl, halloc⟩ | ⟨handle, v, rfl, hstore⟩ | ⟨handle, rfl, rfl⟩ |
      ⟨handle, rfl, hfree⟩ := attempt_cases hrun
    · rw [Pool.find?_allocate halloc]
      exact if_neg hne
    · exact Pool.find?_store_of_ne hstore hne
    · rfl
    · exact Pool.find?_free_of_ne hfree hne

end PoolAction

namespace Ledger.Keeps

variable {l : Ledger} {p : Pool} {size : Nat}

theorem taken (h : l.Keeps p) (hword : p.bytesInUse + size < 2 ^ 64) :
    (l.bytesInUse + UInt64.ofNat size).toNat = p.bytesInUse + size := by
  have hbytes := h.bytesInUse_eq
  rw [UInt64.toNat_add, UInt64.toNat_ofNat']
  omega

/-- The words notice what is over the budget. -/
theorem over_iff (h : l.Keeps p) (hword : p.bytesInUse + size < 2 ^ 64)
    (hbudget : p.budget < 2 ^ 64) :
    UInt64.ofNat p.budget < l.bytesInUse + UInt64.ofNat size ↔ p.budget < p.bytesInUse + size := by
  rw [UInt64.lt_iff_toNat_lt, h.taken hword, UInt64.toNat_ofNat', Nat.mod_eq_of_lt hbudget]

theorem allocate_refused (h : l.Keeps p) (hword : p.bytesInUse + size < 2 ^ 64)
    (hbudget : p.budget < 2 ^ 64) (hover : p.budget < p.bytesInUse + size) :
    l.allocate (.ofNat p.budget) (.ofNat size) = l := by
  rw [Ledger.allocate, if_pos ((h.over_iff hword hbudget).mpr hover)]
  simp only [UInt64.add_sub_cancel]

theorem allocate (h : l.Keeps p) (hbudget : p.budget < 2 ^ 64)
    (hfits : p.bytesInUse + size ≤ p.budget) (hnext : p.nextHandle + 1 < 2 ^ 64)
    (hallocs : p.allocations + 1 < 2 ^ 64) (cells : List Cell) :
    (l.allocate (.ofNat p.budget) (.ofNat size)).Keeps
      { p with
        cells
        nextHandle := p.nextHandle + 1
        bytesInUse := p.bytesInUse + size
        allocations := p.allocations + 1 } := by
  have hword : p.bytesInUse + size < 2 ^ 64 := Nat.lt_of_le_of_lt hfits hbudget
  rw [Ledger.allocate, if_neg (mt (h.over_iff hword hbudget).mp (Nat.not_lt.mpr hfits))]
  exact
    { nextHandle_eq := by
        rw [UInt64.toNat_add, h.nextHandle_eq]
        exact Nat.mod_eq_of_lt hnext
      bytesInUse_eq := h.taken hword
      allocations_eq := by
        rw [UInt64.toNat_add, h.allocations_eq]
        exact Nat.mod_eq_of_lt hallocs
      frees_eq := h.frees_eq }

theorem free (h : l.Keeps p) (hbytes : p.bytesInUse < 2 ^ 64) (hsize : size ≤ p.bytesInUse)
    (hfrees : p.frees + 1 < 2 ^ 64) (cells : List Cell) :
    (l.free (.ofNat size)).Keeps
      { p with cells, bytesInUse := p.bytesInUse - size, frees := p.frees + 1 } where
  nextHandle_eq := h.nextHandle_eq
  bytesInUse_eq := by
    have hword : (UInt64.ofNat size).toNat = size := by
      rw [UInt64.toNat_ofNat', Nat.mod_eq_of_lt (Nat.lt_of_le_of_lt hsize hbytes)]
    have hle : UInt64.ofNat size ≤ l.bytesInUse := by
      rw [UInt64.le_iff_toNat_le, hword, h.bytesInUse_eq]
      exact hsize
    rw [Ledger.free, UInt64.toNat_sub_of_le _ _ hle, hword, h.bytesInUse_eq]
  allocations_eq := h.allocations_eq
  frees_eq := by
    rw [Ledger.free, UInt64.toNat_add, h.frees_eq]
    exact Nat.mod_eq_of_lt hfrees

end Ledger.Keeps

/-- The counters agree with the cells. -/
structure Pool.Balanced (p : Pool) : Prop where
  nodup : (p.cells.map Cell.handle).Nodup
  handle_lt : ∀ c ∈ p.cells, c.handle < p.nextHandle
  nextHandle_eq : p.nextHandle = p.allocations + 1
  sized : ∀ c ∈ p.cells, c.type.staticSize = some c.bytes.length
  sizes_eq : p.bytesInUse = (p.cells.map fun c => c.type.staticSize.getD 0).sum
  lengths_eq : p.bytesInUse = (p.cells.map fun c => c.bytes.length).sum
  bytesInUse_le : p.bytesInUse ≤ p.budget
  roles_eq : p.liveCount = p.liveCountOf .argument + p.liveCountOf .localVar
  frees_le : p.frees ≤ p.allocations
  live_eq : p.liveCount = p.allocations - p.frees

/-- Words can hold the counters, also while the next allocation has taken its bytes
and when the next cell is given back. -/
structure Pool.Fits (p : Pool) : Prop where
  nextHandle_lt : p.nextHandle < 2 ^ 64
  allocations_lt : p.allocations < 2 ^ 64
  frees_lt : p.frees < 2 ^ 64
  taken_lt : ∀ (type : TypeSig) (size : Nat), type.staticSize = some size →
    p.bytesInUse + size < 2 ^ 64
  given_le : ∀ c ∈ p.cells, c.bytes.length ≤ p.bytesInUse

theorem Pool.liveCount_eq (p : Pool) :
    p.liveCount = p.liveCountOf .argument + p.liveCountOf .localVar := by
  have hother : (fun c : Cell => decide ¬ (c.role == SlotRole.argument) = true) =
      fun c => c.role == SlotRole.localVar := by
    funext c
    cases c.role <;> rfl
  have hcount : p.cells.length = _ :=
    List.length_eq_countP_add_countP fun c : Cell => c.role == .argument
  rw [hother] at hcount
  exact hcount

namespace PoolRun.Sound

variable {budget : Nat} {r : PoolRun}

theorem counters (h : Sound budget r) :
    r.pool.allocations = r.pool.frees + r.pool.liveCount := by
  obtain ⟨gone, hallocs, hfrees⟩ := h.growth.counters
  simp only [Pool.empty, Nat.zero_add] at hallocs hfrees
  rw [hallocs, hfrees, Pool.liveCount]

theorem lengths_eq (h : Sound budget r) :
    r.pool.bytesInUse = (r.pool.cells.map fun c => c.bytes.length).sum := by
  have hbytes := h.growth.bytesInUse_eq
  rwa [Pool.empty, Nat.zero_add] at hbytes

theorem length_le (h : Sound budget r) {c : Cell} (hc : c ∈ r.pool.cells) :
    c.bytes.length ≤ r.pool.bytesInUse := by
  obtain ⟨front, back, hcells⟩ := List.append_of_mem hc
  rw [h.lengths_eq, hcells, List.map_append, List.map_cons, List.sum_append, List.sum_cons]
  omega

theorem balanced (h : Sound budget r) : r.pool.Balanced where
  nodup := h.growth.nodup
  handle_lt := h.growth.handle_lt
  nextHandle_eq := h.nextHandle_eq
  sized := h.growth.sized
  sizes_eq := by
    have hsizes : (r.pool.cells.map fun c => c.type.staticSize.getD 0) =
        r.pool.cells.map fun c => c.bytes.length := by
      refine List.map_congr_left fun c hc => ?_
      rw [h.growth.sized c hc]
      rfl
    rw [hsizes]
    exact h.lengths_eq
  lengths_eq := h.lengths_eq
  bytesInUse_le := by
    rw [h.budget_eq]
    exact h.bytesInUse_le
  roles_eq := r.pool.liveCount_eq
  frees_le := by
    have hcounters := h.counters
    omega
  live_eq := by
    have hcounters := h.counters
    omega

theorem fits (h : Sound budget r) (hbudget : budget ≤ 2 ^ 64 - 9)
    (hallocs : r.issued.length < 2 ^ 64 - 1) : r.pool.Fits := by
  have hissued := h.issued_length
  have hnext := h.nextHandle_eq
  have hcounters := h.counters
  have hused := h.bytesInUse_le
  refine ⟨by omega, by omega, by omega, ?_, fun c hc => h.length_le hc⟩
  intro type size hsize
  have hsize' := type.staticSize_le hsize
  omega

end PoolRun.Sound

namespace PoolAction

open PoolRun

variable {budget : Nat} {r : PoolRun} {a : PoolAction}

/-- An allocation that fails has given its bytes back, and the words are as before. -/
theorem keep_of_error (h : Sound budget r) (hbudget : budget ≤ 2 ^ 64 - 9)
    (hallocs : r.issued.length < 2 ^ 64 - 1) (hkeeps : r.ledger.Keeps r.pool) {e : Fault}
    (hrun : a.attempt r.pool = .error e) : a.keep r.pool r.ledger = r.ledger := by
  cases a with
  | allocate type role =>
    cases hsize : type.staticSize with
    | none => simp only [keep, hsize]
    | some size =>
      have htaken := (h.fits hbudget hallocs).taken_lt type size hsize
      have hword : r.pool.budget < 2 ^ 64 := by
        rw [h.budget_eq]
        omega
      have hover : r.pool.budget < r.pool.bytesInUse + size := by
        by_contra hfit
        obtain ⟨handle, p', halloc⟩ : ∃ handle p', r.pool.allocate type role = .ok (handle, p') :=
          Pool.allocate_succeeds_iff.mpr ⟨size, hsize, Nat.not_lt.mp hfit⟩
        rw [attempt, halloc] at hrun
        cases hrun
      simp only [keep, hsize]
      exact hkeeps.allocate_refused htaken hword hover
  | store handle v => rfl
  | load handle => rfl
  | free handle =>
    cases hfind : r.pool.find? handle with
    | none => simp only [keep, hfind]
    | some c =>
      rw [attempt, Pool.free, hfind] at hrun
      cases hrun

theorem perform_eq_of_error (h : Sound budget r) (hbudget : budget ≤ 2 ^ 64 - 9)
    (hallocs : r.issued.length < 2 ^ 64 - 1) (hkeeps : r.ledger.Keeps r.pool) {e : Fault}
    (hrun : a.attempt r.pool = .error e) : a.perform r = r := by
  obtain ⟨hpool, hissued⟩ := perform_of_error hrun
  have hledger := keep_of_error h hbudget hallocs hkeeps hrun
  obtain ⟨pool, issued, ledger⟩ := r
  simp only [perform] at hpool hissued hledger ⊢
  rw [hpool, hissued, hledger]

theorem perform_keeps (h : Sound budget r) (hbudget : budget ≤ 2 ^ 64 - 9)
    (hallocs : (a.perform r).issued.length < 2 ^ 64 - 1) (hkeeps : r.ledger.Keeps r.pool) :
    (a.perform r).ledger.Keeps (a.perform r).pool := by
  have hbefore : r.issued.length < 2 ^ 64 - 1 := by
    simp only [perform, List.length_append] at hallocs
    omega
  cases hrun : a.attempt r.pool with
  | error e =>
    rw [perform_eq_of_error h hbudget hbefore hkeeps hrun]
    exact hkeeps
  | ok p' =>
    have hafter := (perform_sound h a).fits hbudget hallocs
    have hword : r.pool.budget < 2 ^ 64 := by
      rw [h.budget_eq]
      omega
    rw [perform_of_ok hrun] at hafter ⊢
    obtain ⟨type, role, rfl, halloc⟩ | ⟨handle, v, rfl, hstore⟩ | ⟨handle, rfl, rfl⟩ |
      ⟨handle, rfl, hfree⟩ := attempt_cases hrun
    · obtain ⟨size, hsize, hfit, -, rfl⟩ := Pool.allocate_eq_ok.mp halloc
      simp only [perform, keep, hsize]
      exact hkeeps.allocate hword hfit hafter.nextHandle_lt hafter.allocations_lt _
    · obtain ⟨c, bytes, -, rfl⟩ := Pool.store_cases hstore
      exact ⟨hkeeps.nextHandle_eq, hkeeps.bytesInUse_eq, hkeeps.allocations_eq, hkeeps.frees_eq⟩
    · exact hkeeps
    · obtain ⟨c, hfind, rfl⟩ := Pool.free_eq_ok.mp hfree
      have hsize := h.length_le (Pool.cell_of_find? hfind).1
      have hbytes : r.pool.bytesInUse < 2 ^ 64 := by
        have hused := h.bytesInUse_le
        omega
      simp only [perform, keep, hfind]
      exact hkeeps.free hbytes hsize hafter.frees_lt _

theorem performAll_keeps (hbudget : budget ≤ 2 ^ 64 - 9) (actions : List PoolAction)
    (hallocs : (performAll budget actions).issued.length < 2 ^ 64 - 1) :
    (performAll budget actions).ledger.Keeps (performAll budget actions).pool := by
  induction actions using List.reverseRecOn with
  | nil => exact ⟨rfl, rfl, rfl, rfl⟩
  | append_singleton actions a ih =>
    rw [performAll_concat] at hallocs ⊢
    have hbefore : (performAll budget actions).issued.length < 2 ^ 64 - 1 := by
      simp only [perform, List.length_append] at hallocs
      omega
    exact perform_keeps (performAll_sound budget actions) hbudget hallocs (ih hbefore)

/-- Whatever was asked of a pool, its counters agree with its cells, its words have
not wrapped around, and no handle was given out twice. Allocations succeed within
the budget and frees on live handles. Failures change nothing, and no action
reaches past its own handle. -/
theorem books_balance (budget : Nat) (actions : List PoolAction)
    (hbudget : budget ≤ 2 ^ 64 - 9)
    (hallocs : (performAll budget actions).issued.length < 2 ^ 64 - 1) :
    let r := performAll budget actions
    r.pool.Balanced ∧ r.pool.budget = budget ∧
    r.issued.Nodup ∧ r.issued.length = r.pool.allocations ∧
    r.pool.Fits ∧ r.ledger.Keeps r.pool ∧
    (∀ type role, (∃ handle p', r.pool.allocate type role = .ok (handle, p')) ↔
      ∃ size, type.staticSize = some size ∧ r.pool.bytesInUse + size ≤ budget) ∧
    (∀ handle, (∃ p', r.pool.free handle = .ok p') ↔ r.pool.contains handle = true) ∧
    ∀ a : PoolAction,
      (∀ e, a.attempt r.pool = .error e → a.perform r = r) ∧
      ∀ other, other ≠ a.handle r.pool → (a.perform r).pool.find? other = r.pool.find? other := by
  intro r
  have hsound : Sound budget r := performAll_sound budget actions
  have hkeeps : r.ledger.Keeps r.pool := performAll_keeps hbudget actions hallocs
  refine ⟨hsound.balanced, hsound.budget_eq, hsound.issued_nodup, hsound.issued_length,
    hsound.fits hbudget hallocs, hkeeps, ?_, fun _ => Pool.free_succeeds_iff, ?_⟩
  · intro type role
    rw [Pool.allocate_succeeds_iff, hsound.budget_eq]
  · intro a
    constructor
    · intro e hrun
      exact perform_eq_of_error hsound hbudget hallocs hkeeps hrun
    · intro other hne
      exact find?_perform_of_ne hne

/-- Twelve bytes of sixteen are taken, eight more are refused, one cell is freed
twice, and a handle that no cell has is stored to. -/
def busyActions : List PoolAction :=
  [.allocate .i8 .argument, .allocate .i4 .localVar, .allocate .r8 .localVar, .free 1, .free 1,
    .store 7 (.int32 5), .store 2 (.int32 5), .allocate .string .argument, .allocate .i8 .argument]

theorem books_balance_when_busy :
    let r := performAll 16 busyActions
    r.issued = [3, 2, 1] ∧ r.pool.bytesInUse = 12 ∧ r.pool.frees = 1 ∧
      r.pool.Balanced ∧ r.ledger.Keeps r.pool ∧
      (PoolAction.free 1).perform r = r ∧ (PoolAction.allocate .i8 .localVar).perform r = r := by
  have hbooks := books_balance 16 busyActions (by decide) (by decide)
  obtain ⟨hbalanced, -, -, -, -, hkeeps, -, -, hactions⟩ := hbooks
  exact ⟨by decide, by decide, by decide, hbalanced, hkeeps, (hactions _).1 _ rfl,
    (hactions _).1 _ rfl⟩

end PoolAction

end ManagedCalls
