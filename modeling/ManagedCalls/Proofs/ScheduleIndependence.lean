import ManagedCalls.Proofs.Lockstep
import Mathlib.Data.List.Perm.Subperm
import Mathlib.Logic.Equiv.Defs

/-!
The order in which two threads are stepped does not matter. On a common domain where the
names they look up are registered, and with a host that acts on sight, each thread has
the same outcome in both orders, and the threads and the pool are the same afterwards but
for the names of handles: the handles that one of them takes and those that the other
takes change places. Only the budget of the pool can tell the orders apart.
-/

namespace ManagedCalls

open Stateful Pool

variable {κ : Type}

/-- Two blocks of handles, one behind the other, change places. -/
def swapBlocks (first a b : Nat) : Equiv.Perm Nat where
  toFun h :=
    if h < first then h else if h < first + a then h + b
    else if h < first + a + b then h - a else h
  invFun h :=
    if h < first then h else if h < first + b then h + a
    else if h < first + b + a then h - b else h
  left_inv h := by
    dsimp only
    split_ifs <;> omega
  right_inv h := by
    dsimp only
    split_ifs <;> omega

namespace swapBlocks

theorem apply_of_lt {first a b h : Nat} (hlt : h < first) : swapBlocks first a b h = h :=
  if_pos hlt

theorem apply_of_le {first a b h : Nat} (hle : first + a + b ≤ h) : swapBlocks first a b h = h := by
  simp only [swapBlocks, Equiv.coe_fn_mk]
  split_ifs <;> omega

/-- The first block goes behind the second one. -/
theorem apply_first (s : Shift) {a h : Nat} (hlt : h < s.first + a) :
    swapBlocks s.first a s.width h = s.handle h := by
  simp only [swapBlocks, Equiv.coe_fn_mk, Shift.handle]
  split_ifs <;> omega

/-- The second block goes to the front. -/
theorem apply_second (s : Shift) {b h : Nat} (hlt : h < s.first + b) :
    swapBlocks s.first s.width b (s.handle h) = h := by
  simp only [swapBlocks, Equiv.coe_fn_mk, Shift.handle]
  split_ifs <;> omega

end swapBlocks

/-- A pool with the same cells under other handles, and with the same counters. -/
structure Pool.Renamed (ρ : Nat → Nat) (p q : Pool) : Prop where
  cells : q.cells.Perm (p.cells.map (Cell.rename ρ))
  nextHandle_eq : q.nextHandle = p.nextHandle
  bytesInUse_eq : q.bytesInUse = p.bytesInUse
  allocations_eq : q.allocations = p.allocations
  frees_eq : q.frees = p.frees
  budget_eq : q.budget = p.budget

namespace Pool

variable {p q : Pool} {budget : Nat} {held held' : List Holding}

/-- What is true of the counters of a pool that was empty once. -/
theorem Holds.balance (h : Holds (Pool.empty budget) p held) :
    p.bytesInUse = (p.cells.map fun c => c.bytes.length).sum ∧
      p.allocations = p.frees + p.cells.length ∧ p.budget = budget ∧
      (p.cells.map Cell.handle).Nodup := by
  obtain ⟨fresh, hgrowth, -⟩ := h
  have hcells : p.cells = fresh := by rw [hgrowth.cells_eq, Pool.empty, List.append_nil]
  have hbytes := hgrowth.bytesInUse_eq
  obtain ⟨gone, hallocs, hfrees⟩ := hgrowth.counters
  simp only [Pool.empty, Nat.zero_add] at hbytes hallocs hfrees
  rw [hcells]
  exact ⟨hbytes, by rw [hallocs, hfrees], hgrowth.budget_eq, hgrowth.nodup⟩

/-- Pools are the same but for the handles if all storage is. -/
theorem Renamed.of_holds {ρ : Equiv.Perm Nat} (h : Holds (Pool.empty budget) p held)
    (h' : Holds (Pool.empty budget) q held') (hlength : held'.length = held.length)
    (hcell : ∀ x ∈ held, ∃ c, p.find? x.handle = some c ∧
      q.find? (ρ x.handle) = some (c.rename ρ))
    (hnext : q.nextHandle = p.nextHandle) (hallocs : q.allocations = p.allocations) :
    Renamed ρ p q := by
  obtain ⟨hbytes, hlive, hbudget, hnodup⟩ := h.balance
  obtain ⟨hbytes', hlive', hbudget', hnodup'⟩ := h'.balance
  have hcount : q.cells.length ≤ (p.cells.map (Cell.rename ρ)).length := by
    have hlen := h.cells_perm.length_eq
    have hlen' := h'.cells_perm.length_eq
    rw [List.length_map] at hlen hlen' ⊢
    omega
  have hdistinct : (p.cells.map (Cell.rename ρ)).Nodup := by
    have hhandles : ((p.cells.map Cell.handle).map ρ).Nodup := hnodup.map ρ.injective
    rw [List.map_map] at hhandles
    refine List.Nodup.of_map Cell.handle ?_
    rw [List.map_map]
    exact hhandles
  have hsub : p.cells.map (Cell.rename ρ) ⊆ q.cells := by
    intro c' hc'
    obtain ⟨c, hc, rfl⟩ := List.mem_map.mp hc'
    have hheld : c.holding ∈ held := h.cells_perm.mem_iff.mp (List.mem_map_of_mem hc)
    obtain ⟨k, hk, hk'⟩ := hcell c.holding hheld
    obtain rfl : c = k := Option.some.inj ((find?_of_mem hnodup hc).symm.trans hk)
    exact (cell_of_find? hk').1
  have hcells : q.cells.Perm (p.cells.map (Cell.rename ρ)) :=
    ((List.subperm_of_subset hdistinct hsub).perm_of_length_le hcount).symm
  have hlengths := (hcells.map fun c => c.bytes.length).sum_nat
  rw [List.map_map] at hlengths
  have hlens := hcells.length_eq
  rw [List.length_map] at hlens
  refine ⟨hcells, hnext, ?_, hallocs, by omega, hbudget'.trans hbudget.symm⟩
  rw [hbytes, hbytes', hlengths]
  rfl

end Pool

/-- The handles of a pool that was used before, as they are behind those given out
since then. -/
def Shift.between (p q : Pool) : Shift :=
  ⟨p.nextHandle, q.nextHandle - p.nextHandle, p.allocations, q.allocations⟩

theorem Domain.Keeps.refl (d : Domain) : d.Keeps d := ⟨rfl, fun h => h⟩

/-- A thread can be stepped on a domain or on a later one that has left its storage
alone. -/
theorem Twins.begin {t : Thread κ} {d d' : Domain} {budget : Nat} {others : List Holding}
    (hold : Holds (Pool.empty budget) d.pool (t.holdings ++ others)) (hkeeps : d'.Keeps d)
    (hsame : SameAt d.pool d'.pool t.holdings)
    (hle : d.pool.nextHandle ≤ d'.pool.nextHandle) (log log' : Log) :
    Twins (.between d.pool d'.pool) d ⟨t, d, log⟩ ⟨t, d', log'⟩ := by
  have hlt (x : Holding) (hx : x ∈ t.holdings) : x.handle < d.pool.nextHandle :=
    hold.handle_lt (List.mem_append_left _ hx)
  have hfixed (x : Holding) (hx : x ∈ t.holdings) :
      (Shift.between d.pool d'.pool).handle x.handle = x.handle := Shift.handle_of_lt (hlt x hx)
  refine ⟨(Thread.rename_eq_self hfixed).symm, ?_, .refl d, hkeeps⟩
  constructor
  · intro x hx
    obtain ⟨c, hfind, hholding⟩ := hold.find? (List.mem_append_left _ hx)
    have hc : c.rename (Shift.between d.pool d'.pool).handle = c := by
      have hhandle : c.handle = x.handle := congrArg Holding.handle hholding
      rw [Cell.rename, hhandle, hfixed x hx, ← hhandle]
    exact ⟨c, hfind, hholding, by rw [hfixed x hx, hc]; exact (hsame x hx).trans hfind⟩
  · have hnodup := hold.nodup
    rw [List.map_append] at hnodup
    exact List.Nodup.of_append_left hnodup
  · exact hlt
  · exact Nat.le_refl _
  · exact (Nat.add_sub_of_le hle).symm
  · exact Nat.add_comm _ _

/-- The pool was asked for more than its budget. -/
def overBudget {α : Type} : Except Fault α → Bool
  | .ok _ => false
  | .error e => e.isPoolLimit

/-- Results that are tied, where no pool has met its budget. -/
theorem Tied.twins {α : Type} {s : Shift} {start : Domain} {m m' : Machine κ} {x : Act κ α}
    (h : Tied s start (x m) (x m')) (hleft : overBudget (outcome x m) = false)
    (hright : overBudget (outcome x m') = false) :
    outcome x m' = outcome x m ∧ Twins s start (after x m) (after x m') := by
  unfold outcome at hleft hright ⊢
  unfold after
  generalize x m = r at h hleft ⊢
  generalize x m' = r' at h hright ⊢
  cases h with
  | ok htwins => exact ⟨rfl, htwins⟩
  | error htwins => exact ⟨rfl, htwins⟩
  | overLeft _ hlimit =>
    cases hlimit.symm.trans hleft
  | overRight _ hlimit =>
    cases hlimit.symm.trans hright

section

variable {ctx : Context κ} {t : Thread κ} {d : Domain} {budget : Nat} {others : List Holding}

/-- A step keeps the storage of its thread, and changes nothing in that of others. -/
theorem step_apart (hctx : ctx.Disciplined) (hwf : t.WellFormed)
    (hold : Holds (Pool.empty budget) d.pool (t.holdings ++ others)) (log : Log) :
    (after (step ctx) ⟨t, d, log⟩).thread.WellFormed ∧
      Holds (Pool.empty budget) (after (step ctx) ⟨t, d, log⟩).domain.pool
        ((after (step ctx) ⟨t, d, log⟩).thread.holdings ++ others) ∧
      SameAt d.pool (after (step ctx) ⟨t, d, log⟩).domain.pool others := by
  have hkept := (sameAt_kept hctx (Pool.empty budget) d.pool (List.Subset.refl others)).step
    (m := ⟨t, d, log⟩) ⟨⟨hwf, hold⟩, .refl _ _⟩
  exact ⟨hkept.1.1, hkept.1.2, hkept.2⟩

/-- The same thread on a domain and on a later one. -/
theorem step_agrees (hctx : ctx.ActsOnSight) {d' : Domain} {log log' : Log}
    (hwf : t.WellFormed) (hold : Holds (Pool.empty budget) d.pool (t.holdings ++ others))
    {others' : List Holding} (hold' : Holds (Pool.empty budget) d'.pool (t.holdings ++ others'))
    (hkeeps : d'.Keeps d) (hsame : SameAt d.pool d'.pool t.holdings)
    (hle : d.pool.nextHandle ≤ d'.pool.nextHandle)
    (hknown : ∀ name ∈ lookups ctx ctx.stepBound ⟨t, d, log⟩, d.contains name = true)
    (hleft : overBudget (outcome (step ctx) ⟨t, d, log⟩) = false)
    (hright : overBudget (outcome (step ctx) ⟨t, d', log'⟩) = false) :
    outcome (step ctx) ⟨t, d', log'⟩ = outcome (step ctx) ⟨t, d, log⟩ ∧
      Twins (.between d.pool d'.pool) d (after (step ctx) ⟨t, d, log⟩)
        (after (step ctx) ⟨t, d', log'⟩) := by
  have htwins := Twins.begin hold hkeeps hsame hle log log'
  exact (step_tied hctx htwins ⟨hwf, budget, others, hold⟩ ⟨hwf, budget, others', hold'⟩
    hknown).twins hleft hright

/-- A step that looks up registered names only leaves registered names and tickets as
they are. -/
theorem step_keeps (hctx : ctx.ActsOnSight) {log : Log} (hwf : t.WellFormed)
    (hold : Holds (Pool.empty budget) d.pool (t.holdings ++ others))
    (hknown : ∀ name ∈ lookups ctx ctx.stepBound ⟨t, d, log⟩, d.contains name = true)
    (hwithin : overBudget (outcome (step ctx) ⟨t, d, log⟩) = false) :
    (after (step ctx) ⟨t, d, log⟩).domain.Keeps d ∧
      d.pool.nextHandle ≤ (after (step ctx) ⟨t, d, log⟩).domain.pool.nextHandle := by
  -- the thread goes the same way as itself
  obtain ⟨-, htwins⟩ := step_agrees hctx hwf hold hold (.refl d) (.refl _ _) (Nat.le_refl _)
    hknown hwithin hwithin
  exact ⟨htwins.left, htwins.pools.first_le⟩

end

/-- Two threads have been stepped on a domain in both orders. The machines `a` and `ab`
are those after the first and after the second step in one order, `b` and `ba` those in
the other. -/
structure Crossed (d : Domain) (budget : Nat) (others : List Holding) (a ab b ba : Machine κ) :
    Prop where
  first : Twins (.between d.pool b.domain.pool) d a ba
  second : Twins (.between d.pool a.domain.pool) d b ab
  holds_ab : Holds (Pool.empty budget) ab.domain.pool
    (ab.thread.holdings ++ (a.thread.holdings ++ others))
  holds_ba : Holds (Pool.empty budget) ba.domain.pool
    (ba.thread.holdings ++ (b.thread.holdings ++ others))
  same_ab : SameAt a.domain.pool ab.domain.pool a.thread.holdings
  same_ba : SameAt b.domain.pool ba.domain.pool b.thread.holdings
  others_lt : ∀ x ∈ others, x.handle < d.pool.nextHandle
  others_same : SameAt ab.domain.pool ba.domain.pool others

/-- The handles of the first steps change places. -/
def exchange (d : Domain) (a b : Machine κ) : Equiv.Perm Nat :=
  swapBlocks d.pool.nextHandle (a.domain.pool.nextHandle - d.pool.nextHandle)
    (b.domain.pool.nextHandle - d.pool.nextHandle)

namespace Crossed

variable {d : Domain} {budget : Nat} {others : List Holding} {a ab b ba : Machine κ}

theorem exchange_first (h : Crossed d budget others a ab b ba) {x : Holding}
    (hx : x ∈ a.thread.holdings) :
    exchange d a b x.handle = (Shift.between d.pool b.domain.pool).handle x.handle := by
  have hlt := h.first.pools.handle_lt x hx
  have hle : d.pool.nextHandle ≤ a.domain.pool.nextHandle := h.first.pools.first_le
  refine swapBlocks.apply_first (.between d.pool b.domain.pool) ?_
  dsimp only [Shift.between]
  omega

theorem exchange_second (h : Crossed d budget others a ab b ba) {x : Holding}
    (hx : x ∈ b.thread.holdings) :
    exchange d a b ((Shift.between d.pool a.domain.pool).handle x.handle) = x.handle := by
  have hlt := h.second.pools.handle_lt x hx
  have hle : d.pool.nextHandle ≤ b.domain.pool.nextHandle := h.second.pools.first_le
  refine swapBlocks.apply_second (.between d.pool a.domain.pool) ?_
  dsimp only [Shift.between]
  omega

theorem exchange_of_le (h : Crossed d budget others a ab b ba) {handle : Nat}
    (hle : ab.domain.pool.nextHandle ≤ handle) : exchange d a b handle = handle := by
  have hnext := h.second.pools.nextHandle_eq
  have hle_b : d.pool.nextHandle ≤ b.domain.pool.nextHandle := h.second.pools.first_le
  dsimp only [Shift.between] at hnext
  refine swapBlocks.apply_of_le ?_
  omega

theorem thread_first (h : Crossed d budget others a ab b ba) :
    ba.thread = a.thread.rename (exchange d a b) := by
  rw [h.first.thread_eq]
  exact Thread.rename_congr fun x hx => (h.exchange_first hx).symm

theorem thread_second (h : Crossed d budget others a ab b ba) :
    b.thread = ab.thread.rename (exchange d a b) := by
  rw [h.second.thread_eq, Thread.rename_rename]
  exact (Thread.rename_eq_self fun x hx => h.exchange_second hx).symm

/-- All storage has the same contents in both orders. -/
theorem cell (h : Crossed d budget others a ab b ba) {x : Holding}
    (hx : x ∈ ab.thread.holdings ++ (a.thread.holdings ++ others)) :
    ∃ c, ab.domain.pool.find? x.handle = some c ∧
      ba.domain.pool.find? (exchange d a b x.handle) = some (c.rename (exchange d a b)) := by
  rcases List.mem_append.mp hx with hx | hx
  · -- in the order of `b` this storage was there before the second step
    rw [h.second.thread_eq, Thread.holdings_rename] at hx
    obtain ⟨y, hy, rfl⟩ := List.mem_map.mp hx
    obtain ⟨c, hc, hholding, hc'⟩ := h.second.pools.cell y hy
    have hhandle : c.handle = y.handle := congrArg Holding.handle hholding
    have hback := h.exchange_second hy
    refine ⟨_, hc', ?_⟩
    rw [Holding.rename, hback, h.same_ba y hy, hc, Cell.rename, Cell.rename, hhandle]
    dsimp only
    rw [hback, ← hhandle]
  · rcases List.mem_append.mp hx with hx | hx
    · obtain ⟨c, hc, hholding, hc'⟩ := h.first.pools.cell x hx
      have hhandle : c.handle = x.handle := congrArg Holding.handle hholding
      refine ⟨c, (h.same_ab x hx).trans hc, ?_⟩
      rw [h.exchange_first hx, hc', Cell.rename, Cell.rename, hhandle, h.exchange_first hx]
    · have hstays : exchange d a b x.handle = x.handle :=
        swapBlocks.apply_of_lt (h.others_lt x hx)
      obtain ⟨c, hc, hholding⟩ := h.holds_ab.find?
        (List.mem_append_right _ (List.mem_append_right _ hx))
      have hhandle : c.handle = x.handle := congrArg Holding.handle hholding
      refine ⟨c, hc, ?_⟩
      rw [hstays, h.others_same x hx, hc, Cell.rename, hhandle, hstays, ← hhandle]

theorem pool (h : Crossed d budget others a ab b ba) :
    Pool.Renamed (exchange d a b) ab.domain.pool ba.domain.pool := by
  have hlength : (ba.thread.holdings ++ (b.thread.holdings ++ others)).length =
      (ab.thread.holdings ++ (a.thread.holdings ++ others)).length := by
    rw [h.first.thread_eq, h.second.thread_eq, Thread.holdings_rename, Thread.holdings_rename]
    simp only [List.length_append, List.length_map]
    omega
  refine .of_holds h.holds_ab h.holds_ba hlength (fun x hx => h.cell hx) ?_ ?_
  · have hfirst := h.first.pools.nextHandle_eq
    have hsecond := h.second.pools.nextHandle_eq
    have hle_a : d.pool.nextHandle ≤ a.domain.pool.nextHandle := h.first.pools.first_le
    have hle_b : d.pool.nextHandle ≤ b.domain.pool.nextHandle := h.second.pools.first_le
    dsimp only [Shift.between] at hfirst hsecond
    omega
  · have hfirst := h.first.pools.allocations_eq
    have hsecond := h.second.pools.allocations_eq
    dsimp only [Shift.between] at hfirst hsecond
    omega

end Crossed

/-- A thread after its step, with what came of it. -/
structure Turn (κ : Type) where
  outcome : Except Fault Bool
  thread : Thread κ

/-- Two threads after their steps on a common domain. -/
structure Turns (κ : Type) where
  first : Turn κ
  second : Turn κ
  domain : Domain

/-- Steps two threads, one after the other. -/
def stepBoth (ctx : Context κ) (t u : Thread κ) (d : Domain) (log : Log) : Turns κ :=
  let m := after (step ctx) ⟨t, d, log⟩
  let n := after (step ctx) ⟨u, m.domain, m.log⟩
  { first := ⟨outcome (step ctx) ⟨t, d, log⟩, m.thread⟩
    second := ⟨outcome (step ctx) ⟨u, m.domain, m.log⟩, n.thread⟩
    domain := n.domain }

/-- Neither step was refused storage for want of room. -/
def Turns.WithinBudget (r : Turns κ) : Prop :=
  overBudget r.first.outcome = false ∧ overBudget r.second.outcome = false

/-- The same outcome, and the same thread under other handles, whose slots read the same. -/
structure Turn.Renamed (ρ : Nat → Nat) (p q : Pool) (a b : Turn κ) : Prop where
  outcome_eq : b.outcome = a.outcome
  thread_eq : b.thread = a.thread.rename ρ
  readSlot_eq : ∀ f ∈ a.thread.frames, ∀ role index,
    (f.rename ρ).readSlot q role index = f.readSlot p role index

/-- Two threads after their steps in one order and in the other, where only the handles
that were given out in these steps have other names. -/
def Turns.SameButForHandles (start : Pool) (r r' : Turns κ) : Prop :=
  ∃ ρ : Equiv.Perm Nat,
    (∀ handle, handle < start.nextHandle ∨ r.domain.pool.nextHandle ≤ handle → ρ handle = handle) ∧
    r.first.Renamed ρ r.domain.pool r'.domain.pool r'.second ∧
    r.second.Renamed ρ r.domain.pool r'.domain.pool r'.first ∧
    r.domain.pool.Renamed ρ r'.domain.pool

theorem stepBoth_swap {ctx : Context κ} (hctx : ctx.ActsOnSight) {t u : Thread κ} {d : Domain}
    {log : Log} {budget : Nat} {others : List Holding} (ht : t.WellFormed) (hu : u.WellFormed)
    (hold : Holds (Pool.empty budget) d.pool (t.holdings ++ (u.holdings ++ others)))
    (hknown : ∀ v ∈ [t, u], ∀ name ∈ lookups ctx ctx.stepBound ⟨v, d, log⟩,
      d.contains name = true)
    (hwithin : (stepBoth ctx t u d log).WithinBudget)
    (hwithin' : (stepBoth ctx u t d log).WithinBudget) :
    (stepBoth ctx t u d log).SameButForHandles d.pool (stepBoth ctx u t d log) := by
  have hdisc := hctx.disciplined
  have hknown_t := hknown t List.mem_cons_self
  have hknown_u := hknown u (List.mem_cons_of_mem _ List.mem_cons_self)
  have hrotate (x y z : List Holding) : (x ++ (y ++ z)).Perm (y ++ (x ++ z)) := by
    rw [← List.append_assoc, ← List.append_assoc]
    exact List.perm_append_comm.append_right z
  have hold' := hold.perm (hrotate _ _ _)
  -- each thread steps first
  let a := after (step ctx) ⟨t, d, log⟩
  let b := after (step ctx) ⟨u, d, log⟩
  obtain ⟨-, hold_a, hsame_a⟩ := step_apart hdisc ht hold log
  obtain ⟨-, hold_b, hsame_b⟩ := step_apart hdisc hu hold' log
  obtain ⟨hkeeps_a, hle_a⟩ := step_keeps hctx ht hold hknown_t hwithin.1
  obtain ⟨hkeeps_b, hle_b⟩ := step_keeps hctx hu hold' hknown_u hwithin'.1
  -- and each steps second
  have hnext_a := hold_a.perm (hrotate _ _ _)
  have hnext_b := hold_b.perm (hrotate _ _ _)
  obtain ⟨-, hold_ab, hsame_ab⟩ := step_apart hdisc hu hnext_a a.log
  obtain ⟨-, hold_ba, hsame_ba⟩ := step_apart hdisc ht hnext_b b.log
  obtain ⟨houtcome_t, htwins_t⟩ := step_agrees hctx ht hold hnext_b hkeeps_b
    (hsame_b.mono (List.subset_append_left _ _)) hle_b hknown_t hwithin.1 hwithin'.2
  obtain ⟨houtcome_u, htwins_u⟩ := step_agrees hctx hu hold' hnext_a hkeeps_a
    (hsame_a.mono (List.subset_append_left _ _)) hle_a hknown_u hwithin'.1 hwithin.2
  have hothers {x : Holding} (y : List Holding) (hx : x ∈ others) : x ∈ y ++ others :=
    List.mem_append_right _ hx
  have hcrossed : Crossed d budget others a (after (step ctx) ⟨u, a.domain, a.log⟩) b
      (after (step ctx) ⟨t, b.domain, b.log⟩) :=
    { first := htwins_t
      second := htwins_u
      holds_ab := hold_ab
      holds_ba := hold_ba
      same_ab := hsame_ab.mono (List.subset_append_left _ _)
      same_ba := hsame_ba.mono (List.subset_append_left _ _)
      others_lt := fun x hx => hold.handle_lt (List.mem_append_right _ (hothers _ hx))
      others_same := fun x hx =>
        ((hsame_ba x (hothers _ hx)).trans (hsame_b x (hothers _ hx))).trans
          ((hsame_ab x (hothers _ hx)).trans (hsame_a x (hothers _ hx))).symm }
  refine ⟨exchange d a b, ?_, ⟨houtcome_t, hcrossed.thread_first, ?_⟩,
    ⟨houtcome_u.symm, hcrossed.thread_second, ?_⟩, hcrossed.pool⟩
  · rintro handle (hlt | hle)
    · exact swapBlocks.apply_of_lt hlt
    · exact hcrossed.exchange_of_le hle
  · intro f hf role index
    refine Frame.readSlot_rename (fun x hx => hcrossed.cell ?_) role index
    exact List.mem_append_right _ (List.mem_append_left _ (List.mem_flatMap.mpr ⟨f, hf, hx⟩))
  · intro f hf role index
    refine Frame.readSlot_rename (fun x hx => hcrossed.cell ?_) role index
    exact List.mem_append_left _ (List.mem_flatMap.mpr ⟨f, hf, hx⟩)

namespace Fleet

/-- Two threads of a fleet hold their storage beside each other. -/
theorem holds_two {budget : Nat} {ts : List (Thread κ)} {d : Domain}
    (h : HoldsAmong (Pool.empty budget) ts d) {i j : Nat} (hne : i ≠ j) {t u : Thread κ}
    (ht : ts[i]? = some t) (hu : ts[j]? = some u) :
    ∃ others, Holds (Pool.empty budget) d.pool (t.holdings ++ (u.holdings ++ others)) := by
  obtain ⟨lost, hold⟩ := h.front ht
  have hmem : u ∈ ts.eraseIdx i := List.mem_eraseIdx_iff_getElem?.mpr ⟨j, hne.symm, hu⟩
  obtain ⟨before, behind, hrest⟩ := List.append_of_mem hmem
  have hperm : (ts.eraseIdx i).Perm (u :: (before ++ behind)) := by
    rw [hrest]
    exact List.perm_middle
  refine ⟨(before ++ behind).flatMap Thread.holdings ++ lost, hold.perm ?_⟩
  rw [← List.append_assoc u.holdings, ← List.flatMap_cons]
  exact ((hperm.flatMap_right _).append_right lost).append_left _

/-- Wherever a fleet has come to, two of its threads that look up registered names only
come to the same in both orders of stepping them, if the host acts on sight and no step
finds the pool full. -/
theorem step_order_irrelevant {ctx : Context κ} (hctx : ctx.ActsOnSight) (poolBytes : Nat)
    (loader : Option Loader) (level : Level) (moves : List FleetMove) {fleet : Fleet κ}
    (hreached : FleetMove.performAll ctx moves (fresh poolBytes loader level) = fleet)
    {i j : Nat} (hne : i ≠ j) {t u : Thread κ} (ht : fleet.threads[i]? = some t)
    (hu : fleet.threads[j]? = some u)
    (hknown : ∀ v ∈ [t, u], ∀ name ∈
      lookups ctx ctx.stepBound ⟨v, fleet.domain, fleet.world.log⟩,
      fleet.domain.contains name = true)
    (hwithin : (stepBoth ctx t u fleet.domain fleet.world.log).WithinBudget)
    (hwithin' : (stepBoth ctx u t fleet.domain fleet.world.log).WithinBudget) :
    (stepBoth ctx t u fleet.domain fleet.world.log).SameButForHandles fleet.pool
      (stepBoth ctx u t fleet.domain fleet.world.log) := by
  subst hreached
  have hamong := holdsAmong hctx.disciplined poolBytes loader level moves
  obtain ⟨others, hold⟩ := holds_two hamong hne ht hu
  exact stepBoth_swap hctx (hamong.wellFormed t (List.mem_of_getElem? ht))
    (hamong.wellFormed u (List.mem_of_getElem? hu)) hold hknown hwithin hwithin'

end Fleet

namespace Interpreter

/-- The small assembly beside the one it refers to, in steps of two transitions. -/
def pairwise : Context Empty :=
  plainContext [smallAssembly, (AssemblyBuilder.new "Lib").build] { maxTransitions := 2 }
    SignatureDecoder.standard

/-- A thread that is about to run the small method. -/
def worker (id : Nat) (v : Value) : Thread Empty := ((Thread.new id).push v).call 0 smallMethod

/-- Two workers and a caller of the other assembly, which is registered. -/
def gathering : List FleetMove :=
  [.create 1, .create 2, .create 3, .act 0 (.host (.push (.int32 5))),
    .act 0 (.host (.call 0 smallMethod)), .act 1 (.host (.push (.int32 7))),
    .act 1 (.host (.call 0 smallMethod)), .act 2 (.host (.call 0 smallMember)),
    .domain (.register 1)].map .action

def gathered : Fleet Empty := FleetMove.performAll pairwise gathering (.fresh 64 none .error)

end Interpreter

namespace Fleet

open Interpreter

/-- The storage of the workers is named by the order of their steps. The caller finds
the assembly, which has no native library, and fails in both orders. -/
theorem step_order_irrelevant_of_workers :
    let both := fun v w => stepBoth pairwise v w gathered.domain gathered.world.log
    let t := worker 3 (.int32 5)
    let u := worker 2 (.int32 7)
    let caller := libraryCaller 1
    (both t u).first.thread.handles = [1, 2] ∧ (both u t).second.thread.handles = [3, 4] ∧
      (both t u).SameButForHandles gathered.pool (both u t) ∧
      lookups pairwise 2 ⟨caller, gathered.domain, gathered.world.log⟩ = ["Lib"] ∧
      (both t caller).second.outcome.isOk = false ∧
      (both t caller).SameButForHandles gathered.pool (both caller t) := by
  intro both t u caller
  have hctx : pairwise.ActsOnSight := plainContext_actsOnSight _ _ _
  have hlib : lookups pairwise 2 ⟨caller, gathered.domain, gathered.world.log⟩ = ["Lib"] := by
    decide +kernel
  have hknown : ∀ v ∈ [t, u, caller],
      ∀ name ∈ lookups pairwise 2 ⟨v, gathered.domain, gathered.world.log⟩,
        gathered.domain.contains name = true := by
    decide +kernel
  have hwithin : ∀ v ∈ [t, u, caller], ∀ w ∈ [t, u, caller],
      overBudget (both v w).first.outcome = false ∧
        overBudget (both v w).second.outcome = false := by
    decide +kernel
  have ht : t ∈ [t, u, caller] := List.mem_cons_self
  have hu : u ∈ [t, u, caller] := List.mem_cons_of_mem _ List.mem_cons_self
  have hcaller : caller ∈ [t, u, caller] := List.mem_of_getLast? rfl
  refine ⟨by decide +kernel, by decide +kernel, ?_, hlib, by decide +kernel, ?_⟩
  · refine step_order_irrelevant hctx 64 none .error gathering (i := 0) (j := 1) rfl (by decide)
      rfl rfl ?_ (hwithin t ht u hu) (hwithin u hu t ht)
    exact fun v hv => hknown v (List.mem_of_mem_take (i := 2) hv)
  · refine step_order_irrelevant hctx 64 none .error gathering (i := 0) (j := 2) rfl (by decide)
      rfl rfl ?_ (hwithin t ht caller hcaller) (hwithin caller hcaller t ht)
    intro v hv
    rcases List.mem_pair.mp hv with rfl | rfl
    · exact hknown _ ht
    · exact hknown _ hcaller

end Fleet

end ManagedCalls
