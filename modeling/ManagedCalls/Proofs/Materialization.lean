import ManagedCalls.Proofs.PoolGrowth
import ManagedCalls.Transition.Activate

/-!
What making the slots of an activation does to the pool. Slots that were made
hold their storage on top of what the pool held before; a failure at any
argument or local gives everything back.
-/

namespace ManagedCalls

open Pool

/-- A slot that was made holds its storage; one that could not be made holds none. -/
def MakesSlot (role : SlotRole) (p : Pool) : Except Fault Slot × Pool → Prop
  | (.ok slot, p') => Holds p p' (Slot.holdings role [slot])
  | (.error _, p') => Holds p p' []

theorem rollBack_holds {base p : Pool} {held : List Holding} (role : SlotRole) {ss : List Slot}
    (h : Holds base p (Slot.holdings role ss ++ held)) : Holds base (rollBack ss p) held :=
  (Holds.release (r := Release.start p) ss h).2

theorem pooledSlot_makes (p : Pool) (type : TypeSig) (role : SlotRole) (v : Value) :
    MakesSlot role p (pooledSlot p type role v) := by
  unfold pooledSlot
  cases halloc : p.allocate type role with
  | error e => exact Holds.refl p
  | ok result =>
    obtain ⟨handle, allocated⟩ := result
    have hone : Holds p allocated [⟨handle, type, role⟩] := (Holds.refl p).allocate halloc
    dsimp only
    cases hstore : allocated.store handle v with
    | ok stored => exact hone.store List.mem_cons_self hstore
    | error e => exact rollBack_holds role hone

theorem argumentSlot_makes (p : Pool) (param : Option Param) (v : Value) :
    MakesSlot .argument p (argumentSlot p param v) := by
  unfold argumentSlot
  cases param with
  | none => exact Holds.refl p
  | some param =>
    dsimp only
    split
    · exact pooledSlot_makes p param.type .argument v
    · exact Holds.refl p

theorem localSlot_makes (p : Pool) (initLocals : Bool) (l : LocalVar) :
    MakesSlot .localVar p (localSlot p initLocals l) := by
  unfold localSlot
  split
  · cases halloc : p.allocate l.type .localVar with
    | error e => exact Holds.refl p
    | ok result => exact (Holds.refl p).allocate halloc
  · exact Holds.refl p

/-- Slots that were made hold their storage, one slot for each item; a list that
could not be made holds none. -/
def MakesSlots (role : SlotRole) (base : Pool) (count : Nat) :
    Except Fault (List Slot) × Pool → Prop
  | (.ok ss, p') => Holds base p' (Slot.holdings role ss) ∧ ss.length = count
  | (.error _, p') => Holds base p' []

theorem materialize_makes {α : Type} (role : SlotRole)
    (make : Pool → α → Except Fault Slot × Pool) (hmake : ∀ p a, MakesSlot role p (make p a))
    (base : Pool) (items : List α) (made : List Slot) (p : Pool)
    (h : Holds base p (Slot.holdings role made)) :
    MakesSlots role base (made.length + items.length) (materialize make items made p) := by
  induction items generalizing made p with
  | nil => exact ⟨h.perm (Slot.holdings_reverse role made).symm, by simp⟩
  | cons a rest ih =>
    have hslot := hmake p a
    unfold materialize
    match hone : make p a with
    | (.ok slot, p') =>
      rw [hone] at hslot
      have hmore : Holds base p' (Slot.holdings role (slot :: made)) := by
        rw [Slot.holdings_cons]
        exact h.trans hslot
      have hlen : (slot :: made).length + rest.length = made.length + (a :: rest).length := by
        simp only [List.length_cons]
        omega
      rw [← hlen]
      exact ih (slot :: made) p' hmore
    | (.error e, p') =>
      rw [hone] at hslot
      have hall : Holds base p' (Slot.holdings role made.reverse ++ []) := by
        rw [List.append_nil]
        exact (h.trans hslot).perm (Slot.holdings_reverse role made).symm
      exact rollBack_holds role hall

theorem materializeArguments_makes (signature : MethodSig) (vs : List Value) (p : Pool) :
    MakesSlots .argument p vs.length (materializeArguments signature vs p) := by
  have h := materialize_makes .argument
    (fun p a => argumentSlot p (signature.argument? a.2) a.1)
    (fun p a => argumentSlot_makes p _ _) p vs.zipIdx [] p (Holds.refl p)
  rw [List.length_nil, Nat.zero_add, List.length_zipIdx] at h
  exact h

theorem materializeLocals_makes (locals : LocalsSig) (initLocals : Bool) (p : Pool) :
    MakesSlots .localVar p locals.length (materializeLocals locals initLocals p) := by
  have h := materialize_makes .localVar (fun p l => localSlot p initLocals l)
    (fun p l => localSlot_makes p initLocals l) p locals [] p (Holds.refl p)
  rw [List.length_nil, Nat.zero_add] at h
  exact h

/-- An activation has a slot for each value and each local, and holds the storage
of these slots and no other; a failed one holds nothing. -/
theorem materializeFrame_makes (signature : MethodSig) (locals : LocalsSig) (initLocals : Bool)
    (vs : List Value) (p : Pool) :
    match materializeFrame signature locals initLocals vs p with
    | (.ok (arguments, slots), p') =>
      Holds p p' (Slot.holdings .argument arguments ++ Slot.holdings .localVar slots) ∧
        arguments.length = vs.length ∧ slots.length = locals.length
    | (.error _, p') => Holds p p' [] := by
  have hargs := materializeArguments_makes signature vs p
  unfold materializeFrame
  match hmade : materializeArguments signature vs p with
  | (.error e, p') =>
    rw [hmade] at hargs
    exact hargs
  | (.ok arguments, p') =>
    rw [hmade] at hargs
    obtain ⟨hheld, hcount⟩ := hargs
    have hlocals := materializeLocals_makes locals initLocals p'
    dsimp only
    match hslots : materializeLocals locals initLocals p' with
    | (.ok slots, p'') =>
      rw [hslots] at hlocals
      exact ⟨(hheld.trans hlocals.1).perm List.perm_append_comm, hcount, hlocals.2⟩
    | (.error e, p'') =>
      rw [hslots] at hlocals
      have hall : Holds p p'' (Slot.holdings .argument arguments ++ []) := by
        rw [List.append_nil]
        exact hheld.trans hlocals
      exact rollBack_holds .argument hall

end ManagedCalls
