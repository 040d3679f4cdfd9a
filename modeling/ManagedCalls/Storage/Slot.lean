import ManagedCalls.Storage.Pool

/-!
Slots hold the arguments and locals of a frame. A statically sized value lives
in the pool and the slot owns its handle; any other value stands in the slot
itself; a local that nothing was stored to yet is pending.
-/

namespace ManagedCalls

inductive Slot where
  | pooled (handle : Nat) (type : TypeSig)
  | inline (v : Value)
  | pending (type : TypeSig)

namespace Slot

/-- The value of the slot; a pending slot has none. -/
def read (p : Pool) : Slot → Except Fault (Option Value)
  | pooled handle _ => (p.load handle).map some
  | inline v => .ok (some v)
  | pending _ => .ok none

/-- Stores into the slot. Only pool storage can refuse a value. -/
def write (p : Pool) (v : Value) : Slot → Except Fault (Slot × Pool)
  | pooled handle type => (p.store handle v).map fun p' => (pooled handle type, p')
  | inline _ => .ok (inline v, p)
  | pending _ => .ok (inline v, p)

def handle? : Slot → Option Nat
  | pooled handle _ => some handle
  | _ => none

def isPooled (s : Slot) : Bool := s.handle?.isSome

def isPending : Slot → Bool
  | pending _ => true
  | _ => false

/-- Gives owned storage back, and says whether there was any. -/
def release (p : Pool) : Slot → Except Fault (Bool × Pool)
  | pooled handle _ => (p.free handle).map fun p' => (true, p')
  | _ => .ok (false, p)

def shown : Slot → String
  | pooled handle type =>
    Shown.tuple "Pooled"
      [Shown.record "PooledValue"
        [("handle", Shown.tuple "PoolHandle" [toString handle]), ("signature", type.shown)]]
  | inline v => Shown.tuple "Inline" [v.shown]
  | pending type => Shown.tuple "Pending" [type.shown]

end Slot

/-- What came of releasing slots: how many gave storage back, the first failure,
and the pool. A failure stops nothing. -/
structure Release where
  released : Nat
  failure : Option Fault
  pool : Pool

namespace Release

def start (p : Pool) : Release := ⟨0, none, p⟩

def slot (r : Release) (s : Slot) : Release :=
  match s.release r.pool with
  | .ok (true, p) => { r with released := r.released + 1, pool := p }
  | .ok (false, p) => { r with pool := p }
  | .error e => { r with failure := r.failure.or (some e) }

def slots (r : Release) (ss : List Slot) : Release := ss.foldl slot r

def result (r : Release) : Except Fault Nat :=
  match r.failure with
  | some e => .error e
  | none => .ok r.released

end Release

end ManagedCalls
