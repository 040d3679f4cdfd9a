import ManagedCalls.Fault
import ManagedCalls.Storage.Conversion

/-!
The value pool: storage for statically sized values, within a budget of bytes.
Handles are numbered from one and never given out twice. An operation that fails
leaves the pool alone, so only successes return a pool.
-/

namespace ManagedCalls

/-- One live allocation. -/
structure Cell where
  handle : Nat
  type : TypeSig
  role : SlotRole
  bytes : Bytes

/-- The newest cells come first. -/
structure Pool where
  cells : List Cell
  nextHandle : Nat
  bytesInUse : Nat
  allocations : Nat
  frees : Nat
  budget : Nat

namespace Pool

def empty (budget : Nat) : Pool :=
  { cells := [], nextHandle := 1, bytesInUse := 0, allocations := 0, frees := 0, budget }

def find? (p : Pool) (handle : Nat) : Option Cell :=
  p.cells.find? fun cell => cell.handle == handle

def contains (p : Pool) (handle : Nat) : Bool := (p.find? handle).isSome

/-- Zeroed storage for a value of the type. -/
def allocate (p : Pool) (type : TypeSig) (role : SlotRole) : Except Fault (Nat × Pool) :=
  match type.staticSize with
  | none => .error (.unsizedType type)
  | some size =>
    if p.bytesInUse + size > p.budget then
      .error (.poolLimitExceeded size p.bytesInUse p.budget)
    else
      let cell : Cell := ⟨p.nextHandle, type, role, List.replicate size 0⟩
      .ok (p.nextHandle,
        { p with
          cells := cell :: p.cells
          nextHandle := p.nextHandle + 1
          bytesInUse := p.bytesInUse + size
          allocations := p.allocations + 1 })

/-- Replaces the bytes of the cell with the given handle. -/
def setBytes (handle : Nat) (bytes : Bytes) : List Cell → List Cell
  | [] => []
  | cell :: rest =>
    if cell.handle = handle then { cell with bytes } :: rest
    else cell :: setBytes handle bytes rest

/-- Stores a value, converted to the type of the storage. -/
def store (p : Pool) (handle : Nat) (v : Value) : Except Fault Pool :=
  match p.find? handle with
  | none => .error (.invalidHandle handle)
  | some cell =>
    match Storage.encode? cell.type v with
    | none => .error (.typeMismatch cell.type v)
    | some bytes =>
      .ok { p with cells := setBytes handle (bytes.take cell.bytes.length) p.cells }

def load (p : Pool) (handle : Nat) : Except Fault Value :=
  match p.find? handle with
  | none => .error (.invalidHandle handle)
  | some cell => .ok (Storage.decode cell.type cell.bytes)

/-- Gives storage back. A handle can be freed once. -/
def free (p : Pool) (handle : Nat) : Except Fault Pool :=
  match p.find? handle with
  | none => .error (.invalidHandle handle)
  | some cell =>
    .ok
      { p with
        cells := p.cells.eraseP fun c => c.handle == handle
        bytesInUse := p.bytesInUse - cell.bytes.length
        frees := p.frees + 1 }

def liveCount (p : Pool) : Nat := p.cells.length

def liveCountOf (p : Pool) (role : SlotRole) : Nat :=
  p.cells.countP fun cell => cell.role == role

theorem find?_setBytes (cells : List Cell) (handle other : Nat) (bytes : Bytes) :
    (setBytes handle bytes cells).find? (fun c => c.handle == other) =
      if other = handle then
        (cells.find? fun c => c.handle == other).map fun c => { c with bytes }
      else cells.find? fun c => c.handle == other := by
  induction cells with
  | nil => simp [setBytes]
  | cons cell rest ih =>
    by_cases h : cell.handle = handle
    · by_cases ho : other = handle
      · subst ho
        simp [setBytes, h]
      · simp [setBytes, h, ho, Ne.symm ho]
    · by_cases ho : cell.handle = other
      · subst ho
        simp [setBytes, h]
      · have hne : (cell.handle == other) = false := by simp [ho]
        simp [setBytes, h, hne, ih]

/-- A new cell is zeroed and found under its handle; every other handle finds
what it found before. -/
theorem find?_allocate {p p' : Pool} {type : TypeSig} {role : SlotRole} {handle : Nat}
    (h : p.allocate type role = .ok (handle, p')) (other : Nat) :
    p'.find? other =
      if other = handle then
        some ⟨handle, type, role, List.replicate (type.staticSize.getD 0) 0⟩
      else p.find? other := by
  unfold allocate at h
  split at h
  · cases h
  next size hsize =>
    split at h
    · cases h
    · cases h
      by_cases ho : other = p.nextHandle
      · simp [find?, ho, hsize]
      · have hne : (p.nextHandle == other) = false := by simp [Ne.symm ho]
        simp [find?, hne, ho]

/-- Freeing a handle changes no other one. -/
theorem find?_free_of_ne {p p' : Pool} {handle other : Nat} (h : p.free handle = .ok p')
    (hne : other ≠ handle) : p'.find? other = p.find? other := by
  unfold free at h
  split at h
  · cases h
  · cases h
    simp only [find?]
    induction p.cells with
    | nil => rfl
    | cons cell rest ih =>
      by_cases hc : cell.handle = handle
      · simp [hc, Ne.symm hne]
      · by_cases ho : cell.handle = other
        · simp [ho, hne]
        · simp [hc, ho, ih]

def typeOf? (p : Pool) (handle : Nat) : Option TypeSig := (p.find? handle).map Cell.type

def roleOf? (p : Pool) (handle : Nat) : Option SlotRole := (p.find? handle).map Cell.role

end Pool

def Cell.shown (c : Cell) : String :=
  Shown.record "PoolEntry"
    [("signature", c.type.shown), ("class", c.role.name),
      ("bytes", Shown.list (c.bytes.map fun b => toString b.toNat))]

/-- The text of a pool, its cells by handle. -/
def Pool.shown (p : Pool) : String :=
  let entries := p.cells.reverse.map fun c => (toString c.handle, c.shown)
  Shown.record "ValuePool"
    [("entries", "\x7b" ++ Shown.fields entries ++ "\x7d"), ("next_id", toString p.nextHandle),
      ("bytes_in_use", toString p.bytesInUse), ("allocations", toString p.allocations),
      ("frees", toString p.frees), ("max_bytes", toString p.budget)]

end ManagedCalls
