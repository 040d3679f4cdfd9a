import ManagedCalls.Proofs.PoolAccounting

/-!
Types and the storage made for them. Size, zero, floating point, encoding and
decoding are given by separate tables over the types, and the tables agree: the
types with a size are those whose zero is a value of its own, new storage reads as
this zero, and whatever is stored later, the storage keeps its size and reads as a
value of the kind it was made for.
-/

namespace ManagedCalls

/-- Values apart from what they carry. -/
inductive ValueKind where
  | int32
  | int64
  | native
  | float32
  | float64
  | object
  | null
  deriving DecidableEq

namespace ValueKind

def isFloat : ValueKind → Bool
  | float32 | float64 => true
  | int32 | int64 | native | object | null => false

def isIntegral : ValueKind → Bool
  | int32 | int64 | native => true
  | float32 | float64 | object | null => false

end ValueKind

def Value.kind : Value → ValueKind
  | int32 _ => .int32
  | int64 _ => .int64
  | native _ => .native
  | float32 _ => .float32
  | float64 _ => .float64
  | object _ => .object
  | null => .null

namespace TypeSig

theorem isSome_staticSize_iff (type : TypeSig) :
    type.staticSize.isSome = true ↔ Value.zero type ≠ .null := by
  fun_induction TypeSig.staticSize type with
  | case17 held ih => exact ih
  | case18 type =>
    unfold Value.zero
    split <;> simp_all
  | _ => simp [Value.zero]

theorem one_le_staticSize {type : TypeSig} {size : Nat} (h : type.staticSize = some size) :
    1 ≤ size := by
  fun_induction TypeSig.staticSize type with
  | case17 held ih => exact ih h
  | case18 => cases h
  | _ =>
    have hsize := Option.some.inj h
    omega

theorem isFloatingPoint_eq (type : TypeSig) :
    type.isFloatingPoint = (Value.zero type).kind.isFloat := by
  fun_induction TypeSig.isFloatingPoint type with
  | case3 held ih => exact ih
  | case4 type =>
    unfold Value.zero
    split <;> simp_all [Value.kind, ValueKind.isFloat]
  | _ => rfl

end TypeSig

namespace Storage

theorem kind_ofWord {type : TypeSig} (h : type.staticSize.isSome = true) (w : UInt64) :
    (ofWord type w).kind = (Value.zero type).kind := by
  fun_induction TypeSig.staticSize type with
  | case17 held ih => exact ih h
  | case18 => cases h
  | _ => rfl

theorem ofWord_zero {type : TypeSig} (h : type.staticSize.isSome = true) :
    ofWord type 0 = Value.zero type := by
  fun_induction TypeSig.staticSize type with
  | case17 held ih => exact ih h
  | case18 => cases h
  | _ => rfl

theorem word?_zero {type : TypeSig} (h : type.staticSize.isSome = true) :
    word? type (Value.zero type) = some 0 := by
  fun_induction TypeSig.staticSize type with
  | case17 held ih => exact ih h
  | case18 => cases h
  | _ => rfl

theorem encode?_zero {type : TypeSig} (h : type.staticSize.isSome = true) :
    encode? type (Value.zero type) = some (List.replicate 8 0) := by
  rw [encode?, word?_zero h]
  rfl

theorem littleEndian_replicate_zero (count : Nat) :
    littleEndian (List.replicate count 0) = 0 := by
  induction count with
  | zero => rfl
  | succ count ih => simp [List.replicate_succ, ih]

/-- Zeroed bytes read as the zero of the type. -/
theorem decode_replicate_zero {type : TypeSig} (h : type.staticSize.isSome = true) (size : Nat) :
    decode type (List.replicate size 0) = Value.zero type := by
  rw [decode, List.take_replicate, littleEndian_replicate_zero]
  exact ofWord_zero h

end Storage

namespace Pool

/-- Under the handle lies storage for the type, with the given number of bytes. -/
def HasStorage (p : Pool) (handle : Nat) (type : TypeSig) (size : Nat) : Prop :=
  ∃ c, p.find? handle = some c ∧ c.type = type ∧ c.bytes.length = size

/-- The pool after some stores. Those that fail leave it as it is. -/
def storeAll (p : Pool) (stores : List (Nat × Value)) : Pool :=
  stores.foldl (fun p s => (p.store s.1 s.2).toOption.getD p) p

theorem store_eq_ok {p p' : Pool} {handle : Nat} {v : Value} :
    p.store handle v = .ok p' ↔
      ∃ c bytes, p.find? handle = some c ∧ Storage.encode? c.type v = some bytes ∧
        p' = { p with cells := setBytes handle (bytes.take c.bytes.length) p.cells } := by
  unfold store
  cases p.find? handle with
  | none => simp
  | some c =>
    cases hencode : Storage.encode? c.type v with
    | none => simp [hencode]
    | some bytes => simp [hencode, eq_comm]

/-- A store puts the front of the encoded value in place of the bytes. -/
theorem find?_store {p p' : Pool} {handle : Nat} {v : Value} (h : p.store handle v = .ok p') :
    ∃ c bytes, p.find? handle = some c ∧ Storage.encode? c.type v = some bytes ∧
      p'.find? handle = some { c with bytes := bytes.take c.bytes.length } := by
  obtain ⟨c, bytes, hfind, hencode, rfl⟩ := store_eq_ok.mp h
  have hcells : p.cells.find? (fun c => c.handle == handle) = some c := hfind
  exact ⟨c, bytes, hfind, hencode, by simp [find?, find?_setBytes, hcells]⟩

theorem load_of_allocate {p p' : Pool} {type : TypeSig} {role : SlotRole} {handle : Nat}
    (h : p.allocate type role = .ok (handle, p')) (hsized : type.staticSize.isSome = true) :
    p'.load handle = .ok (Value.zero type) := by
  have hfind := find?_allocate h handle
  rw [if_pos rfl] at hfind
  rw [load, hfind]
  exact congrArg Except.ok (Storage.decode_replicate_zero hsized _)

namespace HasStorage

variable {p p' : Pool} {handle size : Nat} {type : TypeSig}

theorem of_allocate {role : SlotRole} (h : p.allocate type role = .ok (handle, p'))
    (hsize : type.staticSize = some size) : p'.HasStorage handle type size := by
  have hfind := find?_allocate h handle
  rw [if_pos rfl, hsize] at hfind
  exact ⟨_, hfind, rfl, List.length_replicate⟩

theorem store (h : p.HasStorage handle type size) (hsize : size ≤ 8) {other : Nat} {v : Value}
    (hstore : p.store other v = .ok p') : p'.HasStorage handle type size := by
  obtain ⟨c, hfind, htype, hlength⟩ := h
  by_cases hother : handle = other
  · subst hother
    obtain ⟨c', bytes, hfind', hencode, hstored⟩ := find?_store hstore
    obtain rfl : c = c' := Option.some.inj (hfind.symm.trans hfind')
    refine ⟨_, hstored, htype, ?_⟩
    have hbytes := Storage.length_encode? hencode
    simp only [List.length_take]
    omega
  · exact ⟨c, (find?_store_of_ne hstore hother).trans hfind, htype, hlength⟩

theorem storeAll (h : p.HasStorage handle type size) (hsize : size ≤ 8)
    (stores : List (Nat × Value)) : (p.storeAll stores).HasStorage handle type size := by
  induction stores generalizing p with
  | nil => exact h
  | cons s rest ih =>
    cases hstore : p.store s.1 s.2 with
    | error e =>
      rw [Pool.storeAll, List.foldl_cons, hstore]
      exact ih h
    | ok p' =>
      rw [Pool.storeAll, List.foldl_cons, hstore]
      exact ih (h.store hsize hstore)

theorem kind_load (h : p.HasStorage handle type size) (hsized : type.staticSize.isSome = true) :
    ∃ v, p.load handle = .ok v ∧ v.kind = (Value.zero type).kind := by
  obtain ⟨c, hfind, rfl, -⟩ := h
  refine ⟨Storage.decode c.type c.bytes, ?_, Storage.kind_ofWord hsized _⟩
  rw [load, hfind]

theorem store_zero (h : p.HasStorage handle type size) (hsized : type.staticSize.isSome = true) :
    ∃ p', p.store handle (Value.zero type) = .ok p' := by
  obtain ⟨c, hfind, rfl, -⟩ := h
  exact ⟨_, store_eq_ok.mpr ⟨c, _, hfind, Storage.encode?_zero hsized, rfl⟩⟩

end HasStorage

end Pool

namespace TypeSig

/-- The tables agree on every type. Types with a size are those with a zero, and of
these the floating-point ones have a floating-point zero. A pool with room for a type
makes storage that reads as this zero; after any stores, failed ones among them, it has
the size of the type still, reads as a value of the same kind and takes the zero. An
encoded value is never shorter than the storage it goes to. -/
theorem storage_tables_agree (type : TypeSig) :
    (type.staticSize.isSome = true ↔ Value.zero type ≠ .null) ∧
    (type.isFloatingPoint = true ↔ (Value.zero type).kind.isFloat = true) ∧
    ∀ size, type.staticSize = some size →
      1 ≤ size ∧ size ≤ 8 ∧
      (∀ v bytes, Storage.encode? type v = some bytes → size ≤ bytes.length) ∧
      ∀ (p : Pool) (role : SlotRole), p.bytesInUse + size ≤ p.budget →
        ∃ handle p', p.allocate type role = .ok (handle, p') ∧
          p'.load handle = .ok (Value.zero type) ∧
          ∀ stores : List (Nat × Value),
            (p'.storeAll stores).HasStorage handle type size ∧
            (∃ v, (p'.storeAll stores).load handle = .ok v ∧ v.kind = (Value.zero type).kind) ∧
            ∃ p'', (p'.storeAll stores).store handle (Value.zero type) = .ok p'' := by
  refine ⟨type.isSome_staticSize_iff, by rw [isFloatingPoint_eq], ?_⟩
  intro size hsize
  have hsized : type.staticSize.isSome = true := by rw [hsize]; rfl
  have hle : size ≤ 8 := type.staticSize_le hsize
  refine ⟨one_le_staticSize hsize, hle, ?_, ?_⟩
  · intro v bytes hencode
    rw [Storage.length_encode? hencode]
    exact hle
  · intro p role hfits
    obtain ⟨handle, p', halloc⟩ := Pool.allocate_succeeds_iff.mpr ⟨size, hsize, hfits⟩
    refine ⟨handle, p', halloc, Pool.load_of_allocate halloc hsized, ?_⟩
    intro stores
    have hstorage := (Pool.HasStorage.of_allocate halloc hsize).storeAll hle stores
    exact ⟨hstorage, hstorage.kind_load hsized, hstorage.store_zero hsized⟩

/-- Four bytes are enough for a pinned float. A number is refused, the handle of no
cell too, and a double is narrowed. -/
theorem storage_tables_agree_on_pinned_float :
    let type : TypeSig := .pinned (.pinned .r4)
    let stores : List (Nat × Value) :=
      [(1, .int32 7), (2, .float32 1), (1, .float64 0x3FE0000000000000)]
    type.staticSize = some 4 ∧ (Pool.empty 4).bytesInUse + 4 ≤ (Pool.empty 4).budget ∧
      ∃ handle p', (Pool.empty 4).allocate type .localVar = .ok (handle, p') ∧
        p'.load handle = .ok (.float32 0) ∧ (p'.storeAll stores).HasStorage handle type 4 ∧
        (∃ v, (p'.storeAll stores).load handle = .ok v ∧ v.kind = .float32) ∧
        ∃ p'', (p'.storeAll stores).store handle (.float32 0) = .ok p'' := by
  intro type stores
  have hfits : (Pool.empty 4).bytesInUse + 4 ≤ (Pool.empty 4).budget := by decide
  obtain ⟨-, -, hsized⟩ := storage_tables_agree type
  obtain ⟨-, -, -, hpool⟩ := hsized 4 rfl
  obtain ⟨handle, p', halloc, hload, hstores⟩ := hpool (Pool.empty 4) .localVar hfits
  exact ⟨rfl, hfits, handle, p', halloc, hload, hstores stores⟩

end TypeSig

end ManagedCalls
