import ManagedCalls.Proofs.StorageTables
import Mathlib.Data.Int.ModEq

/-!
What storage makes of a value. A value is cut to the width of the storage when it is
stored and widened again when it is loaded. For numbers this is arithmetic: what comes
back is the number of the type's range that is congruent to the stored one. Storage
that was only ever stored to holds nothing else, so a loaded value that is no float can
be stored back and changes nothing.
-/

namespace ManagedCalls

/-- How storage keeps numbers: in how many bits, whether they are read with a sign, and
as values of which kind. -/
structure NumberLayout where
  bits : Nat
  signed : Bool
  kind : ValueKind

namespace NumberLayout

/-- The least number that can be read. -/
def least (l : NumberLayout) : Int := if l.signed then -2 ^ (l.bits - 1) else 0

def Contains (l : NumberLayout) (n : Int) : Prop := l.least ≤ n ∧ n < l.least + 2 ^ l.bits

instance (l : NumberLayout) (n : Int) : Decidable (l.Contains n) :=
  inferInstanceAs (Decidable (_ ∧ _))

/-- The number that is read where `n` was stored. -/
def read (l : NumberLayout) (n : Int) : Int := l.least + (n - l.least) % 2 ^ l.bits

theorem two_pow_pos (l : NumberLayout) : (0 : Int) < 2 ^ l.bits :=
  Int.pow_pos (by omega)

theorem read_modEq (l : NumberLayout) (n : Int) : l.read n ≡ n [ZMOD 2 ^ l.bits] := by
  calc l.least + (n - l.least) % 2 ^ l.bits
      ≡ l.least + (n - l.least) [ZMOD 2 ^ l.bits] := (Int.mod_modEq _ _).add_left _
    _ = n := by omega

theorem contains_read (l : NumberLayout) (n : Int) : l.Contains (l.read n) := by
  have hpos := l.two_pow_pos
  have hlow := Int.emod_nonneg (n - l.least) (Int.ne_of_gt hpos)
  have hhigh := Int.emod_lt_of_pos (n - l.least) hpos
  unfold Contains read
  omega

theorem read_congr (l : NumberLayout) {m n : Int} (h : m ≡ n [ZMOD 2 ^ l.bits]) :
    l.read m = l.read n :=
  congrArg (l.least + ·) (h.sub_right l.least)

theorem read_of_contains (l : NumberLayout) {n : Int} (h : l.Contains n) : l.read n = n := by
  unfold Contains at h
  unfold read
  rw [Int.emod_eq_of_lt (by omega) (by omega)]
  omega

/-- Exactly one number in the range is congruent to a given one. -/
theorem modEq_and_contains_iff (l : NumberLayout) (k n : Int) :
    k ≡ n [ZMOD 2 ^ l.bits] ∧ l.Contains k ↔ k = l.read n := by
  constructor
  · rintro ⟨hcongr, hrange⟩
    rw [← l.read_congr hcongr, l.read_of_contains hrange]
  · rintro rfl
    exact ⟨l.read_modEq n, l.contains_read n⟩

end NumberLayout

namespace TypeSig

/-- The type under all pins. -/
def core : TypeSig → TypeSig
  | pinned held => held.core
  | type => type

/-- The layout of numbers in storage of a core type. A boolean keeps no number. -/
def numberLayout? : TypeSig → Option NumberLayout
  | i1 => some ⟨8, true, .int32⟩
  | u1 => some ⟨8, false, .int32⟩
  | i2 => some ⟨16, true, .int32⟩
  | u2 | char => some ⟨16, false, .int32⟩
  | i4 | u4 => some ⟨32, true, .int32⟩
  | i8 | u8 => some ⟨64, true, .int64⟩
  | nativeInt | nativeUInt | pointer _ | functionPointer _ => some ⟨64, true, .native⟩
  | _ => none

/-- The kinds of values that storage of a core type takes. -/
def accepts : TypeSig → ValueKind → Bool
  | r4, kind | r8, kind => kind.isFloat
  | boolean, kind | char, kind | i1, kind | u1, kind | i2, kind | u2, kind | i4, kind | u4, kind
  | i8, kind | u8, kind => kind.isIntegral
  | nativeInt, kind | nativeUInt, kind | pointer _, kind | functionPointer _, kind =>
    kind.isIntegral || kind == .null
  | _, _ => false

@[simp] theorem staticSize_core (type : TypeSig) : type.core.staticSize = type.staticSize := by
  fun_induction core type with
  | case1 held ih => exact ih
  | case2 type => rfl

@[simp] theorem isFloatingPoint_core (type : TypeSig) :
    type.core.isFloatingPoint = type.isFloatingPoint := by
  fun_induction core type with
  | case1 held ih => exact ih
  | case2 type => rfl

end TypeSig

namespace Value

/-- The number of an integral value. -/
def number? : Value → Option Int
  | int32 v => some v.toInt
  | int64 v => some v.toInt
  | native v => some v.toInt
  | float32 _ | float64 _ | object _ | null => none

theorem eq_of_number? {a b : Value} {n : Int} (hkind : a.kind = b.kind) (ha : a.number? = some n)
    (hb : b.number? = some n) : a = b := by
  cases a <;> cases b <;> simp_all [kind, number?, ← Int32.toInt_inj, ← Int64.toInt_inj]

theorem toInt64?_of_number? {v : Value} {n : Int} (h : v.number? = some n) :
    ∃ k : Int64, v.toInt64? = some k ∧ v.isNull = false ∧ k.toInt = n := by
  cases v <;> simp_all [number?, toInt64?, isNull]

theorem number?_isSome (v : Value) : v.number?.isSome = v.kind.isIntegral := by
  cases v <;> rfl

end Value

theorem take_toLittleEndian {count size : Nat} (h : size ≤ count) (n : Nat) :
    (toLittleEndian count n).take size = toLittleEndian size n := by
  induction count generalizing size n with
  | zero =>
    obtain rfl : size = 0 := by omega
    rfl
  | succ count ih =>
    cases size with
    | zero => rfl
    | succ size => simp [toLittleEndian, ih (Nat.le_of_succ_le_succ h)]

/-- A signed word is the number of its range that is congruent to its pattern. -/
theorem toInt_eq_read {bits : Nat} (hbits : 0 < bits) (x : BitVec bits) (kind : ValueKind) :
    x.toInt = NumberLayout.read ⟨bits, true, kind⟩ x.toNat := by
  have hlow := BitVec.le_toInt x
  have hhigh := BitVec.toInt_lt (x := x)
  have hhalf : (2 : Int) ^ bits = 2 ^ (bits - 1) + 2 ^ (bits - 1) := by
    obtain ⟨half, rfl⟩ := Nat.exists_eq_succ_of_ne_zero (Nat.ne_of_gt hbits)
    rw [Nat.succ_sub_one, Int.pow_succ]
    omega
  refine (NumberLayout.modEq_and_contains_iff _ _ _).mp ⟨?_, ?_⟩
  · have hcongr := Int.bmod_emod (x := x.toNat) (m := 2 ^ bits)
    rw [← BitVec.toInt_eq_toNat_bmod] at hcongr
    exact_mod_cast hcongr
  · simp only [NumberLayout.Contains, NumberLayout.least, if_true]
    omega

theorem read_toNat_mod (l : NumberLayout) (n : Nat) :
    l.read (n % 2 ^ l.bits : Nat) = l.read n := by
  refine l.read_congr ?_
  rw [Int.natCast_mod]
  exact_mod_cast Int.mod_modEq (n : Int) (2 ^ l.bits : Nat)

theorem read_unsigned (bits n : Nat) (kind : ValueKind) :
    NumberLayout.read ⟨bits, false, kind⟩ n = (n % 2 ^ bits : Nat) := by
  simp [NumberLayout.read, NumberLayout.least]

namespace Storage

/-- The lower bits of a word, read with a sign. -/
theorem toInt_setWidth {bits : Nat} (hbits : 0 < bits) (w : UInt64) (kind : ValueKind) :
    (w.toBitVec.setWidth bits).toInt = NumberLayout.read ⟨bits, true, kind⟩ w.toNat := by
  rw [toInt_eq_read hbits _ kind, BitVec.toNat_setWidth, read_toNat_mod]
  rfl

/-- The lower bits of a number, in a word that has room for them beside the sign. -/
theorem toInt_of_toNat_mod {bits n : Nat} (hbits : bits < 32) {x : UInt32}
    (h : x.toNat = n % 2 ^ bits) (kind : ValueKind) :
    x.toInt32.toInt = NumberLayout.read ⟨bits, false, kind⟩ n := by
  have hsmall : 2 * x.toNat < 2 ^ 32 := by
    have hmod := Nat.mod_lt n (Nat.two_pow_pos bits)
    have hpow := Nat.pow_le_pow_right (n := 2) (by omega) (show bits + 1 ≤ 32 by omega)
    rw [Nat.pow_succ] at hpow
    omega
  rw [read_unsigned, ← h, ← Int32.toInt_toBitVec, BitVec.toInt_eq_toNat_cond]
  exact if_pos hsmall

/-- A word reads as the number of the type's range that it is congruent to. -/
theorem number?_ofWord {core : TypeSig} {l : NumberLayout} (h : core.numberLayout? = some l)
    (w : UInt64) :
    (ofWord core w).kind = l.kind ∧ (ofWord core w).number? = some (l.read w.toNat) := by
  cases core with
  | i1 =>
    obtain rfl := Option.some.inj h
    exact ⟨rfl, congrArg some ((Int8.toInt_toInt32 _).trans (toInt_setWidth (by omega) w _))⟩
  | i2 =>
    obtain rfl := Option.some.inj h
    exact ⟨rfl, congrArg some ((Int16.toInt_toInt32 _).trans (toInt_setWidth (by omega) w _))⟩
  | u1 =>
    obtain rfl := Option.some.inj h
    have hlow : w.toUInt8.toUInt32.toNat = w.toNat % 2 ^ 8 := by
      rw [UInt8.toNat_toUInt32, UInt64.toNat_toUInt8]
    exact ⟨rfl, congrArg some (toInt_of_toNat_mod (by omega) hlow _)⟩
  | char | u2 =>
    obtain rfl := Option.some.inj h
    have hlow : w.toUInt16.toUInt32.toNat = w.toNat % 2 ^ 16 := by
      rw [UInt16.toNat_toUInt32, UInt64.toNat_toUInt16]
    exact ⟨rfl, congrArg some (toInt_of_toNat_mod (by omega) hlow _)⟩
  | i4 | u4 =>
    obtain rfl := Option.some.inj h
    exact ⟨rfl, congrArg some (toInt_setWidth (by omega) w _)⟩
  | i8 | u8 | nativeInt | nativeUInt | pointer | functionPointer =>
    obtain rfl := Option.some.inj h
    exact ⟨rfl, congrArg some (toInt_eq_read (by omega) w.toBitVec _)⟩
  | _ => cases h

@[simp] theorem word?_core (type : TypeSig) (v : Value) : word? type.core v = word? type v := by
  fun_induction TypeSig.core type with
  | case1 held ih => exact ih
  | case2 type => rfl

@[simp] theorem ofWord_core (type : TypeSig) (w : UInt64) : ofWord type.core w = ofWord type w := by
  fun_induction TypeSig.core type with
  | case1 held ih => exact ih
  | case2 type => rfl

theorem isSome_word? {type : TypeSig} (h : type.staticSize.isSome = true) (v : Value) :
    (word? type v).isSome = type.core.accepts v.kind := by
  fun_induction TypeSig.staticSize type with
  | case17 held ih => exact ih h
  | case18 => cases h
  | _ => cases v <;> rfl

/-- What storage of a type makes of a value: the front of the encoded value, as long as
the type asks for, read back. -/
def convert? (type : TypeSig) (v : Value) : Option Value :=
  (encode? type v).map fun bytes => decode type (bytes.take (type.staticSize.getD 0))

theorem convert?_eq {type : TypeSig} {size : Nat} (h : type.staticSize = some size) (v : Value) :
    convert? type v =
      (word? type v).map fun w => ofWord type (UInt64.ofNat (w.toNat % 256 ^ size)) := by
  have hle := type.staticSize_le h
  rw [convert?, encode?, Option.map_map, h]
  congr 1
  funext w
  simp only [Function.comp_apply, decode, Option.getD_some]
  rw [take_toLittleEndian hle, List.take_of_length_le (by simpa using hle),
    littleEndian_toLittleEndian]

theorem isSome_convert? {type : TypeSig} (h : type.staticSize.isSome = true) (v : Value) :
    (convert? type v).isSome = type.core.accepts v.kind := by
  rw [convert?, encode?, Option.isSome_map, Option.isSome_map, isSome_word? h]

theorem staticSize_of_numberLayout? {core : TypeSig} {l : NumberLayout}
    (h : core.numberLayout? = some l) :
    ∃ size, core.staticSize = some size ∧ l.bits = 8 * size := by
  cases core with
  | i1 | u1 => obtain rfl := Option.some.inj h; exact ⟨1, rfl, rfl⟩
  | char | i2 | u2 => obtain rfl := Option.some.inj h; exact ⟨2, rfl, rfl⟩
  | i4 | u4 => obtain rfl := Option.some.inj h; exact ⟨4, rfl, rfl⟩
  | i8 | u8 | nativeInt | nativeUInt | pointer | functionPointer =>
    obtain rfl := Option.some.inj h
    exact ⟨8, rfl, rfl⟩
  | _ => cases h

/-- The types with a size that keep no numbers. -/
theorem core_of_numberLayout?_eq_none {type : TypeSig} (hsized : type.staticSize.isSome = true)
    (h : type.core.numberLayout? = none) :
    type.core = .boolean ∨ type.core = .r4 ∨ type.core = .r8 := by
  fun_induction TypeSig.staticSize type with
  | case17 held ih => exact ih hsized h
  | case18 => cases hsized
  | _ => simp_all [TypeSig.core, TypeSig.numberLayout?]

/-- An integral value is stored as a word that is congruent to its number. -/
theorem word?_modEq {core : TypeSig} {l : NumberLayout} (hl : core.numberLayout? = some l)
    {v : Value} {n : Int} (hv : v.number? = some n) {w : UInt64} (hw : word? core v = some w) :
    (w.toNat : Int) ≡ n [ZMOD 2 ^ l.bits] := by
  obtain ⟨k, hk, hnull, rfl⟩ := Value.toInt64?_of_number? hv
  have hword : word? core v = some k.toUInt64 := by
    cases core with
    | char | i1 | u1 | i2 | u2 | i4 | u4 | i8 | u8 => simp [word?, hk]
    | nativeInt | nativeUInt | pointer | functionPointer => simp [word?, hk, hnull]
    | _ => cases hl
  obtain rfl := Option.some.inj (hword.symm.trans hw)
  obtain ⟨size, hsize, hbits⟩ := staticSize_of_numberLayout? hl
  have hle := core.staticSize_le hsize
  have hsigned : k.toInt = NumberLayout.read ⟨64, true, l.kind⟩ k.toUInt64.toNat :=
    toInt_eq_read (by omega) k.toBitVec _
  have hcongr := (NumberLayout.read_modEq ⟨64, true, l.kind⟩ k.toUInt64.toNat).symm
  rw [← hsigned] at hcongr
  exact hcongr.of_dvd (pow_dvd_pow 2 (show l.bits ≤ 64 by omega))

theorem number?_of_convert? {core : TypeSig} {l : NumberLayout} (hl : core.numberLayout? = some l)
    {v loaded : Value} {n : Int} (hv : v.number? = some n) (h : convert? core v = some loaded) :
    loaded.kind = l.kind ∧ loaded.number? = some (l.read n) := by
  obtain ⟨size, hsize, hbits⟩ := staticSize_of_numberLayout? hl
  rw [convert?_eq hsize] at h
  obtain ⟨w, hw, rfl⟩ := Option.map_eq_some_iff.mp h
  have hpow : 256 ^ size = 2 ^ l.bits := by rw [hbits, Nat.pow_mul]
  have hcut : (UInt64.ofNat (w.toNat % 256 ^ size)).toNat = w.toNat % 2 ^ l.bits := by
    rw [hpow, UInt64.toNat_ofNat']
    exact Nat.mod_eq_of_lt (Nat.lt_of_le_of_lt (Nat.mod_le _ _) w.toNat_lt)
  have hread := number?_ofWord hl (UInt64.ofNat (w.toNat % 256 ^ size))
  rw [hcut, read_toNat_mod, l.read_congr (word?_modEq hl hv hw)] at hread
  exact hread

theorem convert?_boolean {v loaded : Value} {n : Int} (hv : v.number? = some n)
    (h : convert? .boolean v = some loaded) : loaded = .int32 (if n = 0 then 0 else 1) := by
  obtain ⟨k, hk, -, rfl⟩ := Value.toInt64?_of_number? hv
  rw [convert?_eq rfl, word?, hk] at h
  obtain rfl := Option.some.inj h
  dsimp only
  have hzero : k.toInt = 0 ↔ k = 0 := by rw [← Int64.toInt_inj, Int64.toInt_zero]
  by_cases hk0 : k = 0
  · rw [if_pos hk0, if_pos (hzero.mpr hk0)]
    rfl
  · rw [if_neg hk0, if_neg (mt hzero.mp hk0)]
    rfl

/-- Floating-point storage takes no numbers. -/
theorem convert?_float_of_number? {core : TypeSig} (hcore : core = .r4 ∨ core = .r8) {v : Value}
    {n : Int} (hv : v.number? = some n) : convert? core v = none := by
  rcases hcore with rfl | rfl <;> cases v <;> first | rfl | cases hv

@[simp] theorem convert?_core (type : TypeSig) (v : Value) :
    convert? type.core v = convert? type v := by
  simp only [convert?, encode?, decode, word?_core, ofWord_core, TypeSig.staticSize_core]

theorem convert?_null {type : TypeSig} (hsized : type.staticSize.isSome = true) {loaded : Value}
    (h : convert? type .null = some loaded) : loaded = .native 0 := by
  fun_induction TypeSig.staticSize type with
  | case13 | case14 | case15 | case16 => exact (Option.some.inj h).symm
  | case17 held ih => exact ih hsized h
  | case18 => cases hsized
  | _ => cases h

/-- What storage of a core type without floating point makes of a number. A boolean keeps
whether it is zero. -/
def Keeps (core : TypeSig) (n : Int) (loaded : Value) : Prop :=
  match core.numberLayout? with
  | some l => ∃ m, loaded.kind = l.kind ∧ loaded.number? = some m ∧
      ∀ k, k ≡ n [ZMOD 2 ^ l.bits] ∧ l.Contains k ↔ k = m
  | none => core = .boolean ∧ loaded = .int32 (if n = 0 then 0 else 1)

theorem convert?_keeps {type : TypeSig} (hsized : type.staticSize.isSome = true) {v loaded : Value}
    {n : Int} (hv : v.number? = some n) (h : convert? type v = some loaded) :
    Keeps type.core n loaded := by
  rw [← convert?_core] at h
  unfold Keeps
  cases hl : type.core.numberLayout? with
  | some l =>
    obtain ⟨hkind, hnumber⟩ := number?_of_convert? hl hv h
    exact ⟨_, hkind, hnumber, fun k => l.modEq_and_contains_iff k n⟩
  | none =>
    rcases core_of_numberLayout?_eq_none hsized hl with hcore | hcore | hcore
    · rw [hcore] at h
      exact ⟨hcore, convert?_boolean hv h⟩
    · rw [hcore, convert?_float_of_number? (Or.inl rfl) hv] at h
      cases h
    · rw [hcore, convert?_float_of_number? (Or.inr rfl) hv] at h
      cases h

theorem accepts_of_numberLayout? {core : TypeSig} {l : NumberLayout}
    (hl : core.numberLayout? = some l) {v : Value} {n : Int} (hv : v.number? = some n) :
    core.accepts v.kind = true := by
  have hintegral : v.kind.isIntegral = true := by
    rw [← Value.number?_isSome, hv]
    rfl
  cases core with
  | char | i1 | u1 | i2 | u2 | i4 | u4 | i8 | u8 => exact hintegral
  | nativeInt | nativeUInt | pointer | functionPointer => simp [TypeSig.accepts, hintegral]
  | _ => cases hl

/-- What was converted once is not changed by another conversion, floats apart. -/
theorem convert?_convert? {type : TypeSig} (hsized : type.staticSize.isSome = true)
    (hfloat : type.isFloatingPoint = false) {v loaded : Value} (h : convert? type v = some loaded) :
    convert? type loaded = some loaded := by
  cases hl : type.core.numberLayout? with
  | some l =>
    obtain ⟨size, hsize⟩ := Option.isSome_iff_exists.mp hsized
    rw [convert?_eq hsize] at h
    obtain ⟨w, -, rfl⟩ := Option.map_eq_some_iff.mp h
    rw [← ofWord_core]
    obtain ⟨hkind, hnumber⟩ := number?_ofWord hl (UInt64.ofNat (w.toNat % 256 ^ size))
    have hagain := isSome_convert? hsized (ofWord type.core (UInt64.ofNat (w.toNat % 256 ^ size)))
    rw [accepts_of_numberLayout? hl hnumber] at hagain
    obtain ⟨again, hconvert⟩ := Option.isSome_iff_exists.mp hagain
    rw [← convert?_core] at hconvert ⊢
    obtain ⟨hkind', hnumber'⟩ := number?_of_convert? hl hnumber hconvert
    rw [l.read_of_contains (l.contains_read _)] at hnumber'
    rw [hconvert, Value.eq_of_number? (hkind'.trans hkind.symm) hnumber' hnumber]
  | none =>
    rw [← TypeSig.isFloatingPoint_core] at hfloat
    rw [← convert?_core] at h ⊢
    rcases core_of_numberLayout?_eq_none hsized hl with hcore | hcore | hcore
    · rw [hcore, convert?_eq rfl] at h
      obtain ⟨w, hw, rfl⟩ := Option.map_eq_some_iff.mp h
      obtain ⟨n, -, rfl⟩ := Option.map_eq_some_iff.mp hw
      rw [hcore]
      by_cases hn : n = 0
      · rw [if_pos hn]
        rfl
      · rw [if_neg hn]
        rfl
    · rw [hcore] at hfloat
      cases hfloat
    · rw [hcore] at hfloat
      cases hfloat

end Storage

namespace Pool

variable {p p' : Pool} {handle : Nat} {c : Cell} {v : Value}

theorem store_succeeds_iff (hfind : p.find? handle = some c) :
    (∃ p', p.store handle v = .ok p') ↔ (Storage.convert? c.type v).isSome = true := by
  rw [Storage.convert?, Option.isSome_map, Option.isSome_iff_exists]
  constructor
  · rintro ⟨p', hstore⟩
    obtain ⟨c', bytes, hfind', hencode, -⟩ := store_eq_ok.mp hstore
    obtain rfl : c = c' := Option.some.inj (hfind.symm.trans hfind')
    exact ⟨bytes, hencode⟩
  · rintro ⟨bytes, hencode⟩
    exact ⟨_, store_eq_ok.mpr ⟨c, bytes, hfind, hencode, rfl⟩⟩

/-- After a store the value is loaded as the storage converts it. -/
theorem load_store (hfind : p.find? handle = some c)
    (hsized : c.type.staticSize = some c.bytes.length) (hstore : p.store handle v = .ok p') :
    ∃ loaded, Storage.convert? c.type v = some loaded ∧ p'.load handle = .ok loaded := by
  obtain ⟨c', bytes, hfind', hencode, hstored⟩ := find?_store hstore
  obtain rfl : c = c' := Option.some.inj (hfind.symm.trans hfind')
  refine ⟨Storage.decode c.type (bytes.take c.bytes.length), ?_, ?_⟩
  · rw [Storage.convert?, hencode, hsized]
    rfl
  · rw [load, hstored]

end Pool

/-- The bytes of the cell are those of a value that was stored in it. A new cell counts as
one with its zero. -/
def Cell.Written (c : Cell) : Prop :=
  ∃ v bytes, Storage.encode? c.type v = some bytes ∧
    c.bytes = bytes.take (c.type.staticSize.getD 0)

theorem Cell.Written.convert? {c : Cell} (h : c.Written) :
    ∃ v, Storage.convert? c.type v = some (Storage.decode c.type c.bytes) := by
  obtain ⟨v, bytes, hencode, hbytes⟩ := h
  exact ⟨v, by rw [Storage.convert?, hencode, hbytes]; rfl⟩

namespace PoolAction

open PoolRun

variable {budget : Nat} {r : PoolRun}

theorem perform_written (hsound : Sound budget r) (h : ∀ c ∈ r.pool.cells, c.Written)
    (a : PoolAction) : ∀ c ∈ (a.perform r).pool.cells, c.Written := by
  cases hrun : a.attempt r.pool with
  | error e =>
    rw [(perform_of_error hrun).1]
    exact h
  | ok p' =>
    rw [perform_of_ok hrun]
    obtain ⟨type, role, rfl, halloc⟩ | ⟨handle, v, rfl, hstore⟩ | ⟨handle, rfl, rfl⟩ |
      ⟨handle, rfl, hfree⟩ := attempt_cases hrun
    · obtain ⟨size, hsize, -, -, rfl⟩ := Pool.allocate_eq_ok.mp halloc
      have hle := type.staticSize_le hsize
      have hsized : type.staticSize.isSome = true := by rw [hsize]; rfl
      have hzero := Storage.encode?_zero hsized
      refine List.forall_mem_cons.mpr ⟨⟨Value.zero type, _, hzero, ?_⟩, h⟩
      simp only [hsize, Option.getD_some, List.take_replicate]
      rw [Nat.min_eq_left hle]
    · obtain ⟨c, bytes, hfind, hencode, rfl⟩ := Pool.store_eq_ok.mp hstore
      have hsized := hsound.growth.sized c (Pool.cell_of_find? hfind).1
      intro c' hc'
      rcases Pool.mem_setBytes hc' with hold | ⟨old, hold, rfl⟩
      · exact h c' hold
      · obtain rfl : c = old := Option.some.inj (hfind.symm.trans hold)
        exact ⟨v, bytes, hencode, by rw [hsized]; rfl⟩
    · exact h
    · obtain ⟨c, -, rfl⟩ := Pool.free_eq_ok.mp hfree
      exact fun c hc => h c (List.mem_of_mem_eraseP hc)

theorem performAll_written (budget : Nat) (actions : List PoolAction) :
    ∀ c ∈ (performAll budget actions).pool.cells, c.Written := by
  induction actions using List.reverseRecOn with
  | nil => exact fun c hc => (List.not_mem_nil hc).elim
  | append_singleton actions a ih =>
    rw [performAll_concat]
    exact perform_written (performAll_sound budget actions) ih a

/-- Whatever was asked of a pool, a store to a live handle succeeds just for the kinds of
values that its type takes under its pins, and changes nothing if it fails. A number is
loaded again as the one number in the range of the type that is congruent to it, with the
kind the type has, and null as zero. A loaded value that is no float can be stored back,
and loads as before. -/
theorem store_converts (budget : Nat) (actions : List PoolAction) {handle : Nat} {type : TypeSig}
    (hlive : (performAll budget actions).pool.typeOf? handle = some type) :
    let r := performAll budget actions
    (∀ v, (∃ p', r.pool.store handle v = .ok p') ↔ type.core.accepts v.kind = true) ∧
    (∀ v e, r.pool.store handle v = .error e → ((store handle v).perform r).pool = r.pool) ∧
    (∀ v n p', v.number? = some n → r.pool.store handle v = .ok p' →
      ∃ loaded, p'.load handle = .ok loaded ∧ Storage.Keeps type.core n loaded) ∧
    (∀ p', r.pool.store handle .null = .ok p' → p'.load handle = .ok (.native 0)) ∧
    (type.isFloatingPoint = false → ∀ v, r.pool.load handle = .ok v →
      ∃ p', r.pool.store handle v = .ok p' ∧ p'.load handle = .ok v) := by
  intro r
  obtain ⟨c, hfind, rfl⟩ := Option.map_eq_some_iff.mp hlive
  have hmem := (Pool.cell_of_find? hfind).1
  have hsize := (performAll_sound budget actions).growth.sized c hmem
  have hsized : c.type.staticSize.isSome = true := by rw [hsize]; rfl
  refine ⟨?_, ?_, ?_, ?_, ?_⟩
  · intro v
    rw [Pool.store_succeeds_iff hfind, Storage.isSome_convert? hsized]
  · intro v e hfails
    exact (perform_of_error (a := store handle v) hfails).1
  · intro v n p' hv hstore
    obtain ⟨loaded, hconvert, hload⟩ := Pool.load_store hfind hsize hstore
    exact ⟨loaded, hload, Storage.convert?_keeps hsized hv hconvert⟩
  · intro p' hstore
    obtain ⟨loaded, hconvert, hload⟩ := Pool.load_store hfind hsize hstore
    rw [hload, Storage.convert?_null hsized hconvert]
  · intro hfloat v hload
    obtain ⟨stored, hwritten⟩ := (performAll_written budget actions c hmem).convert?
    have hv : Storage.decode c.type c.bytes = v := by
      rw [Pool.load, hfind] at hload
      exact Except.ok.inj hload
    rw [hv] at hwritten
    have hagain := Storage.convert?_convert? hsized hfloat hwritten
    obtain ⟨p', hstore⟩ := (Pool.store_succeeds_iff (v := v) hfind).mpr (by rw [hagain]; rfl)
    obtain ⟨loaded, hconvert, hloaded⟩ := Pool.load_store hfind hsize hstore
    obtain rfl := Option.some.inj (hagain.symm.trans hconvert)
    exact ⟨p', hstore, hloaded⟩

/-- A cell of four bytes under two pins that has refused an object. The number
`2 ^ 32 + 2 ^ 31 + 5` is loaded from it with a sign. -/
theorem store_converts_under_pins :
    let type : TypeSig := .pinned (.pinned .u4)
    let r := performAll 4 [.allocate type .argument, .store 1 (.object 3)]
    r.pool.typeOf? 1 = some type ∧
      (∃ p', r.pool.store 1 (.int64 0x180000005) = .ok p' ∧
        p'.load 1 = .ok (.int32 (-0x7FFFFFFB))) ∧
      (¬ ∃ p', r.pool.store 1 .null = .ok p') ∧
      ∃ p', r.pool.store 1 (.int32 0) = .ok p' ∧ p'.load 1 = .ok (.int32 0) := by
  intro type r
  have hlive : r.pool.typeOf? 1 = some type := rfl
  obtain ⟨haccepts, -, hnumbers, -, hback⟩ :=
    store_converts 4 [.allocate type .argument, .store 1 (.object 3)] hlive
  refine ⟨hlive, ?_, mt (haccepts .null).mp (by decide), hback rfl _ rfl⟩
  obtain ⟨p', hstore⟩ := (haccepts (.int64 0x180000005)).mpr rfl
  obtain ⟨loaded, hload, m, hkind, hnumber, hunique⟩ := hnumbers _ 0x180000005 p' rfl hstore
  obtain rfl := (hunique (-0x7FFFFFFB)).mp (by decide)
  have hloaded : loaded = .int32 (-0x7FFFFFFB) := Value.eq_of_number? hkind hnumber rfl
  exact ⟨p', hstore, by rw [hload, hloaded]⟩

end PoolAction

end ManagedCalls
