/-!
Byte strings and the numbers they stand for: their bytes are the digits in base 256,
the lowest one first.
-/

namespace ManagedCalls

-- `^` is the built-in power of numbers, also where an algebra library offers another.
attribute [instance (high), default_instance 20000] instPowNat

abbrev Bytes := List UInt8

/-- The number whose base-256 digits are `bs`, the lowest first. -/
def littleEndian (bs : Bytes) : Nat :=
  bs.foldr (fun b acc => b.toNat + 256 * acc) 0

@[simp] theorem littleEndian_nil : littleEndian [] = 0 := rfl

@[simp] theorem littleEndian_cons (b : UInt8) (bs : Bytes) :
    littleEndian (b :: bs) = b.toNat + 256 * littleEndian bs := rfl

theorem littleEndian_lt (bs : Bytes) : littleEndian bs < 256 ^ bs.length := by
  induction bs with
  | nil => simp
  | cons b bs ih =>
    have hb : b.toNat < 256 := b.toNat_lt
    simp only [littleEndian_cons, List.length_cons, Nat.pow_succ]
    omega

/-- The lowest `count` base-256 digits of `n`, the lowest first. -/
def toLittleEndian : Nat → Nat → Bytes
  | 0, _ => []
  | count + 1, n => UInt8.ofNat n :: toLittleEndian count (n / 256)

@[simp] theorem length_toLittleEndian (count n : Nat) :
    (toLittleEndian count n).length = count := by
  induction count generalizing n with
  | zero => rfl
  | succ count ih => simp [toLittleEndian, ih]

theorem littleEndian_toLittleEndian (count n : Nat) :
    littleEndian (toLittleEndian count n) = n % 256 ^ count := by
  induction count generalizing n with
  | zero => simp [toLittleEndian, Nat.mod_one]
  | succ count ih =>
    have hlow : (UInt8.ofNat n).toNat = n % 256 := UInt8.toNat_ofNat'
    rw [toLittleEndian, littleEndian_cons, ih, hlow, Nat.pow_succ, Nat.mul_comm (256 ^ count),
      Nat.mod_mul]

end ManagedCalls
