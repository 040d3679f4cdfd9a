import ManagedCalls.Blob.Cursor

/-!
Compressed unsigned integers take one, two or four bytes; the leading bits of
the first byte say which. The longer forms put the high bits first. A reader
accepts every form that is wide enough, not only the shortest one.
-/

namespace ManagedCalls

/-- The number of bytes a compressed integer is written in. -/
inductive CompressedWidth where
  | one
  | two
  | four
  deriving DecidableEq

namespace CompressedWidth

def size : CompressedWidth → Nat
  | one => 1
  | two => 2
  | four => 4

/-- The numbers below this bound can be written in the width. -/
def bound : CompressedWidth → Nat
  | one => 2 ^ 7
  | two => 2 ^ 14
  | four => 2 ^ 29

/-- The width that the first byte announces, if it announces one. -/
def ofLead? (lead : UInt8) : Option CompressedWidth :=
  if lead < 0x80 then some one
  else if lead < 0xC0 then some two
  else if lead < 0xE0 then some four
  else none

/-- The bytes of `n` in a width that can hold it. -/
def encode (n : Nat) : CompressedWidth → Bytes
  | one => [UInt8.ofNat n]
  | two => [UInt8.ofNat (0x80 + n / 2 ^ 8), UInt8.ofNat n]
  | four =>
    [UInt8.ofNat (0xC0 + n / 2 ^ 24), UInt8.ofNat (n / 2 ^ 16), UInt8.ofNat (n / 2 ^ 8),
      UInt8.ofNat n]

/-- The narrowest width that can hold `n`. -/
def narrowest (n : Nat) : CompressedWidth :=
  if n < bound one then one else if n < bound two then two else four

end CompressedWidth

namespace Read

/-- A compressed unsigned integer. The bytes before a missing one stay read. -/
def compressedUInt : Read Nat := do
  let lead ← byte
  match CompressedWidth.ofLead? lead with
  | some .one => pure lead.toNat
  | some .two =>
    let low ← byte
    pure (lead.toNat % 2 ^ 6 * 2 ^ 8 + low.toNat)
  | some .four =>
    let b₂ ← byte
    let b₁ ← byte
    let b₀ ← byte
    pure (lead.toNat % 2 ^ 5 * 2 ^ 24 + b₂.toNat * 2 ^ 16 + b₁.toNat * 2 ^ 8 + b₀.toNat)
  | none => throw (.malformed (.compressedUInt lead))

/-- Every width that can hold a number is read back, and nothing behind it. -/
theorem compressedUInt_encode {n : Nat} {width : CompressedWidth} (h : n < width.bound)
    (position : Nat) (rest : Bytes) :
    compressedUInt ⟨position, width.encode n ++ rest⟩ = .ok n ⟨position + width.size, rest⟩ := by
  cases width with
  | one =>
    have hn : n < 128 := h
    have hb : (UInt8.ofNat n).toNat = n := by simp; omega
    have hw : CompressedWidth.ofLead? (UInt8.ofNat n) = some .one := by
      simp [CompressedWidth.ofLead?, UInt8.lt_iff_toNat_lt,
        Nat.mod_eq_of_lt (show n < 256 by omega), hn]
    simp only [compressedUInt, CompressedWidth.encode, List.cons_append, List.nil_append,
      Stateful.bind_apply, byte_cons, hw, Stateful.pure_apply, hb]
    rfl
  | two =>
    have hn : n < 16384 := h
    have hb : (UInt8.ofNat (0x80 + n / 2 ^ 8)).toNat = 0x80 + n / 2 ^ 8 := by
      rw [UInt8.toNat_ofNat']; omega
    have hw : CompressedWidth.ofLead? (UInt8.ofNat (0x80 + n / 2 ^ 8)) = some .two := by
      simp only [CompressedWidth.ofLead?, UInt8.lt_iff_toNat_lt, hb]
      rw [if_neg (by simp), if_pos (by simp; omega)]
    simp only [compressedUInt, CompressedWidth.encode, List.cons_append, List.nil_append,
      Stateful.bind_apply, byte_cons, hw, Stateful.pure_apply, hb, UInt8.toNat_ofNat']
    congr 1
    omega
  | four =>
    have hn : n < 536870912 := h
    have hb : (UInt8.ofNat (0xC0 + n / 2 ^ 24)).toNat = 0xC0 + n / 2 ^ 24 := by
      rw [UInt8.toNat_ofNat']; omega
    have hw : CompressedWidth.ofLead? (UInt8.ofNat (0xC0 + n / 2 ^ 24)) = some .four := by
      simp only [CompressedWidth.ofLead?, UInt8.lt_iff_toNat_lt, hb]
      rw [if_neg (by simp; omega), if_neg (by simp), if_pos (by simp; omega)]
    simp only [compressedUInt, CompressedWidth.encode, List.cons_append, List.nil_append,
      Stateful.bind_apply, byte_cons, hw, Stateful.pure_apply, hb, UInt8.toNat_ofNat']
    congr 1
    omega

end Read

end ManagedCalls
