import ManagedCalls.Token

/-!
Reads on one cursor, one after the other, whether they succeed or not. A read that asks for
a fixed number of bytes gives those at its place in the data, or fails where it is if there
are not so many. A compressed read may fail half-way, and then the bytes it has read stay
read. So the cursor never goes back, and never leaves the data.
-/

namespace ManagedCalls

open Stateful

def bytesAt (data : Bytes) (offset size : Nat) : Bytes := (data.drop offset).take size

/-- The number in `size` bytes from `offset` on, the lowest byte first. -/
def numberAt (data : Bytes) (offset size : Nat) : Nat := littleEndian (bytesAt data offset size)

theorem length_bytesAt {data : Bytes} {offset size : Nat} (h : offset + size ≤ data.length) :
    (bytesAt data offset size).length = size := by
  rw [bytesAt, List.length_take, List.length_drop]
  omega

theorem take_add_eq (data : Bytes) (offset size : Nat) :
    data.take (offset + size) = data.take offset ++ bytesAt data offset size :=
  List.take_add

theorem bytesAt_one {data : Bytes} {offset : Nat} (h : offset < data.length) :
    bytesAt data offset 1 = [data[offset]] := by
  rw [bytesAt, List.drop_eq_getElem_cons h]
  rfl

/-- The cursor with so many bytes of the data behind it. -/
def Cursor.at (data : Bytes) (offset : Nat) : Cursor := ⟨offset, data.drop offset⟩

theorem Cursor.ofBytes_eq_at (data : Bytes) : ofBytes data = .at data 0 := by
  rw [Cursor.at, List.drop_zero, ofBytes]

namespace Read

variable {α β : Type} {data : Bytes} {offset n : Nat}

theorem bytes_at (h : offset + n ≤ data.length) :
    bytes n (.at data offset) = .ok (bytesAt data offset n) (.at data (offset + n)) := by
  have hfits : n ≤ (data.drop offset).length := by
    rw [List.length_drop]
    omega
  simp only [bytes, Cursor.at, if_pos hfits, List.drop_drop, bytesAt]

theorem bytes_at_of_short (hoffset : offset ≤ data.length) (h : data.length < offset + n) :
    bytes n (.at data offset) = .error .outOfBounds (.at data offset) := by
  apply bytes_of_short
  rw [Cursor.at, List.length_drop]
  omega

theorem uint16_at (h : offset + 2 ≤ data.length) :
    uint16 (.at data offset) = .ok (numberAt data offset 2) (.at data (offset + 2)) := by
  rw [uint16, bind_of_ok (bytes_at h), pure_apply, numberAt]

theorem uint16_at_of_short (hoffset : offset ≤ data.length) (h : data.length < offset + 2) :
    uint16 (.at data offset) = .error .outOfBounds (.at data offset) := by
  rw [uint16, bind_of_error (bytes_at_of_short hoffset h)]

theorem uint32_at (h : offset + 4 ≤ data.length) :
    uint32 (.at data offset) = .ok (numberAt data offset 4) (.at data (offset + 4)) := by
  rw [uint32, bind_of_ok (bytes_at h), pure_apply, numberAt]

theorem uint32_at_of_short (hoffset : offset ≤ data.length) (h : data.length < offset + 4) :
    uint32 (.at data offset) = .error .outOfBounds (.at data offset) := by
  rw [uint32, bind_of_error (bytes_at_of_short hoffset h)]

theorem peek_within (h : offset < data.length) :
    peek (.at data offset) = .ok data[offset] (.at data offset) := by
  rw [Cursor.at, List.drop_eq_getElem_cons h]
  rfl

theorem byte_within (h : offset < data.length) :
    byte (.at data offset) = .ok data[offset] (.at data (offset + 1)) := by
  rw [Cursor.at, List.drop_eq_getElem_cons h]
  rfl

theorem skip_within (h : offset < data.length) :
    skip (.at data offset) = .ok () (.at data (offset + 1)) := by
  rw [skip, bind_of_ok (byte_within h), pure_apply]

theorem peek_behind (h : data.length ≤ offset) :
    peek (.at data offset) = .error .outOfBounds (.at data offset) := by
  rw [Cursor.at, List.drop_eq_nil_of_le h]
  rfl

theorem byte_behind (h : data.length ≤ offset) :
    byte (.at data offset) = .error .outOfBounds (.at data offset) := by
  rw [Cursor.at, List.drop_eq_nil_of_le h]
  rfl

theorem skip_behind (h : data.length ≤ offset) :
    skip (.at data offset) = .error .outOfBounds (.at data offset) := by
  rw [skip, bind_of_error (byte_behind h)]

/-- From any place in the data the read comes to one that is at most `limit` bytes further
on, and no byte behind the data, whether it succeeds or not. -/
def Advances (data : Bytes) (limit : Nat) (x : Read α) : Prop :=
  ∀ offset ≤ data.length, ∃ offset', offset ≤ offset' ∧ offset' ≤ offset + limit ∧
    offset' ≤ data.length ∧ after x (.at data offset) = .at data offset'

namespace Advances

variable {limit limit' : Nat} {x : Read α} {f : α → Read β}

theorem pure (a : α) : Advances data 0 (Pure.pure a) :=
  fun offset h => ⟨offset, Nat.le_refl _, Nat.le_refl _, h, rfl⟩

theorem throw (e : BlobError) : Advances data 0 (throw e : Read α) :=
  fun offset h => ⟨offset, Nat.le_refl _, Nat.le_refl _, h, rfl⟩

theorem mono (hx : Advances data limit x) (h : limit ≤ limit') : Advances data limit' x := by
  intro offset hoffset
  obtain ⟨offset', hle, hlimit, hdata, hafter⟩ := hx offset hoffset
  exact ⟨offset', hle, by omega, hdata, hafter⟩

theorem bind (hx : Advances data limit x) (hf : ∀ a, Advances data limit' (f a)) :
    Advances data (limit + limit') (x >>= f) := by
  intro offset hoffset
  obtain ⟨offset₁, hle, hlimit, hdata, hafter⟩ := hx offset hoffset
  cases hrun : x (.at data offset) with
  | error e c =>
    rw [after_of_error hrun] at hafter
    exact ⟨offset₁, hle, by omega, hdata, by rw [after_bind_of_error hrun, hafter]⟩
  | ok a c =>
    rw [after_of_ok hrun] at hafter
    subst hafter
    obtain ⟨offset₂, hle', hlimit', hdata', hafter'⟩ := hf a offset₁ hdata
    exact ⟨offset₂, by omega, by omega, hdata', by rw [after_bind_of_ok hrun, hafter']⟩

theorem byte : Advances data 1 Read.byte := by
  intro offset hoffset
  rcases Nat.lt_or_ge offset data.length with hlt | hge
  · exact ⟨offset + 1, by omega, Nat.le_refl _, hlt, after_of_ok (byte_within hlt)⟩
  · exact ⟨offset, Nat.le_refl _, by omega, hoffset, after_of_error (byte_behind hge)⟩

theorem compressedUInt : Advances data 4 Read.compressedUInt := by
  show Advances data (1 + 3) _
  refine byte.bind fun lead => ?_
  cases CompressedWidth.ofLead? lead with
  | none => exact (throw _).mono (Nat.zero_le _)
  | some width =>
    cases width with
    | one => exact (pure _).mono (Nat.zero_le _)
    | two => exact (byte.bind fun _ => pure _).mono (by omega)
    | four => exact byte.bind fun _ => byte.bind fun _ => byte.bind fun _ => pure _

theorem compressedToken : Advances data 4 Read.compressedToken := by
  show Advances data (4 + 0) _
  refine compressedUInt.bind fun n => ?_
  cases TypeTable.ofCode? (n % 4) with
  | none => exact throw _
  | some table => exact pure _

end Advances

end Read

/-- Reads that ask for a fixed number of bytes. -/
inductive FixedRead where
  | skip
  | peek
  | byte
  | uint16
  | uint32
  | bytes (count : UInt64)

/-- What can be asked of a cursor. -/
inductive CursorCall where
  | fixed (read : FixedRead)
  | compressedUInt
  | compressedToken

inductive CursorAnswer where
  | nothing
  | number (n : Nat)
  | bytes (bs : Bytes)
  | token (t : Token)
  deriving DecidableEq

namespace FixedRead

def size : FixedRead → Nat
  | skip | peek | byte => 1
  | uint16 => 2
  | uint32 => 4
  | bytes count => count.toNat

/-- How far the read moves if it succeeds. -/
def stride : FixedRead → Nat
  | peek => 0
  | read => read.size

/-- What the bytes that were asked for are given as. -/
def answer (bs : Bytes) : FixedRead → CursorAnswer
  | skip => .nothing
  | peek | byte | uint16 | uint32 => .number (littleEndian bs)
  | bytes _ => .bytes bs

def perform : FixedRead → Read CursorAnswer
  | skip => do
    Read.skip
    return .nothing
  | peek => return .number (← Read.peek).toNat
  | byte => return .number (← Read.byte).toNat
  | uint16 => return .number (← Read.uint16)
  | uint32 => return .number (← Read.uint32)
  | bytes count => return .bytes (← Read.bytes count.toNat)

variable {data : Bytes} {offset : Nat}

theorem perform_at (read : FixedRead) (h : offset + read.size ≤ data.length) :
    read.perform (.at data offset) =
      .ok (read.answer (bytesAt data offset read.size)) (.at data (offset + read.stride)) := by
  cases read with
  | skip => exact bind_of_ok (Read.skip_within h)
  | peek =>
    rw [size, bytesAt_one h]
    exact bind_of_ok (Read.peek_within h)
  | byte =>
    rw [size, bytesAt_one h]
    exact bind_of_ok (Read.byte_within h)
  | uint16 => exact bind_of_ok (Read.uint16_at h)
  | uint32 => exact bind_of_ok (Read.uint32_at h)
  | bytes count => exact bind_of_ok (Read.bytes_at h)

theorem perform_at_of_short (read : FixedRead) (hoffset : offset ≤ data.length)
    (h : data.length < offset + read.size) :
    read.perform (.at data offset) = .error .outOfBounds (.at data offset) := by
  cases read with
  | skip => exact bind_of_error (Read.skip_behind (Nat.le_of_lt_succ h))
  | peek => exact bind_of_error (Read.peek_behind (Nat.le_of_lt_succ h))
  | byte => exact bind_of_error (Read.byte_behind (Nat.le_of_lt_succ h))
  | uint16 => exact bind_of_error (Read.uint16_at_of_short hoffset h)
  | uint32 => exact bind_of_error (Read.uint32_at_of_short hoffset h)
  | bytes count => exact bind_of_error (Read.bytes_at_of_short hoffset h)

theorem stride_le (read : FixedRead) : read.stride ≤ read.size := by
  cases read with
  | peek => exact Nat.zero_le _
  | _ => exact Nat.le_refl _

theorem advances (read : FixedRead) : Read.Advances data read.size read.perform := by
  intro offset hoffset
  rcases Nat.lt_or_ge data.length (offset + read.size) with hshort | hfits
  · exact ⟨offset, Nat.le_refl _, Nat.le_add_right .., hoffset,
      after_of_error (read.perform_at_of_short hoffset hshort)⟩
  · have hstride := read.stride_le
    exact ⟨offset + read.stride, by omega, by omega, by omega, after_of_ok (read.perform_at hfits)⟩

end FixedRead

namespace CursorCall

def perform : CursorCall → Read CursorAnswer
  | fixed read => read.perform
  | compressedUInt => return .number (← Read.compressedUInt)
  | compressedToken => return .token (← Read.compressedToken)

/-- The cursor after some calls. A call that fails stops none of the others. -/
def performAll (calls : List CursorCall) (c : Cursor) : Cursor :=
  calls.foldl (fun c call => after call.perform c) c

variable {data : Bytes} {offset : Nat}

/-- How far a call can get. -/
def limit : CursorCall → Nat
  | fixed read => read.size
  | compressedUInt | compressedToken => 4

theorem advances (call : CursorCall) : Read.Advances data call.limit call.perform := by
  cases call with
  | fixed read => exact read.advances
  | compressedUInt => exact Read.Advances.compressedUInt.bind fun _ => .pure _
  | compressedToken => exact Read.Advances.compressedToken.bind fun _ => .pure _

/-- A call that fails has read four bytes at the most. -/
theorem le_of_error (call : CursorCall) (hoffset : offset ≤ data.length) {e : BlobError}
    {c : Cursor} (h : call.perform (.at data offset) = .error e c) : c.position ≤ offset + 4 := by
  obtain ⟨offset', -, hle, -, hafter⟩ := call.advances offset hoffset
  obtain rfl : c = .at data offset' := (after_of_error h).symm.trans hafter
  cases call with
  | fixed read =>
    -- there may have been many bytes to read, but none has been
    rcases Nat.lt_or_ge data.length (offset + read.size) with hshort | hfits
    · have hstill := (read.perform_at_of_short hoffset hshort).symm.trans h
      injection hstill with _ hstill
      rw [← hstill]
      exact Nat.le_add_right ..
    · cases (read.perform_at hfits).symm.trans h
  | compressedUInt => exact hle
  | compressedToken => exact hle

theorem performAll_at (calls : List CursorCall) (hoffset : offset ≤ data.length) :
    ∃ offset' ≤ data.length, performAll calls (.at data offset) = .at data offset' := by
  induction calls generalizing offset with
  | nil => exact ⟨offset, hoffset, rfl⟩
  | cons call calls ih =>
    obtain ⟨offset', -, -, hdata, hafter⟩ := call.advances offset hoffset
    rw [performAll, List.foldl_cons, hafter]
    exact ih hdata

end CursorCall

end ManagedCalls
