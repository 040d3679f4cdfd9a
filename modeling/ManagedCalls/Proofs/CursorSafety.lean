import ManagedCalls.Proofs.CursorPlaces
import Mathlib.Data.Nat.Bitwise

/-!
Beside the cursor stands one in words, as a machine has it: all the data, an index, and sums
that must fit. It does the same as the cursor, so no sum is too large and no index leads out
of the data, in whatever order the reads come.
-/

namespace ManagedCalls

open Stateful

/-- What stops a machine: the data are damaged or too short, or something has no room. -/
inductive WordFault where
  | noRoom
  | blob (e : BlobError)

/-- All the data, and the index of the first byte that is unread. -/
structure WordCursor where
  data : Bytes
  position : UInt64

abbrev WordRead := EStateM WordFault WordCursor

namespace WordRead

def fail {α : Type} (e : BlobError) : WordRead α := throw (.blob e)

/-- The sum of two words, if a word has room for it. -/
def checkedSum? (m n : UInt64) : Option UInt64 :=
  if m.toNat + n.toNat < 2 ^ 64 then some (m + n) else none

/-- The bytes between two indices, if they are in the data. -/
def slice? (data : Bytes) (first last : UInt64) : Option Bytes :=
  if first ≤ last ∧ last.toNat ≤ data.length then
    some ((data.drop first.toNat).take (last - first).toNat)
  else none

/-- The index behind the next byte. There must be room for it. -/
def next : WordRead UInt64 := do
  let w ← get
  match checkedSum? w.position 1 with
  | some last => pure last
  | none => throw .noRoom

def skip : WordRead Unit := do
  let last ← next
  let w ← get
  if UInt64.ofNat w.data.length < last then fail .outOfBounds else set { w with position := last }

def peek : WordRead UInt8 := do
  let w ← get
  match w.data[w.position.toNat]? with
  | some b => pure b
  | none => fail .outOfBounds

def byte : WordRead UInt8 := do
  let b ← peek
  let last ← next
  let w ← get
  set { w with position := last }
  pure b

/-- Any count may be asked for, so here a sum without room is no fault of the machine. -/
def bytes (count : UInt64) : WordRead Bytes := do
  let w ← get
  match checkedSum? w.position count with
  | none => fail .outOfBounds
  | some last =>
    match slice? w.data w.position last with
    | none => fail .outOfBounds
    | some bs =>
      set { w with position := last }
      pure bs

/-- Bytes that are copied to a place with room for just so many. -/
def copied (count : UInt64) : WordRead Bytes := do
  let bs ← bytes count
  if bs.length = count.toNat then pure bs else throw .noRoom

def uint16 : WordRead UInt16 := do
  let bs ← copied 2
  pure (UInt16.ofNat (littleEndian bs))

def uint32 : WordRead UInt32 := do
  let bs ← copied 4
  pure (UInt32.ofNat (littleEndian bs))

/-- The width is told from the top bits, and the others are shifted to their places. -/
def compressedUInt : WordRead UInt32 := do
  let lead ← byte
  if lead &&& 0x80 = 0 then pure lead.toUInt32
  else if lead &&& 0xC0 = 0x80 then
    let low ← byte
    pure ((lead.toUInt32 &&& 0x3F) <<< 8 ||| low.toUInt32)
  else if lead &&& 0xE0 = 0xC0 then
    let b₂ ← byte
    let b₁ ← byte
    let b₀ ← byte
    pure ((lead.toUInt32 &&& 0x1F) <<< 24 ||| b₂.toUInt32 <<< 16 ||| b₁.toUInt32 <<< 8 |||
      b₀.toUInt32)
  else fail (.malformed (.compressedUInt lead))

/-- The table of a token in its high byte, by the two low bits of a number. -/
def tableBase? (n : UInt32) : Option UInt32 :=
  if n &&& 3 = 0 then some 0x02000000
  else if n &&& 3 = 1 then some 0x01000000
  else if n &&& 3 = 2 then some 0x1B000000
  else none

def compressedToken : WordRead Token := do
  let n ← compressedUInt
  match tableBase? n with
  | none => fail (.malformed (.compressedToken n.toNat))
  | some base =>
    if base.toNat + (n >>> 2).toNat < 2 ^ 32 then pure ⟨base + (n >>> 2)⟩ else throw .noRoom

end WordRead

/-- The cursor in words with so many bytes of the data behind it. -/
def WordCursor.at (data : Bytes) (offset : Nat) : WordCursor := ⟨data, UInt64.ofNat offset⟩

/-- What a read has come to, with its place in a word. -/
def inWords {α : Type} (data : Bytes) :
    EStateM.Result BlobError Cursor α → EStateM.Result WordFault WordCursor α
  | .ok a c => .ok a (.at data c.position)
  | .error e c => .error (.blob e) (.at data c.position)

namespace FixedRead

def performInWords : FixedRead → WordRead CursorAnswer
  | skip => do
    WordRead.skip
    return .nothing
  | peek => return .number (← WordRead.peek).toNat
  | byte => return .number (← WordRead.byte).toNat
  | uint16 => return .number (← WordRead.uint16).toNat
  | uint32 => return .number (← WordRead.uint32).toNat
  | bytes count => return .bytes (← WordRead.bytes count)

end FixedRead

namespace CursorCall

def performInWords : CursorCall → WordRead CursorAnswer
  | fixed read => read.performInWords
  | compressedUInt => return .number (← WordRead.compressedUInt).toNat
  | compressedToken => return .token (← WordRead.compressedToken)

def performAllInWords (calls : List CursorCall) (w : WordCursor) : WordCursor :=
  calls.foldl (fun w call => after call.performInWords w) w

end CursorCall

/-- From every place in the data the read in words does what the read of the cursor does,
and gives a word for what the other gives. -/
def Tracks {α β : Type} (data : Bytes) (word : α → β → Prop) (x : WordRead α) (y : Read β) :
    Prop :=
  ∀ offset ≤ data.length,
    match y (.at data offset) with
    | .ok b c => ∃ a, word a b ∧ x (.at data offset) = .ok a (.at data c.position)
    | .error e c => x (.at data offset) = .error (.blob e) (.at data c.position)

namespace Tracks

variable {α β α' β' : Type} {data : Bytes} {word : α → β → Prop} {word' : α' → β' → Prop}
  {x : WordRead α} {y : Read β}

theorem pure {a : α} {b : β} (h : word a b) :
    Tracks data word (Pure.pure a) (Pure.pure b) := fun _ _ => ⟨a, h, rfl⟩

theorem fail (e : BlobError) : Tracks data word (WordRead.fail e) (throw e) := fun _ _ => rfl

theorem bind {limit : Nat} {f : α → WordRead α'} {g : β → Read β'} (h : Tracks data word x y)
    (hy : Read.Advances data limit y) (hf : ∀ a b, word a b → Tracks data word' (f a) (g b)) :
    Tracks data word' (x >>= f) (y >>= g) := by
  intro offset hoffset
  have hx := h offset hoffset
  obtain ⟨offset', -, -, hdata, hafter⟩ := hy offset hoffset
  cases hrun : y (.at data offset) with
  | error e c =>
    rw [hrun] at hx
    rw [bind_of_error hrun, bind_of_error hx]
  | ok b c =>
    rw [hrun] at hx
    rw [after_of_ok hrun] at hafter
    obtain ⟨a, hword, hx⟩ := hx
    rw [bind_of_ok hrun, bind_of_ok hx, hafter]
    exact hf a b hword offset' hdata

theorem map (h : Tracks data word x y) {f : α → α'} {g : β → β'}
    (hfg : ∀ a b, word a b → word' (f a) (g b)) :
    Tracks data word' (do return f (← x)) (do return g (← y)) := by
  intro offset hoffset
  have hx := h offset hoffset
  cases hrun : y (.at data offset) with
  | error e c =>
    rw [hrun] at hx
    rw [bind_of_error hrun, bind_of_error hx]
  | ok b c =>
    rw [hrun] at hx
    obtain ⟨a, hword, hx⟩ := hx
    rw [bind_of_ok hrun, bind_of_ok hx]
    exact ⟨f a, hfg a b hword, rfl⟩

theorem after_eq (h : Tracks data word x y) {offset : Nat} (hoffset : offset ≤ data.length) :
    after x (.at data offset) = .at data (after y (.at data offset)).position := by
  have hx := h offset hoffset
  cases hrun : y (.at data offset) with
  | error e c =>
    rw [hrun] at hx
    rw [after_of_error hx, after_of_error hrun]
  | ok b c =>
    rw [hrun] at hx
    obtain ⟨a, -, hx⟩ := hx
    rw [after_of_ok hx, after_of_ok hrun]

theorem inWords_eq {y : Read α} (h : Tracks data Eq x y) {offset : Nat}
    (hoffset : offset ≤ data.length) :
    x (.at data offset) = inWords data (y (.at data offset)) := by
  have hx := h offset hoffset
  cases hrun : y (.at data offset) with
  | error e c =>
    rw [hrun] at hx
    exact hx
  | ok b c =>
    rw [hrun] at hx
    obtain ⟨a, rfl, hx⟩ := hx
    exact hx

end Tracks

section

variable {data : Bytes} (hdata : data.length + 1 < 2 ^ 64)

include hdata

theorem toNat_ofNat_offset {offset : Nat} (h : offset ≤ data.length + 1) :
    (UInt64.ofNat offset).toNat = offset := by
  rw [UInt64.toNat_ofNat', Nat.mod_eq_of_lt (by omega)]

namespace WordRead

theorem next_at {offset : Nat} (h : offset ≤ data.length) :
    next (.at data offset) = .ok (UInt64.ofNat (offset + 1)) (.at data offset) := by
  have hword := toNat_ofNat_offset hdata (Nat.le_succ_of_le h)
  have hsum : UInt64.ofNat offset + 1 = UInt64.ofNat (offset + 1) := (UInt64.ofNat_add ..).symm
  have hroom : checkedSum? (UInt64.ofNat offset) 1 = some (UInt64.ofNat (offset + 1)) := by
    rw [checkedSum?, hword, if_pos (by show offset + 1 < _; omega), hsum]
  simp [next, WordCursor.at, hroom]

end WordRead

namespace Tracks

theorem skip : Tracks data Eq WordRead.skip Read.skip := by
  intro offset hoffset
  have hlength := toNat_ofNat_offset hdata (Nat.le_succ data.length)
  have hlast := toNat_ofNat_offset hdata (Nat.succ_le_succ hoffset)
  have hrun : WordRead.skip (.at data offset) =
      (if UInt64.ofNat data.length < UInt64.ofNat (offset + 1) then WordRead.fail .outOfBounds
        else set (WordCursor.at data (offset + 1))) (.at data offset) := by
    rw [WordRead.skip, bind_of_ok (WordRead.next_at hdata hoffset)]
    rfl
  rcases Nat.lt_or_ge offset data.length with hlt | hge
  · rw [Read.skip_within hlt]
    refine ⟨(), rfl, ?_⟩
    rw [hrun, if_neg (by rw [UInt64.lt_iff_toNat_lt, hlength, hlast]; omega)]
    rfl
  · rw [Read.skip_behind hge]
    show WordRead.skip _ = _
    rw [hrun, if_pos (by rw [UInt64.lt_iff_toNat_lt, hlength, hlast]; omega)]
    rfl

theorem peek : Tracks data Eq WordRead.peek Read.peek := by
  intro offset hoffset
  have hword := toNat_ofNat_offset hdata (Nat.le_succ_of_le hoffset)
  rcases Nat.lt_or_ge offset data.length with hlt | hge
  · rw [Read.peek_within hlt]
    exact ⟨_, rfl, by simp [WordRead.peek, WordCursor.at, hword, hlt, Cursor.at]⟩
  · rw [Read.peek_behind hge]
    simp [WordRead.peek, WordCursor.at, hword, hge, Cursor.at, WordRead.fail]

theorem byte : Tracks data Eq WordRead.byte Read.byte := by
  intro offset hoffset
  have hpeek := peek hdata offset hoffset
  rcases Nat.lt_or_ge offset data.length with hlt | hge
  · rw [Read.peek_within hlt] at hpeek
    obtain ⟨b, rfl, hpeek⟩ := hpeek
    rw [Read.byte_within hlt]
    refine ⟨_, rfl, ?_⟩
    rw [WordRead.byte, bind_of_ok hpeek]
    exact bind_of_ok (WordRead.next_at hdata hoffset)
  · rw [Read.peek_behind hge] at hpeek
    rw [Read.byte_behind hge, WordRead.byte, bind_of_error hpeek]

theorem bytes (count : UInt64) :
    Tracks data Eq (WordRead.bytes count) (Read.bytes count.toNat) := by
  intro offset hoffset
  have hword := toNat_ofNat_offset hdata (Nat.le_succ_of_le hoffset)
  by_cases hroom : offset + count.toNat < 2 ^ 64
  · have hlast : (UInt64.ofNat offset + count).toNat = offset + count.toNat := by
      rw [UInt64.toNat_add, hword, Nat.mod_eq_of_lt hroom]
    have hsum : WordRead.checkedSum? (UInt64.ofNat offset) count =
        some (UInt64.ofNat offset + count) := by
      rw [WordRead.checkedSum?, hword, if_pos hroom]
    have hle : UInt64.ofNat offset ≤ UInt64.ofNat offset + count := by
      rw [UInt64.le_iff_toNat_le, hlast, hword]
      omega
    rcases Nat.lt_or_ge data.length (offset + count.toNat) with hshort | hfits
    · have hslice : WordRead.slice? data (UInt64.ofNat offset) (UInt64.ofNat offset + count) =
          none := by
        rw [WordRead.slice?, if_neg (by rw [hlast]; omega)]
      rw [Read.bytes_at_of_short hoffset hshort]
      simp [WordRead.bytes, WordCursor.at, hsum, hslice, WordRead.fail, Cursor.at]
    · have hsize : (UInt64.ofNat offset + count - UInt64.ofNat offset).toNat = count.toNat := by
        rw [UInt64.toNat_sub_of_le _ _ hle, hlast, hword]
        omega
      have hslice : WordRead.slice? data (UInt64.ofNat offset) (UInt64.ofNat offset + count) =
          some (bytesAt data offset count.toNat) := by
        rw [WordRead.slice?, if_pos ⟨hle, by rwa [hlast]⟩, hword, hsize, bytesAt]
      rw [Read.bytes_at hfits]
      exact ⟨_, rfl, by simp [WordRead.bytes, WordCursor.at, hsum, hslice, Cursor.at]⟩
  · -- the sum has no room in a word, so it lies behind the data
    have hsum : WordRead.checkedSum? (UInt64.ofNat offset) count = none := by
      rw [WordRead.checkedSum?, hword, if_neg hroom]
    rw [Read.bytes_at_of_short hoffset (by omega)]
    simp [WordRead.bytes, WordCursor.at, hsum, WordRead.fail, Cursor.at]

theorem copied (count : UInt64) :
    Tracks data (fun a b => a = b ∧ a.length = count.toNat) (WordRead.copied count)
      (Read.bytes count.toNat) := by
  intro offset hoffset
  have hbytes := bytes hdata count offset hoffset
  rcases Nat.lt_or_ge data.length (offset + count.toNat) with hshort | hfits
  · rw [Read.bytes_at_of_short hoffset hshort] at hbytes ⊢
    exact bind_of_error hbytes
  · rw [Read.bytes_at hfits] at hbytes ⊢
    obtain ⟨bs, rfl, hbytes⟩ := hbytes
    have hlength := length_bytesAt hfits
    refine ⟨_, ⟨rfl, hlength⟩, ?_⟩
    rw [WordRead.copied, bind_of_ok hbytes, if_pos hlength, pure_apply]

theorem uint16 :
    Tracks data (fun word n => word.toNat = n) WordRead.uint16 Read.uint16 := by
  refine (copied hdata 2).map fun bs bs' h => ?_
  obtain ⟨rfl, hlength⟩ := h
  have hlt : littleEndian bs < 256 ^ 2 := (littleEndian_lt bs).trans_eq (congrArg _ hlength)
  rw [UInt16.toNat_ofNat', Nat.mod_eq_of_lt (by omega)]

theorem uint32 :
    Tracks data (fun word n => word.toNat = n) WordRead.uint32 Read.uint32 := by
  refine (copied hdata 4).map fun bs bs' h => ?_
  obtain ⟨rfl, hlength⟩ := h
  have hlt : littleEndian bs < 256 ^ 4 := (littleEndian_lt bs).trans_eq (congrArg _ hlength)
  rw [UInt32.toNat_ofNat', Nat.mod_eq_of_lt (by omega)]

end Tracks

end

/-- The masks of the top bits tell which of three ranges the first byte is in. -/
theorem lead_masks (lead : UInt8) :
    (lead &&& 0x80 = 0 ↔ lead < 0x80) ∧ (lead &&& 0xC0 = 0x80 ↔ ¬lead < 0x80 ∧ lead < 0xC0) ∧
      (lead &&& 0xE0 = 0xC0 ↔ ¬lead < 0xC0 ∧ lead < 0xE0) := by
  obtain ⟨bits⟩ := lead
  revert bits
  decide

theorem toNat_mask (w mask : UInt32) {k : Nat} (h : mask.toNat = 2 ^ k - 1) :
    (w &&& mask).toNat = w.toNat % 2 ^ k := by
  rw [UInt32.toNat_and, h, Nat.and_two_pow_sub_one_eq_mod]

theorem toNat_shift {w k : UInt32} (hk : k.toNat < 32) (h : w.toNat * 2 ^ k.toNat < 2 ^ 32) :
    (w <<< k).toNat = w.toNat * 2 ^ k.toNat := by
  rw [UInt32.toNat_shiftLeft, Nat.mod_eq_of_lt hk, Nat.shiftLeft_eq, Nat.mod_eq_of_lt h]

/-- Words are put together as numbers are added if their bits are apart. -/
theorem toNat_join {high low : UInt32} {m : Nat} (k : Nat) (hhigh : high.toNat = m * 2 ^ k)
    (hlow : low.toNat < 2 ^ k) : (high ||| low).toNat = high.toNat + low.toNat := by
  rw [UInt32.toNat_or, hhigh, Nat.mul_comm, ← Nat.two_pow_add_eq_or_of_lt hlow]

theorem toNat_two_bytes (lead low : UInt8) :
    ((lead.toUInt32 &&& 0x3F) <<< 8 ||| low.toUInt32).toNat =
      lead.toNat % 2 ^ 6 * 2 ^ 8 + low.toNat := by
  have hlow : low.toUInt32.toNat < 2 ^ 8 := low.toNat_lt
  have hmask : (lead.toUInt32 &&& 0x3F).toNat = lead.toNat % 2 ^ 6 := toNat_mask _ _ rfl
  have hhigh : ((lead.toUInt32 &&& 0x3F) <<< 8).toNat = lead.toNat % 2 ^ 6 * 2 ^ 8 := by
    rw [toNat_shift (by decide) (by rw [hmask]; show _ * 2 ^ 8 < _; omega), hmask]
    rfl
  rw [toNat_join 8 hhigh hlow, hhigh, UInt8.toNat_toUInt32]

theorem toNat_four_bytes (lead b₂ b₁ b₀ : UInt8) :
    ((lead.toUInt32 &&& 0x1F) <<< 24 ||| b₂.toUInt32 <<< 16 ||| b₁.toUInt32 <<< 8 |||
        b₀.toUInt32).toNat =
      lead.toNat % 2 ^ 5 * 2 ^ 24 + b₂.toNat * 2 ^ 16 + b₁.toNat * 2 ^ 8 + b₀.toNat := by
  have h₂ : b₂.toNat < 2 ^ 8 := b₂.toNat_lt
  have h₁ : b₁.toNat < 2 ^ 8 := b₁.toNat_lt
  have h₀ : b₀.toUInt32.toNat < 2 ^ 8 := b₀.toNat_lt
  have hmask : (lead.toUInt32 &&& 0x1F).toNat = lead.toNat % 2 ^ 5 := toNat_mask _ _ rfl
  have hlead : ((lead.toUInt32 &&& 0x1F) <<< 24).toNat = lead.toNat % 2 ^ 5 * 2 ^ 24 := by
    rw [toNat_shift (by decide) (by rw [hmask]; show _ * 2 ^ 24 < _; omega), hmask]
    rfl
  have hb₂ : (b₂.toUInt32 <<< 16).toNat = b₂.toNat * 2 ^ 16 :=
    toNat_shift (by decide) (by show b₂.toNat * 2 ^ 16 < _; omega)
  have hb₁ : (b₁.toUInt32 <<< 8).toNat = b₁.toNat * 2 ^ 8 :=
    toNat_shift (by decide) (by show b₁.toNat * 2 ^ 8 < _; omega)
  have hthree : ((lead.toUInt32 &&& 0x1F) <<< 24 ||| b₂.toUInt32 <<< 16).toNat =
      (lead.toNat % 2 ^ 5 * 2 ^ 8 + b₂.toNat) * 2 ^ 16 := by
    rw [toNat_join 24 hlead (by omega), hlead, hb₂]
    omega
  have htwo : ((lead.toUInt32 &&& 0x1F) <<< 24 ||| b₂.toUInt32 <<< 16 |||
        b₁.toUInt32 <<< 8).toNat =
      ((lead.toNat % 2 ^ 5 * 2 ^ 8 + b₂.toNat) * 2 ^ 8 + b₁.toNat) * 2 ^ 8 := by
    rw [toNat_join 16 hthree (by omega), hthree, hb₁]
    omega
  rw [toNat_join 8 htwo h₀, htwo, UInt8.toNat_toUInt32]
  omega

theorem WordRead.tableBase?_eq (n : UInt32) :
    WordRead.tableBase? n = (TypeTable.ofCode? (n.toNat % 4)).map
      fun table => UInt32.ofNat (table.tag * 2 ^ 24) := by
  have hmask (code : UInt32) : n &&& 3 = code ↔ n.toNat % 4 = code.toNat := by
    rw [← UInt32.toNat_inj, toNat_mask n 3 (k := 2) rfl]
  have hcode : n.toNat % 4 < 4 := Nat.mod_lt _ (by decide)
  simp only [WordRead.tableBase?, hmask]
  generalize n.toNat % 4 = code at hcode
  revert code
  decide

section

variable {data : Bytes} (hdata : data.length + 1 < 2 ^ 64)

include hdata

namespace Tracks

theorem compressedUInt :
    Tracks data (fun word n => word.toNat = n) WordRead.compressedUInt Read.compressedUInt := by
  refine (byte hdata).bind .byte fun lead lead' h => ?_
  subst h
  obtain ⟨hmask, hmask', hmask''⟩ := lead_masks lead
  simp only [hmask, hmask', hmask'', CompressedWidth.ofLead?]
  by_cases hone : lead < 0x80
  · rw [if_pos hone, if_pos hone]
    exact pure (UInt8.toNat_toUInt32 lead)
  rw [if_neg hone, if_neg hone]
  by_cases htwo : lead < 0xC0
  · rw [if_pos ⟨hone, htwo⟩, if_pos htwo]
    refine (byte hdata).map fun low low' h => ?_
    subst h
    exact toNat_two_bytes lead low
  rw [if_neg (fun h => htwo h.2), if_neg htwo]
  by_cases hfour : lead < 0xE0
  · rw [if_pos ⟨htwo, hfour⟩, if_pos hfour]
    refine (byte hdata).bind .byte fun b₂ b₂' h₂ => ?_
    refine (byte hdata).bind .byte fun b₁ b₁' h₁ => ?_
    refine (byte hdata).map fun b₀ b₀' h₀ => ?_
    subst h₂ h₁ h₀
    exact toNat_four_bytes lead b₂ b₁ b₀
  · rw [if_neg (fun h => hfour h.2), if_neg hfour]
    exact fail _

theorem compressedToken :
    Tracks data Eq WordRead.compressedToken Read.compressedToken := by
  refine (compressedUInt hdata).bind .compressedUInt fun word n h => ?_
  subst h
  rw [WordRead.tableBase?_eq]
  cases TypeTable.ofCode? (word.toNat % 4) with
  | none => exact fail _
  | some table =>
    have htag : table.tag ≤ 0x1B := by cases table <;> decide
    have hbase : (UInt32.ofNat (table.tag * 2 ^ 24)).toNat = table.tag * 2 ^ 24 := by
      rw [UInt32.toNat_ofNat', Nat.mod_eq_of_lt (by omega)]
    have hrow : (word >>> 2).toNat = word.toNat / 4 := by
      rw [UInt32.toNat_shiftRight, Nat.shiftRight_eq_div_pow]
      rfl
    have hword := word.toNat_lt
    have hsum : UInt32.ofNat (table.tag * 2 ^ 24) + (word >>> 2) =
        UInt32.ofNat (table.tag * 2 ^ 24 + word.toNat / 4) := by
      rw [← UInt32.toNat_inj, UInt32.toNat_add, hbase, hrow, UInt32.toNat_ofNat']
    simp only [Option.map_some, hbase, hrow, hsum]
    -- even the largest tag and the largest row together have room
    rw [if_pos (by omega)]
    exact pure rfl

theorem fixed (read : FixedRead) :
    Tracks data Eq read.performInWords read.perform := by
  cases read with
  | skip => exact (skip hdata).map fun _ _ _ => rfl
  | peek => exact (peek hdata).map fun _ _ h => congrArg _ (congrArg _ h)
  | byte => exact (byte hdata).map fun _ _ h => congrArg _ (congrArg _ h)
  | uint16 => exact (uint16 hdata).map fun _ _ h => congrArg _ h
  | uint32 => exact (uint32 hdata).map fun _ _ h => congrArg _ h
  | bytes count => exact (bytes hdata count).map fun _ _ h => congrArg _ h

theorem call (call : CursorCall) :
    Tracks data Eq call.performInWords call.perform := by
  cases call with
  | fixed read => exact fixed hdata read
  | compressedUInt => exact (compressedUInt hdata).map fun _ _ h => congrArg _ h
  | compressedToken => exact (compressedToken hdata).map fun _ _ h => congrArg _ h

end Tracks

end

namespace CursorCall

variable {data : Bytes} {offset : Nat}

theorem performAllInWords_at (hdata : data.length + 1 < 2 ^ 64) (calls : List CursorCall)
    (hoffset : offset ≤ data.length) :
    performAllInWords calls (.at data offset) =
      .at data (performAll calls (.at data offset)).position := by
  induction calls generalizing offset with
  | nil => rfl
  | cons call calls ih =>
    obtain ⟨offset', -, -, hoffset', hafter⟩ := call.advances offset hoffset
    have hword := (Tracks.call hdata call).after_eq hoffset
    rw [hafter] at hword
    rw [performAllInWords, performAll, List.foldl_cons, List.foldl_cons, hword, hafter]
    exact ih hoffset'

/-- However a cursor has been read from, it stands in the data, and the next call leads no way
back and to no place behind them. A read of a fixed number of bytes gives the bytes that come
next, or fails if there are too few and reads nothing; a call that fails has read at most four
bytes. All this is the same in words: no index is out of the data and no sum without room. -/
theorem reads_keep_to_data (data : Bytes) (calls : List CursorCall) :
    let c := performAll calls (.ofBytes data)
    (c = .at data c.position ∧ c.position ≤ data.length) ∧
      (∀ call : CursorCall, c.position ≤ (after call.perform c).position ∧
        (after call.perform c).position ≤ data.length ∧
        ∀ e c', call.perform c = .error e c' → c'.position ≤ c.position + 4) ∧
      (∀ read : FixedRead,
        (c.position + read.size ≤ data.length →
          (fixed read).perform c = .ok (read.answer (bytesAt data c.position read.size))
            (.at data (c.position + read.stride))) ∧
        (data.length < c.position + read.size →
          (fixed read).perform c = .error .outOfBounds c)) ∧
      (data.length + 1 < 2 ^ 64 →
        let w := performAllInWords calls (.at data 0)
        w = .at data c.position ∧ ∀ call : CursorCall,
          call.performInWords w = inWords data (call.perform c) ∧
          ∀ w', call.performInWords w ≠ .error .noRoom w') := by
  intro c
  obtain ⟨offset, hoffset, hc⟩ := performAll_at calls (Nat.zero_le data.length)
  rw [← Cursor.ofBytes_eq_at] at hc
  have hplace : c = .at data offset := hc
  rw [hplace]
  refine ⟨⟨rfl, hoffset⟩, fun call => ?_, fun read => ⟨read.perform_at,
    read.perform_at_of_short hoffset⟩, fun hdata => ?_⟩
  · obtain ⟨offset', hle, -, hoffset', hafter⟩ := call.advances offset hoffset
    rw [hafter]
    exact ⟨hle, hoffset', fun e c' => call.le_of_error hoffset⟩
  · have hw := performAllInWords_at hdata calls (Nat.zero_le data.length)
    rw [← Cursor.ofBytes_eq_at, hc] at hw
    rw [hw]
    refine ⟨rfl, fun call => ?_⟩
    have hrun := (Tracks.call hdata call).inWords_eq hoffset
    refine ⟨hrun, fun w' h => ?_⟩
    rw [Cursor.at, hrun] at h
    cases hperform : call.perform (.at data offset) <;> rw [hperform] at h <;> cases h

/-- Two bytes of a number, then a count no data have, then a number that is cut off: the
cursor comes to the end, and so does the one in words. -/
theorem reads_keep_to_cut_off_data :
    let data : Bytes := [0x81, 0x2A, 0xC0, 0x01]
    let calls := [compressedUInt, fixed (.bytes 0xFFFFFFFFFFFFFFFF), compressedUInt]
    let c := performAll calls (.ofBytes data)
    c.position = 4 ∧ data.length + 1 < 2 ^ 64 ∧
      performAllInWords calls (.at data 0) = .at data 4 ∧
      (fixed .peek).perform c = .error .outOfBounds c := by
  have hend := reads_keep_to_data [0x81, 0x2A, 0xC0, 0x01]
    [compressedUInt, fixed (.bytes 0xFFFFFFFFFFFFFFFF), compressedUInt]
  exact ⟨rfl, by decide, (hend.2.2.2 (by decide)).1, (hend.2.2.1 .peek).2 (by decide)⟩

end CursorCall

end ManagedCalls
