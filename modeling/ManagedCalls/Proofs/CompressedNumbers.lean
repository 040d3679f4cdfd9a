import ManagedCalls.Proofs.ReadingBack
import ManagedCalls.Proofs.SignatureForms

/-!
What becomes of any bytes that are read as a compressed number. The top bits of the first
byte announce a width. If so many bytes are there, they are a number that was written in this
width; otherwise they are cut off. A first byte that announces nothing is refused whatever
follows it. Tokens are numbers as well, so they are read back in every width.
-/

namespace ManagedCalls

open Stateful

namespace CompressedWidth

/-- The first byte begins with the bits 0, 10 or 110. -/
def AnnouncedBy (lead : UInt8) : CompressedWidth → Prop
  | one => lead.toNat / 2 ^ 7 = 0b0
  | two => lead.toNat / 2 ^ 6 = 0b10
  | four => lead.toNat / 2 ^ 5 = 0b110

instance (lead : UInt8) (width : CompressedWidth) : Decidable (width.AnnouncedBy lead) :=
  match width with
  | one => inferInstanceAs (Decidable (_ = _))
  | two => inferInstanceAs (Decidable (_ = _))
  | four => inferInstanceAs (Decidable (_ = _))

theorem ofLead?_eq_some_iff {lead : UInt8} {width : CompressedWidth} :
    ofLead? lead = some width ↔ width.AnnouncedBy lead := by
  obtain ⟨bits⟩ := lead
  revert bits
  cases width with
  | one | two | four => decide

theorem ofLead?_eq_none_iff {lead : UInt8} : ofLead? lead = none ↔ 0xE0 ≤ lead := by
  obtain ⟨bits⟩ := lead
  revert bits
  decide

theorem encode_eq_cons {n : Nat} {width : CompressedWidth} (h : n < width.bound) :
    ∃ lead bs, width.encode n = lead :: bs ∧ width.AnnouncedBy lead := by
  cases width with
  | one | two | four =>
    simp only [bound] at h
    refine ⟨_, _, rfl, ?_⟩
    rw [AnnouncedBy, UInt8.toNat_ofNat']
    omega

/-- The bytes end before the number they begin with. -/
inductive CutOff : Bytes → Prop
  | nil : CutOff []
  | cons {lead : UInt8} {bs : Bytes} {width : CompressedWidth} (hwidth : width.AnnouncedBy lead)
      (hshort : bs.length + 1 < width.size) : CutOff (lead :: bs)

end CompressedWidth

/-- What reading a compressed number comes to. -/
inductive CompressedReading : Cursor → EStateM.Result BlobError Cursor Nat → Prop
  | number {n : Nat} {width : CompressedWidth} (h : n < width.bound) (position : Nat)
      (rest : Bytes) :
      CompressedReading ⟨position, width.encode n ++ rest⟩ (.ok n ⟨position + width.size, rest⟩)
  | malformed {lead : UInt8} (h : 0xE0 ≤ lead) (position : Nat) (rest : Bytes) :
      CompressedReading ⟨position, lead :: rest⟩
        (.error (.malformed (.compressedUInt lead)) ⟨position + 1, rest⟩)
  | cutOff {bs : Bytes} (h : CompressedWidth.CutOff bs) (position : Nat) :
      CompressedReading ⟨position, bs⟩ (.error .outOfBounds ⟨position + bs.length, []⟩)

namespace Read

open CompressedWidth

theorem compressedUInt_of_unannounced {lead : UInt8} (h : 0xE0 ≤ lead) (position : Nat)
    (rest : Bytes) :
    compressedUInt ⟨position, lead :: rest⟩ =
      .error (.malformed (.compressedUInt lead)) ⟨position + 1, rest⟩ := by
  rw [compressedUInt, bind_of_ok (byte_cons ..), CompressedWidth.ofLead?_eq_none_iff.mpr h]
  rfl

theorem compressedUInt_of_cutOff {bs : Bytes} (h : CompressedWidth.CutOff bs) (position : Nat) :
    compressedUInt ⟨position, bs⟩ = .error .outOfBounds ⟨position + bs.length, []⟩ := by
  cases h with
  | nil => rfl
  | @cons lead bs width hwidth hshort =>
    rw [compressedUInt, bind_of_ok (byte_cons ..), CompressedWidth.ofLead?_eq_some_iff.mpr hwidth]
    cases width with
    | one => exact absurd hshort (Nat.not_lt.mpr (Nat.le_add_left ..))
    | two =>
      obtain rfl : bs = [] := List.length_eq_zero_iff.mp (by simp only [size] at hshort; omega)
      rfl
    | four =>
      rcases bs with _ | ⟨b₂, _ | ⟨b₁, _ | ⟨b₀, bs⟩⟩⟩
      · rfl
      · rfl
      · rfl
      · simp only [size, List.length_cons] at hshort
        omega

theorem compressedUInt_of_room {lead : UInt8} {bs : Bytes} {width : CompressedWidth}
    (hwidth : width.AnnouncedBy lead) (hroom : width.size ≤ bs.length + 1) (position : Nat) :
    ∃ n c, compressedUInt ⟨position, lead :: bs⟩ = .ok n c := by
  rw [compressedUInt, bind_of_ok (byte_cons ..), CompressedWidth.ofLead?_eq_some_iff.mpr hwidth]
  cases width with
  | one => exact ⟨_, _, rfl⟩
  | two =>
    simp only [size] at hroom
    obtain ⟨b, bs, rfl⟩ := List.exists_cons_of_length_pos (l := bs) (by omega)
    exact ⟨_, _, rfl⟩
  | four =>
    rcases bs with _ | ⟨b₂, _ | ⟨b₁, _ | ⟨b₀, bs⟩⟩⟩
    · simp [size] at hroom
    · simp [size] at hroom
    · simp [size] at hroom
    · exact ⟨_, _, rfl⟩

theorem reading_of_ok {c c' : Cursor} {n : Nat} (h : compressedUInt c = .ok n c') :
    CompressedReading c (.ok n c') := by
  obtain ⟨bs, hrest, width, hn, rfl⟩ := compressedUInt_eq_ok h
  obtain ⟨position, rest⟩ := c
  obtain rfl : rest = width.encode n ++ c'.rest := hrest
  have hread := compressedUInt_encode hn position c'.rest
  rw [← h, hread]
  exact .number hn position c'.rest

theorem compressedUInt_reading (c : Cursor) : CompressedReading c (compressedUInt c) := by
  obtain ⟨position, bs⟩ := c
  cases bs with
  | nil => exact .cutOff .nil position
  | cons lead bs =>
    cases hlead : CompressedWidth.ofLead? lead with
    | none =>
      have hle := CompressedWidth.ofLead?_eq_none_iff.mp hlead
      rw [compressedUInt_of_unannounced hle]
      exact .malformed hle position bs
    | some width =>
      have hwidth := CompressedWidth.ofLead?_eq_some_iff.mp hlead
      rcases Nat.lt_or_ge (bs.length + 1) width.size with hshort | hroom
      · have hcut := CompressedWidth.CutOff.cons hwidth hshort
        rw [compressedUInt_of_cutOff hcut]
        exact .cutOff hcut position
      · obtain ⟨n, c', hok⟩ := compressedUInt_of_room hwidth hroom position
        rw [hok]
        exact reading_of_ok hok

end Read

namespace Token

theorem table_ofParts_tag (table : TypeTable) (row : Nat) :
    (ofParts table.tag row).table = table.tag := by
  refine table_ofParts ?_ row
  cases table with
  | typeDef | typeRef | typeSpec => decide

theorem typeTable?_ofParts_tag (table : TypeTable) (row : Nat) :
    (ofParts table.tag row).typeTable? = some table := by
  rw [typeTable?, table_ofParts_tag]
  cases table with
  | typeDef | typeRef | typeSpec => rfl

end Token

/-- A number is read from its bytes in every width that can hold it, and from no others: what
is read was written in the width that the first byte announces. A first byte that announces
none is malformed, and bytes that are too few are out of bounds. So it is with the tokens of
the three type tables. -/
theorem compressed_numbers_are_exact :
    (∀ (n : Nat) (width : CompressedWidth), n < width.bound → ∀ position rest,
      Read.compressedUInt ⟨position, width.encode n ++ rest⟩ =
        .ok n ⟨position + width.size, rest⟩) ∧
      (∀ c n c', Read.compressedUInt c = .ok n c' → n < 2 ^ 29 ∧
        ∃ lead width, c.rest.head? = some lead ∧ CompressedWidth.AnnouncedBy lead width ∧
          n < width.bound ∧ c.rest = width.encode n ++ c'.rest ∧
          c'.position = c.position + width.size) ∧
      (∀ c why, (∃ c', Read.compressedUInt c = .error (.malformed why) c') ↔
        ∃ lead, c.rest.head? = some lead ∧ 0xE0 ≤ lead ∧ why = .compressedUInt lead) ∧
      (∀ c, (∃ c', Read.compressedUInt c = .error .outOfBounds c') ↔
        CompressedWidth.CutOff c.rest) ∧
      ∀ (table : TypeTable) (row : Nat), row < 2 ^ 24 →
        let t := Token.ofParts table.tag row
        (t.table = table.tag ∧ t.row = row ∧ t.compressed = row * 4 + table.code) ∧
          ∀ width : CompressedWidth, t.compressed < width.bound → ∀ position rest,
            Read.compressedToken ⟨position, width.encode t.compressed ++ rest⟩ =
              .ok t ⟨position + width.size, rest⟩ := by
  refine ⟨fun n width => Read.compressedUInt_encode, fun c n c' h => ?_, fun c why => ?_,
    fun c => ?_, fun table row hrow => ?_⟩
  · have hlt : n < 2 ^ 29 := by
      obtain ⟨bs, -, hn⟩ := Read.compressedUInt_eq_ok h
      exact hn.lt
    have hreading := Read.reading_of_ok h
    cases hreading with
    | @number _ width hn position rest =>
      obtain ⟨lead, bs, hbytes, hwidth⟩ := CompressedWidth.encode_eq_cons hn
      exact ⟨hlt, lead, width, by rw [hbytes]; rfl, hwidth, hn, rfl, rfl⟩
  · constructor
    · rintro ⟨c', h⟩
      have hreading := Read.compressedUInt_reading c
      rw [h] at hreading
      cases hreading with
      | malformed hlead position rest => exact ⟨_, rfl, hlead, rfl⟩
    · rintro ⟨lead, hhead, hlead, rfl⟩
      obtain ⟨position, bs⟩ := c
      obtain ⟨rest, rfl⟩ := List.head?_eq_some_iff.mp hhead
      exact ⟨_, Read.compressedUInt_of_unannounced hlead position rest⟩
  · constructor
    · rintro ⟨c', h⟩
      have hreading := Read.compressedUInt_reading c
      rw [h] at hreading
      cases hreading with
      | cutOff hcut position => exact hcut
    · intro hcut
      exact ⟨_, Read.compressedUInt_of_cutOff hcut c.position⟩
  · have htable := Token.typeTable?_ofParts_tag table row
    have hnumber := Token.row_ofParts table.tag hrow
    exact ⟨⟨Token.table_ofParts_tag table row, hnumber, by
      rw [Token.compressed_eq htable, hnumber]⟩,
      fun width => Read.compressedToken_encode_width (Option.isSome_iff_exists.mpr ⟨_, htable⟩)⟩

/-- The token of the type reference 18, in one byte and in four. -/
theorem compressed_numbers_are_exact_for_short_and_long :
    let t := Token.ofParts 0x01 18
    t.compressed = 0x49 ∧ 0x49 < CompressedWidth.bound .one ∧
      Read.compressedToken ⟨0, [0x49, 0xFF]⟩ = .ok t ⟨1, [0xFF]⟩ ∧
      Read.compressedToken ⟨0, [0xC0, 0x00, 0x00, 0x49]⟩ = .ok t ⟨4, []⟩ ∧
      ∃ c, Read.compressedUInt ⟨0, [0xC0, 0x00]⟩ = .error .outOfBounds c := by
  obtain ⟨-, -, -, hcut, htoken⟩ := compressed_numbers_are_exact
  obtain ⟨hparts, hread⟩ := htoken .typeRef 18 (by decide)
  have hlead : CompressedWidth.AnnouncedBy 0xC0 .four := by decide
  exact ⟨hparts.2.2, by decide, hread .one (by rw [hparts.2.2]; decide) 0 [0xFF],
    hread .four (by rw [hparts.2.2]; decide) 0 [],
    (hcut _).mpr (.cons hlead (by decide))⟩

end ManagedCalls
