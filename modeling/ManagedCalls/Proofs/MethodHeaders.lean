import ManagedCalls.Method
import ManagedCalls.Storage.Conversion
import ManagedCalls.Proofs.CursorPlaces

/-!
Which byte strings are method bodies. The two low bits of the first byte choose between a
tiny and a fat header. A header tells how long it is and how long the code is, and the data
must have at least so many bytes. A header that cannot be one is told from data that end
too early, and what stands behind the code decides nothing.
-/

namespace ManagedCalls

open Stateful

theorem bytesAt_append {front bs : Bytes} {offset size : Nat} (hfront : front.length = offset)
    (hsize : bs.length = size) (back : Bytes) :
    bytesAt (front ++ (bs ++ back)) offset size = bs := by
  rw [bytesAt, List.drop_left' hfront, List.take_left' hsize]

theorem numberAt_toLittleEndian (size n : Nat) (back : Bytes) :
    numberAt (toLittleEndian size n ++ back) 0 size = n % 256 ^ size := by
  rw [numberAt, bytesAt, List.drop_zero, List.take_left' (length_toLittleEndian size n),
    littleEndian_toLittleEndian]

theorem numberAt_behind {front : Bytes} {k : Nat} (h : front.length = k) (back : Bytes)
    (offset size : Nat) :
    numberAt (front ++ back) (k + offset) size = numberAt back offset size := by
  rw [numberAt, numberAt, bytesAt, ← List.drop_drop, List.drop_left' h, bytesAt]

/-- Behind the bytes the data may go on in any way. -/
theorem bytesAt_take_append {data : Bytes} {offset size count : Nat} (hsize : offset + size ≤ count)
    (hcount : count ≤ data.length) (back : Bytes) :
    bytesAt (data.take count ++ back) offset size = bytesAt data offset size := by
  have hlength : (data.take count).length = count := List.length_take_of_le hcount
  rw [bytesAt, bytesAt, List.drop_append_of_le_length (by omega),
    List.take_append_of_le_length (by rw [List.length_drop]; omega), List.drop_take,
    List.take_take, Nat.min_eq_left (by omega)]

theorem numberAt_take_append {data : Bytes} {offset size count : Nat}
    (hsize : offset + size ≤ count) (hcount : count ≤ data.length) (back : Bytes) :
    numberAt (data.take count ++ back) offset size = numberAt data offset size := by
  rw [numberAt, bytesAt_take_append hsize hcount, numberAt]

namespace Read

theorem byte_at {data : Bytes} {b : UInt8} (h : data.head? = some b) :
    byte (.at data 0) = .ok b (.at data 1) := by
  obtain ⟨rest, rfl⟩ := List.head?_eq_some_iff.mp h
  rfl

end Read

namespace MethodBody

/-- The length of a fat header, which its first bytes give in words. -/
def headerSize (data : Bytes) : Nat := numberAt data 0 2 / 2 ^ 12 * 4

/-- The data have a header and all the code it announces, and make this body. -/
inductive Accepted (token : Token) (signature data : Bytes) : MethodBody → Prop
  | tiny {b : UInt8} (hhead : data.head? = some b) (hformat : b.toNat % 4 = 2)
      (hlength : 1 + b.toNat / 4 ≤ data.length) :
      Accepted token signature data
        ⟨token, signature, .null, 0x02, 8, bytesAt data 1 (b.toNat / 4)⟩
  | fat {b : UInt8} (hhead : data.head? = some b) (hformat : b.toNat % 4 = 3)
      (hheader : 12 ≤ headerSize data)
      (hlength : headerSize data + numberAt data 4 4 ≤ data.length) :
      Accepted token signature data
        ⟨token, signature, .ofNat (numberAt data 8 4), numberAt data 0 2 % 2 ^ 12 &&& 0x1B,
          numberAt data 2 2, bytesAt data (headerSize data) (numberAt data 4 4)⟩

/-- What the data begin with cannot be a header. -/
inductive Misformed (data : Bytes) : Malformation → Prop
  | format {b : UInt8} (hhead : data.head? = some b)
      (hformat : b.toNat % 4 = 0 ∨ b.toNat % 4 = 1) : Misformed data (.headerFormat b)
  | size {b : UInt8} (hhead : data.head? = some b) (hformat : b.toNat % 4 = 3)
      (hlength : 2 ≤ data.length) (hsize : headerSize data < 12) :
      Misformed data (.fatHeaderSize (headerSize data))

variable {token : Token} {signature data : Bytes}

theorem readTiny_ok {b : UInt8} (hhead : data.head? = some b)
    (hlength : 1 + b.toNat / 4 ≤ data.length) :
    readTiny token signature (.at data 0) =
      .ok ⟨token, signature, .null, tinyFlags, tinyMaxStack, bytesAt data 1 (b.toNat / 4)⟩
        (.at data (1 + b.toNat / 4)) := by
  rw [readTiny, bind_of_ok (Read.byte_at hhead), bind_of_ok (Read.bytes_at hlength), pure_apply]

theorem readTiny_of_short {b : UInt8} (hhead : data.head? = some b)
    (hshort : data.length < 1 + b.toNat / 4) :
    readTiny token signature (.at data 0) = .error .outOfBounds (.at data 1) := by
  have hone : 1 ≤ data.length := by
    obtain ⟨rest, rfl⟩ := List.head?_eq_some_iff.mp hhead
    exact Nat.le_add_left 1 rest.length
  rw [readTiny, bind_of_ok (Read.byte_at hhead), bind_of_error (Read.bytes_at_of_short hone hshort)]

theorem readFat_ok (hheader : 12 ≤ headerSize data)
    (hlength : headerSize data + numberAt data 4 4 ≤ data.length) :
    readFat token signature (.at data 0) =
      .ok ⟨token, signature, .ofNat (numberAt data 8 4), maskFlags (numberAt data 0 2 % 2 ^ 12),
          numberAt data 2 2, bytesAt data (headerSize data) (numberAt data 4 4)⟩
        (.at data (headerSize data + numberAt data 4 4)) := by
  have hend : 12 + (headerSize data - 12) = headerSize data := by omega
  rw [readFat, bind_of_ok (Read.uint16_at (by omega)), ← headerSize,
    if_neg (Nat.not_lt.mpr hheader), bind_of_ok (Read.uint16_at (by omega)),
    bind_of_ok (Read.uint32_at (by omega)), bind_of_ok (Read.uint32_at (by omega)),
    bind_of_ok (Read.bytes_at (by omega)), hend, bind_of_ok (Read.bytes_at hlength), pure_apply]

theorem readFat_of_short (htwo : 2 ≤ data.length) (hheader : 12 ≤ headerSize data)
    (hshort : data.length < headerSize data + numberAt data 4 4) :
    ∃ c, readFat token signature (.at data 0) = .error .outOfBounds c := by
  have hend : 12 + (headerSize data - 12) = headerSize data := by omega
  rw [readFat, bind_of_ok (Read.uint16_at htwo), ← headerSize, if_neg (Nat.not_lt.mpr hheader)]
  -- the data end within one of the fields, within what is left of the header, or in the code
  rcases Nat.lt_or_ge data.length 4 with hfour | hfour
  · exact ⟨_, by rw [bind_of_error (Read.uint16_at_of_short (by omega) (by omega))]⟩
  rw [bind_of_ok (Read.uint16_at (by omega))]
  rcases Nat.lt_or_ge data.length 8 with height | height
  · exact ⟨_, by rw [bind_of_error (Read.uint32_at_of_short (by omega) (by omega))]⟩
  rw [bind_of_ok (Read.uint32_at (by omega))]
  rcases Nat.lt_or_ge data.length 12 with htwelve | htwelve
  · exact ⟨_, by rw [bind_of_error (Read.uint32_at_of_short (by omega) (by omega))]⟩
  rw [bind_of_ok (Read.uint32_at (by omega))]
  rcases Nat.lt_or_ge data.length (headerSize data) with hfields | hfields
  · exact ⟨_, by rw [bind_of_error (Read.bytes_at_of_short (by omega) (by omega))]⟩
  rw [bind_of_ok (Read.bytes_at (by omega)), hend]
  exact ⟨_, by rw [bind_of_error (Read.bytes_at_of_short hfields hshort)]⟩

theorem readFat_of_size (htwo : 2 ≤ data.length) (hsize : headerSize data < 12) :
    readFat token signature (.at data 0) =
      .error (.malformed (.fatHeaderSize (headerSize data))) (.at data 2) := by
  rw [readFat, bind_of_ok (Read.uint16_at htwo), ← headerSize, if_pos hsize, throw_apply]

theorem parse_eq_outcome :
    parse token signature data = outcome (read token signature) (.at data 0) := by
  rw [parse, Cursor.ofBytes_eq_at, outcome]
  cases read token signature (.at data 0) with
  | ok body c => rfl
  | error e c => rfl

theorem parse_eq_ite {b : UInt8} (hhead : data.head? = some b) :
    parse token signature data =
      outcome (if b.toNat % 4 = 2 then readTiny token signature
        else if b.toNat % 4 = 3 then readFat token signature
        else throw (.malformed (.headerFormat b))) (.at data 0) := by
  have hpeek : Read.peek (.at data 0) = .ok b (.at data 0) := by
    obtain ⟨rest, rfl⟩ := List.head?_eq_some_iff.mp hhead
    rfl
  rw [parse_eq_outcome, outcome, read, bind_of_ok hpeek, outcome]

theorem parse_eq_tiny {b : UInt8} (hhead : data.head? = some b) (hformat : b.toNat % 4 = 2) :
    parse token signature data = outcome (readTiny token signature) (.at data 0) := by
  rw [parse_eq_ite hhead, if_pos hformat]

theorem parse_eq_fat {b : UInt8} (hhead : data.head? = some b) (hformat : b.toNat % 4 = 3) :
    parse token signature data = outcome (readFat token signature) (.at data 0) := by
  rw [parse_eq_ite hhead, if_neg (by omega), if_pos hformat]

theorem Accepted.parse {body : MethodBody} (h : Accepted token signature data body) :
    parse token signature data = .ok body := by
  cases h with
  | tiny hhead hformat hlength =>
    rw [parse_eq_tiny hhead hformat]
    exact outcome_of_ok (readTiny_ok hhead hlength)
  | fat hhead hformat hheader hlength =>
    rw [parse_eq_fat hhead hformat]
    exact outcome_of_ok (readFat_ok hheader hlength)

theorem Misformed.parse {why : Malformation} (h : Misformed data why) :
    parse token signature data = .error (.malformed why) := by
  cases h with
  | format hhead hformat =>
    rw [parse_eq_ite hhead, if_neg (by omega), if_neg (by omega)]
    rfl
  | size hhead hformat hlength hsize =>
    rw [parse_eq_fat hhead hformat]
    exact outcome_of_error (readFat_of_size hlength hsize)

theorem parse_of_neither (hbody : ∀ body, ¬ Accepted token signature data body)
    (hwhy : ∀ why, ¬ Misformed data why) :
    parse token signature data = .error .outOfBounds := by
  cases hhead : data.head? with
  | none =>
    rw [List.head?_eq_none_iff.mp hhead]
    rfl
  | some b =>
    have hcases : b.toNat % 4 = 0 ∨ b.toNat % 4 = 1 ∨ b.toNat % 4 = 2 ∨ b.toNat % 4 = 3 := by
      omega
    rcases hcases with hzero | hone | htiny | hfat
    · exact absurd (.format hhead (.inl hzero)) (hwhy _)
    · exact absurd (.format hhead (.inr hone)) (hwhy _)
    · have hshort : data.length < 1 + b.toNat / 4 :=
        Nat.lt_of_not_le fun hlength => hbody _ (.tiny hhead htiny hlength)
      rw [parse_eq_tiny hhead htiny]
      exact outcome_of_error (readTiny_of_short hhead hshort)
    · rw [parse_eq_fat hhead hfat]
      rcases Nat.lt_or_ge data.length 2 with hone | htwo
      · rw [readFat, outcome, bind_of_error (Read.uint16_at_of_short (Nat.zero_le _) (by omega))]
      · have hheader : 12 ≤ headerSize data :=
          Nat.le_of_not_lt fun hsize => hwhy _ (.size hhead hfat htwo hsize)
        have hshort : data.length < headerSize data + numberAt data 4 4 :=
          Nat.lt_of_not_le fun hlength => hbody _ (.fat hhead hfat hheader hlength)
        obtain ⟨c, hc⟩ := readFat_of_short htwo hheader hshort
        exact outcome_of_error hc

theorem parse_eq_ok_iff {body : MethodBody} :
    parse token signature data = .ok body ↔ Accepted token signature data body := by
  refine ⟨fun h => ?_, Accepted.parse⟩
  by_cases hbody : ∃ other, Accepted token signature data other
  · obtain ⟨other, hother⟩ := hbody
    obtain rfl : other = body := Except.ok.inj (hother.parse.symm.trans h)
    exact hother
  · by_cases hwhy : ∃ why, Misformed data why
    · obtain ⟨why, hwhy⟩ := hwhy
      rw [hwhy.parse] at h
      cases h
    · rw [parse_of_neither (not_exists.mp hbody) (not_exists.mp hwhy)] at h
      cases h

theorem parse_eq_malformed_iff {why : Malformation} :
    parse token signature data = .error (.malformed why) ↔ Misformed data why := by
  refine ⟨fun h => ?_, Misformed.parse⟩
  by_cases hwhy : ∃ other, Misformed data other
  · obtain ⟨other, hother⟩ := hwhy
    rw [hother.parse] at h
    cases h
    exact hother
  · by_cases hbody : ∃ body, Accepted token signature data body
    · obtain ⟨body, hbody⟩ := hbody
      rw [hbody.parse] at h
      cases h
    · rw [parse_of_neither (not_exists.mp hbody) (not_exists.mp hwhy)] at h
      cases h

theorem parse_eq_outOfBounds_iff :
    parse token signature data = .error .outOfBounds ↔
      (∀ body, ¬ Accepted token signature data body) ∧ ∀ why, ¬ Misformed data why := by
  refine ⟨fun h => ⟨fun body hbody => ?_, fun why hwhy => ?_⟩, fun h => parse_of_neither h.1 h.2⟩
  · rw [hbody.parse] at h
    cases h
  · rw [hwhy.parse] at h
    cases h

theorem head?_take_append {b : UInt8} {count : Nat} (hhead : data.head? = some b)
    (hcount : 1 ≤ count) (back : Bytes) : (data.take count ++ back).head? = some b := by
  obtain ⟨rest, rfl⟩ := List.head?_eq_some_iff.mp hhead
  obtain ⟨n, rfl⟩ := Nat.exists_eq_add_of_le' hcount
  rfl

/-- What stands behind the code may be anything else. -/
theorem Accepted.decided {body : MethodBody} (h : Accepted token signature data body) :
    ∃ header rest, data = header ++ (body.code ++ rest) ∧
      ∀ other, Accepted token signature (header ++ (body.code ++ other)) body := by
  have hsplit (offset size : Nat) :
      data = data.take offset ++ (bytesAt data offset size ++ data.drop (offset + size)) := by
    rw [← List.append_assoc, ← take_add_eq, List.take_append_drop]
  cases h with
  | @tiny b hhead hformat hlength =>
    refine ⟨_, _, hsplit 1 (b.toNat / 4), fun other => ?_⟩
    rw [← List.append_assoc, ← take_add_eq, ← bytesAt_take_append (Nat.le_refl _) hlength other]
    refine .tiny (head?_take_append hhead (by omega) other) hformat ?_
    rw [List.length_append, List.length_take_of_le hlength]
    omega
  | @fat b hhead hformat hheader hlength =>
    refine ⟨_, _, hsplit (headerSize data) (numberAt data 4 4), fun other => ?_⟩
    rw [← List.append_assoc, ← take_add_eq]
    generalize hcount : headerSize data + numberAt data 4 4 = count at hlength ⊢
    have hhead' : (data.take count ++ other).head? = some b :=
      head?_take_append hhead (by omega) other
    have hnumber (offset size : Nat) (h : offset + size ≤ 12) :
        numberAt (data.take count ++ other) offset size = numberAt data offset size :=
      numberAt_take_append (by omega) hlength other
    have hsize : headerSize (data.take count ++ other) = headerSize data := by
      rw [headerSize, hnumber 0 2 (by omega), headerSize]
    have hlength' : headerSize data + numberAt data 4 4 ≤ (data.take count ++ other).length := by
      rw [List.length_append, List.length_take_of_le hlength]
      omega
    have hfat : Accepted token signature (data.take count ++ other) _ :=
      .fat hhead' hformat (by rwa [hsize]) (by rwa [hsize, hnumber 4 4 (by omega)])
    rwa [hsize, hnumber 8 4 (by omega), hnumber 0 2 (by omega), hnumber 2 2 (by omega),
      hnumber 4 4 (by omega), bytesAt_take_append (Nat.le_of_eq hcount) hlength] at hfat

/-- A tiny header for so many bytes of code. -/
def encodeTiny (codeLength : Nat) : Bytes := [UInt8.ofNat (4 * codeLength + 2)]

theorem accepted_encodeTiny {code : Bytes} (h : code.length < 64) (rest : Bytes) :
    Accepted token signature (encodeTiny code.length ++ (code ++ rest))
      ⟨token, signature, .null, 0x02, 8, code⟩ := by
  have hbyte : (UInt8.ofNat (4 * code.length + 2)).toNat = 4 * code.length + 2 := by
    rw [UInt8.toNat_ofNat']
    omega
  have hquarter : (4 * code.length + 2) / 4 = code.length := by omega
  have hlength : 1 + code.length ≤ (encodeTiny code.length ++ (code ++ rest)).length := by
    rw [List.length_append, List.length_append, encodeTiny, List.length_singleton]
    omega
  have htiny : Accepted token signature (encodeTiny code.length ++ (code ++ rest)) _ :=
    .tiny rfl (by rw [hbyte]; omega) (by rwa [hbyte, hquarter])
  have hcode : bytesAt (encodeTiny code.length ++ (code ++ rest)) 1 code.length = code :=
    bytesAt_append rfl rfl rest
  rwa [hbyte, hquarter, hcode] at htiny

/-- What a fat header says apart from the length of the code. Its own length is a number of
words, and what its fields leave of them may be anything. -/
structure FatHeader where
  flags : Nat
  maxStack : Nat
  localsToken : Token
  extra : Bytes
  words : Nat
  isFat : flags % 4 = 3
  flags_lt : flags < 2 ^ 12
  maxStack_lt : maxStack < 2 ^ 16
  words_lt : words < 2 ^ 4
  length_extra : 12 + extra.length = words * 4

namespace FatHeader

/-- The header for so many bytes of code. -/
def encode (h : FatHeader) (codeLength : Nat) : Bytes :=
  toLittleEndian 2 (h.flags + 2 ^ 12 * h.words) ++ (toLittleEndian 2 h.maxStack ++
    (toLittleEndian 4 codeLength ++ (toLittleEndian 4 h.localsToken.value.toNat ++ h.extra)))

theorem length_encode (h : FatHeader) (codeLength : Nat) :
    (h.encode codeLength).length = h.words * 4 := by
  rw [← h.length_extra]
  simp only [encode, List.length_append, length_toLittleEndian]
  omega

/-- The numbers that are read back from an encoded header. -/
theorem numberAt_encode (h : FatHeader) {codeLength : Nat} (hcode : codeLength < 2 ^ 32)
    (back : Bytes) :
    numberAt (h.encode codeLength ++ back) 0 2 = h.flags + 2 ^ 12 * h.words ∧
      numberAt (h.encode codeLength ++ back) 2 2 = h.maxStack ∧
      numberAt (h.encode codeLength ++ back) 4 4 = codeLength ∧
      numberAt (h.encode codeLength ++ back) 8 4 = h.localsToken.value.toNat := by
  have hfirst_lt : h.flags + 2 ^ 12 * h.words < 256 ^ 2 := by
    have hflags := h.flags_lt
    have hwords := h.words_lt
    omega
  simp only [encode, List.append_assoc]
  generalize hfirst : toLittleEndian 2 (h.flags + 2 ^ 12 * h.words) = first
  generalize hstack : toLittleEndian 2 h.maxStack = stack
  generalize hlength : toLittleEndian 4 codeLength = length
  have hfirst' : first.length = 2 := by rw [← hfirst, length_toLittleEndian]
  have hstack' : stack.length = 2 := by rw [← hstack, length_toLittleEndian]
  have hlength' : length.length = 4 := by rw [← hlength, length_toLittleEndian]
  refine ⟨?_, ?_, ?_, ?_⟩
  · rw [← hfirst, numberAt_toLittleEndian, Nat.mod_eq_of_lt hfirst_lt]
  · refine (numberAt_behind hfirst' _ 0 2).trans ?_
    rw [← hstack, numberAt_toLittleEndian, Nat.mod_eq_of_lt h.maxStack_lt]
  · refine (numberAt_behind hfirst' _ 2 4).trans ((numberAt_behind hstack' _ 0 4).trans ?_)
    rw [← hlength, numberAt_toLittleEndian, Nat.mod_eq_of_lt hcode]
  · refine (numberAt_behind hfirst' _ 6 4).trans ((numberAt_behind hstack' _ 4 4).trans
      ((numberAt_behind hlength' _ 0 4).trans ?_))
    rw [numberAt_toLittleEndian, Nat.mod_eq_of_lt h.localsToken.value.toNat_lt]

theorem accepted_encode (h : FatHeader) {code : Bytes} (hcode : code.length < 2 ^ 32)
    (rest : Bytes) :
    Accepted token signature (h.encode code.length ++ (code ++ rest))
      ⟨token, signature, h.localsToken, h.flags &&& 0x1B, h.maxStack, code⟩ := by
  obtain ⟨hfirst, hstack, hlength, hlocals⟩ := h.numberAt_encode hcode (code ++ rest)
  have hflags := h.flags_lt
  have hformat := h.isFat
  have hextra := h.length_extra
  have hsize : headerSize (h.encode code.length ++ (code ++ rest)) = h.words * 4 := by
    rw [headerSize, hfirst]
    omega
  have hbyte : (UInt8.ofNat (h.flags + 2 ^ 12 * h.words)).toNat % 4 = 3 := by
    rw [UInt8.toNat_ofNat']
    omega
  have hmask : (h.flags + 2 ^ 12 * h.words) % 2 ^ 12 = h.flags := by omega
  have htoken : Token.ofNat h.localsToken.value.toNat = h.localsToken := by
    rw [Token.ofNat, UInt32.ofNat_toNat]
  have hfits : h.words * 4 + code.length ≤ (h.encode code.length ++ (code ++ rest)).length := by
    rw [List.length_append, List.length_append, h.length_encode]
    omega
  have hfat : Accepted token signature (h.encode code.length ++ (code ++ rest)) _ :=
    .fat rfl hbyte (by rw [hsize]; omega) (by rwa [hsize, hlength])
  rwa [hfirst, hstack, hlength, hlocals, hsize, hmask, htoken,
    bytesAt_append (h.length_encode code.length) rfl] at hfat

end FatHeader

/-- Parsing accepts just the data whose header announces no more than there is, and gives
what the header says. It tells data that cannot begin with a header from data that end too
early. What stands behind the code decides nothing, and code of any length that a header
can announce is read back. -/
theorem headers_accepted_exactly (token : Token) (signature : Bytes) :
    (∀ data body, parse token signature data = .ok body ↔ Accepted token signature data body) ∧
    (∀ data why, parse token signature data = .error (.malformed why) ↔ Misformed data why) ∧
    (∀ data, parse token signature data = .error .outOfBounds ↔
      (∀ body, ¬ Accepted token signature data body) ∧ ∀ why, ¬ Misformed data why) ∧
    (∀ data body, parse token signature data = .ok body →
      ∃ header rest, data = header ++ (body.code ++ rest) ∧
        ∀ other, parse token signature (header ++ (body.code ++ other)) = .ok body) ∧
    (∀ code : Bytes, code.length < 64 → ∀ rest,
      parse token signature (encodeTiny code.length ++ (code ++ rest)) =
        .ok ⟨token, signature, .null, 0x02, 8, code⟩) ∧
    (∀ (header : FatHeader) (code : Bytes), code.length < 2 ^ 32 → ∀ rest,
      parse token signature (header.encode code.length ++ (code ++ rest)) = .ok
        ⟨token, signature, header.localsToken, header.flags &&& 0x1B, header.maxStack, code⟩) := by
  refine ⟨fun _ _ => parse_eq_ok_iff, fun _ _ => parse_eq_malformed_iff,
    fun _ => parse_eq_outOfBounds_iff, fun data body h => ?_, fun code hcode rest => ?_,
    fun header code hcode rest => ?_⟩
  · obtain ⟨header, rest, hdata, hother⟩ := (parse_eq_ok_iff.mp h).decided
    exact ⟨header, rest, hdata, fun other => (hother other).parse⟩
  · exact (accepted_encodeTiny hcode rest).parse
  · exact (header.accepted_encode hcode rest).parse

/-- Zeroed locals, two operands and a word that no field needs. -/
def zeroedHeader : FatHeader where
  flags := 0x13
  maxStack := 2
  localsToken := .ofParts 0x11 1
  extra := [0x00, 0x00, 0x00, 0x00]
  words := 4
  isFat := by decide
  flags_lt := by decide
  maxStack_lt := by decide
  words_lt := by decide
  length_extra := by decide

theorem headers_accepted_exactly_of_both (token : Token) :
    parse token [] [0x0E, 0x02, 0x03, 0x58, 0xFF] =
        .ok ⟨token, [], .null, 0x02, 8, [0x02, 0x03, 0x58]⟩ ∧
      parse token [] (zeroedHeader.encode 2 ++ ([0x16, 0x2A] ++ [0xFF])) =
        .ok ⟨token, [], .ofParts 0x11 1, 0x13, 2, [0x16, 0x2A]⟩ := by
  obtain ⟨-, -, -, -, htiny, hfat⟩ := headers_accepted_exactly token []
  exact ⟨htiny [0x02, 0x03, 0x58] (by decide) [0xFF], hfat zeroedHeader [0x16, 0x2A] (by decide)
    [0xFF]⟩

end MethodBody

end ManagedCalls
