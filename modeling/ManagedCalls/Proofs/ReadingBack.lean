import ManagedCalls.Proofs.TypeBudget
import ManagedCalls.Signature.Encode

/-!
Reading back what was written. A decoder reads some bytes as a value if, whatever
follows them, it gives the value, has read just these bytes and has counted so
many types; with too little of the budget left it refuses. Decoders that read
parts read the parts in a row, and looking at the next byte costs nothing.
-/

namespace ManagedCalls

open Stateful

namespace CompressedWidth

theorem length_encode (n : Nat) (width : CompressedWidth) :
    (width.encode n).length = width.size := by
  cases width with
  | one => rfl
  | two => rfl
  | four => rfl

theorem lt_bound_narrowest {n : Nat} (h : n < 2 ^ 29) : n < (narrowest n).bound := by
  unfold narrowest
  split
  · assumption
  split
  · assumption
  · exact h

end CompressedWidth

namespace Token

theorem ofNat_table_row (t : Token) : ofNat (t.table * 2 ^ 24 + t.row) = t := by
  have hparts : t.table * 2 ^ 24 + t.row = t.value.toNat := by
    unfold table row
    omega
  rw [hparts, ofNat, UInt32.ofNat_toNat]

theorem tag_of_typeTable? {t : Token} {table : TypeTable} (h : t.typeTable? = some table) :
    table.tag = t.table := by
  have hfound := List.find?_some h
  exact beq_iff_eq.mp hfound

theorem compressed_eq {t : Token} {table : TypeTable} (h : t.typeTable? = some table) :
    t.compressed = t.row * 4 + table.code := by
  rw [compressed, h]
  rfl

end Token

theorem TypeTable.ofCode?_code (table : TypeTable) : ofCode? table.code = some table := by
  cases table with
  | typeDef => rfl
  | typeRef => rfl
  | typeSpec => rfl

theorem TypeTable.code_lt (table : TypeTable) : table.code < 3 := by
  cases table with
  | typeDef => decide
  | typeRef => decide
  | typeSpec => decide

namespace Read

theorem compressedUInt_encodeUInt {n : Nat} (h : n < 2 ^ 29) (position : Nat) (rest : Bytes) :
    compressedUInt ⟨position, encodeUInt n ++ rest⟩ =
      .ok n ⟨position + (encodeUInt n).length, rest⟩ := by
  rw [encodeUInt, CompressedWidth.length_encode]
  exact compressedUInt_encode (CompressedWidth.lt_bound_narrowest h) position rest

theorem compressedToken_encode_width {t : Token} (h : t.typeTable?.isSome)
    {width : CompressedWidth} (hwidth : t.compressed < width.bound) (position : Nat)
    (rest : Bytes) :
    compressedToken ⟨position, width.encode t.compressed ++ rest⟩ =
      .ok t ⟨position + width.size, rest⟩ := by
  obtain ⟨table, htable⟩ := Option.isSome_iff_exists.mp h
  have hcode := table.code_lt
  have hnumber := Token.compressed_eq htable
  have hlow : t.compressed % 4 = table.code := by omega
  have hhigh : t.compressed / 4 = t.row := by omega
  have hread := compressedUInt_encode hwidth position rest
  simp only [compressedToken, bind_apply, hread, hlow, TypeTable.ofCode?_code, hhigh,
    Token.tag_of_typeTable? htable, Token.ofNat_table_row, pure_apply]

theorem compressedToken_encode {t : Token} (h : t.typeTable?.isSome) (position : Nat)
    (rest : Bytes) :
    compressedToken ⟨position, t.encode ++ rest⟩ = .ok t ⟨position + t.encode.length, rest⟩ := by
  obtain ⟨table, htable⟩ := Option.isSome_iff_exists.mp h
  have hcode := table.code_lt
  have hrow : t.row < 2 ^ 24 := Nat.mod_lt _ (by decide)
  have hnumber := Token.compressed_eq htable
  rw [Token.encode, encodeUInt, CompressedWidth.length_encode]
  exact compressedToken_encode_width h (CompressedWidth.lt_bound_narrowest (by omega)) position rest

end Read

namespace Decode

variable {α β : Type}

/-- Whatever follows the bytes `bs`, they are read as `a` and count as `n` types. -/
def Reads (x : Decode α) (bs : Bytes) (n : Nat) (a : α) : Prop :=
  ∀ position rest count, count < typeLimit →
    if count + n < typeLimit then
      x ⟨⟨position, bs ++ rest⟩, count⟩ = .ok a ⟨⟨position + bs.length, rest⟩, count + n⟩
    else
      ∃ d, x ⟨⟨position, bs ++ rest⟩, count⟩ = .error (.recursionLimit typeLimit) d

namespace Reads

variable {x y : Decode α} {f : α → Decode β} {bs bs' : Bytes} {n m : Nat} {a : α} {b : β}

theorem congr (h : Reads x bs n a) (hbs : bs = bs') (hn : n = m) : Reads x bs' m a :=
  hbs ▸ hn ▸ h

theorem pure (a : α) : Reads (Pure.pure a) [] 0 a := by
  intro position rest count hcount
  rw [if_pos (show count + 0 < typeLimit from hcount)]
  rfl

theorem bind (hx : Reads x bs n a) (hf : Reads (f a) bs' m b) :
    Reads (x >>= f) (bs ++ bs') (n + m) b := by
  intro position rest count hcount
  have hfirst := hx position (bs' ++ rest) count hcount
  rw [bind_apply, List.append_assoc]
  by_cases hn : count + n < typeLimit
  · rw [if_pos hn] at hfirst
    have hsecond := hf (position + bs.length) rest (count + n) hn
    rw [hfirst, List.length_append, ← Nat.add_assoc, ← Nat.add_assoc]
    exact hsecond
  · rw [if_neg hn] at hfirst
    obtain ⟨d, hrefused⟩ := hfirst
    rw [hrefused, if_neg (by omega)]
    exact ⟨d, rfl⟩

theorem map (g : α → β) (hx : Reads x bs n a) :
    Reads (do let a ← x; Pure.pure (g a)) bs n (g a) :=
  (hx.bind (pure (g a))).congr (List.append_nil bs) rfl

/-- Reading `pre` without counting, and then going on as `y` does. -/
theorem of_step (pre : Bytes) (hy : Reads y bs n a)
    (h : ∀ position rest count, x ⟨⟨position, pre ++ (bs ++ rest)⟩, count⟩ =
      y ⟨⟨position + pre.length, bs ++ rest⟩, count⟩) : Reads x (pre ++ bs) n a := by
  intro position rest count hcount
  have hrest := hy (position + pre.length) rest count hcount
  rw [List.append_assoc, h, List.length_append, ← Nat.add_assoc]
  exact hrest

theorem lift {read : Read α}
    (h : ∀ position rest, read ⟨position, bs ++ rest⟩ = .ok a ⟨position + bs.length, rest⟩) :
    Reads (lift read) bs 0 a := by
  intro position rest count hcount
  rw [Nat.add_zero, if_pos hcount, Decode.lift]
  dsimp only
  rw [h]

theorem byte (code : UInt8) : Reads (Decode.lift Read.byte) [code] 0 code := lift fun _ _ => rfl

theorem uint {number : Nat} (h : number < 2 ^ 29) :
    Reads (Decode.lift Read.compressedUInt) (encodeUInt number) 0 number :=
  lift (Read.compressedUInt_encodeUInt h)

theorem token {t : Token} (h : t.typeTable?.isSome) :
    Reads (Decode.lift Read.compressedToken) t.encode 0 t :=
  lift (Read.compressedToken_encode h)

theorem peek {f : UInt8 → Decode α} {code : UInt8} (h : Reads (f code) (code :: bs) n a) :
    Reads (Decode.lift Read.peek >>= f) (code :: bs) n a :=
  of_step [] h fun _ _ _ => rfl

theorem accept_self {f : Bool → Decode α} {code : UInt8} (h : Reads (f true) bs n a) :
    Reads (accept code >>= f) (code :: bs) n a := by
  refine of_step [code] h fun position rest count => ?_
  simp [accept, Decode.lift, Read.skip]

theorem accept_other {f : Bool → Decode α} {code next : UInt8} (hne : next ≠ code)
    (h : Reads (f false) (next :: bs) n a) : Reads (accept code >>= f) (next :: bs) n a := by
  refine of_step [] h fun position rest count => ?_
  simp [accept, Decode.lift, hne]

/-- The items of a list, each with the bytes and the types that `bytes` and
`types` give it. -/
theorem replicate {bytes : α → Bytes} {types : α → Nat} {as : List α}
    (h : ∀ a ∈ as, Reads x (bytes a) (types a) a) :
    Reads (replicate x as.length) (as.flatMap bytes) (as.map types).sum as := by
  induction as with
  | nil => exact pure []
  | cons a as ih =>
    have hrest := ih fun a' ha' => h a' (List.mem_cons_of_mem _ ha')
    exact (h a List.mem_cons_self).bind (hrest.map (a :: ·))

end Reads

theorem encodeModifiers_cons (t : Token) (ts : List Token) :
    Token.encodeModifiers (t :: ts) =
      ElementCode.requiredModifier :: (t.encode ++ Token.encodeModifiers ts) := rfl

theorem length_le_encodeModifiers (ts : List Token) :
    ts.length ≤ (Token.encodeModifiers ts).length := by
  induction ts with
  | nil => exact Nat.le_refl _
  | cons t ts ih =>
    rw [encodeModifiers_cons, List.length_cons, List.length_cons, List.length_append]
    omega

/-- Modifiers end at the first byte that is none. -/
theorem modifiersWithin_encode {ts : List Token} (hts : ∀ t ∈ ts, t.typeTable?.isSome)
    {next : UInt8} (hnext : ElementCode.isModifier next = false) {n : Nat} (hn : ts.length ≤ n)
    (position count : Nat) (rest : Bytes) :
    modifiersWithin n ⟨⟨position, Token.encodeModifiers ts ++ next :: rest⟩, count⟩ =
      .ok ts ⟨⟨position + (Token.encodeModifiers ts).length, next :: rest⟩, count⟩ := by
  induction ts generalizing n position with
  | nil =>
    cases n with
    | zero => rfl
    | succ n => simp [modifiersWithin, Token.encodeModifiers, hnext]
  | cons t ts ih =>
    obtain ⟨ht, hrest⟩ := List.forall_mem_cons.mp hts
    cases n with
    | zero => simp at hn
    | succ n =>
      have htoken := Read.compressedToken_encode ht (position + 1)
        (Token.encodeModifiers ts ++ next :: rest)
      have htokens := ih hrest (Nat.le_of_succ_le_succ hn) (position + 1 + t.encode.length)
      have hmodifier : ElementCode.isModifier ElementCode.requiredModifier = true := by decide
      simp [modifiersWithin, encodeModifiers_cons, hmodifier, lift, Read.skip, htoken, htokens]
      omega

/-- Modifiers and then a pin end at the first byte that is neither. -/
theorem constraintsWithin_encode {ts : List Token} (hts : ∀ t ∈ ts, t.typeTable?.isSome)
    (pin : Bool) {next : UInt8} (hnext : ElementCode.isModifier next = false)
    (hunpinned : next ≠ ElementCode.pinned) {n : Nat} (hn : ts.length + pin.toNat ≤ n)
    (position count : Nat) (rest : Bytes) :
    constraintsWithin n
        ⟨⟨position, Token.encodeModifiers ts ++
          ((if pin then [ElementCode.pinned] else []) ++ next :: rest)⟩, count⟩ =
      .ok (ts, pin)
        ⟨⟨position + (Token.encodeModifiers ts).length + pin.toNat, next :: rest⟩, count⟩ := by
  induction ts generalizing n position with
  | nil =>
    have hends (n position : Nat) : constraintsWithin n ⟨⟨position, next :: rest⟩, count⟩ =
        .ok ([], false) ⟨⟨position, next :: rest⟩, count⟩ := by
      cases n with
      | zero => rfl
      | succ n => simp [constraintsWithin, hnext, hunpinned]
    cases pin with
    | false => simpa [Token.encodeModifiers] using hends n position
    | true =>
      cases n with
      | zero => simp at hn
      | succ n =>
        have hpin : ElementCode.isModifier ElementCode.pinned = false := by decide
        simp [constraintsWithin, Token.encodeModifiers, hpin, lift, Read.skip, hends]
  | cons t ts ih =>
    obtain ⟨ht, hrest⟩ := List.forall_mem_cons.mp hts
    cases n with
    | zero => simp at hn
    | succ n =>
      have htoken := Read.compressedToken_encode ht (position + 1)
        (Token.encodeModifiers ts ++ ((if pin then [ElementCode.pinned] else []) ++ next :: rest))
      have hless : ts.length + pin.toNat ≤ n := by
        rw [List.length_cons] at hn
        omega
      have htokens := ih hrest hless (position + 1 + t.encode.length)
      have hmodifier : ElementCode.isModifier ElementCode.requiredModifier = true := by decide
      simp [constraintsWithin, encodeModifiers_cons, hmodifier, lift, Read.skip, htoken, htokens]
      omega

namespace Reads

variable {bs : Bytes} {n : Nat} {a : α}

theorem modifiers {f : List Token → Decode α} {ts : List Token}
    (hts : ∀ t ∈ ts, t.typeTable?.isSome) {next : UInt8}
    (hnext : ElementCode.isModifier next = false) (h : Reads (f ts) (next :: bs) n a) :
    Reads (modifiers >>= f) (Token.encodeModifiers ts ++ next :: bs) n a := by
  refine of_step (Token.encodeModifiers ts) h fun position rest count => ?_
  have hlength : ts.length ≤ (Token.encodeModifiers ts ++ (next :: bs ++ rest)).length := by
    have := length_le_encodeModifiers ts
    rw [List.length_append]
    omega
  have hread := modifiersWithin_encode hts hnext hlength position count (bs ++ rest)
  simp only [Decode.modifiers, bind_apply, get_apply, List.cons_append] at hread ⊢
  rw [hread]

theorem constraints {f : List Token × Bool → Decode α} {ts : List Token}
    (hts : ∀ t ∈ ts, t.typeTable?.isSome) (pin : Bool) {next : UInt8}
    (hnext : ElementCode.isModifier next = false) (hunpinned : next ≠ ElementCode.pinned)
    (h : Reads (f (ts, pin)) (next :: bs) n a) :
    Reads (constraints >>= f)
      (Token.encodeModifiers ts ++ (if pin then [ElementCode.pinned] else []) ++ next :: bs)
      n a := by
  refine of_step _ h fun position rest count => ?_
  have hpin : (if pin then [ElementCode.pinned] else []).length = pin.toNat := by
    cases pin with
    | false => rfl
    | true => rfl
  have hlength : ts.length + pin.toNat ≤ (Token.encodeModifiers ts ++
      ((if pin then [ElementCode.pinned] else []) ++ next :: (bs ++ rest))).length := by
    have := length_le_encodeModifiers ts
    rw [List.length_append, List.length_append, hpin]
    omega
  have hread := constraintsWithin_encode hts pin hnext hunpinned hlength position count (bs ++ rest)
  simp only [Decode.constraints, bind_apply, get_apply, List.cons_append, List.append_assoc,
    List.length_append, hpin, ← Nat.add_assoc] at hread ⊢
  rw [hread]

end Reads

end Decode

end ManagedCalls
