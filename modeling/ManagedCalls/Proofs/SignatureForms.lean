import ManagedCalls.Proofs.ConsumedBytes
import ManagedCalls.Signature.Parts

/-!
The forms in which signatures are written. Numbers may take any width that can hold
them, modifiers and bounds of arrays may stand where a signature does not keep them, and
a sentinel may stand where parameters are missing. Whatever a decoder accepts, the bytes
it has consumed have such a form. The form tells which number each token is written as,
and where the signatures of function pointers stand.
-/

namespace ManagedCalls

open Stateful

/-- A compressed number, in any width that can hold it. -/
def IsNumber (bs : Bytes) (n : Nat) : Prop :=
  ∃ width : CompressedWidth, n < width.bound ∧ bs = width.encode n

/-- Some numbers in a row. -/
inductive AreNumbers : Nat → Bytes → Prop
  | nil : AreNumbers 0 []
  | cons {n count : Nat} {bs bs' : Bytes} (hn : IsNumber bs n) (hrest : AreNumbers count bs') :
      AreNumbers (count + 1) (bs ++ bs')

/-- The token that a number stands for. Its low bits choose the table. -/
def Token.ofCompressed? (n : Nat) : Option Token :=
  (TypeTable.ofCode? (n % 4)).map fun table => ofNat (table.tag * 2 ^ 24 + n / 4)

/-- A token, written as the number `n`. -/
def IsToken (bs : Bytes) (n : Nat) (t : Token) : Prop :=
  IsNumber bs n ∧ Token.ofCompressed? n = some t

theorem IsNumber.lt {bs : Bytes} {n : Nat} (h : IsNumber bs n) : n < 2 ^ 29 := by
  obtain ⟨width, hn, -⟩ := h
  have hbound : width.bound ≤ 2 ^ 29 := by
    cases width with
    | one => decide
    | two => decide
    | four => decide
  exact Nat.lt_of_lt_of_le hn hbound

theorem ofNat_eq_of_mod {b : UInt8} {n : Nat} (h : n % 2 ^ 8 = b.toNat) : UInt8.ofNat n = b := by
  apply UInt8.toNat_inj.mp
  rw [UInt8.toNat_ofNat', h]

namespace CompressedWidth

/-- The first bytes that announce the width are those from the first of these to below
the second. -/
def leads : CompressedWidth → Nat × Nat
  | one => (0x00, 0x80)
  | two => (0x80, 0xC0)
  | four => (0xC0, 0xE0)

theorem leads_of_ofLead? {lead : UInt8} {width : CompressedWidth} (h : ofLead? lead = some width) :
    width.leads.1 ≤ lead.toNat ∧ lead.toNat < width.leads.2 := by
  unfold ofLead? at h
  simp only [UInt8.lt_iff_toNat_lt, UInt8.reduceToNat] at h
  split at h
  · obtain rfl := Option.some.inj h
    simp only [leads]
    omega
  · split at h
    · obtain rfl := Option.some.inj h
      simp only [leads]
      omega
    · split at h
      · obtain rfl := Option.some.inj h
        simp only [leads]
        omega
      · cases h

end CompressedWidth

/-- A number that is read has been written in the width its first byte announces. -/
theorem Read.compressedUInt_eq_ok {c c' : Cursor} {n : Nat} (h : compressedUInt c = .ok n c') :
    ∃ bs, c.rest = bs ++ c'.rest ∧ IsNumber bs n := by
  obtain ⟨position, bytes⟩ := c
  cases bytes with
  | nil => cases h
  | cons lead bytes =>
    rw [compressedUInt, bind_apply, byte_cons] at h
    dsimp only at h
    cases hwidth : CompressedWidth.ofLead? lead with
    | none =>
      rw [hwidth] at h
      cases h
    | some width =>
      rw [hwidth] at h
      have hleads := CompressedWidth.leads_of_ofLead? hwidth
      cases width with
      | one =>
        obtain ⟨rfl, rfl⟩ := EStateM.Result.ok.inj h
        have hlead : UInt8.ofNat lead.toNat = lead := UInt8.ofNat_toNat
        exact ⟨[lead], rfl, .one, hleads.2, by rw [CompressedWidth.encode, hlead]⟩
      | two =>
        cases bytes with
        | nil => cases h
        | cons low bytes =>
          obtain ⟨rfl, rfl⟩ := EStateM.Result.ok.inj h
          have hlow : low.toNat < 2 ^ 8 := low.toNat_lt
          simp only [CompressedWidth.leads] at hleads
          refine ⟨[lead, low], rfl, .two, ?_, ?_⟩
          · simp only [CompressedWidth.bound]
            omega
          · rw [CompressedWidth.encode, ofNat_eq_of_mod (b := lead), ofNat_eq_of_mod (b := low)]
            · omega
            · omega
      | four =>
        rcases bytes with _ | ⟨b₂, _ | ⟨b₁, _ | ⟨b₀, bytes⟩⟩⟩
        · cases h
        · cases h
        · cases h
        · obtain ⟨rfl, rfl⟩ := EStateM.Result.ok.inj h
          have h₂ : b₂.toNat < 2 ^ 8 := b₂.toNat_lt
          have h₁ : b₁.toNat < 2 ^ 8 := b₁.toNat_lt
          have h₀ : b₀.toNat < 2 ^ 8 := b₀.toNat_lt
          simp only [CompressedWidth.leads] at hleads
          refine ⟨[lead, b₂, b₁, b₀], rfl, .four, ?_, ?_⟩
          · simp only [CompressedWidth.bound]
            omega
          · rw [CompressedWidth.encode, ofNat_eq_of_mod (b := lead), ofNat_eq_of_mod (b := b₂),
              ofNat_eq_of_mod (b := b₁), ofNat_eq_of_mod (b := b₀)]
            · omega
            · omega
            · omega
            · omega

theorem Read.compressedToken_eq_ok {c c' : Cursor} {t : Token} (h : compressedToken c = .ok t c') :
    ∃ bs n, c.rest = bs ++ c'.rest ∧ IsToken bs n t := by
  rw [compressedToken, bind_apply] at h
  cases hnumber : compressedUInt c with
  | error e c₁ =>
    rw [hnumber] at h
    cases h
  | ok n c₁ =>
    rw [hnumber] at h
    dsimp only at h
    obtain ⟨bs, hbytes, hn⟩ := compressedUInt_eq_ok hnumber
    cases htable : TypeTable.ofCode? (n % 4) with
    | none =>
      rw [htable] at h
      cases h
    | some table =>
      rw [htable] at h
      obtain ⟨rfl, rfl⟩ := EStateM.Result.ok.inj h
      exact ⟨bs, n, hbytes, hn, by rw [Token.ofCompressed?, htable]; rfl⟩

/-- A part of a signature with a form of its own. What stands in front of a type are
modifiers, and for a local also pins. -/
inductive Piece where
  | front (modifiers : List Token) (isPinned : Bool)
  | type (t : TypeSig)
  | types (ts : List TypeSig)
  | param (p : Param)
  | params (ps : List Param)
  | method (m : MethodSig)
  | localVar (l : LocalVar)
  | localVars (ls : List LocalVar)
  | locals (ls : LocalsSig)

def Piece.parts : Piece → List SigPart
  | front modifiers _ => modifiers.map .token
  | type t => t.parts
  | types ts => TypeSig.partsAll ts
  | param p => p.parts
  | params ps => Param.partsAll ps
  | method m => m.parts
  | localVar l => l.parts
  | localVars ls => LocalsSig.parts ls
  | locals ls => ls.parts

theorem TypeSig.parts_of_simpleType? {code : UInt8} {t : TypeSig}
    (h : Decode.simpleType? code = some t) : t.parts = [] := by
  unfold Decode.simpleType? at h
  split at h <;> first | cases h; rfl | cases h

/-- The flags that the first byte of a method signature gives it. -/
structure MethodSig.HasConvention (m : MethodSig) (convention : UInt8) : Prop where
  hasThis : m.hasThis = (convention &&& 0x20 != 0)
  explicitThis : m.explicitThis = (convention &&& 0x40 != 0)
  vararg : m.vararg = (convention &&& 0x0F == 0x05)

/-- The number of type parameters is written if the convention says that there is one. -/
def IsGenericCount (convention : UInt8) (bs : Bytes) (n : Nat) : Prop :=
  if convention &&& 0x10 != 0 then IsNumber bs n else bs = [] ∧ n = 0

/-- The rank of an array with any sizes and lower bounds behind it. -/
inductive IsShape : Bytes → Nat → Prop
  | mk {rank sizes bounds : Nat} {bs bs₁ bs₂ bs₃ bs₄ : Bytes} (hrank : IsNumber bs rank)
      (hsizes : IsNumber bs₁ sizes) (hsizes' : AreNumbers sizes bs₂)
      (hbounds : IsNumber bs₃ bounds) (hbounds' : AreNumbers bounds bs₄) :
      IsShape (bs ++ (bs₁ ++ (bs₂ ++ (bs₃ ++ bs₄)))) rank

/-- What stands behind the fixed parameters: nothing if all parameters that are announced
are among them, and a sentinel if some are not. -/
inductive IsSentinel (fixed announced : Nat) : Bytes → Prop
  | complete (h : fixed = announced) : IsSentinel fixed announced []
  | missing (h : fixed < announced) : IsSentinel fixed announced [ElementCode.sentinel]

/-- The decoder of method signatures makes this signature of the bytes. -/
def Decoded (bs : Bytes) (m : MethodSig) : Prop :=
  ∃ count count', Decode.Consumes Decode.methodSig count bs m count'

/-- The forms that the decoder accepts. The numbers are those that the tokens of the piece
are written as, in the order of the tokens. A method signature is also required to be
what the decoder makes of its bytes alone, since it is a signature in its own right. -/
inductive Form : Bytes → Piece → List Nat → Prop
  | noFront : Form [] (.front [] false) []
  | modifier {code : UInt8} {token bs : Bytes} {n : Nat} {t : Token} {ts : List Token}
      {isPinned : Bool} {ns : List Nat} (hcode : ElementCode.isModifier code = true)
      (htoken : IsToken token n t) (hrest : Form bs (.front ts isPinned) ns) :
      Form (code :: (token ++ bs)) (.front (t :: ts) isPinned) (n :: ns)
  | pin {bs : Bytes} {ts : List Token} {isPinned : Bool} {ns : List Nat}
      (hrest : Form bs (.front ts isPinned) ns) :
      Form (ElementCode.pinned :: bs) (.front ts true) ns
  | simple {code : UInt8} {t : TypeSig} (hcode : Decode.simpleType? code = some t) :
      Form [code] (.type t) []
  | pointer {front bs : Bytes} {ts : List Token} {t : TypeSig} {dropped ns : List Nat}
      (hfront : Form front (.front ts false) dropped) (ht : Form bs (.type t) ns) :
      Form (ElementCode.pointer :: (front ++ bs)) (.type (.pointer t)) ns
  | vector {front bs : Bytes} {ts : List Token} {t : TypeSig} {dropped ns : List Nat}
      (hfront : Form front (.front ts false) dropped) (ht : Form bs (.type t) ns) :
      Form (ElementCode.vector :: (front ++ bs)) (.type (.vector t)) ns
  | byRef {bs : Bytes} {t : TypeSig} {ns : List Nat} (ht : Form bs (.type t) ns) :
      Form (ElementCode.byRef :: bs) (.type (.byRef t)) ns
  | pinned {bs : Bytes} {t : TypeSig} {ns : List Nat} (ht : Form bs (.type t) ns) :
      Form (ElementCode.pinned :: bs) (.type (.pinned t)) ns
  | valueType {bs : Bytes} {n : Nat} {t : Token} (htoken : IsToken bs n t) :
      Form (ElementCode.valueType :: bs) (.type (.valueType t)) [n]
  | classType {bs : Bytes} {n : Nat} {t : Token} (htoken : IsToken bs n t) :
      Form (ElementCode.classType :: bs) (.type (.classType t)) [n]
  | typeParameter {bs : Bytes} {n : Nat} (hn : IsNumber bs n) :
      Form (ElementCode.typeParameter :: bs) (.type (.typeParameter n)) []
  | methodParameter {bs : Bytes} {n : Nat} (hn : IsNumber bs n) :
      Form (ElementCode.methodParameter :: bs) (.type (.methodParameter n)) []
  | array {bs shape : Bytes} {t : TypeSig} {rank : Nat} {ns : List Nat}
      (ht : Form bs (.type t) ns) (hshape : IsShape shape rank) :
      Form (ElementCode.array :: (bs ++ shape)) (.type (.array t rank)) ns
  | genericInst {bs count bs' : Bytes} {g : TypeSig} {args : List TypeSig} {ns ns' : List Nat}
      (hg : Form bs (.type g) ns) (hcount : IsNumber count args.length)
      (hargs : Form bs' (.types args) ns') :
      Form (ElementCode.genericInst :: (bs ++ (count ++ bs'))) (.type (.genericInst g args))
        (ns ++ ns')
  | functionPointer {bs : Bytes} {m : MethodSig} {ns : List Nat} (hm : Form bs (.method m) ns) :
      Form (ElementCode.functionPointer :: bs) (.type (.functionPointer m)) ns
  | noType : Form [] (.types []) []
  | types {bs bs' : Bytes} {t : TypeSig} {ts : List TypeSig} {ns ns' : List Nat}
      (ht : Form bs (.type t) ns) (hts : Form bs' (.types ts) ns') :
      Form (bs ++ bs') (.types (t :: ts)) (ns ++ ns')
  | param {front bs : Bytes} {ts : List Token} {isByRef : Bool} {t : TypeSig} {ns ns' : List Nat}
      (hfront : Form front (.front ts false) ns) (ht : Form bs (.type t) ns') :
      Form (front ++ ((if isByRef then [ElementCode.byRef] else []) ++ bs))
        (.param ⟨ts, isByRef, t⟩) (ns ++ ns')
  | noParam : Form [] (.params []) []
  | params {bs bs' : Bytes} {p : Param} {ps : List Param} {ns ns' : List Nat}
      (hp : Form bs (.param p) ns) (hps : Form bs' (.params ps) ns') :
      Form (bs ++ bs') (.params (p :: ps)) (ns ++ ns')
  | method {convention : UInt8} {generic count bs fixed sentinel extra : Bytes} {m : MethodSig}
      {ns ns₁ ns₂ : List Nat} (hconvention : m.HasConvention convention)
      (hgeneric : IsGenericCount convention generic m.genericCount)
      (hcount : IsNumber count m.paramCount) (hreturn : Form bs (.param m.returnType) ns)
      (hfixed : Form fixed (.params m.params) ns₁)
      (hsentinel : IsSentinel m.params.length m.paramCount sentinel)
      (hextra : Form extra (.params m.varargs) ns₂)
      (hvarargs : m.varargs.length = if m.vararg then m.paramCount - m.params.length else 0)
      (hdecoded : Decoded
        (convention :: (generic ++ (count ++ (bs ++ (fixed ++ (sentinel ++ extra)))))) m) :
      Form (convention :: (generic ++ (count ++ (bs ++ (fixed ++ (sentinel ++ extra))))))
        (.method m) (ns ++ (ns₁ ++ ns₂))
  | typedRef : Form [ElementCode.typedByRef] (.localVar ⟨[], false, false, .typedByRef⟩) []
  | localVar {front bs : Bytes} {ts : List Token} {isByRef isPinned : Bool} {t : TypeSig}
      {ns ns' : List Nat} (hfront : Form front (.front ts isPinned) ns)
      (ht : Form bs (.type t) ns') :
      Form (front ++ ((if isByRef then [ElementCode.byRef] else []) ++ bs))
        (.localVar ⟨ts, isByRef, isPinned, t⟩) (ns ++ ns')
  | noLocal : Form [] (.localVars []) []
  | localVars {bs bs' : Bytes} {l : LocalVar} {ls : List LocalVar} {ns ns' : List Nat}
      (hl : Form bs (.localVar l) ns) (hls : Form bs' (.localVars ls) ns') :
      Form (bs ++ bs') (.localVars (l :: ls)) (ns ++ ns')
  | locals {count bs : Bytes} {ls : LocalsSig} {ns : List Nat} (hcount : IsNumber count ls.length)
      (hls : Form bs (.localVars ls) ns) :
      Form (0x07 :: (count ++ bs)) (.locals ls) ns

namespace Decode

variable {α β : Type}

/-- The bytes have the form of a piece, with some numbers for its tokens. -/
abbrev Written (piece : α → Piece) (bs : Bytes) (a : α) : Prop := ∃ ns, Form bs (piece a) ns

/-- What the decoder reads has been written in the form. -/
def Sound (x : Decode α) (form : Bytes → α → Prop) : Prop :=
  ∀ d a d', x d = .ok a d' → ∃ bs, d.cursor.rest = bs ++ d'.cursor.rest ∧ form bs a

namespace Sound

variable {x : Decode α} {f : α → Decode β} {F : Bytes → α → Prop} {G : Bytes → β → Prop}

theorem pure {a : α} (h : F [] a) : Sound (Pure.pure a) F := by
  intro d a' d' hrun
  obtain ⟨rfl, rfl⟩ := EStateM.Result.ok.inj hrun
  exact ⟨[], rfl, h⟩

theorem throw (e : BlobError) : Sound (throw e) F := fun _ _ _ h => by cases h

theorem ite {p : Prop} [Decidable p] {y : Decode α} (hx : p → Sound x F) (hy : ¬ p → Sound y F) :
    Sound (if p then x else y) F := by
  by_cases hp : p
  · rw [if_pos hp]
    exact hx hp
  · rw [if_neg hp]
    exact hy hp

theorem bind (hx : Sound x F)
    (hf : ∀ bs a, F bs a → Sound (f a) fun bs' b => G (bs ++ bs') b) : Sound (x >>= f) G := by
  intro d b d' h
  obtain ⟨a, d₁, hrun, hthen⟩ := bind_eq_ok h
  obtain ⟨bs, hbytes, hform⟩ := hx d a d₁ hrun
  obtain ⟨bs', hbytes', hform'⟩ := hf bs a hform d₁ b d' hthen
  exact ⟨bs ++ bs', by rw [hbytes, hbytes', List.append_assoc], hform'⟩

theorem map (hx : Sound x F) {g : α → β} (hg : ∀ bs a, F bs a → G bs (g a)) :
    Sound (do let a ← x; Pure.pure (g a)) G :=
  hx.bind fun bs a h => pure (by rw [List.append_nil]; exact hg bs a h)

theorem mono {F' : Bytes → α → Prop} (hx : Sound x F) (h : ∀ bs a, F bs a → F' bs a) :
    Sound x F' := by
  intro d a d' hrun
  obtain ⟨bs, hbytes, hform⟩ := hx d a d' hrun
  exact ⟨bs, hbytes, h bs a hform⟩

theorem lift {read : Read α}
    (h : ∀ c a c', read c = .ok a c' → ∃ bs, c.rest = bs ++ c'.rest ∧ F bs a) :
    Sound (Decode.lift read) F := by
  intro d a d' hrun
  unfold Decode.lift at hrun
  split at hrun
  · next hread =>
    obtain ⟨rfl, rfl⟩ := EStateM.Result.ok.inj hrun
    exact h _ _ _ hread
  · cases hrun

theorem byte : Sound (Decode.lift Read.byte) fun bs b => bs = [b] := by
  refine lift fun c b c' h => ?_
  obtain ⟨position, bytes⟩ := c
  cases bytes with
  | nil => cases h
  | cons first rest =>
    obtain ⟨rfl, rfl⟩ := EStateM.Result.ok.inj h
    exact ⟨[first], rfl, rfl⟩

theorem skip : Sound (Decode.lift Read.skip) fun bs _ => ∃ b, bs = [b] := by
  rw [Read.skip, lift_bind]
  exact byte.bind fun bs b hb => pure ⟨b, by rw [hb]; rfl⟩

theorem peek : Sound (Decode.lift Read.peek) fun bs _ => bs = [] := by
  refine lift fun c b c' h => ?_
  obtain ⟨position, bytes⟩ := c
  cases bytes with
  | nil => cases h
  | cons first rest =>
    obtain ⟨rfl, rfl⟩ := EStateM.Result.ok.inj h
    exact ⟨[], rfl, rfl⟩

theorem uint : Sound (Decode.lift Read.compressedUInt) IsNumber :=
  lift fun _ _ _ => Read.compressedUInt_eq_ok

theorem token : Sound (Decode.lift Read.compressedToken) fun bs t => ∃ n, IsToken bs n t := by
  refine lift fun c t c' h => ?_
  obtain ⟨bs, n, hbytes, ht⟩ := Read.compressedToken_eq_ok h
  exact ⟨bs, hbytes, n, ht⟩

theorem countType : Sound countType fun bs _ => bs = [] := by
  intro d a d' h
  by_cases hlast : typeLimit ≤ d.typesRead + 1
  · rw [countType_of_le hlast] at h
    cases h
  · rw [countType_of_lt (Nat.not_le.mp hlast)] at h
    obtain ⟨-, rfl⟩ := EStateM.Result.ok.inj h
    exact ⟨[], rfl, rfl⟩

theorem accept (code : UInt8) :
    Sound (accept code) fun bs found => bs = if found then [code] else [] := by
  intro d found d' h
  obtain ⟨⟨position, bytes⟩, count⟩ := d
  cases bytes with
  | nil => cases h
  | cons next rest =>
    by_cases hnext : next = code
    · subst hnext
      have hrun : Decode.accept next ⟨⟨position, next :: rest⟩, count⟩ =
          .ok true ⟨⟨position + 1, rest⟩, count⟩ := by
        simp [Decode.accept, Decode.lift, Read.skip]
      obtain ⟨rfl, rfl⟩ := EStateM.Result.ok.inj (hrun.symm.trans h)
      exact ⟨[next], rfl, rfl⟩
    · have hrun : Decode.accept code ⟨⟨position, next :: rest⟩, count⟩ =
          .ok false ⟨⟨position, next :: rest⟩, count⟩ := by
        simp [Decode.accept, Decode.lift, hnext]
      obtain ⟨rfl, rfl⟩ := EStateM.Result.ok.inj (hrun.symm.trans h)
      exact ⟨[], rfl, rfl⟩

/-- Items in a row make up a list. -/
theorem replicate {G : Bytes → List α → Prop} (hx : Sound x F) (hnil : G [] [])
    (hcons : ∀ bs a bs' as, F bs a → G bs' as → G (bs ++ bs') (a :: as)) (n : Nat) :
    Sound (replicate x n) fun bs as => G bs as ∧ as.length = n := by
  induction n with
  | zero => exact pure ⟨hnil, rfl⟩
  | succ n ih =>
    refine hx.bind fun bs a ha => ih.map fun bs' as has => ?_
    exact ⟨hcons bs a bs' as ha has.1, by rw [List.length_cons, has.2]⟩

theorem numbers (n : Nat) :
    Sound (discard (Decode.lift Read.compressedUInt) n) fun bs _ => AreNumbers n bs := by
  induction n with
  | zero => exact pure .nil
  | succ n ih => exact uint.bind fun bs k hk => ih.mono fun bs' _ hrest => .cons hk hrest

/-- A loop that reads items as long as the next byte begins one. -/
theorem scan {item? : UInt8 → Option (Read β)} {done : α} {more : β → α → α} (hdone : F [] done)
    (hitems : ∀ code item, item? code = some item → ∃ H : Bytes → β → Prop,
      Sound (Decode.lift item) (fun bs b => ∃ first tail, bs = first :: tail ∧ H tail b) ∧
        ∀ tail b bs a, H tail b → F bs a → F (code :: (tail ++ bs)) (more b a)) (n : Nat) :
    Sound (scan item? done more n) F := by
  induction n with
  | zero => exact pure hdone
  | succ n ih =>
    intro d a d' h
    obtain ⟨⟨position, bytes⟩, count⟩ := d
    have hstop (hnone : ∀ code ∈ bytes.head?, item? code = none) :
        ∃ bs, bytes = bs ++ d'.cursor.rest ∧ F bs a := by
      rw [scan_stop hnone] at h
      obtain ⟨rfl, rfl⟩ := EStateM.Result.ok.inj h
      exact ⟨[], rfl, hdone⟩
    cases bytes with
    | nil => exact hstop fun _ hnone => by cases hnone
    | cons code rest =>
      cases hcode : item? code with
      | none =>
        refine hstop fun first hfirst => ?_
        obtain rfl := Option.some.inj hfirst
        exact hcode
      | some item =>
        obtain ⟨H, hitem, hmore⟩ := hitems code item hcode
        rw [scan_item hcode] at h
        obtain ⟨b, d₁, hrun, hrest⟩ := bind_eq_ok h
        obtain ⟨a', d₂, hloop, hdone⟩ := bind_eq_ok hrest
        obtain ⟨rfl, rfl⟩ := EStateM.Result.ok.inj hdone
        obtain ⟨-, hbytes, first, tail, rfl, hb⟩ := hitem _ _ _ hrun
        obtain ⟨bs, hbytes', ha⟩ := ih _ _ _ hloop
        -- the loop has looked at the byte that the item begins with
        obtain rfl : code = first := (List.cons.inj hbytes).1
        refine ⟨code :: (tail ++ bs), ?_, hmore tail b bs a' hb ha⟩
        rw [List.cons_append, List.append_assoc, ← hbytes']
        exact hbytes

theorem modifiers : Sound modifiers (Written (.front · false)) := by
  intro d ts d' h
  have hloop : modifiersWithin d.cursor.rest.length d = .ok ts d' := h
  rw [modifiersWithin_eq] at hloop
  refine scan (F := Written (.front · false)) ⟨[], .noFront⟩ ?_ _ d ts d' hloop
  intro code item hitem
  unfold modifier? at hitem
  split at hitem
  · next hcode =>
    obtain rfl := Option.some.inj hitem
    refine ⟨fun bs t => ∃ n, IsToken bs n t, ?_, ?_⟩
    · rw [lift_bind]
      exact skip.bind fun bs _ hb => token.mono fun tail t ht => by
        obtain ⟨b, rfl⟩ := hb
        exact ⟨b, tail, rfl, ht⟩
    · rintro tail t bs ts ⟨n, ht⟩ ⟨ns, hts⟩
      exact ⟨n :: ns, .modifier hcode ht hts⟩
  · cases hitem

theorem constraints :
    Sound constraints (Written fun found => .front found.1 found.2) := by
  intro d found d' h
  have hloop : constraintsWithin d.cursor.rest.length d = .ok found d' := h
  rw [constraintsWithin_eq] at hloop
  refine scan (F := Written fun found => .front found.1 found.2) ⟨[], .noFront⟩ ?_ _ d found d'
    hloop
  intro code item hitem
  unfold constraint? at hitem
  split at hitem
  · next hcode =>
    obtain rfl := Option.some.inj hitem
    refine ⟨fun bs t? => ∃ n t, t? = some t ∧ IsToken bs n t, ?_, ?_⟩
    · simp only [lift_bind]
      exact skip.bind fun bs _ hb => token.map fun tail t ht => by
        obtain ⟨b, rfl⟩ := hb
        obtain ⟨n, ht⟩ := ht
        exact ⟨b, tail, rfl, n, t, rfl, ht⟩
    · rintro tail t? bs found ⟨n, t, rfl, ht⟩ ⟨ns, hfound⟩
      exact ⟨n :: ns, .modifier hcode ht hfound⟩
  · split at hitem
    · next hcode =>
      obtain rfl := Option.some.inj hitem
      refine ⟨fun bs t? => bs = [] ∧ t? = none, ?_, ?_⟩
      · rw [lift_bind]
        exact skip.map fun bs _ hb => by
          obtain ⟨b, rfl⟩ := hb
          exact ⟨b, [], rfl, rfl, rfl⟩
      · rintro tail t? bs found ⟨rfl, rfl⟩ ⟨ns, hfound⟩
        rw [eq_of_beq hcode]
        exact ⟨ns, .pin hfound⟩
    · cases hitem

theorem genericCount (convention : UInt8) :
    Sound (genericCount convention) (IsGenericCount convention) := by
  unfold Decode.genericCount IsGenericCount
  refine ite (fun hgeneric => uint.mono fun bs n hn => ?_) fun hplain => pure ?_
  · rw [if_pos hgeneric]
    exact hn
  · rw [if_neg hplain]
    exact ⟨rfl, rfl⟩

theorem shape {wrap : Nat → TypeSig} {G : Bytes → TypeSig → Prop}
    (h : ∀ bs rank, IsShape bs rank → G bs (wrap rank)) :
    Sound (do
      let rank ← Decode.lift Read.compressedUInt
      let sizes ← Decode.lift Read.compressedUInt
      discard (Decode.lift Read.compressedUInt) sizes
      let lowerBounds ← Decode.lift Read.compressedUInt
      discard (Decode.lift Read.compressedUInt) lowerBounds
      return wrap rank) G :=
  uint.bind fun _ _ hrank => uint.bind fun _ sizes hsizes => (numbers sizes).bind fun _ _ hs =>
    uint.bind fun _ bounds hbounds => (numbers bounds).map fun _ _ hs' =>
      h _ _ (.mk hrank hsizes hs hbounds hs')

section

variable {type : Decode TypeSig} (htype : Sound type (Written .type))

include htype

theorem param : Sound (param type) (Written .param) := by
  refine modifiers.bind fun front mods hfront => (accept _).bind fun mark isByRef hmark =>
    htype.map fun bs t ht => ?_
  obtain ⟨ns, hfront⟩ := hfront
  obtain ⟨ns', ht⟩ := ht
  subst hmark
  exact ⟨ns ++ ns', .param hfront ht⟩

theorem fixedParams (n : Nat) :
    Sound (fixedParams type n) fun bs ps => ∃ fixed sentinel ns, bs = fixed ++ sentinel ∧
      Form fixed (.params ps) ns ∧ IsSentinel ps.length n sentinel := by
  induction n with
  | zero => exact pure ⟨[], [], [], rfl, .noParam, .complete rfl⟩
  | succ n ih =>
    refine (accept _).bind fun mark ended hmark => ?_
    subst hmark
    cases ended with
    | true => exact pure ⟨[], _, [], rfl, .noParam, .missing (Nat.succ_pos n)⟩
    | false =>
      refine (param htype).bind fun bs p hp => ih.map fun bs' ps hps => ?_
      obtain ⟨ns, hp⟩ := hp
      obtain ⟨fixed, sentinel, ns', rfl, hps, hsentinel⟩ := hps
      refine ⟨bs ++ fixed, sentinel, ns ++ ns', by simp, .params hp hps, ?_⟩
      cases hsentinel with
      | complete hall => exact .complete (congrArg Nat.succ hall)
      | missing hless => exact .missing (Nat.succ_lt_succ hless)

theorem variableParams (vararg : Bool) (n : Nat) :
    Sound (variableParams type vararg n) fun bs ps =>
      Written .params bs ps ∧ ps.length = if vararg then n else 0 := by
  cases vararg with
  | true =>
    refine (param htype).replicate ⟨[], .noParam⟩ (fun bs p bs' ps hp hps => ?_) n
    obtain ⟨ns, hp⟩ := hp
    obtain ⟨ns', hps⟩ := hps
    exact ⟨ns ++ ns', .params hp hps⟩
  | false => exact pure ⟨⟨[], .noParam⟩, rfl⟩

theorem methodWith :
    Sound (methodWith type) fun bs m => Decoded bs m → Written .method bs m := by
  refine byte.bind fun _ convention hbyte =>
    (genericCount convention).bind fun generic _ hgeneric =>
      uint.bind fun count paramCount hcount => (param htype).bind fun bs returnType hreturn =>
        (fixedParams htype paramCount).bind fun _ params hfixed =>
          (variableParams htype _ _).map fun extra varargs hextra hdecoded => ?_
  obtain ⟨ns, hreturn⟩ := hreturn
  obtain ⟨fixed, sentinel, ns₁, rfl, hfixed, hsentinel⟩ := hfixed
  obtain ⟨⟨ns₂, hextra⟩, hvarargs⟩ := hextra
  subst hbyte
  simp only [List.cons_append, List.nil_append, List.append_assoc] at hdecoded ⊢
  exact ⟨_, .method ⟨rfl, rfl, rfl⟩ hgeneric hcount hreturn hfixed hsentinel hextra hvarargs
    hdecoded⟩

end

end Sound

/-- Where the first decoder succeeds the second does the same. -/
def Extends (x y : Decode α) : Prop := ∀ d a d', x d = .ok a d' → y d = .ok a d'

theorem Extends.refl (x : Decode α) : Extends x x := fun _ _ _ h => h

theorem Extends.congruence : Congruence fun α => Extends (α := α) where
  pure := fun a => .refl _
  malformed := fun why => .refl _
  get := .refl _
  lift := fun _ => .refl _
  bind := by
    intro α β x y f g hxy hfg d b d' h
    obtain ⟨a, d₁, hrun, hthen⟩ := bind_eq_ok h
    rw [bind_apply, hxy d a d₁ hrun]
    exact hfg a d₁ b d' hthen

theorem Extends.typeWith {x y : Decode TypeSig} (h : Extends x y) :
    Extends (typeWith x) (typeWith y) :=
  congruence.bind (.refl countType) fun _ => congruence.bind (.refl (lift Read.byte)) fun code =>
    congruence.typeOf h code

/-- Levels that are left over change nothing. -/
theorem Extends.typeWithin {levels levels' : Nat} (h : levels ≤ levels') :
    Extends (typeWithin levels) (typeWithin levels') := by
  induction levels generalizing levels' with
  | zero =>
    intro d t d' hrun
    obtain ⟨_, _, _, hrefused⟩ := bind_eq_ok hrun
    cases hrefused
  | succ levels ih =>
    obtain ⟨levels', rfl⟩ := Nat.exists_eq_succ_of_ne_zero (n := levels') (by omega)
    exact (ih (Nat.le_of_succ_le_succ h)).typeWith

theorem decoded_of_run {d d' : Decoder} {m : MethodSig} {bs : Bytes}
    (h : methodSig d = .ok m d') (hbytes : d.cursor.rest = bs ++ d'.cursor.rest) :
    Decoded bs m := by
  obtain ⟨bs', rest, count', hbytes', hconsumes⟩ := Exact.methodSig _ _ _ _ _ h
  have hrun := hconsumes.reads d.cursor.position rest
  rw [← hbytes'] at hrun
  obtain ⟨-, rfl⟩ := EStateM.Result.ok.inj (hrun.symm.trans h)
  obtain rfl : bs' = bs := List.append_cancel_right (hbytes'.symm.trans hbytes)
  exact ⟨_, _, hconsumes⟩

namespace Sound

/-- The branch of an element code. -/
theorem coded {x y : Decode TypeSig} {code code' : UInt8}
    (hx : Sound x fun bs t => Written .type (code' :: bs) t)
    (hy : Sound y fun bs t => Written .type (code :: bs) t) :
    Sound (if code == code' then x else y) fun bs t => Written .type (code :: bs) t :=
  ite (fun hcode => eq_of_beq hcode ▸ hx) fun _ => hy

section

variable {nested : Decode TypeSig} (hnested : Sound nested (Written .type))

include hnested

/-- Signatures inside a signature are read as they would be on their own. -/
theorem nestedMethod (hextends : Extends nested type) :
    Sound (Decode.methodWith nested) (Written .method) := by
  intro d m d' h
  obtain ⟨bs, hbytes, hform⟩ := methodWith hnested d m d' h
  have hrun : methodSig d = .ok m d' := Extends.congruence.methodWith hextends d m d' h
  exact ⟨bs, hbytes, hform (decoded_of_run hrun hbytes)⟩

/-- A type whose code stands in front of another type, where modifiers may stand between
the two. -/
theorem modified {code : UInt8} {wrap : TypeSig → TypeSig}
    (hwrap : ∀ {front bs ts t dropped ns}, Form front (.front ts false) dropped →
      Form bs (.type t) ns → Form (code :: (front ++ bs)) (.type (wrap t)) ns) :
    Sound (do let _ ← Decode.modifiers; let t ← nested; Pure.pure (wrap t)) fun bs t =>
      Written .type (code :: bs) t := by
  refine modifiers.bind fun front ts hfront => hnested.map fun bs t ht => ?_
  obtain ⟨dropped, hfront⟩ := hfront
  obtain ⟨ns, ht⟩ := ht
  exact ⟨ns, hwrap hfront ht⟩

theorem types (n : Nat) :
    Sound (Decode.replicate nested n) fun bs ts => Written .types bs ts ∧ ts.length = n := by
  refine hnested.replicate ⟨[], .noType⟩ (fun bs t bs' ts ht hts => ?_) n
  obtain ⟨ns, ht⟩ := ht
  obtain ⟨ns', hts⟩ := hts
  exact ⟨ns ++ ns', .types ht hts⟩

theorem genericInst :
    Sound (do
      let generic ← nested
      let count ← Decode.lift Read.compressedUInt
      return .genericInst generic (← Decode.replicate nested count)) fun bs t =>
        Written .type (ElementCode.genericInst :: bs) t := by
  refine hnested.bind fun bs g hg => uint.bind fun count number hcount =>
    (types hnested number).map fun bs' args hargs => ?_
  obtain ⟨ns, hg⟩ := hg
  obtain ⟨⟨ns', hargs⟩, rfl⟩ := hargs
  exact ⟨ns ++ ns', .genericInst hg hcount hargs⟩

theorem typeOf (hextends : Extends nested type) (code : UInt8) :
    Sound (typeOf nested code) fun bs t => Written .type (code :: bs) t := by
  unfold Decode.typeOf
  cases hsimple : simpleType? code with
  | some t => exact pure ⟨[], .simple hsimple⟩
  | none =>
    refine coded (modified hnested .pointer) ?_
    refine coded (hnested.map fun _ _ ⟨ns, ht⟩ => ⟨ns, .byRef ht⟩) ?_
    refine coded (token.map fun _ _ ⟨n, ht⟩ => ⟨[n], .valueType ht⟩) ?_
    refine coded (token.map fun _ _ ⟨n, ht⟩ => ⟨[n], .classType ht⟩) ?_
    refine coded (uint.map fun _ _ hn => ⟨[], .typeParameter hn⟩) ?_
    refine coded (hnested.bind fun _ t ⟨ns, ht⟩ =>
      shape fun _ rank hshape => ⟨ns, .array ht hshape⟩) ?_
    refine coded (peek.bind fun _ next hpeek => ?_) ?_
    · subst hpeek
      exact ite (fun _ => genericInst hnested) fun _ => throw _
    refine coded ((nestedMethod hnested hextends).map fun _ _ ⟨ns, hm⟩ =>
      ⟨ns, .functionPointer hm⟩) ?_
    refine coded (modified hnested .vector) ?_
    refine coded (uint.map fun _ _ hn => ⟨[], .methodParameter hn⟩) ?_
    exact coded (hnested.map fun _ _ ⟨ns, ht⟩ => ⟨ns, .pinned ht⟩) (throw _)

theorem typeWith (hextends : Extends nested type) : Sound (typeWith nested) (Written .type) := by
  refine countType.bind fun _ _ hcount => byte.bind fun _ code hbyte =>
    (typeOf hnested hextends code).mono fun bs t ht => ?_
  subst hcount hbyte
  exact ht

theorem localVar : Sound (localVar nested) (Written .localVar) := by
  refine (accept _).bind fun mark plain hmark => ?_
  subst hmark
  cases plain with
  | true => exact pure ⟨[], .typedRef⟩
  | false =>
    refine constraints.bind fun front found hfront => (accept _).bind fun mark isByRef hmark =>
      hnested.map fun bs t ht => ?_
    obtain ⟨ns, hfront⟩ := hfront
    obtain ⟨ns', ht⟩ := ht
    subst hmark
    exact ⟨ns ++ ns', .localVar hfront ht⟩

theorem localVars (n : Nat) :
    Sound (Decode.replicate (Decode.localVar nested) n) fun bs ls =>
      Written .localVars bs ls ∧ ls.length = n := by
  refine (localVar hnested).replicate ⟨[], .noLocal⟩ (fun bs l bs' ls hl hls => ?_) n
  obtain ⟨ns, hl⟩ := hl
  obtain ⟨ns', hls⟩ := hls
  exact ⟨ns ++ ns', .localVars hl hls⟩

theorem localsWith : Sound (localsWith nested) (Written .locals) := by
  refine byte.bind fun first head hbyte => ?_
  subst hbyte
  refine ite (fun hhead => ?_) fun _ => throw _
  obtain rfl := eq_of_beq hhead
  refine uint.bind fun count number hcount => (localVars hnested number).mono fun bs ls hls => ?_
  obtain ⟨⟨ns, hls⟩, rfl⟩ := hls
  have hform : Form (0x07 :: (count ++ bs)) (.locals ls) ns := .locals hcount hls
  exact ⟨ns, hform⟩

end

theorem typeWithin {levels : Nat} (h : levels ≤ typeLimit) :
    Sound (typeWithin levels) (Written .type) := by
  induction levels with
  | zero =>
    intro d t d' hrun
    obtain ⟨_, _, _, hrefused⟩ := bind_eq_ok hrun
    cases hrefused
  | succ levels ih =>
    have hless : levels ≤ typeLimit := Nat.le_of_succ_le h
    exact typeWith (ih hless) (Extends.typeWithin hless)

theorem methodSig : Sound methodSig (Written .method) :=
  nestedMethod (typeWithin (Nat.le_refl _)) (Extends.refl type)

theorem localsSig : Sound localsSig (Written .locals) := localsWith (typeWithin (Nat.le_refl _))

/-- The bytes that a fresh decoder has consumed have the form. -/
theorem consumed {x : Decode α} {F : Bytes → α → Prop} (hx : Sound x F) (hexact : Exact x)
    {blob : Bytes} {a : α} {d : Decoder} (h : x (Decoder.ofBytes blob) = .ok a d) :
    F (blob.take d.cursor.position) a := by
  obtain ⟨bs, rest, count', hblob, hconsumes⟩ := hexact _ _ _ _ _ h
  have hrun := hconsumes.reads 0 rest
  rw [← hblob] at hrun
  obtain ⟨-, rfl⟩ := EStateM.Result.ok.inj (hrun.symm.trans h)
  obtain ⟨bs', hbytes, hform⟩ := hx _ _ _ h
  obtain rfl : bs' = bs := List.append_cancel_right (hbytes.symm.trans hblob)
  have htake : blob.take (0 + bs'.length) = bs' := by rw [hblob, Nat.zero_add, List.take_left]
  dsimp only
  rwa [htake]

end Sound

end Decode

end ManagedCalls
