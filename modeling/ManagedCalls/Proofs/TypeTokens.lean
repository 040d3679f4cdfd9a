import ManagedCalls.Proofs.SignatureForms
import Mathlib.Data.List.Forall2

/-!
The tokens of types in decoded signatures. A token is written as a number whose two low
bits choose one of three tables and whose other bits are the row. A token has room for
rows of 24 bits; a number may have 27 bits for the row, and what is too much is added
to the table. So a token names a type by its number if and only if the row has room, and
signatures are accepted that name types by tokens of other tables.
-/

namespace ManagedCalls

open Stateful

namespace Token

/-- The token is the row that a number gives in the table that the number chooses. -/
def NamesType (t : Token) (n : Nat) : Prop :=
  ∃ table, TypeTable.ofCode? (n % 4) = some table ∧ t.table = table.tag ∧ t.row = n / 4

/-- The token has the row of a number as far as there is room for it, and the rest of the
row is added to its table. -/
def Carries (t : Token) (n : Nat) : Prop :=
  ∃ table, TypeTable.ofCode? (n % 4) = some table ∧ t.table = table.tag + n / 2 ^ 26 ∧
    t.row = n / 4 % 2 ^ 24

theorem carries_of_ofCompressed? {t : Token} {n : Nat} (h : ofCompressed? n = some t)
    (hn : n < 2 ^ 29) : t.Carries n := by
  obtain ⟨table, htable, rfl⟩ := Option.map_eq_some_iff.mp h
  have htag : table.tag ≤ 0x1B := by
    cases table with
    | typeDef => decide
    | typeRef => decide
    | typeSpec => decide
  have hvalue : (ofNat (table.tag * 2 ^ 24 + n / 4)).value.toNat = table.tag * 2 ^ 24 + n / 4 := by
    rw [ofNat, UInt32.toNat_ofNat']
    omega
  refine ⟨table, htable, ?_, ?_⟩
  · rw [Token.table, hvalue]
    omega
  · rw [row, hvalue]
    omega

theorem Carries.namesType_iff {t : Token} {n : Nat} (h : t.Carries n) :
    t.NamesType n ↔ n < 2 ^ 26 := by
  obtain ⟨table, htable, htag, hrow⟩ := h
  constructor
  · rintro ⟨-, -, -, hwhole⟩
    omega
  · intro hn
    exact ⟨table, htable, by omega, by omega⟩

end Token

/-- The tokens are written as the numbers, in this order. -/
abbrev WrittenAs (ts : List Token) (ns : List Nat) : Prop := List.Forall₂ Token.Carries ts ns

theorem IsToken.carries {bs : Bytes} {n : Nat} {t : Token} (h : IsToken bs n t) : t.Carries n :=
  Token.carries_of_ofCompressed? h.2 h.1.lt

def Piece.tokens (p : Piece) : List Token := p.parts.filterMap SigPart.token?

theorem Piece.tokens_append {p : Piece} {first rest : List SigPart} (h : p.parts = first ++ rest) :
    p.tokens = first.filterMap SigPart.token? ++ rest.filterMap SigPart.token? := by
  rw [tokens, h, List.filterMap_append]

theorem Piece.tokens_method (m : MethodSig) :
    (method m).tokens =
      (param m.returnType).tokens ++ ((params m.params).tokens ++ (params m.varargs).tokens) := by
  simp only [tokens, parts, m.parts_eq, List.filterMap_cons, SigPart.token?, List.filterMap_append]

/-- The numbers of a form are those that its tokens are written as. -/
theorem Form.writtenAs {bs : Bytes} {p : Piece} {ns : List Nat} (h : Form bs p ns) :
    WrittenAs p.tokens ns := by
  induction h with
  | noFront => exact .nil
  | modifier hcode htoken hrest ih => exact .cons htoken.carries ih
  | pin hrest ih => exact ih
  | simple hcode =>
    have hnone : (Piece.type _).parts = [] := TypeSig.parts_of_simpleType? hcode
    rw [Piece.tokens, hnone]
    exact .nil
  | pointer hfront ht _ ih => exact ih
  | vector hfront ht _ ih => exact ih
  | byRef ht ih => exact ih
  | pinned ht ih => exact ih
  | valueType htoken => exact .cons htoken.carries .nil
  | classType htoken => exact .cons htoken.carries .nil
  | typeParameter hn => exact .nil
  | methodParameter hn => exact .nil
  | array ht hshape ih => exact ih
  | genericInst hg hcount hargs ihg ihargs =>
    rw [Piece.tokens_append rfl]
    exact List.rel_append ihg ihargs
  | functionPointer hmethod ih => exact ih
  | noType => exact .nil
  | types ht hts iht ihts =>
    rw [Piece.tokens_append rfl]
    exact List.rel_append iht ihts
  | param hfront ht ihfront iht =>
    rw [Piece.tokens_append rfl]
    exact List.rel_append ihfront iht
  | noParam => exact .nil
  | params hp hps ihp ihps =>
    rw [Piece.tokens_append rfl]
    exact List.rel_append ihp ihps
  | method _ _ _ _ _ _ _ _ _ ihreturn ihfixed ihextra =>
    rw [Piece.tokens_method]
    exact List.rel_append ihreturn (List.rel_append ihfixed ihextra)
  | typedRef => exact .nil
  | localVar hfront ht ihfront iht =>
    rw [Piece.tokens_append rfl]
    exact List.rel_append ihfront iht
  | noLocal => exact .nil
  | localVars hl hls ihl ihls =>
    rw [Piece.tokens_append rfl]
    exact List.rel_append ihl ihls
  | locals hcount hls ih => exact ih

namespace Decode

/-- Whatever blob a signature is decoded from, every token in it, at any depth, is written
in the bytes as a number. The token has the table and the row of the number if and only if
the number is less than `2 ^ 26`; else it has what is left of the row, and the rest of it
is added to the table. -/
theorem tokens_carry_rows (blob : Bytes) :
    (∀ m d, methodSig (Decoder.ofBytes blob) = .ok m d →
      ∃ ns, Form (blob.take d.cursor.position) (.method m) ns ∧ WrittenAs m.tokens ns ∧
        List.Forall₂ (fun t n => t.NamesType n ↔ n < 2 ^ 26) m.tokens ns) ∧
    (∀ ls d, localsSig (Decoder.ofBytes blob) = .ok ls d →
      ∃ ns, Form (blob.take d.cursor.position) (.locals ls) ns ∧ WrittenAs ls.tokens ns ∧
        List.Forall₂ (fun t n => t.NamesType n ↔ n < 2 ^ 26) ls.tokens ns) := by
  constructor
  · intro m d h
    obtain ⟨ns, hform⟩ := Sound.methodSig.consumed Exact.methodSig h
    exact ⟨ns, hform, hform.writtenAs, hform.writtenAs.imp fun _ _ => Token.Carries.namesType_iff⟩
  · intro ls d h
    obtain ⟨ns, hform⟩ := Sound.localsSig.consumed Exact.localsSig h
    exact ⟨ns, hform, hform.writtenAs, hform.writtenAs.imp fun _ _ => Token.Carries.namesType_iff⟩

/-- A method that returns an instance of a class and has a modified value type for its
parameter. -/
def objectMethodBlob : Bytes := [0x00, 0x01, 0x12, 0x15, 0x1F, 0x08, 0x11, 0x0A]

def objectMethod : MethodSig :=
  ⟨false, false, false, 0, 1, ⟨[], false, .classType (.ofParts 0x01 5)⟩,
    [⟨[.ofParts 0x02 2], false, .valueType (.ofParts 0x1B 2)⟩], []⟩

/-- A pinned local that refers to an instance of a class. -/
def objectLocalBlob : Bytes := [0x07, 0x01, 0x45, 0x10, 0x12, 0x80, 0x81]

def objectLocal : LocalsSig := [⟨[], true, true, .classType (.ofParts 0x01 32)⟩]

theorem tokens_carry_rows_of_objects :
    (methodSig (Decoder.ofBytes objectMethodBlob) = .ok objectMethod ⟨⟨8, []⟩, 2⟩ ∧
      ∃ ns, Form objectMethodBlob (.method objectMethod) ns ∧
        WrittenAs [.ofParts 0x01 5, .ofParts 0x02 2, .ofParts 0x1B 2] ns) ∧
    (localsSig (Decoder.ofBytes objectLocalBlob) = .ok objectLocal ⟨⟨7, []⟩, 1⟩ ∧
      ∃ ns, Form objectLocalBlob (.locals objectLocal) ns ∧ WrittenAs [.ofParts 0x01 32] ns) := by
  have hmethod : methodSig (Decoder.ofBytes objectMethodBlob) = .ok objectMethod ⟨⟨8, []⟩, 2⟩ := by
    rfl
  have hlocal : localsSig (Decoder.ofBytes objectLocalBlob) = .ok objectLocal ⟨⟨7, []⟩, 1⟩ := by
    rfl
  obtain ⟨ns, hform, hwritten, -⟩ := (tokens_carry_rows objectMethodBlob).1 _ _ hmethod
  obtain ⟨ns', hform', hwritten', -⟩ := (tokens_carry_rows objectLocalBlob).2 _ _ hlocal
  exact ⟨⟨hmethod, ns, hform, hwritten⟩, hlocal, ns', hform', hwritten'⟩

/-- A method that returns an instance of a class. The number of its token has the code of
type definitions and a row with no room in a token. -/
def farRowBlob : Bytes := [0x00, 0x00, 0x12, 0xD0, 0x00, 0x00, 0x04]

/-- A signature is accepted in which a class has the token of a method. -/
theorem class_with_method_token :
    ∃ m d, methodSig (Decoder.ofBytes farRowBlob) = .ok m d ∧
      m.tokens = [.ofParts 0x06 1] ∧ (Token.ofParts 0x06 1).kind = .methodDef 1 ∧
        ∀ t ∈ m.tokens, ∀ n, ¬ t.NamesType n := by
  refine ⟨⟨false, false, false, 0, 0, ⟨[], false, .classType (.ofParts 0x06 1)⟩, [], []⟩,
    ⟨⟨7, []⟩, 1⟩, rfl, rfl, by decide, ?_⟩
  intro t ht n hnames
  obtain rfl : t = .ofParts 0x06 1 := List.mem_singleton.mp ht
  obtain ⟨table, -, htag, -⟩ := hnames
  cases table with
  | typeDef => exact absurd htag (by decide)
  | typeRef => exact absurd htag (by decide)
  | typeSpec => exact absurd htag (by decide)

end Decode

end ManagedCalls
