import ManagedCalls.Blob.Compressed
import ManagedCalls.Text.Shown

/-!
A token names a metadata row: its high byte is the tag of the table, its low
three bytes are the row, counted from one. Tokens inside signatures are written
compressed, with two bits for one of three type tables.
-/

namespace ManagedCalls

structure Token where
  value : UInt32
  deriving DecidableEq

/-- What a token means to a call. -/
inductive TokenKind where
  | methodDef (row : Nat)
  | memberRef (row : Nat)
  | typeRef (row : Nat)
  | assemblyRef (row : Nat)
  | unsupported (table row : Nat)
  deriving DecidableEq

namespace Token

def null : Token := ⟨0⟩

def ofNat (n : Nat) : Token := ⟨UInt32.ofNat n⟩

/-- Only the low three bytes of `row` are kept. -/
def ofParts (table row : Nat) : Token := ofNat (table % 2 ^ 8 * 2 ^ 24 + row % 2 ^ 24)

def table (t : Token) : Nat := t.value.toNat / 2 ^ 24

def row (t : Token) : Nat := t.value.toNat % 2 ^ 24

theorem table_ofParts {table : Nat} (h : table < 2 ^ 8) (row : Nat) :
    (ofParts table row).table = table := by
  have hrow : row % 2 ^ 24 < 2 ^ 24 := Nat.mod_lt _ (by decide)
  rw [Token.table, ofParts, ofNat, UInt32.toNat_ofNat']
  omega

theorem row_ofParts (table : Nat) {row : Nat} (h : row < 2 ^ 24) :
    (ofParts table row).row = row := by
  rw [Token.row, ofParts, ofNat, UInt32.toNat_ofNat']
  omega

def isNull (t : Token) : Bool := t.value == 0

def kind (t : Token) : TokenKind :=
  if t.table = 0x06 then .methodDef t.row
  else if t.table = 0x0A then .memberRef t.row
  else if t.table = 0x01 then .typeRef t.row
  else if t.table = 0x23 then .assemblyRef t.row
  else .unsupported t.table t.row

/-- Tokens are ordered by table, then by row. -/
instance : Ord Token where
  compare a b := compare a.value b.value

instance : ToString Token where
  toString t := "0x" ++ Shown.hex 8 t.value.toNat

def shown (t : Token) : String :=
  "Token(" ++ toString t ++ ", table: 0x" ++ Shown.hex 2 t.table ++ ", row: " ++
    toString t.row ++ ")"

end Token

namespace TokenKind

def row : TokenKind → Nat
  | methodDef r | memberRef r | typeRef r | assemblyRef r | unsupported _ r => r

def name : TokenKind → String
  | methodDef _ => "MethodDef"
  | memberRef _ => "MemberRef"
  | typeRef _ => "TypeRef"
  | assemblyRef _ => "AssemblyRef"
  | unsupported _ _ => "Unsupported"

def shown : TokenKind → String
  | unsupported table row =>
    Shown.record "Unsupported" [("table", toString table), ("row", toString row)]
  | k => Shown.tuple k.name [toString k.row]

end TokenKind

/-- The tables a compressed token can point into. -/
inductive TypeTable where
  | typeDef
  | typeRef
  | typeSpec
  deriving DecidableEq

namespace TypeTable

def tag : TypeTable → Nat
  | typeDef => 0x02
  | typeRef => 0x01
  | typeSpec => 0x1B

/-- The two low bits of a compressed token. -/
def code : TypeTable → Nat
  | typeDef => 0
  | typeRef => 1
  | typeSpec => 2

def ofCode? : Nat → Option TypeTable
  | 0 => some typeDef
  | 1 => some typeRef
  | 2 => some typeSpec
  | _ => none

end TypeTable

namespace Read

/-- A compressed token: table code in the low two bits, row above them. A row of
more than three bytes carries into the table byte. -/
def compressedToken : Read Token := do
  let n ← compressedUInt
  match TypeTable.ofCode? (n % 4) with
  | some table => pure (Token.ofNat (table.tag * 2 ^ 24 + n / 4))
  | none => throw (.malformed (.compressedToken n))

end Read

end ManagedCalls
