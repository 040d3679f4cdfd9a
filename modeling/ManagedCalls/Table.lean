import ManagedCalls.Token

/-!
Metadata tables: what a coded index points into, the rows a call can reach from
a method token, and the tables of one assembly. Rows are numbered from one in
the order they were added.
-/

namespace ManagedCalls

inductive TableId where
  | module
  | typeRef
  | typeDef
  | field
  | methodDef
  | memberRef
  | standAloneSig
  | moduleRef
  | typeSpec
  | assemblyRef
  | methodSpec
  deriving DecidableEq

namespace TableId

/-- The table's tag: the high byte of its tokens. -/
def tag : TableId → Nat
  | module => 0x00
  | typeRef => 0x01
  | typeDef => 0x02
  | field => 0x04
  | methodDef => 0x06
  | memberRef => 0x0A
  | standAloneSig => 0x11
  | moduleRef => 0x1A
  | typeSpec => 0x1B
  | assemblyRef => 0x23
  | methodSpec => 0x2B

def all : List TableId :=
  [module, typeRef, typeDef, field, methodDef, memberRef, standAloneSig, moduleRef, typeSpec,
    assemblyRef, methodSpec]

def ofTag? (tag : Nat) : Option TableId := all.find? fun table => table.tag == tag

def name : TableId → String
  | module => "Module"
  | typeRef => "TypeRef"
  | typeDef => "TypeDef"
  | field => "Field"
  | methodDef => "MethodDef"
  | memberRef => "MemberRef"
  | standAloneSig => "StandAloneSig"
  | moduleRef => "ModuleRef"
  | typeSpec => "TypeSpec"
  | assemblyRef => "AssemblyRef"
  | methodSpec => "MethodSpec"

end TableId

/-- A reference into one of several tables. The row is kept whole, also where it
does not fit the three bytes a token has for it. -/
structure CodedIndex where
  table : TableId
  row : Nat
  deriving DecidableEq

def CodedIndex.token (index : CodedIndex) : Token := Token.ofParts index.table.tag index.row

structure MemberRef where
  rid : Nat
  parent : CodedIndex
  name : String
  signature : Bytes
  deriving DecidableEq

structure TypeRef where
  rid : Nat
  scope : CodedIndex
  namespaceName : String
  name : String
  deriving DecidableEq

structure AssemblyRef where
  rid : Nat
  name : String
  deriving DecidableEq

structure StandAloneSig where
  rid : Nat
  signature : Bytes
  deriving DecidableEq

def MemberRef.token (row : MemberRef) : Token := Token.ofParts TableId.memberRef.tag row.rid

def TypeRef.token (row : TypeRef) : Token := Token.ofParts TableId.typeRef.tag row.rid

def AssemblyRef.token (row : AssemblyRef) : Token := Token.ofParts TableId.assemblyRef.tag row.rid

def StandAloneSig.token (row : StandAloneSig) : Token :=
  Token.ofParts TableId.standAloneSig.tag row.rid

/-- The name with its namespace in front, or alone in the global namespace. -/
def TypeRef.fullName (row : TypeRef) : String :=
  if row.namespaceName.isEmpty then row.name else row.namespaceName ++ "." ++ row.name

structure Tables where
  memberRefs : List MemberRef := []
  typeRefs : List TypeRef := []
  assemblyRefs : List AssemblyRef := []
  standAloneSigs : List StandAloneSig := []
  deriving DecidableEq

namespace Tables

def empty : Tables := {}

/-- The row numbered `row`; there is no row zero. -/
def rowAt {α : Type} (rows : List α) : Nat → Option α
  | 0 => none
  | n + 1 => rows[n]?

/-- The number of the next row; it stops at the largest 32-bit number. -/
def nextRow {α : Type} (rows : List α) : Nat := min (rows.length + 1) (2 ^ 32 - 1)

def memberRef? (t : Tables) (row : Nat) : Option MemberRef := rowAt t.memberRefs row

def typeRef? (t : Tables) (row : Nat) : Option TypeRef := rowAt t.typeRefs row

def assemblyRef? (t : Tables) (row : Nat) : Option AssemblyRef := rowAt t.assemblyRefs row

def standAloneSig? (t : Tables) (row : Nat) : Option StandAloneSig := rowAt t.standAloneSigs row

/-- How many rows a table has; tables without rows here have none. -/
def rowCount (t : Tables) : TableId → Nat
  | .memberRef => t.memberRefs.length
  | .typeRef => t.typeRefs.length
  | .assemblyRef => t.assemblyRefs.length
  | .standAloneSig => t.standAloneSigs.length
  | _ => 0

def addMemberRef (t : Tables) (parent : CodedIndex) (name : String) (signature : Bytes) :
    Token × Tables :=
  let row : MemberRef := ⟨nextRow t.memberRefs, parent, name, signature⟩
  (row.token, { t with memberRefs := t.memberRefs ++ [row] })

def addTypeRef (t : Tables) (scope : CodedIndex) (namespaceName name : String) : Token × Tables :=
  let row : TypeRef := ⟨nextRow t.typeRefs, scope, namespaceName, name⟩
  (row.token, { t with typeRefs := t.typeRefs ++ [row] })

def addAssemblyRef (t : Tables) (name : String) : Token × Tables :=
  let row : AssemblyRef := ⟨nextRow t.assemblyRefs, name⟩
  (row.token, { t with assemblyRefs := t.assemblyRefs ++ [row] })

def addStandAloneSig (t : Tables) (signature : Bytes) : Token × Tables :=
  let row : StandAloneSig := ⟨nextRow t.standAloneSigs, signature⟩
  (row.token, { t with standAloneSigs := t.standAloneSigs ++ [row] })

end Tables

end ManagedCalls
