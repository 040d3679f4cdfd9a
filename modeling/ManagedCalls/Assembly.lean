import ManagedCalls.Fault
import ManagedCalls.Method
import ManagedCalls.Table

/-!
Assemblies: metadata tables, method bodies by token and, where the host
implements members, a native library. `κ` is the host's own kind of native call.
Assemblies refer to each other by number.
-/

namespace ManagedCalls

/-- A host function: arguments in declaration order to the result, if any. -/
abbrev NativeFunction := List Value → Except Fault (Option Value)

/-- How the host implements a member: by a function that is done at once, or by
calls of its own making. -/
inductive NativeEntry (κ : Type) where
  | function (run : NativeFunction)
  | factory (make : MethodSig → Except Fault κ)

/-- A native call in flight. -/
inductive NativeCall (κ : Type) where
  | function (run : NativeFunction) (argumentCount : Nat)
  | custom (call : κ)

inductive NativeStatus where
  | pending
  | complete
  deriving DecidableEq

/-- Members implemented by the host, by type and member name. -/
structure NativeLibrary (κ : Type) where
  entries : List (String × NativeEntry κ)

namespace NativeLibrary

variable {κ : Type}

def empty : NativeLibrary κ := ⟨[]⟩

def key (typeName member : String) : String := typeName ++ "::" ++ member

def find? (lib : NativeLibrary κ) (typeName member : String) : Option (NativeEntry κ) :=
  lib.entries.lookup (key typeName member)

/-- Adds a member; an earlier one of the same names is replaced. -/
def register (lib : NativeLibrary κ) (typeName member : String) (entry : NativeEntry κ) :
    NativeLibrary κ :=
  let k := key typeName member
  ⟨(k, entry) :: lib.entries.filter fun e => e.1 != k⟩

def contains (lib : NativeLibrary κ) (typeName member : String) : Bool :=
  (lib.find? typeName member).isSome

def size (lib : NativeLibrary κ) : Nat := lib.entries.length

/-- The call of a member with the given signature. -/
def createCall (lib : NativeLibrary κ) (typeRef : TypeRef) (member : MemberRef)
    (signature : MethodSig) : Except Fault (NativeCall κ) :=
  match lib.find? typeRef.fullName member.name with
  | none => .error (.nativeMethodNotFound (key typeRef.fullName member.name))
  | some (.function run) => .ok (.function run signature.argumentCount)
  | some (.factory make) => (make signature).map .custom

/-- The text of a library: its members in order. -/
def shown (lib : NativeLibrary κ) : String :=
  let members := (lib.entries.map Prod.fst).mergeSort fun a b => decide (a ≤ b)
  Shown.record "NativeLibrary" [("members", Shown.list (members.map Shown.quoted))]

end NativeLibrary

structure Assembly (κ : Type) where
  name : String
  tables : Tables
  methods : List MethodBody
  native : Option (NativeLibrary κ)

namespace Assembly

variable {κ : Type}

def body? (a : Assembly κ) (token : Token) : Option MethodBody :=
  a.methods.find? fun body => body.token == token

def body (a : Assembly κ) (token : Token) : Except Fault MethodBody :=
  match a.body? token with
  | some body => .ok body
  | none => .error (.missingMethodBody token)

/-- The bodies by rising token. -/
def bodiesInOrder (a : Assembly κ) : List MethodBody :=
  a.methods.mergeSort fun x y => decide (x.token.value ≤ y.token.value)

def shown (a : Assembly κ) : String :=
  Shown.partialRecord "Assembly"
    [("name", Shown.quoted a.name), ("methods", toString a.methods.length),
      ("native", Shown.bool a.native.isSome)]

end Assembly

/-- An assembly being put together. Bodies are kept in the order they were added. -/
structure AssemblyBuilder (κ : Type) where
  name : String
  tables : Tables
  bodies : List MethodBody
  native : Option (NativeLibrary κ)

namespace AssemblyBuilder

variable {κ : Type}

def new (name : String) : AssemblyBuilder κ := ⟨name, Tables.empty, [], none⟩

def withTables (b : AssemblyBuilder κ) (tables : Tables) : AssemblyBuilder κ := { b with tables }

def assemblyRef (b : AssemblyBuilder κ) (name : String) : AssemblyBuilder κ :=
  { b with tables := (b.tables.addAssemblyRef name).2 }

def typeRef (b : AssemblyBuilder κ) (scope : CodedIndex) (namespaceName name : String) :
    AssemblyBuilder κ :=
  { b with tables := (b.tables.addTypeRef scope namespaceName name).2 }

def memberRef (b : AssemblyBuilder κ) (parent : CodedIndex) (name : String) (signature : Bytes) :
    AssemblyBuilder κ :=
  { b with tables := (b.tables.addMemberRef parent name signature).2 }

def standAloneSig (b : AssemblyBuilder κ) (signature : Bytes) : AssemblyBuilder κ :=
  { b with tables := (b.tables.addStandAloneSig signature).2 }

/-- The stack depth of bodies that come without a header. -/
def defaultMaxStack : Nat := 8

/-- Adds a body under the token whose row is the number of bodies so far plus one. -/
def methodDef (b : AssemblyBuilder κ) (signature : Bytes) (flags : Nat) (localsToken : Token)
    (code : Bytes) : AssemblyBuilder κ :=
  let row := min (b.bodies.length + 1) (2 ^ 32 - 1)
  let token := Token.ofParts TableId.methodDef.tag row
  { b with bodies := b.bodies ++ [⟨token, signature, localsToken, flags, defaultMaxStack, code⟩] }

/-- Adds a body under the token it has. -/
def method (b : AssemblyBuilder κ) (body : MethodBody) : AssemblyBuilder κ :=
  { b with bodies := b.bodies ++ [body] }

def withNative (b : AssemblyBuilder κ) (lib : NativeLibrary κ) : AssemblyBuilder κ :=
  { b with native := some lib }

/-- A body takes the place of an earlier one with the same token. -/
def insertBody (methods : List MethodBody) (body : MethodBody) : List MethodBody :=
  body :: methods.filter fun m => m.token != body.token

def build (b : AssemblyBuilder κ) : Assembly κ :=
  ⟨b.name, b.tables, b.bodies.foldl insertBody [], b.native⟩

end AssemblyBuilder

/-- All assemblies of a machine, by number. -/
abbrev Program (κ : Type) := List (Assembly κ)

/-- The assembly with a number; a number without one stands for an empty assembly. -/
def Program.assembly {κ : Type} (program : Program κ) (number : Nat) : Assembly κ :=
  (program[number]?).getD ⟨"", Tables.empty, [], none⟩

end ManagedCalls
