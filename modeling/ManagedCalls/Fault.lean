import ManagedCalls.Signature.Text
import ManagedCalls.Value

/-!
Everything that can go wrong, as causes, with one text for each.
-/

namespace ManagedCalls

/-- The role of a slot: an argument or a local variable of its frame. -/
inductive SlotRole where
  | argument
  | localVar
  deriving DecidableEq

namespace SlotRole

def word : SlotRole → String
  | argument => "argument"
  | localVar => "local"

def name : SlotRole → String
  | argument => "Argument"
  | localVar => "Local"

end SlotRole

/-- The phases of a call frame. -/
inductive FramePhase where
  | resolve
  | awaitAssembly
  | assemblyResolved
  | bodySetup
  | nativeExec
  | interpretedExec
  | teardown
  deriving DecidableEq

def FramePhase.name : FramePhase → String
  | resolve => "Resolve"
  | awaitAssembly => "AwaitAssembly"
  | assemblyResolved => "AssemblyResolved"
  | bodySetup => "BodySetup"
  | nativeExec => "NativeExec"
  | interpretedExec => "InterpretedExec"
  | teardown => "Teardown"

/-- What a frame lacks for the phase it is in. -/
inductive FramePart where
  | executingAssembly
  | resolvedMember
  | nativeCall
  | methodBody
  deriving DecidableEq

def FramePart.words : FramePart → String
  | executingAssembly => "executing assembly"
  | resolvedMember => "resolved member"
  | nativeCall => "native call"
  | methodBody => "method body"

inductive Fault where
  | blob (e : BlobError)
  /-- A failure of the host, in its own words. -/
  | host (message : String)
  | unsupportedTokenTable (token : Token) (frame : Nat)
  | unsupportedParent (token parent : Token) (frame : Nat)
  | unsupportedScope (token typeRef scope : Token) (frame : Nat)
  | noNativeLibrary (token : Token) (assembly : String) (frame : Nat)
  | nativeMethodNotFound (method : String)
  | missingMethodBody (token : Token)
  | missingRow (token : Token)
  | incompleteFrame (frame : Nat) (missing : FramePart)
  | stackUnderflow (needed available : Nat)
  | assemblyNotFound (name : String)
  | assemblyLoadFailed (name reason : String)
  | callDepthExceeded (depth limit : Nat)
  | poolLimitExceeded (requested current limit : Nat)
  | invalidHandle (handle : Nat)
  | unsizedType (type : TypeSig)
  | typeMismatch (expected : TypeSig) (value : Value)
  | uninitializedSlot (frame : Nat) (role : SlotRole) (index : Nat)
  | slotOutOfRange (frame : Nat) (role : SlotRole) (index count : Nat)
  | invalidPhase (frame : Nat) (expected actual : FramePhase)
  | emptyCallStack
  /-- An unlimited step did not come to rest within the transitions granted. -/
  | unfinished (transitions : Nat)

def Malformation.message : Malformation → String
  | compressedUInt lead => "Invalid compressed uint - " ++ toString lead.toNat
  | compressedToken number => "Invalid compressed token - " ++ toString number
  | elementType code => "Unsupported ELEMENT_TYPE - " ++ toString code.toNat
  | genericBase code =>
    "GENERICINST - Next byte is not TYPE_CLASS or TYPE_VALUE - " ++ toString code.toNat
  | localsHead head => "SignatureLocalVar - invalid start - " ++ toString head.toNat
  | fatHeaderSize size => "Fat method header too small - " ++ toString size ++ " bytes"
  | headerFormat head => "Invalid method header format - " ++ toString head.toNat

namespace BlobError

def kind : BlobError → String
  | malformed _ => "Malformed"
  | outOfBounds => "OutOfBounds"
  | recursionLimit _ => "RecursionLimit"

def message : BlobError → String
  | malformed why => why.message
  | outOfBounds => "Out of Bound read would have occurred!"
  | recursionLimit limit => "Reach the maximum recursion level allowed - " ++ toString limit

/-- The text inside another message; there a malformed blob is said to be one. -/
def inContext : BlobError → String
  | malformed why => "Malformed: " ++ why.message
  | e => e.message

end BlobError

namespace Fault

def kind : Fault → String
  | blob e => e.kind
  | host _ => "Error"
  | unsupportedTokenTable .. => "UnsupportedTokenTable"
  | unsupportedParent .. => "UnsupportedClassReference"
  | unsupportedScope .. => "UnsupportedResolutionScope"
  | noNativeLibrary .. => "UnresolvedNativeDispatch"
  | nativeMethodNotFound _ => "NativeMethodNotFound"
  | missingMethodBody _ => "MissingMethodBody"
  | missingRow _ => "MissingMetadataRow"
  | incompleteFrame .. => "IncompleteFrame"
  | stackUnderflow .. => "OperandStackUnderflow"
  | assemblyNotFound _ => "AssemblyNotFound"
  | assemblyLoadFailed .. => "AssemblyLoadFailed"
  | callDepthExceeded .. => "CallDepthExceeded"
  | poolLimitExceeded .. => "PoolMemoryLimitExceeded"
  | invalidHandle _ => "InvalidPoolHandle"
  | unsizedType _ => "UnsizedPoolType"
  | typeMismatch .. => "ValueTypeMismatch"
  | uninitializedSlot .. => "UninitializedSlot"
  | slotOutOfRange .. => "SlotOutOfRange"
  | invalidPhase .. => "InvalidFrameState"
  | emptyCallStack => "EmptyCallStack"
  | unfinished _ => "Unfinished"

/-- The text of a frame's number. -/
def frameText (frame : Nat) : String := "#" ++ toString frame

/-- The text of a pool handle. -/
def handleText (handle : Nat) : String := "pool#" ++ toString handle

def message : Fault → String
  | blob e => e.message
  | host text => text
  | unsupportedTokenTable token frame =>
    s!"Invalid method token {token}: table 0x" ++ Shown.hex 2 token.table ++
      " cannot be invoked (frame " ++ frameText frame ++ ")"
  | unsupportedParent token parent frame =>
    s!"MemberRef {token} has parent {parent}, only TypeRef parents are supported (frame " ++
      frameText frame ++ ")"
  | unsupportedScope token typeRef scope frame =>
    s!"TypeRef {typeRef} of {token} has resolution scope {scope}, " ++
      "only AssemblyRef scopes are supported (frame " ++ frameText frame ++ ")"
  | noNativeLibrary token assembly frame =>
    s!"Cannot dispatch {token} into assembly '{assembly}': no native bridge (frame " ++
      frameText frame ++ ")"
  | nativeMethodNotFound method => s!"Native method '{method}' is not implemented"
  | missingMethodBody token => s!"No method body for {token}"
  | missingRow token => s!"Metadata row {token} does not exist"
  | incompleteFrame frame missing => "Frame " ++ frameText frame ++ " has no " ++ missing.words
  | stackUnderflow needed available =>
    s!"Operand stack underflow: needed {needed} values, {available} available"
  | assemblyNotFound name => s!"Assembly '{name}' is not loaded and no loader is configured"
  | assemblyLoadFailed name reason => s!"Loading assembly '{name}' failed: {reason}"
  | callDepthExceeded depth limit => s!"Call depth {depth} exceeds the limit of {limit}"
  | poolLimitExceeded requested current limit =>
    s!"Value pool limit exceeded: {requested} bytes requested, {current} of {limit} in use"
  | invalidHandle handle => "Invalid pool handle " ++ handleText handle
  | unsizedType type => "Type " ++ type.shown ++ " has no static size"
  | typeMismatch expected value =>
    "Cannot store " ++ value.shown ++ " into storage of type " ++ expected.shown
  | uninitializedSlot frame role index =>
    role.word ++ s!" {index} of frame " ++ frameText frame ++ " is uninitialized"
  | slotOutOfRange frame role index count =>
    role.word ++ s!" {index} of frame " ++ frameText frame ++ s!" is out of range ({count} slots)"
  | invalidPhase frame expected actual =>
    "Frame " ++ frameText frame ++ " is in state " ++ actual.name ++ ", expected " ++ expected.name
  | emptyCallStack => "The call stack is empty"
  | unfinished transitions => s!"The step did not come to rest in {transitions} transitions"

/-- The text inside a log line. -/
def inContext : Fault → String
  | blob e => e.inContext
  | fault => fault.message

end Fault

end ManagedCalls
