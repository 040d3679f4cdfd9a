import ManagedCalls.Interpreter.Instruction
import ManagedCalls.Interpreter.Script
import ManagedCalls.Signature.Decode
import ManagedCalls.Transition

/-!
The context of the interpreter. Instructions and scripts can step their thread
from inside, and the steps they make can do so again; the levels of such
re-entry are counted down.
-/

namespace ManagedCalls

/-- How signature blobs are decoded. -/
structure SignatureDecoder where
  method : Bytes → Except Fault MethodSig
  locals : Bytes → Except Fault LocalsSig

def liftBlob {α : Type} : Except BlobError α → Except Fault α
  | .ok a => .ok a
  | .error e => .error (.blob e)

namespace SignatureDecoder

def standard : SignatureDecoder :=
  ⟨fun blob => liftBlob (Decode.run Decode.methodSig blob),
    fun blob => liftBlob (Decode.run Decode.localsSig blob)⟩

def hexBytes (bs : Bytes) : String := String.join (bs.map fun b => Shown.hex 2 b.toNat)

/-- Accepts no signature. -/
def rejecting : SignatureDecoder :=
  ⟨fun blob => .error (.host ("rejected method " ++ hexBytes blob)),
    fun blob => .error (.host ("rejected locals " ++ hexBytes blob))⟩

end SignatureDecoder

namespace Interpreter

/-- How deep steps may nest: more levels than fit into memory. -/
def reentryLevels : Nat := 2 ^ 40

/-- How many transitions a step without a limit may take. -/
def patience : Nat := 2 ^ 40

def context (program : Program ScriptedCall) (config : Config) (decoder : SignatureDecoder) :
    Nat → Context ScriptedCall
  | 0 =>
    let exhausted : Act ScriptedCall Bool := throw (.unfinished reentryLevels)
    { program, config, patience
      decodeMethod := decoder.method
      decodeLocals := decoder.locals
      execute := Instruction.execute program exhausted
      poll := ScriptedCall.poll program exhausted }
  | levels + 1 =>
    let inner : Act ScriptedCall Bool := fun m => step (context program config decoder levels) m
    { program, config, patience
      decodeMethod := decoder.method
      decodeLocals := decoder.locals
      execute := Instruction.execute program inner
      poll := ScriptedCall.poll program inner }

end Interpreter

end ManagedCalls
