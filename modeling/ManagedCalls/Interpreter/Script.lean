import ManagedCalls.Machine

/-!
Native members given by data: functions from a fixed collection, and scripts,
which list what each poll of a call does.
-/

namespace ManagedCalls

/-- The collection of host functions. -/
inductive Builtin where
  | void
  | constant (v : Value)
  | count
  | first
  | last
  | max
  | sum
  | failing
  deriving DecidableEq

namespace Builtin

def integers (vs : List Value) : Except Fault (List Int64) :=
  match vs.mapM Value.toInt64? with
  | some ns => .ok ns
  | none => .error (.host "integers expected")

def largest : Int64 → List Int64 → Int64
  | m, [] => m
  | m, n :: rest => largest (if m < n then n else m) rest

def function : Builtin → NativeFunction
  | void, _ => .ok none
  | constant v, _ => .ok (some v)
  | count, vs => .ok (some (.int32 (Int32.ofNat vs.length)))
  | first, vs => .ok vs.head?
  | last, vs => .ok vs.getLast?
  | max, vs =>
    (integers vs).map fun
      | [] => none
      | n :: rest => some (.int32 (largest n rest).toInt32)
  | sum, vs => (integers vs).map fun ns => some (.int64 (ns.foldl (· + ·) 0))
  | failing, _ => .error (.host "native failure")

end Builtin

inductive ScriptAction where
  | pending
  | complete
  | popArguments
  | pop (count : Nat)
  | push (v : Value)
  | call (assembly : Nat) (token : Token)
  | ret
  | step
  | abandon
  | fail (message : String)
  deriving DecidableEq

/-- A scripted call: the actions of each poll, the last of which repeats. -/
structure ScriptedCall where
  polls : List (List ScriptAction)
  argumentCount : Nat
  polled : Nat
  deriving DecidableEq

namespace ScriptedCall

def actions (c : ScriptedCall) : List ScriptAction :=
  (c.polls[min c.polled (c.polls.length - 1)]?).getD []

/-- Runs the actions of a poll until one ends it. `reenterStep` steps the thread
from inside. -/
def run (program : Program ScriptedCall) (reenterStep : Act ScriptedCall Bool)
    (argumentCount : Nat) : List ScriptAction → Act ScriptedCall NativeStatus
  | [] => pure .complete
  | action :: rest => do
    let goOn := run program reenterStep argumentCount rest
    match action with
    | .pending => pure .pending
    | .complete => pure .complete
    | .popArguments =>
      let _ ← Act.popValues argumentCount
      goOn
    | .pop count =>
      let _ ← Act.popValues count
      goOn
    | .push v =>
      Act.push v
      goOn
    | .call assembly token =>
      let _ ← Act.call program assembly token
      goOn
    | .ret =>
      Act.returnFromFrame
      goOn
    | .step =>
      let live ← reenterStep
      Act.push (.int32 (if live then 1 else 0))
      goOn
    | .abandon =>
      let _ ← Act.abandon
      goOn
    | .fail message => throw (.host message)

/-- One poll. The call moves on to its next poll also if this one fails. -/
def poll (program : Program ScriptedCall) (reenterStep : Act ScriptedCall Bool)
    (c : ScriptedCall) (m : Machine ScriptedCall) :
    Except Fault NativeStatus × ScriptedCall × Machine ScriptedCall :=
  let next := { c with polled := c.polled + 1 }
  match run program reenterStep c.argumentCount c.actions m with
  | .ok status m' => (.ok status, next, m')
  | .error e m' => (.error e, next, m')

/-- The library entry of a script. -/
def entry (polls : List (List ScriptAction)) : NativeEntry ScriptedCall :=
  .factory fun signature => .ok ⟨polls, signature.argumentCount, 0⟩

/-- The library entry of a member whose calls cannot be made. -/
def failingEntry (message : String) : NativeEntry ScriptedCall :=
  .factory fun _ => .error (.host message)

end ScriptedCall

end ManagedCalls
