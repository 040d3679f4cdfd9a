import ManagedCalls.Fault

/-!
What a machine reports while it runs. Events are kept as data; their texts are
made only for those somebody wants to read.
-/

namespace ManagedCalls

inductive Level where
  | error
  | warn
  | debug
  | trace
  deriving DecidableEq

namespace Level

/-- More severe levels rank lower. -/
def rank : Level → Nat
  | error => 1
  | warn => 2
  | debug => 3
  | trace => 4

def name : Level → String
  | error => "error"
  | warn => "warn"
  | debug => "debug"
  | trace => "trace"

end Level

inductive Event where
  | registering (assembly : String)
  | requestingLoad (assembly : String)
  | catalogServes (assembly : String)
  | loadedUnderOtherName (requested produced : String)
  | calls (thread frame : Nat) (token : Token) (assembly : String) (depth : Nat)
  | entersPhase (frame : Nat) (token : Token) (phase : FramePhase)
  | resolvedBody (thread frame : Nat) (token : Token) (assembly : String)
  | resolvedMember (thread frame : Nat) (token : Token) (typeName member assembly : String)
  | resumes (thread frame : Nat) (assembly : String)
  | nativeReturned (thread consumed : Nat) (result : Option Value)
  | runsWithoutLocals (thread frame : Nat) (token : Token) (why : Fault)
  | activated (thread frame arguments locals : Nat)
  | leftBelowEntry (thread frame : Nat) (token : Token) (depth floor : Nat)
  | tornDown (thread frame : Nat) (token : Token) (released depth : Nat)
  | yieldsAfter (thread transitions : Nat)
  | abandoned (thread released : Nat)
  | spawning (thread : Nat)
  | completed (thread : Nat)
  | aborted (thread : Nat) (why : Fault)
  | cleanupFailed (thread : Nat) (why : Fault)

/-- The text of a thread's number. -/
def threadText (thread : Nat) : String := "thread-" ++ toString thread

namespace Event

@[inline] def level : Event → Level
  | aborted .. | cleanupFailed .. => .error
  | loadedUnderOtherName .. | leftBelowEntry .. => .warn
  | entersPhase .. | nativeReturned .. | yieldsAfter .. => .trace
  | _ => .debug

/-- The beginning of the lines about a frame. -/
def about (thread frame : Nat) : String :=
  threadText thread ++ " frame " ++ Fault.frameText frame

def text : Event → String
  | registering assembly => s!"Registering assembly '{assembly}'"
  | requestingLoad assembly => s!"Requesting load of assembly '{assembly}'"
  | catalogServes assembly => s!"Catalog serves assembly '{assembly}'"
  | loadedUnderOtherName requested produced =>
    s!"Load of '{requested}' produced assembly '{produced}'"
  | calls thread frame token assembly depth =>
    about thread frame ++ s!" calls {token} in '{assembly}' at depth {depth}"
  | entersPhase frame token phase =>
    "frame " ++ Fault.frameText frame ++ s!" {token} in " ++ phase.name
  | resolvedBody thread frame token assembly =>
    about thread frame ++ s!" resolved {token} to a body in '{assembly}'"
  | resolvedMember thread frame token typeName member assembly =>
    about thread frame ++ s!" resolved {token} to {typeName}::{member} in '{assembly}'"
  | resumes thread frame assembly =>
    about thread frame ++ s!" resumes, assembly '{assembly}' is loaded"
  | nativeReturned thread consumed result =>
    threadText thread ++ s!" native call consumed {consumed} values, returned " ++
      Shown.option (result.map Value.shown)
  | runsWithoutLocals thread frame token why =>
    about thread frame ++ s!" runs without locals, {token} unreadable: " ++ why.inContext
  | activated thread frame arguments locals =>
    about thread frame ++ s!" activated with {arguments} arguments, {locals} locals"
  | leftBelowEntry thread frame token depth floor =>
    about thread frame ++ s!" ({token}) left the operand stack at depth {depth}, " ++
      s!"below its entry depth {floor}"
  | tornDown thread frame token released depth =>
    about thread frame ++ s!" ({token}) torn down, released {released} values, depth {depth}"
  | yieldsAfter thread transitions =>
    threadText thread ++ s!" yields after {transitions} transitions"
  | abandoned thread released =>
    threadText thread ++ s!" abandoned, released {released} values"
  | spawning thread => "Spawning " ++ threadText thread
  | completed thread => threadText thread ++ " completed"
  | aborted thread why => threadText thread ++ " aborted: " ++ why.inContext
  | cleanupFailed thread why => threadText thread ++ " cleanup failed: " ++ why.inContext

def line (e : Event) : String := e.level.name ++ ": " ++ e.text

end Event

/-- The events at a level or more severe, the newest first. -/
structure Log where
  level : Level
  events : List Event

namespace Log

def empty (level : Level) : Log := ⟨level, []⟩

@[inline] def add (log : Log) (e : Event) : Log :=
  if e.level.rank ≤ log.level.rank then { log with events := e :: log.events } else log

def addAll (log : Log) (es : List Event) : Log := es.foldl add log

def lines (log : Log) : List String := log.events.reverse.map Event.line

end Log

end ManagedCalls
