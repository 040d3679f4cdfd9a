import ManagedCalls.Interpreter.Context
import ManagedCalls.Thread.Text

/-!
A session: an interpreter with a scheduler, the threads that were not given to
the scheduler yet, and the tickets a user has seen, in the order they were seen.
-/

namespace ManagedCalls

/-- Where unregistered assemblies come from. -/
inductive LoaderKind where
  | none
  | catalog
  | deferred
  deriving DecidableEq

structure Session where
  context : Context ScriptedCall
  world : World ScriptedCall
  threads : List (Thread ScriptedCall)
  loader : LoaderKind
  catalog : NameMap Nat
  seen : List Nat

namespace Session

def loaderOf (kind : LoaderKind) (catalog : NameMap Nat) : Option Loader :=
  match kind with
  | .none => Option.none
  | .catalog => some (Loader.ofCatalog catalog)
  | .deferred => some Loader.deferred

def new (program : Program ScriptedCall) (config : Config) (decoder : SignatureDecoder)
    (loader : LoaderKind) (served : List Nat) (level : Level) : Session :=
  let catalog := served.foldl (fun c n => NameMap.insert c (program.assembly n).name n) []
  { context := Interpreter.context program config decoder Interpreter.reentryLevels
    world :=
      { scheduler := Scheduler.empty
        domain := Domain.empty config.maxPoolBytes (loaderOf loader catalog)
        log := Log.empty level }
    threads := []
    loader, catalog
    seen := [] }

def domain (s : Session) : Domain := s.world.domain

def nameOf (s : Session) (assembly : Nat) : String := (s.context.program.assembly assembly).name

def setDomain (s : Session) (d : Domain) (events : List Event) : Session :=
  { s with world := { s.world with domain := d, log := s.world.log.addAll events } }

/-- The lines logged since the last call. -/
def takeLog (s : Session) : List String × Session :=
  (s.world.log.lines, { s with world := { s.world with log := Log.empty s.world.log.level } })

def thread? (s : Session) (id : Nat) : Option (Thread ScriptedCall) :=
  s.threads.find? fun t => t.id == id

def removeThread (s : Session) (id : Nat) : Session :=
  { s with threads := s.threads.filter fun t => t.id != id }

def putThread (s : Session) (t : Thread ScriptedCall) : Session :=
  { s with threads := t :: (s.removeThread t.id).threads }

def newThread (s : Session) (id : Nat) : Session := s.putThread (Thread.new id)

/-- Acts on a thread of the session. -/
def act {α : Type} (s : Session) (t : Thread ScriptedCall) (action : Act ScriptedCall α) :
    Except Fault α × Session :=
  let after (m : Machine ScriptedCall) : Session :=
    { s with world := { s.world with domain := m.domain, log := m.log } }.putThread m.thread
  match action ⟨t, s.world.domain, s.world.log⟩ with
  | .ok a m => (.ok a, after m)
  | .error e m => (.error e, after m)

/-- Frees the storage of a slot behind the back of its frame, if it has any. -/
def freeSlot (role : SlotRole) (index : Nat) : Act ScriptedCall (Option Nat) := do
  let frame ← Act.topFrame
  let m ← get
  match (frame.slots role)[index]?.bind Slot.handle? with
  | none => pure none
  | some handle =>
    let pool ← Act.lift (m.domain.pool.free handle)
    Act.setPool pool
    pure (some handle)

/-- Moves the instruction pointer of the topmost frame. -/
def setIp (ip : Nat) : Act ScriptedCall Unit := do
  let frame ← Act.topFrame
  Act.setTop { frame with ip }

/-- Pops a value if there is one. -/
def popIfAny : Act ScriptedCall (Option Value) := do
  let m ← get
  let (v, t) := m.thread.pop
  Act.setThread t
  pure v

def call (s : Session) (assembly : Nat) (token : Token) : Act ScriptedCall Nat :=
  Act.call s.context.program assembly token

def step (s : Session) : Act ScriptedCall Bool := ManagedCalls.step s.context

def spawn (s : Session) (t : Thread ScriptedCall) : Session :=
  { s.removeThread t.id with world := s.world.spawn t }

def drive {α : Type} (s : Session) (action : Drive ScriptedCall α) : Except Fault α × Session :=
  match action s.world with
  | .ok a w => (.ok a, { s with world := w })
  | .error e w => (.error e, { s with world := w })

def tick (s : Session) : Except Fault Bool × Session := s.drive (World.tick s.context)

def run (s : Session) (limit : Nat) : Except Fault RunOutcome × Session :=
  s.drive (World.run s.context limit)

/-- Registers an assembly and answers the one it replaces. -/
def register (s : Session) (assembly : Nat) : Option Nat × Session :=
  let name := s.nameOf assembly
  (s.domain.assembly? name,
    s.setDomain (s.domain.register name assembly) [.registering name])

/-- The place of a ticket among those seen, after which it has been seen. -/
def see (s : Session) (ticket : Nat) : Nat × Session :=
  match s.seen.findIdx? fun t => t == ticket with
  | some k => (k, s)
  | none => (s.seen.length, { s with seen := s.seen ++ [ticket] })

def resolve (s : Session) (name : String) : Except Fault Resolution × Session :=
  match s.domain.resolve name with
  | .ok (resolution, d, events) => (.ok resolution, s.setDomain d events)
  | .error e => (.error e, s)

/-- Makes a ticket nobody asked for. -/
def newTicket (s : Session) (name : String) : Nat × Session :=
  let (ticket, d) := s.domain.newTicket name
  (s.seen.length, { s.setDomain d [] with seen := s.seen ++ [ticket] })

def settle (s : Session) (ticket : Nat) (outcome : LoadOutcome) : Bool × Session :=
  let (fresh, d) := s.domain.settle ticket outcome
  (fresh, s.setDomain d [])

def finish (s : Session) (ticket : Nat) : Except Fault (Option Nat) × Session :=
  let (result, d, events) := s.domain.finishLoad s.nameOf ticket
  (result, s.setDomain d events)

/-- The tickets a deferred loader was given. -/
def requests (s : Session) : List Nat :=
  match s.loader with
  | .deferred => s.domain.requests
  | _ => []

/-- Puts an assembly into the catalog. -/
def catalogAdd (s : Session) (assembly : Nat) : Session :=
  let catalog := NameMap.insert s.catalog (s.nameOf assembly) assembly
  { s.setDomain { s.domain with loader := loaderOf s.loader catalog } [] with catalog }

end Session

end ManagedCalls
