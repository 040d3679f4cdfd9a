import ManagedCalls.Event
import ManagedCalls.Storage.Pool

/-!
The domain: which assemblies are registered, which are being loaded, and the
pool that all threads share. Names are compared without regard to ASCII case.
While a load of a name is outstanding, everybody who asks for the name gets the
same ticket.
-/

namespace ManagedCalls

/-- A map from names to `α`. Keys are lower case and each occurs once. -/
abbrev NameMap (α : Type) := List (String × α)

namespace NameMap

variable {α : Type}

/-- What a name is filed under. -/
def fold (name : String) : String := name.map Char.toLower

def find? (m : NameMap α) (name : String) : Option α := m.lookup (fold name)

def erase (m : NameMap α) (name : String) : NameMap α := m.filter fun e => e.1 != fold name

def insert (m : NameMap α) (name : String) (a : α) : NameMap α := (fold name, a) :: erase m name

/-- Files `a` unless the name has an entry. -/
def insertIfNew (m : NameMap α) (name : String) (a : α) : NameMap α :=
  match find? m name with
  | some _ => m
  | none => (fold name, a) :: m

theorem lookup_filter_ne (m : NameMap α) (key k : String) :
    List.lookup k (m.filter fun e => e.1 != key) = if k = key then none else List.lookup k m := by
  induction m with
  | nil => simp
  | cons e m ih =>
    obtain ⟨k', a⟩ := e
    by_cases h : k' = key
    · have hdrop : ((k', a) :: m).filter (fun e => e.1 != key) = m.filter fun e => e.1 != key := by
        simp [h]
      rw [hdrop, ih]
      by_cases hk : k = key
      · rw [if_pos hk, if_pos hk]
      · rw [if_neg hk, if_neg hk, List.lookup_cons, beq_eq_false_iff_ne.mpr (h ▸ hk)]
    · have hkeep : ((k', a) :: m).filter (fun e => e.1 != key) =
          (k', a) :: m.filter fun e => e.1 != key := by
        simp [h]
      rw [hkeep, List.lookup_cons, List.lookup_cons, ih]
      by_cases hk : k = k'
      · subst hk
        simp [h]
      · simp [beq_eq_false_iff_ne.mpr hk]

theorem find?_erase (m : NameMap α) (name other : String) :
    find? (erase m name) other = if fold other = fold name then none else find? m other :=
  lookup_filter_ne m (fold name) (fold other)

theorem find?_insert (m : NameMap α) (name other : String) (a : α) :
    find? (insert m name a) other = if fold other = fold name then some a else find? m other := by
  by_cases h : fold other = fold name
  · simp [find?, insert, h]
  · rw [if_neg h, find?, insert, List.lookup_cons, beq_eq_false_iff_ne.mpr h]
    exact (find?_erase m name other).trans (if_neg h)

theorem find?_insertIfNew (m : NameMap α) (name other : String) (a : α) :
    find? (insertIfNew m name a) other =
      if fold other = fold name then some ((find? m name).getD a) else find? m other := by
  have hfind (h : fold other = fold name) : find? m other = find? m name := by simp [find?, h]
  unfold insertIfNew
  by_cases h : fold other = fold name
  · cases hb : find? m name with
    | some b => simp [h, hfind h, hb]
    | none => simp [h, find?]
  · cases hb : find? m name with
    | some b => simp [h]
    | none => rw [if_neg h, find?, List.lookup_cons, beq_eq_false_iff_ne.mpr h]; rfl

end NameMap

/-- How a load ended. -/
inductive LoadOutcome where
  | loaded (assembly : Nat)
  | failed (reason : String)
  deriving DecidableEq

/-- One request for an assembly. Its outcome is settled once. -/
structure Ticket where
  name : String
  outcome : Option LoadOutcome
  deriving DecidableEq

/-- What a loader does with a request at once. -/
inductive LoadReply where
  | later
  | serves (assembly : Nat)
  | refuses (reason : String)
  deriving DecidableEq

abbrev Loader := String → LoadReply

namespace Loader

/-- Leaves every request to be settled from outside. -/
def deferred : Loader := fun _ => .later

/-- Serves what is in a catalog and refuses everything else. -/
def ofCatalog (catalog : NameMap Nat) : Loader := fun name =>
  match catalog.find? name with
  | some assembly => .serves assembly
  | none => .refuses s!"assembly '{name}' is not in the catalog"

end Loader

/-- What a name resolves to. -/
inductive Resolution where
  | loaded (assembly : Nat)
  | pending (ticket : Nat)
  deriving DecidableEq

/-- Tickets are numbered in the order they were made. -/
structure Domain where
  registry : NameMap Nat
  pending : NameMap Nat
  tickets : List Ticket
  /-- The tickets handed to the loader, the oldest first. -/
  requests : List Nat
  loader : Option Loader
  pool : Pool

namespace Domain

def empty (poolBytes : Nat) (loader : Option Loader) : Domain :=
  { registry := [], pending := [], tickets := [], requests := [], loader
    pool := Pool.empty poolBytes }

def assembly? (d : Domain) (name : String) : Option Nat := d.registry.find? name

def contains (d : Domain) (name : String) : Bool := (d.assembly? name).isSome

def assemblyCount (d : Domain) : Nat := d.registry.length

def pendingLoads (d : Domain) : Nat := d.pending.length

def loadRequests (d : Domain) : Nat := d.requests.length

/-- Files an assembly under its name, in place of the one that was there. -/
def register (d : Domain) (name : String) (assembly : Nat) : Domain :=
  { d with registry := d.registry.insert name assembly }

def ticket? (d : Domain) (ticket : Nat) : Option Ticket := d.tickets[ticket]?

def outcome? (d : Domain) (ticket : Nat) : Option LoadOutcome :=
  (d.ticket? ticket).bind Ticket.outcome

def isReady (d : Domain) (ticket : Nat) : Bool := (d.outcome? ticket).isSome

/-- A new ticket, which nobody waits for yet. -/
def newTicket (d : Domain) (name : String) : Nat × Domain :=
  (d.tickets.length, { d with tickets := d.tickets ++ [⟨name, none⟩] })

/-- Settles a ticket and says whether it was still open. -/
def settle (d : Domain) (ticket : Nat) (outcome : LoadOutcome) : Bool × Domain :=
  match d.ticket? ticket with
  | some ⟨name, none⟩ =>
    (true, { d with tickets := d.tickets.set ticket ⟨name, some outcome⟩ })
  | _ => (false, d)

/-- Hands a ticket to the loader, which may settle it at once. -/
def request (d : Domain) (loader : Loader) (name : String) (ticket : Nat) : Domain × List Event :=
  let d := { d with requests := d.requests ++ [ticket] }
  match loader name with
  | .later => (d, [.requestingLoad name])
  | .serves assembly =>
    ((d.settle ticket (.loaded assembly)).2, [.requestingLoad name, .catalogServes name])
  | .refuses reason => ((d.settle ticket (.failed reason)).2, [.requestingLoad name])

/-- Looks a name up, and has it loaded if it is neither registered nor pending. -/
def resolve (d : Domain) (name : String) : Except Fault (Resolution × Domain × List Event) :=
  match d.assembly? name with
  | some assembly => .ok (.loaded assembly, d, [])
  | none =>
    match d.loader with
    | none => .error (.assemblyNotFound name)
    | some loader =>
      match d.pending.find? name with
      | some ticket => .ok (.pending ticket, d, [])
      | none =>
        let (ticket, d) := d.newTicket name
        let d := { d with pending := d.pending.insert name ticket }
        let (d, events) := d.request loader name ticket
        .ok (.pending ticket, d, events)

/-- The pending table without the entry for a ticket; another ticket under the
same name stays. -/
def retire (d : Domain) (name : String) (ticket : Nat) : Domain :=
  if d.pending.find? name = some ticket then { d with pending := d.pending.erase name } else d

/-- Collects a load. A completed one is registered under the requested name and
its own, where these are free. An open ticket changes nothing. -/
def finishLoad (d : Domain) (nameOf : Nat → String) (ticket : Nat) :
    Except Fault (Option Nat) × Domain × List Event :=
  match d.ticket? ticket with
  | some ⟨name, some (.loaded assembly)⟩ =>
    let produced := nameOf assembly
    if NameMap.fold produced = NameMap.fold name then
      let registry := d.registry.insertIfNew name assembly
      (.ok (some assembly), retire { d with registry } name ticket, [])
    else
      let registry := (d.registry.insertIfNew produced assembly).insertIfNew name assembly
      (.ok (some assembly), retire { d with registry } name ticket,
        [.loadedUnderOtherName name produced])
  | some ⟨name, some (.failed reason)⟩ =>
    (.error (.assemblyLoadFailed name reason), d.retire name ticket, [])
  | _ => (.ok none, d, [])

def shown (d : Domain) : String :=
  Shown.record "AppDomain"
    [("assemblies", toString d.assemblyCount), ("pending", toString d.pendingLoads),
      ("loader", Shown.bool d.loader.isSome), ("pool", d.pool.shown)]

end Domain

end ManagedCalls
