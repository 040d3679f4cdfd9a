import ManagedCalls.Loading.Domain

/-!
What can be asked of a domain, by threads and by everybody else, and what each
request does to it. Looking a name up has four ends and collecting a load has
three. None of the actions reads the pool or changes it.
-/

namespace ManagedCalls

inductive DomainAction where
  | register (assembly : Nat)
  | resolve (name : String)
  | newTicket (name : String)
  | settle (ticket : Nat) (outcome : LoadOutcome)
  | finish (ticket : Nat)
  /-- From now on the loader, if there is one, answers in another way. -/
  | reload (loader : Loader)

/-- The domain after an action, whether the action fails or not. -/
def DomainAction.perform (nameOf : Nat → String) : DomainAction → Domain → Domain
  | register assembly, d => d.register (nameOf assembly) assembly
  | resolve name, d =>
    match d.resolve name with
    | .ok (_, d', _) => d'
    | .error _ => d
  | newTicket name, d => (d.newTicket name).2
  | settle ticket outcome, d => (d.settle ticket outcome).2
  | finish ticket, d => (d.finishLoad nameOf ticket).2.1
  | reload loader, d => { d with loader := d.loader.map fun _ => loader }

/-- The name whose load an event reports as requested. -/
def Event.requestedName? : Event → Option String
  | requestingLoad name => some name
  | _ => none

/-- How a ticket stands after the loader's first reply. -/
def LoadReply.outcome : LoadReply → Option LoadOutcome
  | later => none
  | serves assembly => some (.loaded assembly)
  | refuses reason => some (.failed reason)

namespace NameMap

variable {α : Type}

theorem insertIfNew_of_fold_eq (m : NameMap α) {produced name : String} (a : α)
    (h : fold produced = fold name) :
    insertIfNew (insertIfNew m produced a) name a = insertIfNew m name a := by
  have hfind (m : NameMap α) : find? m name = find? m produced := by simp [find?, h]
  cases hp : find? m produced with
  | some b => simp [insertIfNew, hfind, hp]
  | none =>
    have hnew : insertIfNew m produced a = (fold name, a) :: m := by simp [insertIfNew, hp, h]
    have hname : find? ((fold name, a) :: m) name = some a := by simp [find?]
    rw [hnew, insertIfNew, hname, insertIfNew, hfind, hp]

end NameMap

namespace Domain

/-- The domain after a new ticket for a name was handed to the loader. -/
def issue (d : Domain) (loader : Loader) (name : String) : Domain :=
  { d with
    tickets := d.tickets ++ [⟨name, (loader name).outcome⟩]
    pending := d.pending.insert name d.tickets.length
    requests := d.requests ++ [d.tickets.length] }

/-- Looking a name up finds it registered, fails for want of a loader, joins a
pending load, or has a new ticket issued. -/
theorem resolve_cases (d : Domain) (name : String) :
    (∃ assembly, d.assembly? name = some assembly ∧
      d.resolve name = .ok (.loaded assembly, d, [])) ∨
    (d.assembly? name = none ∧ d.loader = none ∧
      d.resolve name = .error (.assemblyNotFound name)) ∨
    (∃ loader ticket, d.assembly? name = none ∧ d.loader = some loader ∧
      d.pending.find? name = some ticket ∧ d.resolve name = .ok (.pending ticket, d, [])) ∨
    ∃ loader events, d.assembly? name = none ∧ d.loader = some loader ∧
      d.pending.find? name = none ∧ events.filterMap Event.requestedName? = [name] ∧
      d.resolve name = .ok (.pending d.tickets.length, d.issue loader name, events) := by
  cases hfound : d.assembly? name with
  | some assembly => exact Or.inl ⟨assembly, rfl, by simp [resolve, hfound]⟩
  | none =>
    cases hloader : d.loader with
    | none => exact Or.inr (Or.inl ⟨rfl, rfl, by simp [resolve, hfound, hloader]⟩)
    | some loader =>
      cases hpending : d.pending.find? name with
      | some ticket =>
        exact Or.inr (Or.inr (Or.inl
          ⟨loader, ticket, rfl, rfl, rfl, by simp [resolve, hfound, hloader, hpending]⟩))
      | none =>
        refine Or.inr (Or.inr (Or.inr ?_))
        cases hreply : loader name with
        | later =>
          refine ⟨loader, [.requestingLoad name], rfl, rfl, rfl, rfl, ?_⟩
          simp [resolve, hfound, hloader, hpending, newTicket, request, hreply, issue,
            LoadReply.outcome]
        | serves assembly =>
          refine ⟨loader, [.requestingLoad name, .catalogServes name], rfl, rfl, rfl, rfl, ?_⟩
          simp [resolve, hfound, hloader, hpending, newTicket, request, hreply, issue,
            LoadReply.outcome, settle, ticket?]
        | refuses reason =>
          refine ⟨loader, [.requestingLoad name], rfl, rfl, rfl, rfl, ?_⟩
          simp [resolve, hfound, hloader, hpending, newTicket, request, hreply, issue,
            LoadReply.outcome, settle, ticket?]

/-- The domain with an assembly filed under a requested name and under its own,
where these are free. -/
def file (d : Domain) (produced name : String) (assembly : Nat) : Domain :=
  { d with registry := (d.registry.insertIfNew produced assembly).insertIfNew name assembly }

/-- Collecting a load does nothing to an open ticket, files the assembly of a
completed one and retires it, or retires a failed one. -/
theorem finishLoad_cases (d : Domain) (nameOf : Nat → String) (ticket : Nat) :
    (d.outcome? ticket = none ∧ d.finishLoad nameOf ticket = (.ok none, d, [])) ∨
    (∃ name assembly events, d.ticket? ticket = some ⟨name, some (.loaded assembly)⟩ ∧
      events.filterMap Event.requestedName? = [] ∧
      d.finishLoad nameOf ticket =
        (.ok (some assembly), (d.file (nameOf assembly) name assembly).retire name ticket,
          events)) ∨
    ∃ name reason, d.ticket? ticket = some ⟨name, some (.failed reason)⟩ ∧
      d.finishLoad nameOf ticket =
        (.error (.assemblyLoadFailed name reason), d.retire name ticket, []) := by
  match hticket : d.ticket? ticket with
  | none => exact Or.inl ⟨by simp [outcome?, hticket], by simp [finishLoad, hticket]⟩
  | some ⟨name, none⟩ => exact Or.inl ⟨by simp [outcome?, hticket], by simp [finishLoad, hticket]⟩
  | some ⟨name, some (.failed reason)⟩ =>
    exact Or.inr (Or.inr ⟨name, reason, rfl, by simp [finishLoad, hticket]⟩)
  | some ⟨name, some (.loaded assembly)⟩ =>
    refine Or.inr (Or.inl ?_)
    by_cases hname : NameMap.fold (nameOf assembly) = NameMap.fold name
    · refine ⟨name, assembly, [], rfl, rfl, ?_⟩
      simp [finishLoad, hticket, hname, file, NameMap.insertIfNew_of_fold_eq]
    · refine ⟨name, assembly, [.loadedUnderOtherName name (nameOf assembly)], rfl, rfl, ?_⟩
      simp [finishLoad, hticket, hname, file]

end Domain

namespace DomainAction

variable (nameOf : Nat → String)

theorem perform_resolve (name : String) (d : Domain) :
    perform nameOf (.resolve name) d =
      match d.assembly? name, d.loader, d.pending.find? name with
      | none, some loader, none => d.issue loader name
      | _, _, _ => d := by
  rcases d.resolve_cases name with ⟨assembly, hfound, hrun⟩ | ⟨hfound, hloader, hrun⟩ |
    ⟨loader, ticket, hfound, hloader, hpending, hrun⟩ |
    ⟨loader, events, hfound, hloader, hpending, -, hrun⟩
  · simp [perform, hrun, hfound]
  · simp [perform, hrun, hfound, hloader]
  · simp [perform, hrun, hfound, hloader, hpending]
  · simp [perform, hrun, hfound, hloader, hpending]

theorem perform_settle (ticket : Nat) (outcome : LoadOutcome) (d : Domain) :
    perform nameOf (.settle ticket outcome) d =
      match d.ticket? ticket with
      | some ⟨name, none⟩ => { d with tickets := d.tickets.set ticket ⟨name, some outcome⟩ }
      | _ => d := by
  match h : d.ticket? ticket with
  | none => simp [perform, Domain.settle, h]
  | some ⟨name, none⟩ => simp [perform, Domain.settle, h]
  | some ⟨name, some settled⟩ => simp [perform, Domain.settle, h]

theorem perform_finish (ticket : Nat) (d : Domain) :
    perform nameOf (.finish ticket) d =
      match d.ticket? ticket with
      | some ⟨name, some (.loaded assembly)⟩ =>
        (d.file (nameOf assembly) name assembly).retire name ticket
      | some ⟨name, some (.failed _)⟩ => d.retire name ticket
      | _ => d := by
  rcases d.finishLoad_cases nameOf ticket with ⟨hopen, hrun⟩ |
    ⟨name, assembly, events, hticket, -, hrun⟩ | ⟨name, reason, hticket, hrun⟩
  · rw [perform, hrun]
    match h : d.ticket? ticket with
    | none => rfl
    | some ⟨name, none⟩ => rfl
    | some ⟨name, some outcome⟩ => simp [Domain.outcome?, h] at hopen
  · simp [perform, hrun, hticket]
  · simp [perform, hrun, hticket]

end DomainAction

namespace Domain

def withPool (d : Domain) (p : Pool) : Domain := { d with pool := p }

theorem retire_withPool (d : Domain) (p : Pool) (name : String) (ticket : Nat) :
    (d.withPool p).retire name ticket = (d.retire name ticket).withPool p := by
  unfold retire
  split
  next h => exact (if_pos h).symm ▸ rfl
  next h => exact (if_neg h).symm ▸ rfl

end Domain

namespace DomainAction

theorem perform_withPool (nameOf : Nat → String) (a : DomainAction) (d : Domain) (p : Pool) :
    a.perform nameOf (d.withPool p) = (a.perform nameOf d).withPool p := by
  cases a with
  | register assembly => rfl
  | newTicket name => rfl
  | reload loader => rfl
  | settle ticket outcome =>
    have hticket : (d.withPool p).ticket? ticket = d.ticket? ticket := rfl
    rw [perform_settle, perform_settle, hticket]
    split
    · rfl
    · rfl
  | resolve name =>
    have hfound : (d.withPool p).assembly? name = d.assembly? name := rfl
    have hpending : (d.withPool p).pending = d.pending := rfl
    have hloader : (d.withPool p).loader = d.loader := rfl
    rw [perform_resolve, perform_resolve, hfound, hpending, hloader]
    split
    · rfl
    · rfl
  | finish ticket =>
    have hticket : (d.withPool p).ticket? ticket = d.ticket? ticket := rfl
    rw [perform_finish, perform_finish, hticket]
    split
    next name assembly _ => exact (d.file (nameOf assembly) name assembly).retire_withPool p name _
    next name reason _ => exact d.retire_withPool p name ticket
    · rfl

theorem perform_pool (nameOf : Nat → String) (a : DomainAction) (d : Domain) :
    (a.perform nameOf d).pool = d.pool := by
  have h := congrArg Domain.pool (a.perform_withPool nameOf d d.pool)
  exact h

end DomainAction

end ManagedCalls
