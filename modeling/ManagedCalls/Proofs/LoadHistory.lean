import ManagedCalls.Proofs.PendingLoads

/-!
The history of a domain: any actions in any order. Every ticket that the loader
was called for is recorded with its name, once. A load is requested again only
after the ticket of the earlier request for the name failed and was collected.
-/

namespace ManagedCalls

namespace DomainAction

variable (nameOf : Nat → String)

/-- The domain after a history. -/
def performAll : List DomainAction → Domain → Domain
  | [], d => d
  | a :: rest, d => performAll rest (a.perform nameOf d)

theorem performAll_append (first second : List DomainAction) (d : Domain) :
    performAll nameOf (first ++ second) d =
      performAll nameOf second (performAll nameOf first d) := by
  induction first generalizing d with
  | nil => rfl
  | cons a rest ih => exact ih _

theorem performAll_extends (history : List DomainAction) (d : Domain) :
    d.Extends (performAll nameOf history d) := by
  induction history generalizing d with
  | nil => exact .refl d
  | cons a rest ih => exact (perform_extends nameOf a d).trans (ih _)

theorem performAll_wellFormed (history : List DomainAction) {d : Domain} (h : d.WellFormed) :
    (performAll nameOf history d).WellFormed := by
  induction history generalizing d with
  | nil => exact h
  | cons a rest ih => exact ih (perform_wellFormed nameOf a h)

/-- The names an action hands to the loader, as it reports them. -/
def requested : DomainAction → Domain → List String
  | resolve name, d =>
    match d.resolve name with
    | .ok (_, _, events) => events.filterMap Event.requestedName?
    | .error _ => []
  | finish ticket, d => (d.finishLoad nameOf ticket).2.2.filterMap Event.requestedName?
  | _, _ => []

def requestedAll : List DomainAction → Domain → List String
  | [], _ => []
  | a :: rest, d => a.requested nameOf d ++ requestedAll rest (a.perform nameOf d)

/-- An action has a name loaded only if it is neither registered nor pending, and
then a new ticket is the last one handed over. -/
theorem requested_cases (a : DomainAction) (d : Domain) :
    (a.requested nameOf d = [] ∧ (a.perform nameOf d).requests = d.requests) ∨
      ∃ name loader, a = .resolve name ∧ d.assembly? name = none ∧ d.loader = some loader ∧
        d.pending.find? name = none ∧ a.requested nameOf d = [name] ∧
        a.perform nameOf d = d.issue loader name := by
  cases a with
  | resolve name =>
    rcases d.resolve_cases name with ⟨assembly, hfound, hrun⟩ | ⟨hfound, hloader, hrun⟩ |
      ⟨loader, ticket, hfound, hloader, hpending, hrun⟩ |
      ⟨loader, events, hfound, hloader, hpending, hevents, hrun⟩
    · exact Or.inl ⟨by simp [requested, hrun], by simp [perform, hrun]⟩
    · exact Or.inl ⟨by simp [requested, hrun], by simp [perform, hrun]⟩
    · exact Or.inl ⟨by simp [requested, hrun], by simp [perform, hrun]⟩
    · refine Or.inr ⟨name, loader, rfl, hfound, hloader, hpending, ?_, ?_⟩
      · simp [requested, hrun, hevents]
      · simp [perform, hrun]
  | finish ticket =>
    left
    constructor
    · rcases d.finishLoad_cases nameOf ticket with ⟨-, hrun⟩ |
        ⟨name, assembly, events, -, hevents, hrun⟩ | ⟨name, reason, -, hrun⟩
      · simp [requested, hrun]
      · simp [requested, hrun, hevents]
      · simp [requested, hrun]
    · rw [perform_finish]
      split
      · rw [Domain.retire_eq]
        rfl
      · rw [Domain.retire_eq]
      · rfl
  | register assembly => exact Or.inl ⟨rfl, rfl⟩
  | newTicket name => exact Or.inl ⟨rfl, rfl⟩
  | settle ticket outcome =>
    refine Or.inl ⟨rfl, ?_⟩
    rw [perform_settle]
    split
    · rfl
    · rfl
  | reload loader => exact Or.inl ⟨rfl, rfl⟩

theorem perform_request_names (a : DomainAction) {d : Domain} (h : d.WellFormed) :
    (a.perform nameOf d).requests.map (a.perform nameOf d).ticketName? =
      d.requests.map d.ticketName? ++ (a.requested nameOf d).map some := by
  have hext := perform_extends nameOf a d
  -- tickets handed over before have kept their names
  have hold : d.requests.map (a.perform nameOf d).ticketName? = d.requests.map d.ticketName? := by
    apply List.map_congr_left
    intro r hr
    obtain ⟨entry, hentry⟩ := h.ticket?_of_request hr
    obtain ⟨outcome, hentry', -⟩ := hext.ticket hentry
    rw [Domain.ticketName?, Domain.ticketName?, hentry, hentry']
    rfl
  rcases requested_cases nameOf a d with ⟨hnone, hsame⟩ |
    ⟨name, loader, -, -, -, -, hrequested, hissue⟩
  · rw [hnone, hsame, hold]
    simp
  · have hnew : (d.issue loader name).ticketName? d.tickets.length = some name := by
      simp [Domain.ticketName?, Domain.ticket?, Domain.issue]
    rw [hissue] at hold ⊢
    rw [hrequested, Domain.issue, List.map_append, ← Domain.issue, hold]
    simp [hnew]

/-- The loader was called once for each ticket handed over, with its name. -/
theorem performAll_request_names (history : List DomainAction) {d : Domain} (h : d.WellFormed) :
    (performAll nameOf history d).requests.map (performAll nameOf history d).ticketName? =
      d.requests.map d.ticketName? ++ (requestedAll nameOf history d).map some := by
  induction history generalizing d with
  | nil => simp [performAll, requestedAll]
  | cons a rest ih =>
    rw [performAll, ih (perform_wellFormed nameOf a h), perform_request_names nameOf a h,
      requestedAll, List.map_append, List.append_assoc]

/-- Some time during the actions a ticket that had failed was collected. -/
def Collects (ticket : Nat) (actions : List DomainAction) (d : Domain) : Prop :=
  ∃ before after reason, actions = before ++ .finish ticket :: after ∧
    (performAll nameOf before d).outcome? ticket = some (.failed reason)

variable {d : Domain} {name : String} {ticket : Nat} {entry : Ticket}

theorem perform_pending_cases (a : DomainAction) (hpending : d.pending.find? name = some ticket)
    (hentry : d.ticket? ticket = some entry) (hname : NameMap.fold name = NameMap.fold entry.name) :
    (a.perform nameOf d).pending.find? name = some ticket ∨
      ((a.perform nameOf d).assembly? name).isSome ∨
      a = .finish ticket ∧ ∃ reason, d.outcome? ticket = some (.failed reason) := by
  cases a with
  | register assembly => exact Or.inl hpending
  | newTicket other => exact Or.inl hpending
  | reload loader => exact Or.inl hpending
  | settle other outcome =>
    rw [perform_settle]
    split
    · exact Or.inl hpending
    · exact Or.inl hpending
  | resolve other =>
    rw [perform_resolve]
    split
    next loader hfound hloader hnone =>
      have hne : NameMap.fold name ≠ NameMap.fold other := by
        intro hsame
        rw [NameMap.find?_congr d.pending hsame, hnone] at hpending
        cases hpending
      left
      rw [Domain.issue, NameMap.find?_insert, if_neg hne]
      exact hpending
    · exact Or.inl hpending
  | finish other =>
    by_cases hsame : other = ticket
    · subst hsame
      rw [perform_finish, hentry]
      rcases entry with ⟨own, _ | assembly | reason⟩
      · exact Or.inl hpending
      · right
        left
        dsimp only
        rw [Domain.retire_eq, Domain.assembly?, Domain.file, NameMap.find?_insertIfNew,
          if_pos hname]
        rfl
      · exact Or.inr (Or.inr ⟨rfl, reason, by rw [Domain.outcome?, hentry]; rfl⟩)
    · left
      rw [perform_finish]
      split
      · exact Domain.find?_retire_of_ne hpending hsame
      · exact Domain.find?_retire_of_ne hpending hsame
      · exact hpending

theorem performAll_pending_cases (actions : List DomainAction)
    (hpending : d.pending.find? name = some ticket) (hentry : d.ticket? ticket = some entry)
    (hname : NameMap.fold name = NameMap.fold entry.name) :
    (performAll nameOf actions d).pending.find? name = some ticket ∨
      ((performAll nameOf actions d).assembly? name).isSome ∨
      Collects nameOf ticket actions d := by
  induction actions generalizing d entry with
  | nil => exact Or.inl hpending
  | cons a rest ih =>
    rcases perform_pending_cases nameOf a hpending hentry hname with hpending' | hfound |
      ⟨rfl, reason, hfailed⟩
    · obtain ⟨outcome, hentry', -⟩ := (perform_extends nameOf a d).ticket hentry
      rcases ih hpending' hentry' hname with hstill | hfound | ⟨before, after, reason, rfl, hfailed⟩
      · exact Or.inl hstill
      · exact Or.inr (Or.inl hfound)
      · exact Or.inr (Or.inr ⟨a :: before, after, reason, rfl, hfailed⟩)
    · exact Or.inr (Or.inl ((performAll_extends nameOf rest _).registered hfound))
    · exact Or.inr (Or.inr ⟨[], rest, reason, rfl, hfailed⟩)

/-- A name is requested again only after the ticket of the earlier request has
failed and was collected. -/
theorem collects_between (first middle : List DomainAction) (a b : DomainAction) (d : Domain)
    {name name' : String} (hname : name ∈ a.requested nameOf (performAll nameOf first d))
    (hname' : name' ∈ b.requested nameOf (performAll nameOf (first ++ a :: middle) d))
    (hsame : NameMap.fold name = NameMap.fold name') :
    ∃ ticket, (performAll nameOf (first ++ [a]) d).requests =
        (performAll nameOf first d).requests ++ [ticket] ∧
      Collects nameOf ticket middle (performAll nameOf (first ++ [a]) d) := by
  have happend : performAll nameOf (first ++ [a]) d =
      a.perform nameOf (performAll nameOf first d) := performAll_append nameOf first [a] d
  have hall : performAll nameOf (first ++ a :: middle) d =
      performAll nameOf middle (a.perform nameOf (performAll nameOf first d)) :=
    performAll_append nameOf first (a :: middle) d
  rw [hall] at hname'
  rw [happend]
  generalize performAll nameOf first d = start at hname hname' ⊢
  rcases requested_cases nameOf a start with ⟨hnone, -⟩ |
    ⟨own, loader, -, -, -, -, hrequested, hissue⟩
  · rw [hnone] at hname
    cases hname
  · rw [hrequested] at hname
    obtain rfl := List.mem_singleton.mp hname
    rw [hissue] at hname' ⊢
    refine ⟨start.tickets.length, rfl, ?_⟩
    have hpending : (start.issue loader name).pending.find? name = some start.tickets.length := by
      rw [Domain.issue, NameMap.find?_insert, if_pos rfl]
    have hentry : (start.issue loader name).ticket? start.tickets.length =
        some ⟨name, (loader name).outcome⟩ := by
      simp [Domain.issue, Domain.ticket?]
    rcases requested_cases nameOf b (performAll nameOf middle (start.issue loader name)) with
      ⟨hnone, -⟩ | ⟨again, loader', -, hfound', -, hpending', hrequested', -⟩
    · rw [hnone] at hname'
      cases hname'
    · rw [hrequested'] at hname'
      obtain rfl := List.mem_singleton.mp hname'
      rcases performAll_pending_cases nameOf middle hpending hentry rfl with hstill | hfound | hdone
      · rw [NameMap.find?_congr _ hsame, hpending'] at hstill
        cases hstill
      · rw [Domain.assembly?, NameMap.find?_congr _ hsame, ← Domain.assembly?, hfound'] at hfound
        cases hfound
      · exact hdone

end DomainAction

namespace Domain

/-- What looking up a name gives, for all ways to write it: the registered
assembly, else the pending ticket, else a new ticket that is handed to the loader,
if there is one. -/
structure Resolves (d : Domain) (name other : String) : Prop where
  loaded : ∀ assembly, d.assembly? name = some assembly →
    d.resolve other = .ok (.loaded assembly, d, [])
  joins : ∀ ticket, d.assembly? name = none → d.pending.find? name = some ticket →
    d.resolve other = .ok (.pending ticket, d, [])
  issues : ∀ loader, d.assembly? name = none → d.pending.find? name = none →
    d.loader = some loader → ∃ events, events.filterMap Event.requestedName? = [other] ∧
      d.resolve other = .ok (.pending d.tickets.length, d.issue loader other, events)
  fails : d.assembly? name = none → d.loader = none →
    d.resolve other = .error (.assemblyNotFound other)

theorem WellFormed.resolves {d : Domain} (h : d.WellFormed) {name other : String}
    (hsame : NameMap.fold name = NameMap.fold other) : d.Resolves name other := by
  have hassembly : d.assembly? name = d.assembly? other := NameMap.find?_congr d.registry hsame
  have hpending : d.pending.find? name = d.pending.find? other :=
    NameMap.find?_congr d.pending hsame
  constructor
  · intro assembly hfound
    rw [hassembly] at hfound
    simp [resolve, hfound]
  · intro ticket hfound hjoined
    rw [hassembly] at hfound
    rw [hpending] at hjoined
    have hne : d.pending ≠ [] := List.ne_nil_of_mem (NameMap.mem_of_find? hjoined)
    obtain ⟨loader, hloader⟩ := Option.isSome_iff_exists.mp (h.loader_of_pending hne)
    simp [resolve, hfound, hloader, hjoined]
  · intro loader hfound hnone hloader
    rw [hassembly] at hfound
    rw [hpending] at hnone
    rcases d.resolve_cases other with ⟨assembly, hfound', -⟩ | ⟨-, hloader', -⟩ |
      ⟨loader', ticket, -, -, hjoined, -⟩ | ⟨loader', events, -, hloader', -, hevents, hrun⟩
    · cases hfound.symm.trans hfound'
    · cases hloader.symm.trans hloader'
    · cases hnone.symm.trans hjoined
    · obtain rfl : loader = loader' := Option.some.inj (hloader.symm.trans hloader')
      exact ⟨events, hevents, hrun⟩
  · intro hfound hloader
    rw [hassembly] at hfound
    simp [resolve, hfound, hloader]

end Domain

end ManagedCalls
