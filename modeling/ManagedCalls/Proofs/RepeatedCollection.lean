import ManagedCalls.Proofs.CollectedLoads

/-!
A registry that only grows, and loads that are collected again and again. Every frame
that waits for a load collects it, some of them long after the first one, when another
ticket of the same name may be pending. What the first collection leaves is kept by
everything that can happen to a domain, and where it holds there is nothing left to
register and nothing to retire. So a later collection has the result of the first one
and changes nothing.
-/

namespace ManagedCalls

namespace NameMap

variable {α : Type}

theorem insertIfNew_of_isSome {m : NameMap α} {name : String} (a : α)
    (h : (find? m name).isSome) : insertIfNew m name a = m := by
  obtain ⟨b, hb⟩ := Option.isSome_iff_exists.mp h
  rw [insertIfNew, hb]

end NameMap

/-- What a collection of the load of a name gives. -/
def LoadOutcome.result (name : String) : LoadOutcome → Except Fault (Option Nat)
  | loaded assembly => .ok (some assembly)
  | failed reason => .error (.assemblyLoadFailed name reason)

namespace Domain

variable {d : Domain} {nameOf : Nat → String} {ticket : Nat} {name : String}

theorem file_of_registered {produced : String} (assembly : Nat)
    (hproduced : (d.assembly? produced).isSome) (hname : (d.assembly? name).isSome) :
    d.file produced name assembly = d := by
  have hfirst : d.registry.insertIfNew produced assembly = d.registry :=
    NameMap.insertIfNew_of_isSome assembly hproduced
  have hsecond : d.registry.insertIfNew name assembly = d.registry :=
    NameMap.insertIfNew_of_isSome assembly hname
  rw [file, hfirst, hsecond]

theorem retire_of_ne (h : d.pending.find? name ≠ some ticket) : d.retire name ticket = d := by
  rw [retire, if_neg h]

theorem find?_retire_ne (d : Domain) (name : String) (ticket : Nat) :
    (d.retire name ticket).pending.find? name ≠ some ticket := by
  unfold retire
  split
  next h =>
    intro hfound
    have herased := NameMap.find?_erase d.pending name name
    rw [if_pos rfl] at herased
    cases herased.symm.trans hfound
  next h => exact h

/-- A collection makes entries in the registry and replaces none. -/
theorem finishLoad_assembly? (d : Domain) (nameOf : Nat → String) (ticket : Nat) {other : String}
    {assembly : Nat} (h : d.assembly? other = some assembly) :
    (d.finishLoad nameOf ticket).2.1.assembly? other = some assembly := by
  rcases d.finishLoad_cases nameOf ticket with ⟨-, hrun⟩ |
    ⟨name, loaded, events, -, -, hrun⟩ | ⟨name, reason, -, hrun⟩
  · rw [hrun]
    exact h
  · rw [hrun, assembly?_retire, assembly?_file, h]
    split
    · rfl
    · rfl
  · rw [hrun, assembly?_retire]
    exact h

/-- A collection retires no ticket but its own. -/
theorem finishLoad_pending (d : Domain) (nameOf : Nat → String) {other : String} {newer : Nat}
    (h : d.pending.find? other = some newer) (hne : ticket ≠ newer) :
    (d.finishLoad nameOf ticket).2.1.pending.find? other = some newer := by
  rcases d.finishLoad_cases nameOf ticket with ⟨-, hrun⟩ |
    ⟨name, loaded, events, -, -, hrun⟩ | ⟨name, reason, -, hrun⟩
  · rw [hrun]
    exact h
  · rw [hrun]
    exact find?_retire_of_ne (d := d.file (nameOf loaded) name loaded) h hne
  · rw [hrun]
    exact find?_retire_of_ne h hne

theorem finishLoad_result {outcome : LoadOutcome}
    (h : d.ticket? ticket = some ⟨name, some outcome⟩) :
    (d.finishLoad nameOf ticket).1 = outcome.result name := by
  cases outcome with
  | loaded assembly => exact finishLoad_of_ticket h
  | failed reason => rw [finishLoad, h, LoadOutcome.result]

/-- The domain with what a settled load has to register. -/
def filed (d : Domain) (nameOf : Nat → String) (name : String) : LoadOutcome → Domain
  | .loaded assembly => d.file (nameOf assembly) name assembly
  | .failed _ => d

theorem finishLoad_domain {outcome : LoadOutcome}
    (h : d.ticket? ticket = some ⟨name, some outcome⟩) :
    (d.finishLoad nameOf ticket).2.1 = (d.filed nameOf name outcome).retire name ticket := by
  have hfinish := DomainAction.perform_finish nameOf ticket d
  rw [h] at hfinish
  cases outcome with
  | loaded assembly => exact hfinish
  | failed reason => exact hfinish

theorem ticket?_filed (d : Domain) (nameOf : Nat → String) (name : String)
    (outcome : LoadOutcome) (r : Nat) : (d.filed nameOf name outcome).ticket? r = d.ticket? r := by
  cases outcome with
  | loaded assembly => rfl
  | failed reason => rfl

/-- How things stand once a settled load was collected: its names are registered if it
was completed, and its ticket is no longer pending. -/
structure Collected (nameOf : Nat → String) (d : Domain) (ticket : Nat) (name : String)
    (outcome : LoadOutcome) : Prop where
  settled : d.ticket? ticket = some ⟨name, some outcome⟩
  registered : ∀ assembly, outcome = .loaded assembly →
    (d.assembly? name).isSome ∧ (d.assembly? (nameOf assembly)).isSome
  retired : d.pending.find? name ≠ some ticket

namespace Collected

variable {outcome : LoadOutcome}

theorem of_finishLoad (h : d.ticket? ticket = some ⟨name, some outcome⟩) :
    Collected nameOf (d.finishLoad nameOf ticket).2.1 ticket name outcome := by
  rw [finishLoad_domain h]
  refine ⟨?_, ?_, find?_retire_ne _ name ticket⟩
  · rw [retire_eq]
    exact (ticket?_filed d nameOf name outcome ticket).trans h
  · rintro assembly rfl
    rw [assembly?_retire, assembly?_retire, filed, assembly?_file, assembly?_file,
      if_pos (Or.inl rfl), if_pos (Or.inr rfl)]
    exact ⟨rfl, rfl⟩

/-- New tickets have new numbers, so no action makes an old ticket pending. -/
theorem pending_of_perform (a : DomainAction) (hticket : ticket < d.tickets.length)
    (h : (a.perform nameOf d).pending.find? name = some ticket) :
    d.pending.find? name = some ticket := by
  have hretired (d' : Domain) {other : String} {r : Nat}
      (h' : (d'.retire other r).pending.find? name = some ticket) :
      d'.pending.find? name = some ticket := by
    unfold retire at h'
    split at h'
    · have herased := NameMap.find?_erase d'.pending other name
      rw [herased] at h'
      split at h'
      · cases h'
      · exact h'
    · exact h'
  cases a with
  | register assembly => exact h
  | newTicket other => exact h
  | reload loader => exact h
  | settle r settled =>
    rw [DomainAction.perform_settle] at h
    split at h
    · exact h
    · exact h
  | resolve other =>
    rw [DomainAction.perform_resolve] at h
    split at h
    next loader _ _ _ =>
      have hissued := NameMap.find?_insert d.pending other name d.tickets.length
      rw [issue, hissued] at h
      split at h
      · have heq : d.tickets.length = ticket := Option.some.inj h
        omega
      · exact h
    · exact h
  | finish r =>
    rw [DomainAction.perform_finish] at h
    split at h
    next requested assembly _ =>
      exact hretired (d.file (nameOf assembly) requested assembly) h
    · exact hretired d h
    · exact h

theorem perform (h : Collected nameOf d ticket name outcome) (a : DomainAction) :
    Collected nameOf (a.perform nameOf d) ticket name outcome := by
  have hext := DomainAction.perform_extends nameOf a d
  refine ⟨?_, ?_, ?_⟩
  · obtain ⟨later, hlater, hkept⟩ := hext.ticket h.settled
    rcases hkept with hopen | hsame
    · cases hopen
    · rw [hlater, hsame]
  · intro assembly hloaded
    obtain ⟨hname, hproduced⟩ := h.registered assembly hloaded
    exact ⟨hext.registered hname, hext.registered hproduced⟩
  · intro hpending
    have hlt : ticket < d.tickets.length := (List.getElem?_eq_some_iff.mp h.settled).1
    exact h.retired (pending_of_perform a hlt hpending)

theorem performAll (h : Collected nameOf d ticket name outcome) (later : List DomainAction) :
    Collected nameOf (DomainAction.performAll nameOf later d) ticket name outcome := by
  induction later generalizing d with
  | nil => exact h
  | cons a rest ih => exact ih (h.perform a)

theorem finishLoad (h : Collected nameOf d ticket name outcome) :
    (d.finishLoad nameOf ticket).1 = outcome.result name ∧
      (d.finishLoad nameOf ticket).2.1 = d := by
  refine ⟨finishLoad_result h.settled, ?_⟩
  have hfiled : d.filed nameOf name outcome = d := by
    cases outcome with
    | failed reason => rfl
    | loaded assembly =>
      obtain ⟨hname, hproduced⟩ := h.registered assembly rfl
      exact file_of_registered assembly hproduced hname
  rw [finishLoad_domain h.settled, hfiled]
  exact retire_of_ne h.retired

end Collected

/-- Whatever happened to a domain and whatever happens to it later: what is registered
stays so and is found whenever it is looked up. Collecting a load replaces no entry,
and a completed one is registered under the name it was requested by and its own. An
open ticket changes nothing. A settled one that was collected is as good as untouched
when it is collected again, at any time. The tickets of others stay pending, newer ones
of the same name too. -/
theorem registered_for_good_collected_once (nameOf : Nat → String) (start : Domain)
    (history later : List DomainAction) :
    let d := DomainAction.performAll nameOf history start
    (∀ name other, (d.assembly? name).isSome → NameMap.fold other = NameMap.fold name →
      let d' := DomainAction.performAll nameOf later d
      ∃ assembly, d'.assembly? other = some assembly ∧
        d'.resolve other = .ok (.loaded assembly, d', [])) ∧
    ∀ ticket,
      let collected := (d.finishLoad nameOf ticket).2.1
      let d' := DomainAction.performAll nameOf later collected
      (∀ name assembly, d.assembly? name = some assembly →
        collected.assembly? name = some assembly) ∧
      (∀ assembly, (d.finishLoad nameOf ticket).1 = .ok (some assembly) →
        ∃ name, d.ticketName? ticket = some name ∧ (collected.assembly? name).isSome ∧
          (collected.assembly? (nameOf assembly)).isSome) ∧
      (d.isReady ticket = false → d.finishLoad nameOf ticket = (.ok none, d, [])) ∧
      (d.isReady ticket = true →
        (d'.finishLoad nameOf ticket).1 = (d.finishLoad nameOf ticket).1 ∧
          (d'.finishLoad nameOf ticket).2.1 = d') ∧
      ∀ name newer, ticket ≠ newer → d.pending.find? name = some newer →
        collected.pending.find? name = some newer := by
  intro d
  refine ⟨?_, ?_⟩
  · intro name other hname hfold d'
    have hlater : (d'.assembly? name).isSome :=
      (DomainAction.performAll_extends nameOf later d).registered hname
    rw [← assembly?_congr d' hfold] at hlater
    obtain ⟨assembly, hfound⟩ := Option.isSome_iff_exists.mp hlater
    exact ⟨assembly, hfound, resolve_of_assembly? hfound⟩
  · intro ticket collected d'
    have hsettled (hready : d.isReady ticket = true) :
        ∃ name outcome, d.ticket? ticket = some ⟨name, some outcome⟩ := by
      obtain ⟨outcome, houtcome⟩ := Option.isSome_iff_exists.mp hready
      obtain ⟨⟨name, settled⟩, hticket, rfl⟩ := Option.bind_eq_some_iff.mp houtcome
      exact ⟨name, outcome, hticket⟩
    refine ⟨fun name assembly => finishLoad_assembly? d nameOf ticket, ?_, ?_, ?_,
      fun name newer hne hpending => finishLoad_pending d nameOf hpending hne⟩
    · intro assembly hloaded
      rcases d.finishLoad_cases nameOf ticket with ⟨-, hrun⟩ |
        ⟨name, loaded, events, hticket, -, hrun⟩ | ⟨name, reason, -, hrun⟩
      · rw [hrun] at hloaded
        cases hloaded
      · rw [hrun] at hloaded
        obtain rfl : loaded = assembly := Option.some.inj (Except.ok.inj hloaded)
        have hcollected : Collected nameOf collected ticket name (.loaded loaded) :=
          .of_finishLoad hticket
        exact ⟨name, by rw [ticketName?, hticket]; rfl, hcollected.registered loaded rfl⟩
      · rw [hrun] at hloaded
        cases hloaded
    · intro hopen
      rcases d.finishLoad_cases nameOf ticket with ⟨-, hrun⟩ |
        ⟨name, loaded, events, hticket, -, hrun⟩ | ⟨name, reason, hticket, hrun⟩
      · exact hrun
      · simp [isReady, outcome?, hticket] at hopen
      · simp [isReady, outcome?, hticket] at hopen
    · intro hready
      obtain ⟨name, outcome, hticket⟩ := hsettled hready
      have hcollected : Collected nameOf collected ticket name outcome := .of_finishLoad hticket
      obtain ⟨hresult, hsame⟩ := (hcollected.performAll later).finishLoad
      exact ⟨hresult.trans (finishLoad_result hticket).symm, hsame⟩

/-- A load fails and is requested again, and the second request is completed. -/
def requestedAgain : List DomainAction :=
  [.resolve "Lib", .settle 0 (.failed "gone"), .finish 0, .resolve "Lib", .settle 1 (.loaded 1)]

/-- The first ticket is collected again while the second one is pending. The second one
is collected again after a namesake was registered in place of its assembly. -/
theorem registered_for_good_collected_once_by_namesake :
    let nameOf := Interpreter.namesakes.program.nameOf
    let d := DomainAction.performAll nameOf requestedAgain
      (Domain.empty 64 (some Loader.deferred))
    let d' := DomainAction.performAll nameOf [.register 2, .finish 0] (d.finishLoad nameOf 1).2.1
    d.isReady 0 = true ∧ d.isReady 1 = true ∧ d.pending.find? "Lib" = some 1 ∧
      (d.finishLoad nameOf 0).2.1.pending.find? "Lib" = some 1 ∧
      d'.assembly? "Lib" = some 2 ∧ (d'.finishLoad nameOf 1).1 = .ok (some 1) ∧
      (d'.finishLoad nameOf 1).2.1 = d' := by
  intro nameOf d d'
  have hfailed : d.isReady 0 = true := by decide +kernel
  have hcompleted : d.ticket? 1 = some ⟨"Lib", some (.loaded 1)⟩ := by decide +kernel
  have hready : d.isReady 1 = true := by decide +kernel
  have hpending : d.pending.find? "Lib" = some 1 := by decide +kernel
  have hsame : NameMap.fold "Lib" = NameMap.fold (nameOf 2) := by
    have hmixed : NameMap.fold "Lib" = "lib" := by decide +kernel
    have hupper : NameMap.fold (nameOf 2) = "lib" := by decide +kernel
    rw [hmixed, hupper]
  have hd : d = DomainAction.performAll nameOf requestedAgain
    (Domain.empty 64 (some Loader.deferred)) := rfl
  have hrepeated := (registered_for_good_collected_once nameOf
    (Domain.empty 64 (some Loader.deferred)) requestedAgain [.register 2, .finish 0]).2
  rw [← hd] at hrepeated
  -- the rest holds of any domain like this one, which need not be computed again
  clear_value d
  let named := (d.finishLoad nameOf 1).2.1.register (nameOf 2) 2
  have hnamed : named.assembly? "Lib" = some 2 := by
    rw [assembly?_register, if_pos hsame]
  have hnamesake : d'.assembly? "Lib" = some 2 := finishLoad_assembly? named nameOf 0 hnamed
  have hnewer := (hrepeated 0).2.2.2.2 "Lib" 1 (by decide) hpending
  have hagain := (hrepeated 1).2.2.2.1 hready
  exact ⟨hfailed, hready, hpending, hnewer, hnamesake,
    hagain.1.trans (finishLoad_of_ticket hcompleted), hagain.2⟩

end Domain

end ManagedCalls
