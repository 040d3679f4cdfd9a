import ManagedCalls.Proofs.DomainActions
import Mathlib.Data.List.Nodup

/-!
Pending loads. After every action of a domain names are filed folded and every
pending ticket under its own name, no ticket was handed to the loader twice, and
one that was handed over and is still open is pending. Tickets keep their names,
outcomes are settled once, requests are only added and registered names stay
registered.
-/

namespace ManagedCalls

namespace NameMap

variable {α : Type}

/-- Without capital letters. -/
def IsFolded (key : String) : Prop := ∀ c ∈ key.toList, c.isUpper = false

theorem isUpper_toLower (c : Char) : c.toLower.isUpper = false := by
  unfold Char.toLower Char.isUpper
  split
  · simp
    grind
  · grind

theorem isFolded_fold (name : String) : IsFolded (fold name) := by
  intro c hc
  rw [fold, String.toList_map] at hc
  obtain ⟨b, -, rfl⟩ := List.mem_map.mp hc
  exact isUpper_toLower b

theorem find?_congr (m : NameMap α) {name other : String} (h : fold name = fold other) :
    find? m name = find? m other := by
  rw [find?, find?, h]

theorem mem_erase {m : NameMap α} {name : String} {e : String × α} :
    e ∈ erase m name ↔ e ∈ m ∧ e.1 ≠ fold name := by
  simp [erase]

theorem mem_insert {m : NameMap α} {name : String} {a : α} {e : String × α} :
    e ∈ insert m name a ↔ e = (fold name, a) ∨ e ∈ m ∧ e.1 ≠ fold name := by
  rw [insert, List.mem_cons, mem_erase]

theorem mem_insertIfNew {m : NameMap α} {name : String} {a : α} {e : String × α}
    (h : e ∈ insertIfNew m name a) : e = (fold name, a) ∨ e ∈ m := by
  unfold insertIfNew at h
  split at h
  · exact Or.inr h
  · exact List.mem_cons.mp h

theorem isSome_insertIfNew {m : NameMap α} (name : String) (a : α) {other : String}
    (h : (find? m other).isSome) : (find? (insertIfNew m name a) other).isSome := by
  rw [find?_insertIfNew]
  split
  · rfl
  · exact h

theorem nodup_erase {m : NameMap α} (name : String) (h : (m.map Prod.fst).Nodup) :
    ((erase m name).map Prod.fst).Nodup :=
  h.sublist (List.filter_sublist.map _)

theorem nodup_insert {m : NameMap α} (name : String) (a : α) (h : (m.map Prod.fst).Nodup) :
    ((insert m name a).map Prod.fst).Nodup := by
  refine List.nodup_cons.mpr ⟨?_, nodup_erase name h⟩
  intro hmem
  obtain ⟨e, he, hkey⟩ := List.mem_map.mp hmem
  exact (mem_erase.mp he).2 hkey

theorem mem_of_find? {m : NameMap α} {name : String} {a : α} (h : find? m name = some a) :
    (fold name, a) ∈ m := by
  induction m with
  | nil => cases h
  | cons head rest ih =>
    rw [find?, List.lookup_cons] at h
    by_cases hkey : fold name = head.1
    · rw [beq_iff_eq.mpr hkey] at h
      obtain rfl : head.2 = a := Option.some.inj h
      exact List.mem_cons.mpr (Or.inl (Prod.ext hkey rfl))
    · rw [beq_eq_false_iff_ne.mpr hkey] at h
      exact List.mem_cons_of_mem _ (ih h)

end NameMap

namespace Domain

/-- A later domain: tickets have kept their names and their outcomes, requests
were added at the end, and what was registered still is. -/
structure Extends (d d' : Domain) : Prop where
  ticket : ∀ {r entry}, d.ticket? r = some entry →
    ∃ outcome, d'.ticket? r = some ⟨entry.name, outcome⟩ ∧
      (entry.outcome = none ∨ outcome = entry.outcome)
  requests : d.requests <+: d'.requests
  registered : ∀ {name}, (d.assembly? name).isSome → (d'.assembly? name).isSome
  loader : d'.loader.isSome = d.loader.isSome

namespace Extends

theorem refl (d : Domain) : d.Extends d where
  ticket := fun h => ⟨_, h, Or.inr rfl⟩
  requests := List.prefix_refl _
  registered := id
  loader := rfl

theorem trans {d d' d'' : Domain} (h : d.Extends d') (h' : d'.Extends d'') : d.Extends d'' where
  ticket := by
    intro r entry hr
    obtain ⟨outcome, hr', hkept⟩ := h.ticket hr
    obtain ⟨outcome', hr'', hkept'⟩ := h'.ticket hr'
    refine ⟨outcome', hr'', ?_⟩
    rcases hkept with hopen | hkept
    · exact Or.inl hopen
    · rcases hkept' with hopen' | hkept'
      · exact Or.inl (hkept.symm.trans hopen')
      · exact Or.inr (hkept'.trans hkept)
  requests := h.requests.trans h'.requests
  registered := fun hname => h'.registered (h.registered hname)
  loader := h'.loader.trans h.loader

/-- A ticket is open only if it was open before. -/
theorem open_of_open {d d' : Domain} (h : d.Extends d') {r : Nat} {entry : Ticket} {name : String}
    (hr : d.ticket? r = some entry) (hr' : d'.ticket? r = some ⟨name, none⟩) :
    entry = ⟨name, none⟩ := by
  obtain ⟨outcome, hlater, hkept⟩ := h.ticket hr
  obtain ⟨hname, houtcome⟩ := Ticket.mk.inj (Option.some.inj (hr'.symm.trans hlater))
  obtain ⟨entryName, entryOutcome⟩ := entry
  rcases hkept with hopen | hkept
  · exact Ticket.mk.injEq .. ▸ ⟨hname.symm, hopen⟩
  · exact Ticket.mk.injEq .. ▸ ⟨hname.symm, (houtcome.trans hkept).symm⟩

theorem withPool {d d' : Domain} (h : d.Extends d') (p : Pool) : d.Extends (d'.withPool p) :=
  ⟨h.ticket, h.requests, h.registered, h.loader⟩

end Extends

theorem ticket?_append {d : Domain} {r : Nat} {entry : Ticket} (added : List Ticket)
    (h : d.ticket? r = some entry) : (d.tickets ++ added)[r]? = some entry := by
  have hlt : r < d.tickets.length := (List.getElem?_eq_some_iff.mp h).1
  rw [List.getElem?_append_left hlt]
  exact h

theorem issue_extends (d : Domain) (loader : Loader) (name : String) :
    d.Extends (d.issue loader name) where
  ticket := fun h => ⟨_, ticket?_append _ h, Or.inr rfl⟩
  requests := List.prefix_append _ _
  registered := id
  loader := rfl

theorem retire_eq (d : Domain) (name : String) (ticket : Nat) :
    d.retire name ticket = { d with pending := (d.retire name ticket).pending } := by
  unfold retire
  split
  · rfl
  · rfl

theorem retire_extends (d : Domain) (name : String) (ticket : Nat) :
    d.Extends (d.retire name ticket) := by
  rw [retire_eq]
  exact ⟨(Extends.refl d).ticket, List.prefix_refl _, id, rfl⟩

theorem file_extends (d : Domain) (produced name : String) (assembly : Nat) :
    d.Extends (d.file produced name assembly) where
  ticket := (Extends.refl d).ticket
  requests := List.prefix_refl _
  registered := by
    intro other hother
    exact NameMap.isSome_insertIfNew _ _ (NameMap.isSome_insertIfNew _ _ hother)
  loader := rfl

end Domain

namespace DomainAction

variable (nameOf : Nat → String)

theorem perform_extends (a : DomainAction) (d : Domain) : d.Extends (a.perform nameOf d) := by
  cases a with
  | register assembly =>
    refine ⟨(Domain.Extends.refl d).ticket, List.prefix_refl _, ?_, rfl⟩
    intro name hname
    have hfind := NameMap.find?_insert d.registry (nameOf assembly) name assembly
    unfold perform Domain.register Domain.assembly? at *
    rw [hfind]
    split
    · rfl
    · exact hname
  | resolve name =>
    rw [perform_resolve]
    split
    next loader _ _ _ => exact d.issue_extends loader name
    · exact .refl d
  | newTicket name =>
    exact ⟨fun h => ⟨_, Domain.ticket?_append _ h, Or.inr rfl⟩, List.prefix_refl _, id, rfl⟩
  | settle ticket outcome =>
    rw [perform_settle]
    split
    next name hopen =>
      refine ⟨?_, List.prefix_refl _, id, rfl⟩
      intro r entry hr
      by_cases hsame : ticket = r
      · subst hsame
        obtain rfl : entry = ⟨name, none⟩ := Option.some.inj (hr.symm.trans hopen)
        have hlt : ticket < d.tickets.length := (List.getElem?_eq_some_iff.mp hr).1
        exact ⟨some outcome, List.getElem?_set_self hlt, Or.inl rfl⟩
      · exact ⟨entry.outcome, (List.getElem?_set_ne hsame).trans hr, Or.inr rfl⟩
    · exact .refl d
  | finish ticket =>
    rw [perform_finish]
    split
    next name assembly _ =>
      exact (d.file_extends _ name assembly).trans (Domain.retire_extends _ name ticket)
    next name reason _ => exact d.retire_extends name ticket
    · exact .refl d
  | reload loader =>
    refine ⟨(Domain.Extends.refl d).ticket, List.prefix_refl _, id, ?_⟩
    exact Option.isSome_map

end DomainAction

namespace Domain

structure WellFormed (d : Domain) : Prop where
  registry_folded : ∀ e ∈ d.registry, NameMap.IsFolded e.1
  pending_folded : ∀ e ∈ d.pending, NameMap.IsFolded e.1
  pending_nodup : (d.pending.map Prod.fst).Nodup
  /-- Every pending ticket was handed to the loader and is filed under its own name. -/
  pending_entry : ∀ e ∈ d.pending, e.2 ∈ d.requests ∧
    ∃ entry, d.ticket? e.2 = some entry ∧ e.1 = NameMap.fold entry.name
  requests_nodup : d.requests.Nodup
  requests_lt : ∀ r ∈ d.requests, r < d.tickets.length
  /-- A ticket that was handed to the loader is pending until it is settled. -/
  pending_of_open : ∀ r ∈ d.requests, ∀ name, d.ticket? r = some ⟨name, none⟩ →
    d.pending.find? name = some r
  loader_of_pending : d.pending ≠ [] → d.loader.isSome

namespace WellFormed

theorem empty (poolBytes : Nat) (loader : Option Loader) :
    (Domain.empty poolBytes loader).WellFormed where
  registry_folded := by simp [Domain.empty]
  pending_folded := by simp [Domain.empty]
  pending_nodup := List.nodup_nil
  pending_entry := by simp [Domain.empty]
  requests_nodup := List.nodup_nil
  requests_lt := by simp [Domain.empty]
  pending_of_open := by simp [Domain.empty]
  loader_of_pending := by simp [Domain.empty]

theorem ticket?_of_request {d : Domain} (h : d.WellFormed) {r : Nat} (hr : r ∈ d.requests) :
    ∃ entry, d.ticket? r = some entry :=
  ⟨_, List.getElem?_eq_getElem (h.requests_lt r hr)⟩

/-- Kept where neither the pending loads nor the requests change. -/
theorem of_same_loads {d d' : Domain} (h : d.WellFormed) (hext : d.Extends d')
    (hregistry : ∀ e ∈ d'.registry, NameMap.IsFolded e.1) (hpending : d'.pending = d.pending)
    (hrequests : d'.requests = d.requests) : d'.WellFormed where
  registry_folded := hregistry
  pending_folded := hpending ▸ h.pending_folded
  pending_nodup := hpending ▸ h.pending_nodup
  pending_entry := by
    intro e he
    rw [hpending] at he
    obtain ⟨hrequested, entry, hentry, hkey⟩ := h.pending_entry e he
    obtain ⟨outcome, hentry', -⟩ := hext.ticket hentry
    exact ⟨hrequests ▸ hrequested, _, hentry', hkey⟩
  requests_nodup := hrequests ▸ h.requests_nodup
  requests_lt := by
    intro r hr
    rw [hrequests] at hr
    obtain ⟨entry, hentry⟩ := h.ticket?_of_request hr
    obtain ⟨outcome, hentry', -⟩ := hext.ticket hentry
    exact (List.getElem?_eq_some_iff.mp hentry').1
  pending_of_open := by
    intro r hr name hopen
    rw [hrequests] at hr
    obtain ⟨entry, hentry⟩ := h.ticket?_of_request hr
    have hbefore : entry = ⟨name, none⟩ := hext.open_of_open hentry hopen
    rw [hpending]
    exact h.pending_of_open r hr name (hbefore ▸ hentry)
  loader_of_pending := by
    intro hne
    rw [hext.loader]
    exact h.loader_of_pending (hpending ▸ hne)

theorem file {d : Domain} (h : d.WellFormed) (produced name : String) (assembly : Nat) :
    (d.file produced name assembly).WellFormed := by
  refine h.of_same_loads (d.file_extends produced name assembly) ?_ rfl rfl
  intro e he
  rcases NameMap.mem_insertIfNew he with rfl | he
  · exact NameMap.isFolded_fold name
  · rcases NameMap.mem_insertIfNew he with rfl | he
    · exact NameMap.isFolded_fold produced
    · exact h.registry_folded e he

theorem issue {d : Domain} (h : d.WellFormed) {loader : Loader} (name : String)
    (hloader : d.loader = some loader) (hpending : d.pending.find? name = none) :
    (d.issue loader name).WellFormed where
  registry_folded := h.registry_folded
  pending_folded := by
    intro e he
    rcases NameMap.mem_insert.mp he with rfl | ⟨he, -⟩
    · exact NameMap.isFolded_fold name
    · exact h.pending_folded e he
  pending_nodup := NameMap.nodup_insert name _ h.pending_nodup
  pending_entry := by
    intro e he
    rcases NameMap.mem_insert.mp he with rfl | ⟨he, -⟩
    · refine ⟨List.mem_append_right _ List.mem_cons_self, ⟨name, (loader name).outcome⟩, ?_, rfl⟩
      simp [Domain.issue, ticket?]
    · obtain ⟨hrequested, entry, hentry, hkey⟩ := h.pending_entry e he
      exact ⟨List.mem_append_left _ hrequested, entry, ticket?_append _ hentry, hkey⟩
  requests_nodup := by
    refine List.nodup_append.mpr ⟨h.requests_nodup, List.nodup_singleton _, ?_⟩
    intro r hr r' hr'
    have hlt := h.requests_lt r hr
    have heq := List.mem_singleton.mp hr'
    omega
  requests_lt := by
    intro r hr
    have hlength : (d.issue loader name).tickets.length = d.tickets.length + 1 := by
      simp [Domain.issue]
    rcases List.mem_append.mp hr with hr | hr
    · have hlt := h.requests_lt r hr
      omega
    · have heq := List.mem_singleton.mp hr
      omega
  pending_of_open := by
    intro r hr other hopen
    have hfind := NameMap.find?_insert d.pending name other d.tickets.length
    rcases List.mem_append.mp hr with hr | hr
    · -- an older ticket of the same name would be pending
      obtain ⟨entry, hentry⟩ := h.ticket?_of_request hr
      have hbefore : entry = ⟨other, none⟩ :=
        (d.issue_extends loader name).open_of_open hentry hopen
      have hfound := h.pending_of_open r hr other (hbefore ▸ hentry)
      have hne : NameMap.fold other ≠ NameMap.fold name := by
        intro hsame
        rw [NameMap.find?_congr d.pending hsame, hpending] at hfound
        cases hfound
      rw [Domain.issue, hfind, if_neg hne]
      exact hfound
    · obtain rfl := List.mem_singleton.mp hr
      have hsame : name = other := by
        simp only [Domain.issue, ticket?, List.getElem?_concat_length] at hopen
        exact (Ticket.mk.inj (Option.some.inj hopen)).1
      rw [Domain.issue, hfind, if_pos (by rw [hsame])]
  loader_of_pending := by
    intro _
    rw [Domain.issue, hloader]
    rfl

theorem retire {d : Domain} (h : d.WellFormed) {ticket : Nat} {name : String}
    {outcome : LoadOutcome} (hticket : d.ticket? ticket = some ⟨name, some outcome⟩) :
    (d.retire name ticket).WellFormed := by
  unfold Domain.retire
  split
  next hfound =>
    refine ⟨h.registry_folded, ?_, NameMap.nodup_erase name h.pending_nodup, ?_,
      h.requests_nodup, h.requests_lt, ?_, ?_⟩
    · intro e he
      exact h.pending_folded e (NameMap.mem_erase.mp he).1
    · intro e he
      exact h.pending_entry e (NameMap.mem_erase.mp he).1
    · intro r hr other hopen
      have hpending := h.pending_of_open r hr other hopen
      have hne : NameMap.fold other ≠ NameMap.fold name := by
        intro hsame
        rw [NameMap.find?_congr d.pending hsame, hfound] at hpending
        obtain rfl := Option.some.inj hpending
        cases hticket.symm.trans hopen
      have hfind := NameMap.find?_erase d.pending name other
      rw [hfind, if_neg hne]
      exact hpending
    · intro hne
      apply h.loader_of_pending
      intro hnone
      apply hne
      rw [hnone]
      rfl
  · exact h

end WellFormed

end Domain

theorem DomainAction.perform_wellFormed (nameOf : Nat → String) (a : DomainAction) {d : Domain}
    (h : d.WellFormed) : (a.perform nameOf d).WellFormed := by
  have hext := perform_extends nameOf a d
  cases a with
  | register assembly =>
    refine h.of_same_loads hext ?_ rfl rfl
    intro e he
    rcases NameMap.mem_insert.mp he with rfl | ⟨he, -⟩
    · exact NameMap.isFolded_fold _
    · exact h.registry_folded e he
  | resolve name =>
    rw [perform_resolve]
    split
    next loader hfound hloader hpending => exact h.issue name hloader hpending
    · exact h
  | newTicket name => exact h.of_same_loads hext h.registry_folded rfl rfl
  | settle ticket outcome =>
    rw [perform_settle] at hext ⊢
    split at hext
    · exact h.of_same_loads hext h.registry_folded rfl rfl
    · exact h
  | finish ticket =>
    rw [perform_finish]
    split
    next name assembly hticket =>
      exact (h.file (nameOf assembly) name assembly).retire hticket
    next name reason hticket => exact h.retire hticket
    · exact h
  | reload loader => exact h.of_same_loads hext h.registry_folded rfl rfl

namespace Domain

/-- Retiring a ticket leaves the entries of other tickets. -/
theorem find?_retire_of_ne {d : Domain} {name other : String} {ticket r : Nat}
    (h : d.pending.find? name = some ticket) (hne : r ≠ ticket) :
    (d.retire other r).pending.find? name = some ticket := by
  unfold retire
  split
  next hfound =>
    have hfold : NameMap.fold name ≠ NameMap.fold other := by
      intro hsame
      rw [NameMap.find?_congr d.pending hsame, hfound] at h
      exact hne (Option.some.inj h)
    have hfind := NameMap.find?_erase d.pending other name
    rw [hfind, if_neg hfold]
    exact h
  · exact h

def ticketName? (d : Domain) (ticket : Nat) : Option String := (d.ticket? ticket).map Ticket.name

end Domain

end ManagedCalls
