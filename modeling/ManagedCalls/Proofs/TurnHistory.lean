import Mathlib.Data.List.Nodup
import Mathlib.Data.List.Perm.Basic

/-!
Histories of turns. Threads come into a queue one after the other, and each turn
goes to the first in the queue, who then goes to its end or leaves it. So everybody
is in one place, nobody who left has another turn, and between two turns of one
thread all others in the queue have one turn each.
-/

namespace ManagedCalls

/-- What became of a thread that had its turn. -/
inductive Verdict where
  | lives
  | completes
  | fails
  deriving DecidableEq

inductive Happening where
  | spawned (number : Nat)
  | turn (number : Nat) (verdict : Verdict)
  | tickEnded (failed : Bool)
  deriving DecidableEq

/-- What has happened, the latest first. -/
abbrev History := List Happening

namespace History

/-- The threads that are live after a history, the next one first. -/
def queue : History → List Nat
  | [] => []
  | .spawned number :: h => queue h ++ [number]
  | .turn number .lives :: h => (queue h).erase number ++ [number]
  | .turn number _ :: h => (queue h).erase number
  | .tickEnded _ :: h => queue h

def spawns : History → Nat
  | [] => 0
  | .spawned _ :: h => spawns h + 1
  | _ :: h => spawns h

/-- The threads that had turns, in the order of the turns. -/
def turns : History → List Nat
  | [] => []
  | .turn number _ :: h => turns h ++ [number]
  | _ :: h => turns h

/-- The threads that had turns with a certain verdict, in the order of the turns. -/
def judged (verdict : Verdict) : History → List Nat
  | [] => []
  | .turn number v :: h => judged verdict h ++ if v = verdict then [number] else []
  | _ :: h => judged verdict h

def failedTicks (h : History) : Nat := h.count (.tickEnded true)

/-- Threads are numbered one after the other, and a turn goes to the first thread
in the queue. -/
def Orderly : History → Prop
  | [] => True
  | .spawned number :: h => number = spawns h ∧ Orderly h
  | .turn number _ :: h => (queue h).head? = some number ∧ Orderly h
  | .tickEnded _ :: h => Orderly h

theorem Orderly.of_append {later h : History} (horder : Orderly (later ++ h)) : Orderly h := by
  induction later with
  | nil => exact horder
  | cons e later ih =>
    cases e with
    | spawned number => exact ih horder.2
    | turn number v => exact ih horder.2
    | tickEnded failed => exact ih horder

/-- Everybody who was ever spawned. -/
def everybody (h : History) : List Nat := queue h ++ (judged .completes h ++ judged .fails h)

/-- The first of the queue goes to the end, or to those who left. -/
theorem everybody_turn_perm {h : History} {number : Nat} (hfirst : (queue h).head? = some number)
    (v : Verdict) : (everybody (.turn number v :: h)).Perm (everybody h) := by
  obtain ⟨rest, hqueue⟩ : ∃ rest, queue h = number :: rest := List.head?_eq_some_iff.mp hfirst
  have hturn : (number :: (rest ++ (judged .completes h ++ judged .fails h))).Perm
      (everybody h) := by
    rw [everybody, hqueue]
    exact List.Perm.refl _
  refine List.Perm.trans ?_ hturn
  cases v with
  | lives => simp [everybody, queue, judged, hqueue]
  | completes =>
    have hmiddle : ((rest ++ judged .completes h) ++ number :: judged .fails h).Perm
        (number :: ((rest ++ judged .completes h) ++ judged .fails h)) := List.perm_middle
    simpa [everybody, queue, judged, hqueue] using hmiddle
  | fails =>
    have hlast : ((rest ++ (judged .completes h ++ judged .fails h)) ++ [number]).Perm
        (number :: (rest ++ (judged .completes h ++ judged .fails h))) :=
      List.perm_append_singleton _ _
    simpa [everybody, queue, judged, hqueue] using hlast

/-- Every thread is live, completed or failed, and is so once. -/
theorem Orderly.everybody_perm {h : History} (horder : Orderly h) :
    (everybody h).Perm (List.range (spawns h)) := by
  induction h with
  | nil => exact List.Perm.refl _
  | cons e h ih =>
    cases e with
    | spawned number =>
      obtain ⟨rfl, horder⟩ := horder
      have hmiddle : (queue h ++ spawns h :: (judged .completes h ++ judged .fails h)).Perm
          (everybody h ++ [spawns h]) :=
        List.perm_middle.trans (List.perm_append_singleton _ _).symm
      have hlast : (everybody h ++ [spawns h]).Perm (List.range (spawns h + 1)) := by
        rw [List.range_succ]
        exact (ih horder).append_right _
      simpa [everybody, queue, judged, spawns] using hmiddle.trans hlast
    | turn number v => exact (everybody_turn_perm horder.1 v).trans (ih horder.2)
    | tickEnded failed => exact ih horder

theorem Orderly.everybody_nodup {h : History} (horder : Orderly h) : (everybody h).Nodup :=
  horder.everybody_perm.nodup_iff.mpr List.nodup_range

theorem Orderly.queue_nodup {h : History} (horder : Orderly h) : (queue h).Nodup :=
  horder.everybody_nodup.of_append_left

theorem queue_turn {h : History} {number : Nat} {rest : List Nat}
    (hqueue : queue h = number :: rest) (v : Verdict) :
    queue (.turn number v :: h) = rest ++ if v = .lives then [number] else [] := by
  cases v with
  | lives => simp [queue, hqueue]
  | completes => simp [queue, hqueue]
  | fails => simp [queue, hqueue]

theorem judged_append (verdict : Verdict) (later h : History) :
    judged verdict (later ++ h) = judged verdict h ++ judged verdict later := by
  induction later with
  | nil => simp [judged]
  | cons e later ih =>
    cases e with
    | spawned number => exact ih
    | turn number v => simp [judged, ih]
    | tickEnded failed => exact ih

/-- A thread that has left the queue has no more turns. -/
theorem Orderly.no_turn_after {later h : History} {number : Nat} {v : Verdict}
    (horder : Orderly (later ++ .turn number v :: h)) (hleft : v ≠ .lives) :
    number ∉ turns later := by
  induction later with
  | nil => exact List.not_mem_nil
  | cons e later ih =>
    cases e with
    | spawned other => exact ih horder.2
    | tickEnded failed => exact ih horder
    | turn other v' =>
      obtain ⟨hfirst, hbefore⟩ := horder
      have hjudged : number ∈ judged v (later ++ .turn number v :: h) := by
        rw [judged_append]
        exact List.mem_append_left _ (by simp [judged])
      have hgone : number ∈ judged .completes (later ++ .turn number v :: h) ++
          judged .fails (later ++ .turn number v :: h) := by
        cases v with
        | lives => exact absurd rfl hleft
        | completes => exact List.mem_append_left _ hjudged
        | fails => exact List.mem_append_right _ hjudged
      -- who is first in the queue has not left it
      have hother : number ≠ other := by
        rintro rfl
        have hlive : number ∈ queue (later ++ .turn number v :: h) := List.mem_of_mem_head? hfirst
        exact List.disjoint_of_nodup_append hbefore.everybody_nodup hlive hgone
      simp only [turns, List.mem_append, List.mem_singleton, not_or]
      exact ⟨ih hbefore, hother⟩

/-- As long as a thread waits, the turns go to those ahead of it, in their order. -/
theorem Orderly.turns_ahead {later h : History} {number : Nat} {ahead behind : List Nat}
    (horder : Orderly (later ++ h)) (hqueue : queue h = ahead ++ number :: behind)
    (hwaits : number ∉ turns later) :
    ∃ ahead' behind', queue (later ++ h) = ahead' ++ number :: behind' ∧
      ahead = turns later ++ ahead' := by
  induction later with
  | nil => exact ⟨ahead, behind, hqueue, rfl⟩
  | cons e later ih =>
    cases e with
    | spawned new =>
      obtain ⟨ahead', behind', hqueue', hahead⟩ := ih horder.2 hwaits
      exact ⟨ahead', behind' ++ [new], by simp [queue, hqueue'], hahead⟩
    | tickEnded failed => exact ih horder hwaits
    | turn other v =>
      simp only [turns, List.mem_append, List.mem_singleton, not_or] at hwaits
      obtain ⟨ahead', behind', hqueue', hahead⟩ := ih horder.2 hwaits.1
      -- the turn goes to somebody else, so somebody is ahead
      obtain ⟨rest, hfirst⟩ : ∃ rest, queue (later ++ h) = other :: rest :=
        List.head?_eq_some_iff.mp horder.1
      cases ahead' with
      | nil =>
        rw [hfirst, List.nil_append] at hqueue'
        exact absurd (List.cons.inj hqueue').1.symm hwaits.2
      | cons first ahead' =>
        rw [hfirst, List.cons_append] at hqueue'
        obtain ⟨rfl, rfl⟩ := List.cons.inj hqueue'
        refine ⟨ahead', behind' ++ if v = .lives then [other] else [], ?_, ?_⟩
        · rw [List.cons_append, queue_turn hfirst, List.append_assoc, List.cons_append]
        · rw [hahead, turns, List.append_assoc]
          rfl

theorem turns_append (later h : History) : turns (later ++ h) = turns h ++ turns later := by
  induction later with
  | nil => simp [turns]
  | cons e later ih =>
    cases e with
    | spawned number => exact ih
    | turn number v => simp [turns, ih]
    | tickEnded failed => exact ih

theorem judged_sublist (verdict : Verdict) (h : History) :
    (judged verdict h).Sublist (turns h) := by
  induction h with
  | nil => exact List.Sublist.refl _
  | cons e h ih =>
    cases e with
    | spawned number => exact ih
    | tickEnded failed => exact ih
    | turn number v =>
      refine ih.append ?_
      split
      · exact List.Sublist.refl _
      · exact List.nil_sublist _

/-- Every turn has a verdict. -/
theorem turns_perm (h : History) :
    (turns h).Perm (judged .lives h ++ (judged .completes h ++ judged .fails h)) := by
  induction h with
  | nil => exact List.Perm.refl _
  | cons e h ih =>
    cases e with
    | spawned number => exact ih
    | tickEnded failed => exact ih
    | turn number v =>
      have hlast := (List.perm_append_singleton number (turns h)).trans (ih.cons number)
      refine hlast.trans ?_
      cases v with
      | lives => simpa [judged] using List.perm_middle.symm
      | completes =>
        have hmiddle : ((judged .lives h ++ judged .completes h) ++ number :: judged .fails h).Perm
            (number :: ((judged .lives h ++ judged .completes h) ++ judged .fails h)) :=
          List.perm_middle
        simpa [judged] using hmiddle.symm
      | fails =>
        have hend := List.perm_append_singleton number
          (judged .lives h ++ (judged .completes h ++ judged .fails h))
        simpa [judged] using hend.symm

theorem spawns_append (later h : History) : spawns (later ++ h) = spawns h + spawns later := by
  induction later with
  | nil => rfl
  | cons e later ih =>
    cases e with
    | spawned number => simp [spawns, ih, Nat.add_assoc]
    | turn number v => exact ih
    | tickEnded failed => exact ih

/-- Turns, spawns and ends of ticks are different things. -/
theorem spawns_add_failedTicks_le (h : History) :
    spawns h + failedTicks h + (turns h).length ≤ h.length := by
  induction h with
  | nil => exact Nat.le_refl _
  | cons e h ih =>
    simp only [failedTicks] at ih
    cases e with
    | spawned number =>
      simp [spawns, failedTicks, turns]
      omega
    | turn number v =>
      simp [spawns, failedTicks, turns]
      omega
    | tickEnded failed =>
      cases failed with
      | true =>
        simp [spawns, failedTicks, turns]
        omega
      | false =>
        simp [spawns, failedTicks, turns]
        omega

/-- Between two turns of a thread that follow each other, the others in the queue
have one turn each, in their order, and nobody else has one. -/
theorem Orderly.turns_between {later between h : History} {number : Nat} {v v' : Verdict}
    (horder : Orderly (later ++ .turn number v' :: (between ++ .turn number v :: h)))
    (hnext : number ∉ turns between) :
    queue (.turn number v :: h) = turns between ++ [number] := by
  obtain ⟨hagain, hbefore⟩ : Orderly (.turn number v' :: (between ++ .turn number v :: h)) :=
    horder.of_append
  have hthen : Orderly (.turn number v :: h) := hbefore.of_append
  obtain ⟨rest, hfirst⟩ : ∃ rest, queue h = number :: rest :=
    List.head?_eq_some_iff.mp hthen.1
  have hlives : v = .lives := by
    by_contra hleft
    have horder' : Orderly ((.turn number v' :: between) ++ .turn number v :: h) :=
      ⟨hagain, hbefore⟩
    exact horder'.no_turn_after hleft (by simp [turns])
  have hqueue : queue (.turn number v :: h) = rest ++ number :: [] := by
    rw [queue_turn hfirst, if_pos hlives]
  obtain ⟨ahead, behind, hqueue', hrest⟩ := hbefore.turns_ahead hqueue hnext
  have hnone : ahead = [] := by
    cases ahead with
    | nil => rfl
    | cons first ahead =>
      rw [hqueue', List.cons_append, List.head?_cons] at hagain
      have hnodup := hthen.2.queue_nodup
      rw [hfirst, hrest, Option.some.inj hagain] at hnodup
      simp at hnodup
  rw [hqueue, hrest, hnone, List.append_nil]

end History

end ManagedCalls
