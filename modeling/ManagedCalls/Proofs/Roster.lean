import ManagedCalls.Proofs.Fleet
import ManagedCalls.Proofs.TurnHistory

/-!
A scheduler with numbers. Threads may look alike, so each gets a number when it is
spawned, which it keeps. The scheduler with numbers also keeps the threads that were
aborted and writes down what happens; without all this it is the plain one. A tick
steps the threads of the queue in its order and puts each where it belongs.
-/

namespace ManagedCalls

open Stateful

variable {κ : Type}

/-- A thread with the number it got when it was spawned. -/
structure Enrolled (κ : Type) where
  number : Nat
  thread : Thread κ

/-- A scheduler that knows its threads by numbers, the aborted ones too, and writes
down what happens. -/
structure Roster (κ : Type) where
  live : List (Enrolled κ)
  finished : List (Enrolled κ)
  /-- The threads whose steps failed, as they were then. -/
  aborted : List (Enrolled κ)
  ticks : Nat
  domain : Domain
  log : Log
  history : History

namespace Roster

/-- The scheduler without the numbers. -/
def world (r : Roster κ) : World κ :=
  { scheduler :=
      { threads := r.live.map Enrolled.thread
        finished := r.finished.map Enrolled.thread
        ticks := r.ticks }
    domain := r.domain
    log := r.log }

def start (domain : Domain) (log : Log) : Roster κ :=
  { live := [], finished := [], aborted := [], ticks := 0, domain, log, history := [] }

def write (r : Roster κ) (e : Happening) : Roster κ := { r with history := e :: r.history }

def setMachine (r : Roster κ) (domain : Domain) (log : Log) : Roster κ := { r with domain, log }

def spawn (r : Roster κ) (t : Thread κ) : Roster κ :=
  { r with
    live := r.live ++ [⟨r.history.spawns, t⟩]
    log := r.log.add (.spawning t.id)
    history := .spawned r.history.spawns :: r.history }

/-- The first thread of the queue has had its turn and goes where its verdict says. -/
def place (r : Roster κ) (rest : List (Enrolled κ)) (e : Enrolled κ) (v : Verdict) : Roster κ :=
  { r with
    live := rest ++ if v = .lives then [e] else []
    finished := r.finished ++ if v = .completes then [e] else []
    aborted := r.aborted ++ if v = .fails then [e] else []
    history := .turn e.number v :: r.history }

/-- The first thread of the queue has failed in its step and is aborted. -/
def abort (ctx : Context κ) (r : Roster κ) (rest : List (Enrolled κ)) (number : Nat)
    (m : Machine κ) (why : Fault) : Roster κ :=
  let dropped := (r.place rest ⟨number, m.thread⟩ .fails).setMachine m.domain m.log
  let after := World.abort ctx dropped.world m.thread why
  dropped.setMachine after.domain after.log

/-- Steps the first `count` threads of the queue. -/
def stepThreads (ctx : Context κ) : Nat → Roster κ → EStateM.Result Fault (Roster κ) Unit
  | 0, r => .ok () r
  | count + 1, r =>
    match r.live with
    | [] => .ok () r
    | first :: rest =>
      match step ctx ⟨first.thread, r.domain, r.log⟩ with
      | .ok true m =>
        stepThreads ctx count
          ((r.place rest ⟨first.number, m.thread⟩ .lives).setMachine m.domain m.log)
      | .ok false m =>
        stepThreads ctx count
          ((r.place rest ⟨first.number, m.thread⟩ .completes).setMachine m.domain
            (m.log.add (.completed m.thread.id)))
      | .error e m => .error e (r.abort ctx rest first.number m e)

def tick (ctx : Context κ) (r : Roster κ) : EStateM.Result Fault (Roster κ) Bool :=
  match stepThreads ctx r.live.length { r with ticks := r.ticks + 1 } with
  | .ok _ r' => .ok (!r'.live.isEmpty) (r'.write (.tickEnded false))
  | .error e r' => .error e (r'.write (.tickEnded true))

/-- A result without the numbers. -/
def plain {α : Type} : EStateM.Result Fault (Roster κ) α → EStateM.Result Fault (World κ) α
  | .ok a r => .ok a r.world
  | .error e r => .error e r.world

theorem world_abort (ctx : Context κ) (r : Roster κ) (rest : List (Enrolled κ)) (number : Nat)
    (m : Machine κ) (why : Fault) :
    (r.abort ctx rest number m why).world = World.abort ctx
      ((r.place rest ⟨number, m.thread⟩ .fails).setMachine m.domain m.log).world m.thread why := by
  dsimp only [abort]
  generalize (r.place rest ⟨number, m.thread⟩ .fails).setMachine m.domain m.log = dropped
  have hsame := World.abort_scheduler ctx dropped.world m.thread why
  generalize World.abort ctx dropped.world m.thread why = w at hsame ⊢
  cases w
  subst hsame
  rfl

theorem world_stepThreads (ctx : Context κ) (count : Nat) (r : Roster κ) :
    World.stepThreads ctx count r.world = plain (stepThreads ctx count r) := by
  induction count generalizing r with
  | zero => rfl
  | succ count ih =>
    cases hlive : r.live with
    | nil => simp [World.stepThreads, stepThreads, world, hlive, plain]
    | cons first rest =>
      cases hstep : step ctx ⟨first.thread, r.domain, r.log⟩ with
      | error e m =>
        have habort := world_abort ctx r rest first.number m e
        simpa [World.stepThreads, stepThreads, world, hlive, hstep, plain, place, setMachine] using
          habort.symm
      | ok goesOn m =>
        cases goesOn with
        | true =>
          have hrest :=
            ih ((r.place rest ⟨first.number, m.thread⟩ .lives).setMachine m.domain m.log)
          simpa [World.stepThreads, stepThreads, world, hlive, hstep, place, setMachine] using hrest
        | false =>
          have hrest := ih ((r.place rest ⟨first.number, m.thread⟩ .completes).setMachine m.domain
            (m.log.add (.completed m.thread.id)))
          simpa [World.stepThreads, stepThreads, world, hlive, hstep, place, setMachine] using hrest

theorem world_tick (ctx : Context κ) (r : Roster κ) :
    World.tick ctx r.world = plain (tick ctx r) := by
  let counted : Roster κ := { r with ticks := r.ticks + 1 }
  have hlength : r.world.scheduler.threads.length = r.live.length := List.length_map _
  have hsteps : World.stepThreads ctx r.world.scheduler.threads.length
      { r.world with
        scheduler := { r.world.scheduler with ticks := r.world.scheduler.ticks + 1 } } =
      plain (stepThreads ctx r.live.length counted) := by
    rw [hlength]
    exact world_stepThreads ctx r.live.length counted
  dsimp only [World.tick]
  rw [hsteps, tick]
  cases stepThreads ctx r.live.length counted with
  | ok done r' => simp [plain, world, write]
  | error e r' => rfl

theorem after_plain {α : Type} {x : EStateM Fault (World κ) α} {y : EStateM Fault (Roster κ) α}
    {r : Roster κ} (h : x r.world = plain (y r)) :
    after x r.world = (after y r).world ∧ outcome x r.world = outcome y r := by
  unfold after outcome
  rw [h]
  cases y r with
  | ok a r' => exact ⟨rfl, rfl⟩
  | error e r' => exact ⟨rfl, rfl⟩

theorem ticks_tick (ctx : Context κ) (r : Roster κ) :
    (after (tick ctx) r).ticks = r.ticks + 1 := by
  have hcount := World.ticks_tick ctx r.world
  rwa [(after_plain (world_tick ctx r)).1] at hcount

def runSince (ctx : Context κ) (start limit : Nat) (r : Roster κ) :
    EStateM.Result Fault (Roster κ) RunOutcome :=
  if r.live.isEmpty then .ok (.completed (r.ticks - start)) r
  else if limit ≤ r.ticks - start then .ok (.tickLimit (r.ticks - start)) r
  else
    match _ : tick ctx r with
    | .ok _ r' => runSince ctx start limit r'
    | .error e r' => .error e r'
termination_by start + limit - r.ticks
decreasing_by
  have hcount := ticks_tick ctx r
  rw [after_of_ok ‹tick ctx r = .ok _ r'›] at hcount
  omega

def run (ctx : Context κ) (limit : Nat) : EStateM Fault (Roster κ) RunOutcome := fun r =>
  runSince ctx r.ticks limit r

theorem world_runSince (ctx : Context κ) (start limit : Nat) (r : Roster κ) :
    World.runSince ctx start limit r.world = plain (runSince ctx start limit r) := by
  have hlive {r : Roster κ} (h : ¬r.live.isEmpty = true) : r.world.scheduler.threads ≠ [] := by
    simpa [world] using h
  fun_induction runSince ctx start limit r with
  | case1 r hempty =>
    have hdone : r.world.scheduler.threads = [] := by simpa [world] using hempty
    exact World.runSince_of_done hdone
  | case2 r hsome hspent => exact World.runSince_of_spent (hlive hsome) hspent
  | case3 r hsome hleft goesOn r' htick ih =>
    have hworld : World.tick ctx r.world = .ok goesOn r'.world := by rw [world_tick, htick, plain]
    rw [World.runSince_of_tick (hlive hsome) (Nat.not_le.mp hleft) hworld]
    exact ih
  | case4 r hsome hleft e r' htick =>
    have hworld : World.tick ctx r.world = .error e r'.world := by rw [world_tick, htick, plain]
    exact World.runSince_of_fault (hlive hsome) (Nat.not_le.mp hleft) hworld

def numbers (es : List (Enrolled κ)) : List Nat := es.map Enrolled.number

@[simp] theorem numbers_append (es es' : List (Enrolled κ)) :
    numbers (es ++ es') = numbers es ++ numbers es' := List.map_append

@[simp] theorem numbers_cons (e : Enrolled κ) (es : List (Enrolled κ)) :
    numbers (e :: es) = e.number :: numbers es := rfl

@[simp] theorem length_numbers (es : List (Enrolled κ)) : (numbers es).length = es.length :=
  List.length_map _

@[simp] theorem numbers_ite (c : Prop) [Decidable c] (e : Enrolled κ) :
    numbers (if c then [e] else []) = if c then [e.number] else [] := by
  split
  · rfl
  · rfl

/-- The threads are where the history says they are. -/
structure Faithful (r : Roster κ) : Prop where
  orderly : r.history.Orderly
  live_eq : numbers r.live = r.history.queue
  finished_eq : numbers r.finished = r.history.judged .completes
  aborted_eq : numbers r.aborted = r.history.judged .fails

theorem Faithful.start (domain : Domain) (log : Log) : (start domain log : Roster κ).Faithful where
  orderly := trivial
  live_eq := rfl
  finished_eq := rfl
  aborted_eq := rfl

theorem Faithful.spawn {r : Roster κ} (h : r.Faithful) (t : Thread κ) : (r.spawn t).Faithful where
  orderly := ⟨rfl, h.orderly⟩
  live_eq := by
    rw [Roster.spawn, numbers_append, h.live_eq]
    rfl
  finished_eq := h.finished_eq
  aborted_eq := h.aborted_eq

/-- From one roster to the next some threads had their turns: the first ones of the
queue, in its order. -/
structure Turned (r r' : Roster κ) (told : History) : Prop where
  faithful : r.Faithful → r'.Faithful
  history_eq : r'.history = told ++ r.history
  length_le : told.length ≤ r.live.length
  turns_eq : told.turns = (numbers r.live).take told.length
  live_eq : numbers r'.live = (numbers r.live).drop told.length ++ told.judged .lives
  finished_eq : numbers r'.finished = numbers r.finished ++ told.judged .completes
  aborted_eq : numbers r'.aborted = numbers r.aborted ++ told.judged .fails

namespace Turned

theorem refl (r : Roster κ) : Turned r r [] where
  faithful := id
  history_eq := rfl
  length_le := Nat.zero_le _
  turns_eq := rfl
  live_eq := by simp [History.judged]
  finished_eq := by simp [History.judged]
  aborted_eq := by simp [History.judged]

theorem of_place {r : Roster κ} {first : Enrolled κ} {rest : List (Enrolled κ)}
    (hlive : r.live = first :: rest) (t : Thread κ) (v : Verdict) (domain : Domain) (log : Log) :
    Turned r ((r.place rest ⟨first.number, t⟩ v).setMachine domain log)
      [.turn first.number v] where
  faithful := by
    rintro ⟨horder, hqueue, hcompleted, hfailed⟩
    have hfirst : r.history.queue = first.number :: numbers rest := by
      rw [← hqueue, hlive]
      rfl
    refine ⟨⟨by rw [hfirst]; rfl, horder⟩, ?_, ?_, ?_⟩
    · simp [setMachine, place, History.queue_turn hfirst]
    · simp [setMachine, place, History.judged, hcompleted]
    · simp [setMachine, place, History.judged, hfailed]
  history_eq := rfl
  length_le := by simp [hlive]
  turns_eq := by simp [History.turns, hlive]
  live_eq := by simp [setMachine, place, hlive, History.judged]
  finished_eq := by simp [setMachine, place, History.judged]
  aborted_eq := by simp [setMachine, place, History.judged]

theorem le_length_drop {r : Roster κ} {first second : Nat}
    (hround : first + second ≤ r.live.length) :
    second ≤ ((numbers r.live).drop first).length := by
  rw [List.length_drop, length_numbers]
  omega

/-- Turns after turns, as long as none comes round to a thread a second time. -/
theorem trans {r r' r'' : Roster κ} {told told' : History} (h : Turned r r' told)
    (h' : Turned r' r'' told') (hround : told.length + told'.length ≤ r.live.length) :
    Turned r r'' (told' ++ told) where
  faithful := h'.faithful ∘ h.faithful
  history_eq := by rw [h'.history_eq, h.history_eq, List.append_assoc]
  length_le := by
    rw [List.length_append]
    omega
  turns_eq := by
    rw [History.turns_append, h.turns_eq, h'.turns_eq, h.live_eq,
      List.take_append_of_le_length (le_length_drop hround), List.length_append, Nat.add_comm,
      List.take_add]
  live_eq := by
    rw [h'.live_eq, h.live_eq, List.drop_append_of_le_length (le_length_drop hround),
      List.drop_drop, History.judged_append, List.length_append, List.append_assoc, Nat.add_comm]
  finished_eq := by
    rw [h'.finished_eq, h.finished_eq, History.judged_append, List.append_assoc]
  aborted_eq := by
    rw [h'.aborted_eq, h.aborted_eq, History.judged_append, List.append_assoc]

/-- Turns take nobody away and bring nobody in. -/
theorem perm {r r' : Roster κ} {told : History} (h : Turned r r' told) :
    (numbers r'.live ++ (numbers r'.finished ++ numbers r'.aborted)).Perm
      (numbers r.live ++ (numbers r.finished ++ numbers r.aborted)) := by
  rw [List.perm_iff_count]
  intro number
  have hturns := told.turns_perm.count_eq number
  have hsplit : (numbers r.live).count number =
      ((numbers r.live).take told.length).count number +
        ((numbers r.live).drop told.length).count number := by
    rw [← List.count_append, List.take_append_drop]
  rw [h.turns_eq] at hturns
  simp only [h.live_eq, h.finished_eq, h.aborted_eq, List.count_append] at hturns ⊢
  omega

end Turned

/-- What the first threads of the queue made of their turns: none failed, or the
last one did. -/
def Steps (r : Roster κ) (count : Nat) : EStateM.Result Fault (Roster κ) Unit → Prop
  | .ok _ r' => ∃ told : History, Turned r r' told ∧ told.length = count ∧ told.judged .fails = []
  | .error _ r' => ∃ (number : Nat) (earlier : History),
      Turned r r' (.turn number .fails :: earlier) ∧ earlier.length < count ∧
        earlier.judged .fails = []

theorem Steps.after_turn {r r' : Roster κ} {number count : Nat} {v : Verdict}
    (hturn : Turned r r' [.turn number v]) (hv : v ≠ .fails) (hcount : count < r.live.length)
    {result : EStateM.Result Fault (Roster κ) Unit} (hothers : Steps r' count result) :
    Steps r (count + 1) result := by
  have hnone : History.judged .fails [.turn number v] = [] := by simp [History.judged, hv]
  cases result with
  | ok done r'' =>
    obtain ⟨told, htold, hlength, hfails⟩ := hothers
    refine ⟨told ++ [.turn number v], hturn.trans htold ?_, ?_, ?_⟩
    · rw [hlength, List.length_singleton]
      omega
    · rw [List.length_append, hlength, List.length_singleton]
    · rw [History.judged_append, hfails, hnone]
      rfl
  | error e r'' =>
    obtain ⟨failed, earlier, htold, hlength, hfails⟩ := hothers
    refine ⟨failed, earlier ++ [.turn number v], ?_, ?_, ?_⟩
    · rw [← List.cons_append]
      refine hturn.trans htold ?_
      simp only [List.length_cons, List.length_nil]
      omega
    · rw [List.length_append, List.length_singleton]
      omega
    · rw [History.judged_append, hfails, hnone]
      rfl

theorem stepThreads_steps (ctx : Context κ) (count : Nat) (r : Roster κ)
    (hcount : count ≤ r.live.length) : Steps r count (stepThreads ctx count r) := by
  induction count generalizing r with
  | zero => exact ⟨[], .refl r, rfl, rfl⟩
  | succ count ih =>
    cases hlive : r.live with
    | nil => simp [hlive] at hcount
    | cons first rest =>
      have hgoesOn (t : Thread κ) (v : Verdict) (domain : Domain) (log : Log) (hv : v ≠ .fails) :
          Steps r (count + 1) (stepThreads ctx count
            ((r.place rest ⟨first.number, t⟩ v).setMachine domain log)) := by
        have hturn := Turned.of_place hlive t v domain log
        have hrest : count ≤ rest.length := by simpa [hlive] using hcount
        have hleft : count ≤
            ((r.place rest ⟨first.number, t⟩ v).setMachine domain log).live.length := by
          simp only [setMachine, place, List.length_append]
          omega
        exact .after_turn hturn hv hcount (ih _ hleft)
      cases hstep : step ctx ⟨first.thread, r.domain, r.log⟩ with
      | error e m =>
        simp only [stepThreads, hlive, hstep]
        exact ⟨first.number, [], .of_place hlive m.thread .fails _ _, Nat.succ_pos _, rfl⟩
      | ok goesOn m =>
        cases goesOn with
        | true =>
          simp only [stepThreads, hlive, hstep]
          exact hgoesOn _ _ _ _ (by decide)
        | false =>
          simp only [stepThreads, hlive, hstep]
          exact hgoesOn _ _ _ _ (by decide)

/-- The threads before one place of the queue have had their turns, and the step of
the thread at this place fails. -/
structure FailsAt (ctx : Context κ) (r : Roster κ) (place : Nat) (before : Roster κ)
    (first : Enrolled κ) (rest : List (Enrolled κ)) (e : Fault) (m : Machine κ) : Prop where
  place_eq : r.live[place]? = some first
  reached : stepThreads ctx place r = .ok () before
  live_eq : before.live = first :: rest
  fails : step ctx ⟨first.thread, before.domain, before.log⟩ = .error e m

theorem FailsAt.after_turn {ctx : Context κ} {r next before : Roster κ} {place : Nat}
    {top first : Enrolled κ} {rest behind back : List (Enrolled κ)} {e : Fault} {m : Machine κ}
    (hlive : r.live = top :: behind) (hnext : next.live = behind ++ back)
    (hturn : ∀ n, stepThreads ctx (n + 1) r = stepThreads ctx n next)
    (hplace : place < behind.length) (h : FailsAt ctx next place before first rest e m) :
    FailsAt ctx r (place + 1) before first rest e m where
  place_eq := by
    have hfirst := h.place_eq
    rw [hnext, List.getElem?_append_left hplace] at hfirst
    rw [hlive, List.getElem?_cons_succ, hfirst]
  reached := by rw [hturn, h.reached]
  live_eq := h.live_eq
  fails := h.fails

/-- Turns that come to a failure fail somewhere. -/
theorem stepThreads_fails {ctx : Context κ} {count : Nat} {r r' : Roster κ} {e : Fault}
    (hcount : count ≤ r.live.length) (h : stepThreads ctx count r = .error e r') :
    ∃ place before first rest m, place < count ∧ FailsAt ctx r place before first rest e m ∧
      r' = before.abort ctx rest first.number m e := by
  induction count generalizing r with
  | zero => cases h
  | succ count ih =>
    cases hlive : r.live with
    | nil => simp [hlive] at hcount
    | cons top behind =>
      have hbehind : count ≤ behind.length := by simpa [hlive] using hcount
      have hlater (next : Roster κ) (back : List (Enrolled κ)) (hnext : next.live = behind ++ back)
          (hturn : ∀ n, stepThreads ctx (n + 1) r = stepThreads ctx n next) :
          ∃ place before first rest m, place < count + 1 ∧
            FailsAt ctx r place before first rest e m ∧
            r' = before.abort ctx rest first.number m e := by
        have hleft : count ≤ next.live.length := by
          rw [hnext, List.length_append]
          omega
        rw [hturn] at h
        obtain ⟨place, before, first, rest, m, hplace, hfails, hafter⟩ := ih hleft h
        refine ⟨place + 1, before, first, rest, m, by omega, ?_, hafter⟩
        exact hfails.after_turn hlive hnext hturn (by omega)
      cases hstep : step ctx ⟨top.thread, r.domain, r.log⟩ with
      | error e' m =>
        rw [stepThreads, hlive] at h
        simp only [hstep] at h
        obtain ⟨rfl, rfl⟩ := EStateM.Result.error.inj h
        exact ⟨0, r, top, behind, m, Nat.succ_pos _, ⟨by rw [hlive]; rfl, rfl, hlive, hstep⟩, rfl⟩
      | ok goesOn m =>
        cases goesOn with
        | true =>
          let stepped : Enrolled κ := ⟨top.number, m.thread⟩
          refine hlater ((r.place behind stepped .lives).setMachine m.domain m.log) [stepped] rfl ?_
          intro n
          simp only [stepThreads, hlive, hstep, stepped]
        | false =>
          let stepped : Enrolled κ := ⟨top.number, m.thread⟩
          refine hlater ((r.place behind stepped .completes).setMachine m.domain
            (m.log.add (.completed m.thread.id))) [] rfl ?_
          intro n
          simp only [stepThreads, hlive, hstep, stepped]

/-- A tick as it is told. Without a failure every thread of the queue had its turn,
and those who live keep their order; otherwise the failure was in the last turn. -/
structure Ticked (r r' : Roster κ) (failed : Bool) (told : History) : Prop where
  history_eq : r'.history = .tickEnded failed :: (told ++ r.history)
  turns_eq : told.turns = (numbers r.live).take told.length
  live_eq : numbers r'.live = (numbers r.live).drop told.length ++ told.judged .lives
  finished_eq : numbers r'.finished = numbers r.finished ++ told.judged .completes
  aborted_eq : numbers r'.aborted = numbers r.aborted ++ told.judged .fails
  whole : failed = false → told.turns = numbers r.live ∧ told.judged .fails = [] ∧
    (numbers r'.live).Sublist (numbers r.live)
  broken : failed = true → ∃ (number : Nat) (earlier : History),
    told = .turn number .fails :: earlier ∧ earlier.judged .fails = []

theorem Ticked.of_turned {r r' : Roster κ} {failed : Bool} {told : History}
    (h : Turned { r with ticks := r.ticks + 1 } r' told)
    (hwhole : failed = false → told.length = r.live.length ∧ told.judged .fails = [])
    (hbroken : failed = true → ∃ (number : Nat) (earlier : History),
      told = .turn number .fails :: earlier ∧ earlier.judged .fails = []) :
    Ticked r (r'.write (.tickEnded failed)) failed told where
  history_eq := by
    rw [write, h.history_eq]
  turns_eq := h.turns_eq
  live_eq := h.live_eq
  finished_eq := h.finished_eq
  aborted_eq := h.aborted_eq
  whole := by
    intro hok
    obtain ⟨hlength, hfails⟩ := hwhole hok
    have hcount : told.length = (numbers r.live).length := by rw [hlength, length_numbers]
    have hall : told.turns = numbers r.live := by
      rw [h.turns_eq, hcount]
      exact List.take_length
    have hlive : numbers r'.live = told.judged .lives := by
      rw [h.live_eq, hcount, List.drop_length, List.nil_append]
    have hsub := History.judged_sublist .lives told
    rw [hall, ← hlive] at hsub
    exact ⟨hall, hfails, hsub⟩
  broken := hbroken

/-- How a tick ends, and what it has told. -/
theorem tick_told (ctx : Context κ) (r : Roster κ) :
    ∃ r' told, after (tick ctx) r = r'.write (.tickEnded !(outcome (tick ctx) r).isOk) ∧
      Turned { r with ticks := r.ticks + 1 } r' told ∧
      Ticked r (after (tick ctx) r) (!(outcome (tick ctx) r).isOk) told := by
  have hsteps := stepThreads_steps ctx r.live.length { r with ticks := r.ticks + 1 } (Nat.le_refl _)
  cases hrun : stepThreads ctx r.live.length { r with ticks := r.ticks + 1 } with
  | ok done r' =>
    rw [hrun] at hsteps
    obtain ⟨told, hturned, hlength, hfails⟩ := hsteps
    have htick : tick ctx r = .ok (!r'.live.isEmpty) (r'.write (.tickEnded false)) := by
      rw [tick, hrun]
    rw [after_of_ok htick, outcome_of_ok htick]
    exact ⟨r', told, rfl, hturned, .of_turned hturned (fun _ => ⟨hlength, hfails⟩) nofun⟩
  | error e r' =>
    rw [hrun] at hsteps
    obtain ⟨number, earlier, hturned, -, hfails⟩ := hsteps
    have htick : tick ctx r = .error e (r'.write (.tickEnded true)) := by
      rw [tick, hrun]
    rw [after_of_error htick, outcome_of_error htick]
    exact ⟨r', _, rfl, hturned, .of_turned hturned nofun fun _ => ⟨number, earlier, rfl, hfails⟩⟩

theorem Faithful.tick {r : Roster κ} (h : r.Faithful) (ctx : Context κ) :
    (after (Roster.tick ctx) r).Faithful := by
  obtain ⟨r', told, hafter, hturned, -⟩ := tick_told ctx r
  have h' := hturned.faithful ⟨h.orderly, h.live_eq, h.finished_eq, h.aborted_eq⟩
  rw [hafter]
  exact ⟨h'.orderly, h'.live_eq, h'.finished_eq, h'.aborted_eq⟩

/-- A tick spawns nobody, and a failing one aborts one thread. -/
theorem Ticked.counts {r r' : Roster κ} {failed : Bool} {told : History}
    (h : Ticked r r' failed told) (hround : told.length ≤ r.live.length) :
    r'.history.spawns = r.history.spawns ∧
      r'.history.failedTicks = r.history.failedTicks + failed.toNat ∧
      r'.aborted.length = r.aborted.length + failed.toNat := by
  have hbound := History.spawns_add_failedTicks_le told
  have hturns : told.turns.length = told.length := by
    rw [h.turns_eq, List.length_take, length_numbers]
    omega
  have hspawns : told.spawns = 0 := by omega
  have hticks : List.count (.tickEnded true) told = 0 := by
    rw [History.failedTicks] at hbound
    omega
  have haborted : r'.aborted.length = r.aborted.length + (told.judged .fails).length := by
    have hlengths := congrArg List.length h.aborted_eq
    rwa [List.length_append, length_numbers, length_numbers] at hlengths
  refine ⟨?_, ?_, ?_⟩
  · rw [h.history_eq]
    exact (History.spawns_append told r.history).trans (by rw [hspawns]; rfl)
  · rw [h.history_eq, History.failedTicks, List.count_cons, List.count_append, hticks]
    cases failed with
    | true => simp [History.failedTicks]
    | false => simp [History.failedTicks]
  · rw [haborted]
    cases failed with
    | true =>
      obtain ⟨number, earlier, rfl, hnone⟩ := h.broken rfl
      simp [History.judged, hnone]
    | false => rw [(h.whole rfl).2.1]; rfl

end Roster

end ManagedCalls
