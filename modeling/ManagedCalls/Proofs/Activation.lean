import ManagedCalls.Proofs.FrameIsolation
import ManagedCalls.Proofs.StorageConversion

/-!
What an activation gives a frame. Each value taken off the operand stack gets a slot,
in pool storage if a sized parameter is declared for it and as it is otherwise, and
each local gets one too. Storage that was made is not touched again while the rest is
made, so at the end all slots read what they were made for.
-/

namespace ManagedCalls

open Stateful Pool

variable {κ : Type}

namespace Pool.Holds

variable {base p : Pool} {held : List Holding}

/-- What is held lies under handles that the earlier pool had not given out. -/
theorem handle_ge (h : Holds base p held) {handle : Nat}
    (hmem : handle ∈ held.map Holding.handle) : base.nextHandle ≤ handle := by
  obtain ⟨fresh, hgrowth, hheld⟩ := h
  obtain ⟨x, hx, rfl⟩ := List.mem_map.mp hmem
  obtain ⟨c, hc, rfl⟩ := List.mem_map.mp (hheld.mem_iff.mpr hx)
  exact hgrowth.handle_ge c hc

/-- Under all other handles the pool is as it was. -/
theorem find?_of_notMem (h : Holds base p held) {handle : Nat}
    (hout : handle ∉ held.map Holding.handle) : p.find? handle = base.find? handle := by
  obtain ⟨fresh, hgrowth, hheld⟩ := h
  have hnone : fresh.find? (fun c => c.handle == handle) = none := by
    rw [List.find?_eq_none]
    intro c hc heq
    have hholding : c.holding ∈ held := hheld.mem_iff.mp (List.mem_map_of_mem hc)
    exact hout (List.mem_map.mpr ⟨c.holding, hholding, beq_iff_eq.mp heq⟩)
  rw [Pool.find?, hgrowth.cells_eq, List.find?_append, hnone]
  rfl

end Pool.Holds

namespace Slot

/-- The slot of an argument. It is pool storage just where a sized parameter is declared
that is not a reference, and reads as the value converted to the declared type;
otherwise it is the value itself. -/
structure TakesArgument (p : Pool) (param : Option Param) (v : Value) (s : Slot) : Prop where
  isPooled_iff : s.isPooled = true ↔
    ∃ q, param = some q ∧ q.isByRef = false ∧ q.type.staticSize.isSome = true
  pooled : s.isPooled = true → ∃ q handle loaded, param = some q ∧ s = .pooled handle q.type ∧
    Storage.convert? q.type v = some loaded ∧ s.read p = .ok (some loaded)
  inline : s.isPooled = false → s = .inline v

/-- The slot of a local. It is pool storage that reads as zero just where zeroed locals
are asked for and the local is sized and not a reference; otherwise it is pending. -/
structure TakesLocal (p : Pool) (initLocals : Bool) (l : LocalVar) (s : Slot) : Prop where
  isPooled_iff : s.isPooled = true ↔
    initLocals = true ∧ l.isByRef = false ∧ l.type.staticSize.isSome = true
  pooled : s.isPooled = true → ∃ handle, s = .pooled handle l.type ∧
    s.read p = .ok (some (Value.zero l.type))
  pending : s.isPooled = false → s = .pending l.type

variable {p p' : Pool} {s : Slot}

theorem TakesArgument.sameAt {param : Option Param} {v : Value} {role : SlotRole}
    (h : TakesArgument p param v s) (hsame : SameAt p p' (holdings role [s])) :
    TakesArgument p' param v s := by
  refine ⟨h.isPooled_iff, ?_, h.inline⟩
  rw [read_of_sameAt hsame]
  exact h.pooled

theorem TakesLocal.sameAt {initLocals : Bool} {l : LocalVar} {role : SlotRole}
    (h : TakesLocal p initLocals l s) (hsame : SameAt p p' (holdings role [s])) :
    TakesLocal p' initLocals l s := by
  refine ⟨h.isPooled_iff, ?_, h.pending⟩
  rw [read_of_sameAt hsame]
  exact h.pooled

end Slot

theorem Param.isSome_staticSize_iff (q : Param) :
    q.staticSize.isSome = true ↔ q.isByRef = false ∧ q.type.staticSize.isSome = true := by
  cases href : q.isByRef with
  | true => simp [Param.staticSize, href]
  | false => simp [Param.staticSize, href]

theorem LocalVar.isSome_staticSize_iff (l : LocalVar) :
    l.staticSize.isSome = true ↔ l.isByRef = false ∧ l.type.staticSize.isSome = true := by
  cases href : l.isByRef with
  | true => simp [LocalVar.staticSize, href]
  | false => simp [LocalVar.staticSize, href]

section

variable {p p' : Pool} {s : Slot}

/-- Storage that was made for a value reads as this value, converted. -/
theorem pooledSlot_ok {type : TypeSig} {role : SlotRole} {v : Value}
    (h : pooledSlot p type role v = (.ok s, p')) :
    ∃ handle loaded, s = .pooled handle type ∧ Storage.convert? type v = some loaded ∧
      s.read p' = .ok (some loaded) := by
  unfold pooledSlot at h
  cases halloc : p.allocate type role with
  | error e => simp [halloc] at h
  | ok made =>
    obtain ⟨handle, allocated⟩ := made
    obtain ⟨size, hsize, -⟩ := allocate_succeeds_iff.mp ⟨handle, allocated, halloc⟩
    cases hstore : allocated.store handle v with
    | error e => simp [halloc, hstore] at h
    | ok stored =>
      simp only [halloc, hstore, Prod.mk.injEq, Except.ok.injEq] at h
      obtain ⟨rfl, rfl⟩ := h
      have hfind := find?_allocate halloc handle
      rw [if_pos rfl] at hfind
      obtain ⟨loaded, hconvert, hload⟩ := load_store hfind (by simp [hsize]) hstore
      refine ⟨handle, loaded, rfl, hconvert, ?_⟩
      rw [Slot.read, hload]
      rfl

theorem argumentSlot_takes {param : Option Param} {v : Value}
    (h : argumentSlot p param v = (.ok s, p')) : s.TakesArgument p' param v := by
  have hinline (hnone : ¬ ∃ q, param = some q ∧ q.isByRef = false ∧
      q.type.staticSize.isSome = true) : Slot.TakesArgument p' param v (.inline v) :=
    ⟨⟨Bool.false_ne_true.elim, fun hsome => absurd hsome hnone⟩, Bool.false_ne_true.elim,
      fun _ => rfl⟩
  cases param with
  | none =>
    obtain ⟨rfl, -⟩ : .inline v = s ∧ p = p' := by simpa [argumentSlot] using h
    exact hinline (by simp)
  | some q =>
    by_cases hsized : q.staticSize.isSome = true
    · rw [argumentSlot, if_pos hsized] at h
      obtain ⟨handle, loaded, rfl, hconvert, hread⟩ := pooledSlot_ok h
      refine ⟨⟨fun _ => ⟨q, rfl, q.isSome_staticSize_iff.mp hsized⟩, fun _ => rfl⟩, ?_, ?_⟩
      · exact fun _ => ⟨q, handle, loaded, rfl, rfl, hconvert, hread⟩
      · intro hinline
        cases hinline
    · rw [argumentSlot, if_neg hsized] at h
      obtain ⟨rfl, -⟩ : .inline v = s ∧ p = p' := by simpa using h
      refine hinline ?_
      rintro ⟨q', heq, hboth⟩
      obtain rfl := Option.some.inj heq
      exact hsized (q.isSome_staticSize_iff.mpr hboth)

theorem localSlot_takes {initLocals : Bool} {l : LocalVar}
    (h : localSlot p initLocals l = (.ok s, p')) : s.TakesLocal p' initLocals l := by
  by_cases hasked : initLocals = true ∧ l.staticSize.isSome = true
  · rw [localSlot, if_pos (by simpa using hasked)] at h
    have hsized := l.isSome_staticSize_iff.mp hasked.2
    cases halloc : p.allocate l.type .localVar with
    | error e => simp [halloc] at h
    | ok made =>
      obtain ⟨handle, allocated⟩ := made
      simp only [halloc, Prod.mk.injEq, Except.ok.injEq] at h
      obtain ⟨rfl, rfl⟩ := h
      refine ⟨⟨fun _ => ⟨hasked.1, hsized⟩, fun _ => rfl⟩, fun _ => ⟨handle, rfl, ?_⟩, ?_⟩
      · rw [Slot.read, load_of_allocate halloc hsized.2]
        rfl
      · intro hpending
        cases hpending
  · rw [localSlot, if_neg (by simpa using hasked)] at h
    obtain ⟨rfl, -⟩ : .pending l.type = s ∧ p = p' := by simpa using h
    refine ⟨⟨Bool.false_ne_true.elim, ?_⟩, Bool.false_ne_true.elim, fun _ => rfl⟩
    rintro ⟨hinit, hboth⟩
    exact absurd ⟨hinit, l.isSome_staticSize_iff.mpr hboth⟩ hasked

end

/-- Slots keep what they were made for while their storage stays. -/
theorem forall₂_of_sameAt {α : Type} {role : SlotRole} (P : Pool → α → Slot → Prop)
    (hkept : ∀ p p' a s, P p a s → SameAt p p' (Slot.holdings role [s]) → P p' a s)
    {p p' : Pool} {items : List α} {ss : List Slot} (h : List.Forall₂ (P p) items ss)
    (hsame : SameAt p p' (Slot.holdings role ss)) : List.Forall₂ (P p') items ss := by
  induction h with
  | nil => exact .nil
  | @cons a s items rest hone hrest ih =>
    rw [Slot.holdings_cons] at hsame
    exact .cons (hkept _ _ _ _ hone (hsame.mono (List.subset_append_left _ _)))
      (ih (hsame.mono (List.subset_append_right _ _)))

/-- One slot after the other. Those made so far are behind `made`, for the items in
`done`; their storage lies under handles that later slots do not get. -/
theorem materialize_takes {α : Type} (role : SlotRole) {make : Pool → α → Except Fault Slot × Pool}
    (P : Pool → α → Slot → Prop) (hmakes : ∀ p a, MakesSlot role p (make p a))
    (hmade : ∀ p a s p', make p a = (.ok s, p') → P p' a s)
    (hkept : ∀ p p' a s, P p a s → SameAt p p' (Slot.holdings role [s]) → P p' a s)
    {base p p' : Pool} {items : List α} (done : List α) {made ss : List Slot}
    (hold : Holds base p (Slot.holdings role made)) (h : List.Forall₂ (P p) done made.reverse)
    (hrun : materialize make items made p = (.ok ss, p')) :
    List.Forall₂ (P p') (done ++ items) ss := by
  induction items generalizing done made p with
  | nil =>
    obtain ⟨rfl, rfl⟩ : made.reverse = ss ∧ p = p' := by simpa [materialize] using hrun
    rw [List.append_nil]
    exact h
  | cons a rest ih =>
    have hslot := hmakes p a
    rcases hone : make p a with ⟨e | slot, p₁⟩
    · simp [materialize, hone] at hrun
    · rw [hone] at hslot
      simp only [materialize, hone] at hrun
      have hsame : SameAt p p₁ (Slot.holdings role made.reverse) :=
        (SameAt.of_made hold hslot).mono (Slot.holdings_reverse role made).subset
      have hall : List.Forall₂ (P p₁) (done ++ [a]) (slot :: made).reverse := by
        rw [List.reverse_cons]
        exact List.rel_append (forall₂_of_sameAt P hkept h hsame)
          (.cons (hmade _ _ _ _ hone) .nil)
      have hmore : Holds base p₁ (Slot.holdings role (slot :: made)) := by
        rw [Slot.holdings_cons]
        exact hold.trans hslot
      have hrest := ih (done ++ [a]) hmore hall hrun
      rwa [List.append_assoc] at hrest

/-- The slot of the argument with the given number. -/
def ArgumentTaken (signature : MethodSig) (p : Pool) (a : Value × Nat) (s : Slot) : Prop :=
  s.TakesArgument p (signature.argument? a.2) a.1

theorem materializeArguments_takes {signature : MethodSig} {vs : List Value} {p p' : Pool}
    {ss : List Slot} (h : materializeArguments signature vs p = (.ok ss, p')) :
    List.Forall₂ (ArgumentTaken signature p') vs.zipIdx ss :=
  materialize_takes .argument (ArgumentTaken signature) (fun p _ => argumentSlot_makes p _ _)
    (fun _ _ _ _ hone => argumentSlot_takes hone) (fun _ _ _ _ htakes hsame => htakes.sameAt hsame)
    [] (Holds.refl p) .nil h

theorem materializeLocals_takes {locals : LocalsSig} {initLocals : Bool} {p p' : Pool}
    {ss : List Slot} (h : materializeLocals locals initLocals p = (.ok ss, p')) :
    List.Forall₂ (Slot.TakesLocal p' initLocals) locals ss :=
  materialize_takes .localVar (fun p => Slot.TakesLocal p initLocals)
    (fun p l => localSlot_makes p initLocals l) (fun _ _ _ _ hone => localSlot_takes hone)
    (fun _ _ _ _ htakes hsame => htakes.sameAt hsame) [] (Holds.refl p) .nil h

/-- The storage of the arguments stays while the locals are made. -/
theorem materializeFrame_takes {signature : MethodSig} {locals : LocalsSig} {initLocals : Bool}
    {vs : List Value} {p p' : Pool} {arguments slots : List Slot}
    (h : materializeFrame signature locals initLocals vs p = (.ok (arguments, slots), p')) :
    List.Forall₂ (ArgumentTaken signature p') vs.zipIdx arguments ∧
      List.Forall₂ (Slot.TakesLocal p' initLocals) locals slots := by
  have hmakes := materializeArguments_makes signature vs p
  unfold materializeFrame at h
  rcases harguments : materializeArguments signature vs p with ⟨e | made, p₁⟩
  · simp [harguments] at h
  · rw [harguments] at hmakes
    have hlocals := materializeLocals_makes locals initLocals p₁
    rcases hslots : materializeLocals locals initLocals p₁ with ⟨e | ss, p₂⟩
    · simp [harguments, hslots] at h
    · rw [hslots] at hlocals
      simp only [harguments, hslots, Prod.mk.injEq, Except.ok.injEq] at h
      obtain ⟨⟨rfl, rfl⟩, rfl⟩ := h
      refine ⟨?_, materializeLocals_takes hslots⟩
      exact forall₂_of_sameAt (ArgumentTaken signature) (fun _ _ _ _ htakes => htakes.sameAt)
        (materializeArguments_takes harguments) (SameAt.of_made hmakes.1 hlocals.1)

/-- Placeholders take nothing from the pool and cannot fail. -/
theorem materializeLocals_pending (locals : LocalsSig) (p : Pool) :
    materializeLocals locals false p = (.ok (locals.map fun l => .pending l.type), p) := by
  have hrun (items : List LocalVar) (made : List Slot) :
      materialize (fun p l => localSlot p false l) items made p =
        (.ok (made.reverse ++ items.map fun l => .pending l.type), p) := by
    induction items generalizing made with
    | nil => simp [materialize]
    | cons l rest ih =>
      have hslot : localSlot p false l = (.ok (.pending l.type), p) := rfl
      simpa [materialize, hslot] using ih (.pending l.type :: made)
  exact hrun locals []

theorem materializeFrame_pending (signature : MethodSig) (locals : LocalsSig) (vs : List Value)
    (p : Pool) :
    materializeFrame signature locals false vs p =
      ((materializeArguments signature vs p).1.map fun arguments =>
          (arguments, locals.map fun l => .pending l.type),
        (materializeArguments signature vs p).2) := by
  unfold materializeFrame
  rcases materializeArguments signature vs p with ⟨e | arguments, p'⟩
  · rfl
  · simp only [materializeLocals_pending]
    rfl

/-- The frame, but its body names the locals by another token. -/
def Frame.withLocalsToken (f : Frame κ) (token : Token) : Frame κ :=
  { f with body := f.body.map fun body => { body with localsToken := token } }

namespace Transition

theorem declaredLocals_ok (ctx : Context κ) (executing : Nat) {body : MethodBody}
    (hinit : body.initLocals = false) :
    ∃ locals, declaredLocals ctx executing body = .ok locals := by
  unfold declaredLocals
  split
  · split
    · exact ⟨_, rfl⟩
    · exact ⟨none, by rw [hinit]; rfl⟩
  · exact ⟨none, rfl⟩

/-- What an activation reads before it touches anything. -/
structure Entry where
  body : MethodBody
  signature : MethodSig
  locals : Option LocalsSig
  values : List Value

namespace Entry

/-- Everything is decoded, and the values are there. -/
def read (ctx : Context κ) (f : Frame κ) (operands : List Value) : Except Fault Entry :=
  match f.body, f.executing with
  | none, _ => .error (.incompleteFrame f.id .methodBody)
  | some _, none => .error (.incompleteFrame f.id .executingAssembly)
  | some body, some executing =>
    match ctx.decodeMethod body.signature with
    | .error e => .error e
    | .ok signature =>
      match declaredLocals ctx executing body with
      | .error e => .error e
      | .ok locals =>
        let count := signature.argumentCount
        if count ≤ operands.length then
          .ok ⟨body, signature, locals, (operands.take count).reverse⟩
        else
          .error (.stackUnderflow count operands.length)

def slots (x : Entry) (p : Pool) : Except Fault (List Slot × List Slot) × Pool :=
  materializeFrame x.signature (x.locals.getD []) x.body.initLocals x.values p

theorem slots_pending {x : Entry} (hinit : x.body.initLocals = false) (p : Pool) :
    x.slots p =
      ((materializeArguments x.signature x.values p).1.map fun arguments =>
          (arguments, (x.locals.getD []).map fun l => .pending l.type),
        (materializeArguments x.signature x.values p).2) := by
  rw [slots, hinit]
  exact materializeFrame_pending _ _ _ p

/-- The frame with its slots, ready to run. -/
def frame (x : Entry) (f : Frame κ) (arguments locals : List Slot) : Frame κ :=
  { f with
    arguments
    locals
    consumed := x.signature.argumentCount
    signature := some x.signature
    localsSig := x.locals
    ip := 0
    state := .interpretedExec }

theorem read_eq_ok {ctx : Context κ} {f : Frame κ} {operands : List Value} {x : Entry}
    (h : read ctx f operands = .ok x) :
    ∃ executing, f.body = some x.body ∧ f.executing = some executing ∧
      ctx.decodeMethod x.body.signature = .ok x.signature ∧
      declaredLocals ctx executing x.body = .ok x.locals ∧
      x.signature.argumentCount ≤ operands.length ∧
      x.values = (operands.take x.signature.argumentCount).reverse := by
  unfold read at h
  split at h
  · cases h
  · cases h
  next body executing hbody hexecuting =>
    cases hsignature : ctx.decodeMethod body.signature with
    | error e => simp [hsignature] at h
    | ok signature =>
      cases hlocals : declaredLocals ctx executing body with
      | error e => simp [hsignature, hlocals] at h
      | ok locals =>
        by_cases hle : signature.argumentCount ≤ operands.length
        · obtain rfl : ⟨body, signature, locals, _⟩ = x := by
            simpa [hsignature, hlocals, hle] using h
          exact ⟨executing, hbody, hexecuting, hsignature, hlocals, hle, rfl⟩
        · simp [hsignature, hlocals, hle] at h

/-- Without zeroed locals, which ones a body names makes no difference to the rest. -/
theorem read_withLocalsToken (ctx : Context κ) {f : Frame κ} {body : MethodBody}
    (hbody : f.body = some body) (hinit : body.initLocals = false) (token : Token)
    (operands : List Value) :
    ∃ localsSig, read ctx (f.withLocalsToken token) operands =
      (read ctx f operands).map fun x =>
        { x with body := { body with localsToken := token }, locals := localsSig } := by
  have hbody' : (f.withLocalsToken token).body = some { body with localsToken := token } := by
    rw [Frame.withLocalsToken, hbody]
    rfl
  have hexecuting' : (f.withLocalsToken token).executing = f.executing := rfl
  cases hexecuting : f.executing with
  | none =>
    have hid : (f.withLocalsToken token).id = f.id := rfl
    exact ⟨none, by simp [read, hbody, hbody', hexecuting, hexecuting', hid, Except.map]⟩
  | some executing =>
    obtain ⟨locals, hlocals⟩ := declaredLocals_ok ctx executing hinit
    have hinit' : MethodBody.initLocals { body with localsToken := token } = false := hinit
    obtain ⟨locals', hlocals'⟩ := declaredLocals_ok ctx executing hinit'
    refine ⟨locals', ?_⟩
    cases hsignature : ctx.decodeMethod body.signature with
    | error e => simp [read, hbody, hbody', hexecuting, hexecuting', hsignature, Except.map]
    | ok signature =>
      by_cases hle : signature.argumentCount ≤ operands.length
      · simp [read, hbody, hbody', hexecuting, hexecuting', hsignature, hlocals, hlocals', hle,
          Except.map]
      · simp [read, hbody, hbody', hexecuting, hexecuting', hsignature, hlocals, hlocals', hle,
          Except.map]

end Entry

variable {m : Machine κ} {f : Frame κ} {rest : List (Frame κ)}

/-- An activation, up to the log: it fails before it touches anything, or by its slots. -/
theorem run_bodySetup (ctx : Context κ) (htop : m.thread.frames = f :: rest)
    (hstate : f.state = .bodySetup) :
    match Entry.read ctx f m.thread.operands with
    | .error e =>
      outcome (run ctx) m = .error e ∧ (after (run ctx) m).thread = m.thread ∧
        (after (run ctx) m).domain = m.domain
    | .ok x =>
      (after (run ctx) m).domain = m.domain.withPool (x.slots m.domain.pool).2 ∧
        match (x.slots m.domain.pool).1 with
        | .error e => outcome (run ctx) m = .error e ∧ (after (run ctx) m).thread = m.thread
        | .ok (arguments, locals) =>
          outcome (run ctx) m = .ok .continue ∧
            (after (run ctx) m).thread =
              { m.thread with
                operands := m.thread.operands.drop x.signature.argumentCount
                frames := x.frame f arguments locals :: rest } := by
  let noted : Machine κ := { m with log := m.log.add (.entersPhase f.id f.method f.phase) }
  have hnoted : noted.thread.frames = f :: rest := htop
  have hrun : run ctx m = setupBody ctx noted := by
    simp [run, topFrame_eq htop, Act.note, hstate, noted]
  -- the cases are those of the reading, in its order, and then of the slots
  cases hbody : f.body with
  | none =>
    simp [Entry.read, hbody, outcome, after, hrun, setupBody, topFrame_eq hnoted, noted]
  | some body =>
    cases hexecuting : f.executing with
    | none =>
      simp [Entry.read, hbody, hexecuting, outcome, after, hrun, setupBody, topFrame_eq hnoted,
        noted]
    | some executing =>
      have hactivate : run ctx m = activate ctx f executing body noted := by
        rw [hrun]
        simp [setupBody, topFrame_eq hnoted, hbody, hexecuting]
      cases hsignature : ctx.decodeMethod body.signature with
      | error e =>
        simp [Entry.read, hbody, hexecuting, hsignature, outcome, after, hactivate, activate, noted]
      | ok signature =>
        rcases frameLocals_cases ctx f executing body noted with
          ⟨e, hdeclared, hlocals⟩ | ⟨locals, log, hdeclared, hlocals⟩
        · simp [Entry.read, hbody, hexecuting, hsignature, hdeclared, outcome, after, hactivate,
            activate, hlocals, noted]
        · by_cases hle : signature.argumentCount ≤ m.thread.operands.length
          · rcases hmade : materializeFrame signature (locals.getD []) body.initLocals
              (m.thread.operands.take signature.argumentCount).reverse m.domain.pool with
              ⟨e | ⟨arguments, slots⟩, p⟩
            · simp [Entry.read, hbody, hexecuting, hsignature, hdeclared, hle, Entry.slots, hmade,
                outcome, after, hactivate, activate, hlocals, noted, Thread.popValues, Act.setPool,
                Domain.withPool]
            · simp [Entry.read, hbody, hexecuting, hsignature, hdeclared, hle, Entry.slots, hmade,
                outcome, after, hactivate, activate, hlocals, noted, Thread.popValues, Act.setPool,
                Act.setThread, Act.note, Act.setTop, Thread.setTop, Domain.withPool, Entry.frame,
                htop]
          · simp [Entry.read, hbody, hexecuting, hsignature, hdeclared, hle, outcome, after,
              hactivate, activate, hlocals, noted, Thread.popValues]

/-- What a frame has after its activation, and what became of the pool. -/
structure Activates (ctx : Context κ) (f g : Frame κ) (body : MethodBody) (signature : MethodSig)
    (values : List Value) (p p' : Pool) : Prop where
  frame_eq : g = { f with
    arguments := g.arguments
    locals := g.locals
    consumed := signature.argumentCount
    signature := some signature
    localsSig := g.localsSig
    ip := 0
    state := .interpretedExec }
  length_arguments : g.arguments.length = signature.argumentCount
  arguments : ∀ i v, values[i]? = some v →
    ∃ s : Slot, g.arguments[i]? = some s ∧ s.TakesArgument p' (signature.argument? i) v
  receiver : signature.hasThis = true → ∀ v, values[0]? = some v →
    g.arguments[0]? = some (.inline v)
  localsSig_eq : ∃ executing, f.executing = some executing ∧
    declaredLocals ctx executing body = .ok g.localsSig
  locals : List.Forall₂ (Slot.TakesLocal p' body.initLocals) (g.localsSig.getD []) g.locals
  holds : Holds p p' g.holdings
  handles_nodup : g.handles.Nodup
  handles_fresh : ∀ handle ∈ g.handles, p.nextHandle ≤ handle
  others : ∀ handle ∉ g.handles, p'.find? handle = p.find? handle

/-- Slots that were made are those of an activation. -/
theorem Entry.activates {ctx : Context κ} {f : Frame κ} {operands : List Value} {x : Entry}
    (hread : read ctx f operands = .ok x) {p p' : Pool} {arguments locals : List Slot}
    (hslots : x.slots p = (.ok (arguments, locals), p')) :
    Activates ctx f (x.frame f arguments locals) x.body x.signature x.values p p' := by
  obtain ⟨executing, -, hexecuting, -, hlocals, hle, hvalues⟩ := read_eq_ok hread
  have hmakes := materializeFrame_makes x.signature (x.locals.getD []) x.body.initLocals x.values p
  rw [← Entry.slots, hslots] at hmakes
  obtain ⟨hholds, hlength, -⟩ := hmakes
  obtain ⟨htakes, htakesLocals⟩ := materializeFrame_takes hslots
  have hargument (i : Nat) (v : Value) (hv : x.values[i]? = some v) :
      ∃ s : Slot, arguments[i]? = some s ∧ s.TakesArgument p' (x.signature.argument? i) v := by
    obtain ⟨hi, rfl⟩ := List.getElem?_eq_some_iff.mp hv
    have hi' : i < arguments.length := by omega
    refine ⟨arguments[i], List.getElem?_eq_getElem hi', ?_⟩
    have htaken := (List.forall₂_iff_get.mp htakes).2 i (by simpa using hi) hi'
    simpa [ArgumentTaken] using htaken
  exact
    { frame_eq := rfl
      length_arguments := by
        have hcount : x.values.length = x.signature.argumentCount := by
          rw [hvalues, List.length_reverse, List.length_take, Nat.min_eq_left hle]
        exact hlength.trans hcount
      arguments := hargument
      receiver := by
        intro hthis v hv
        obtain ⟨s, hs, htaken⟩ := hargument 0 v hv
        have hnone : x.signature.argument? 0 = none := by simp [MethodSig.argument?, hthis]
        have hinline : s.isPooled = false := by
          rw [← Bool.not_eq_true, htaken.isPooled_iff, hnone]
          simp
        exact htaken.inline hinline ▸ hs
      localsSig_eq := ⟨executing, hexecuting, hlocals⟩
      locals := htakesLocals
      holds := hholds
      handles_nodup := hholds.nodup
      handles_fresh := fun _ hmem => hholds.handle_ge hmem
      others := fun _ hout => hholds.find?_of_notMem hout }

theorem run_activates (ctx : Context κ) (htop : m.thread.frames = f :: rest)
    (hstate : f.state = .bodySetup) {tick : Tick} {m' : Machine κ}
    (hrun : run ctx m = .ok tick m') :
    tick = .continue ∧ ∃ x g p', Entry.read ctx f m.thread.operands = .ok x ∧
      m'.thread =
        { m.thread with
          operands := m.thread.operands.drop x.signature.argumentCount, frames := g :: rest } ∧
      m'.domain = m.domain.withPool p' ∧
      Activates ctx f g x.body x.signature x.values m.domain.pool p' := by
  have hcases := run_bodySetup ctx htop hstate
  rw [outcome_of_ok hrun, after_of_ok hrun] at hcases
  cases hread : Entry.read ctx f m.thread.operands with
  | error e =>
    rw [hread] at hcases
    cases hcases.1
  | ok x =>
    rw [hread] at hcases
    obtain ⟨hdomain, hmade⟩ := hcases
    rcases hslots : x.slots m.domain.pool with ⟨e | ⟨arguments, locals⟩, p'⟩
    · rw [hslots] at hmade
      cases hmade.1
    · rw [hslots] at hmade hdomain
      exact ⟨Except.ok.inj hmade.1, x, _, p', rfl, hmade.2, hdomain, Entry.activates hread hslots⟩

/-- Locals that are not to be zeroed make a difference to themselves only. -/
theorem run_withLocalsToken (ctx : Context κ) (htop : m.thread.frames = f :: rest)
    (hstate : f.state = .bodySetup) {body : MethodBody} (hbody : f.body = some body)
    (hinit : body.initLocals = false) (token : Token) {other : Machine κ}
    (hother : other.thread = { m.thread with frames := f.withLocalsToken token :: rest })
    (hdomain : other.domain = m.domain) :
    outcome (run ctx) other = outcome (run ctx) m ∧
      (after (run ctx) other).domain = (after (run ctx) m).domain ∧
      ∃ g locals localsSig, (after (run ctx) m).thread.frames = g :: rest ∧
        (after (run ctx) other).thread =
          { (after (run ctx) m).thread with
            frames :=
              { g with body := (f.withLocalsToken token).body, locals, localsSig } :: rest } := by
  have htop' : other.thread.frames = f.withLocalsToken token :: rest := by rw [hother]
  have hoperands : other.thread.operands = m.thread.operands := by rw [hother]
  have hcases := run_bodySetup ctx htop hstate
  have hcases' := run_bodySetup ctx htop' hstate
  obtain ⟨localsSig, hread'⟩ := Entry.read_withLocalsToken ctx hbody hinit token m.thread.operands
  rw [hoperands, hread', hdomain] at hcases'
  cases hread : Entry.read ctx f m.thread.operands with
  | error e =>
    rw [hread] at hcases hcases'
    obtain ⟨hresult, hthread, hsame⟩ := hcases
    obtain ⟨hresult', hthread', hsame'⟩ := hcases'
    refine ⟨hresult'.trans hresult.symm, hsame'.trans hsame.symm, f, f.locals, f.localsSig, ?_, ?_⟩
    · rw [hthread, htop]
    · rw [hthread', hthread, hother]
      rfl
  | ok x =>
    obtain ⟨executing, hxbody, -⟩ := Entry.read_eq_ok hread
    obtain rfl := Option.some.inj (hbody.symm.trans hxbody)
    -- what is read for the other frame differs in the body and the locals
    let y : Entry := { x with body := { x.body with localsToken := token }, locals := localsSig }
    have hy : Entry.read ctx (f.withLocalsToken token) m.thread.operands = .ok y := by
      rw [hread', hread]
      rfl
    rw [← hread', hy] at hcases'
    rw [hread] at hcases
    obtain ⟨hpool, hmade⟩ := hcases
    obtain ⟨hpool', hmade'⟩ := hcases'
    rw [Entry.slots_pending hinit] at hpool hmade
    rw [Entry.slots_pending (x := y) hinit] at hpool' hmade'
    dsimp only [y] at hpool' hmade'
    rcases hrun : materializeArguments x.signature x.values m.domain.pool with
      ⟨e | arguments, p'⟩
    · rw [hrun] at hmade hmade'
      obtain ⟨hresult, hthread⟩ := hmade
      obtain ⟨hresult', hthread'⟩ := hmade'
      refine ⟨hresult'.trans hresult.symm, hpool'.trans hpool.symm, f, f.locals, f.localsSig,
        by rw [hthread, htop], ?_⟩
      rw [hthread', hthread, hother]
      rfl
    · rw [hrun] at hmade hmade'
      obtain ⟨hresult, hthread⟩ := hmade
      obtain ⟨hresult', hthread'⟩ := hmade'
      refine ⟨hresult'.trans hresult.symm, hpool'.trans hpool.symm, _,
        (localsSig.getD []).map fun l => .pending l.type, localsSig, by rw [hthread], ?_⟩
      rw [hthread', hthread, hother]
      rfl

/-- An activation that succeeds has taken just the arguments off the operand stack and
has filled the slots of the frame: in pool storage what is declared with a size, as it
is what is not. The pool has gained the storage of these slots, under new handles, and
is the same otherwise. If locals are not to be zeroed, it makes no difference to
anything else which locals the body names and whether they can be read, also if the
activation fails. -/
theorem activation_fills_slots (ctx : Context κ) (htop : m.thread.frames = f :: rest)
    (hstate : f.state = .bodySetup) :
    (∀ tick m', run ctx m = .ok tick m' →
      tick = .continue ∧ ∃ body signature g p', f.body = some body ∧
        ctx.decodeMethod body.signature = .ok signature ∧
        signature.argumentCount ≤ m.thread.operands.length ∧
        m'.thread =
          { m.thread with
            operands := m.thread.operands.drop signature.argumentCount, frames := g :: rest } ∧
        m'.domain = m.domain.withPool p' ∧
        Activates ctx f g body signature
          (m.thread.operands.take signature.argumentCount).reverse m.domain.pool p') ∧
    ∀ body token, f.body = some body → body.initLocals = false →
      let other := { m with
        thread := { m.thread with frames := f.withLocalsToken token :: rest } }
      outcome (run ctx) other = outcome (run ctx) m ∧
        (after (run ctx) other).domain = (after (run ctx) m).domain ∧
        ∃ g locals localsSig, (after (run ctx) m).thread.frames = g :: rest ∧
          (after (run ctx) other).thread =
            { (after (run ctx) m).thread with
              frames :=
                { g with body := (f.withLocalsToken token).body, locals, localsSig } :: rest } := by
  constructor
  · intro tick m' hrun
    obtain ⟨htick, x, g, p', hread, hthread, hdomain, hactivates⟩ :=
      run_activates ctx htop hstate hrun
    obtain ⟨-, hbody, -, hsignature, -, hle, hvalues⟩ := Entry.read_eq_ok hread
    rw [hvalues] at hactivates
    exact ⟨htick, x.body, x.signature, g, p', hbody, hsignature, hle, hthread, hdomain,
      hactivates⟩
  · intro body token hbody hinit other
    exact run_withLocalsToken ctx htop hstate hbody hinit token rfl rfl

/-- The interpreter with an instance method that takes a small number and a reference,
and has a local with a size and one without. -/
def receiverContext (flags : Nat) : Context Empty :=
  let assembly : Assembly Empty :=
    (AssemblyBuilder.new "App"
      |>.standAloneSig [0x07, 0x02, 0x0A, 0x0E]
      |>.methodDef [0x20, 0x02, 0x01, 0x04, 0x10, 0x08] flags (Token.ofParts 0x11 1) [0x2A]).build
  Interpreter.plainContext [assembly] {} SignatureDecoder.standard

/-- The method is about to be activated, above a value that is not for it. -/
def receiverMachine (flags : Nat) : Machine Empty :=
  ThreadAction.performAll (receiverContext flags)
    [.host (.push (.int32 1)), .host (.push (.object 5)), .host (.push (.int32 300)),
      .host (.push (.native 9)), .host (.call 0 Interpreter.smallMethod), .transition]
    ⟨Thread.new 1, Domain.empty 64 none, Log.empty .error⟩

/-- The number is cut to a byte. With zeroed locals the sized one has storage, and without
them it makes no difference if the body names a table that has no locals. -/
theorem activation_fills_slots_of_receiver :
    (∃ f body signature g m', (receiverMachine 0x12).thread.frames = [f] ∧
      f.state = .bodySetup ∧ run (receiverContext 0x12) (receiverMachine 0x12) = .ok .continue m' ∧
      m'.thread.operands = [.int32 1] ∧ m'.thread.frames = [g] ∧
      g.arguments = [.inline (.object 5), .pooled 1 .i1, .inline (.native 9)] ∧
      g.locals = [.pooled 2 .i8, .pending .string] ∧
      g.readSlot m'.domain.pool .argument 1 = .ok (.int32 44) ∧
      Activates (receiverContext 0x12) f g body signature [.object 5, .int32 300, .native 9]
        (receiverMachine 0x12).domain.pool m'.domain.pool) ∧
    ∃ f body, (receiverMachine 0x02).thread.frames = [f] ∧ f.state = .bodySetup ∧
      f.body = some body ∧ body.initLocals = false ∧
      outcome (run (receiverContext 0x02))
        { receiverMachine 0x02 with
          thread :=
            { (receiverMachine 0x02).thread with
              frames := [f.withLocalsToken (Token.ofParts 0x01 1)] } } =
        outcome (run (receiverContext 0x02)) (receiverMachine 0x02) := by
  constructor
  · obtain ⟨f, htop, hstate⟩ :
        ∃ f, (receiverMachine 0x12).thread.frames = [f] ∧ f.state = .bodySetup := ⟨_, rfl, rfl⟩
    let m' := after (run (receiverContext 0x12)) (receiverMachine 0x12)
    have hrun : run (receiverContext 0x12) (receiverMachine 0x12) = .ok .continue m' := by rfl
    obtain ⟨g, hg, harguments, hlocals, hread⟩ : ∃ g, m'.thread.frames = [g] ∧
        g.arguments = [.inline (.object 5), .pooled 1 .i1, .inline (.native 9)] ∧
        g.locals = [.pooled 2 .i8, .pending .string] ∧
        g.readSlot m'.domain.pool .argument 1 = .ok (.int32 44) := ⟨_, rfl, rfl, rfl, rfl⟩
    have hoperands : m'.thread.operands = [.int32 1] := by rfl
    obtain ⟨-, body, signature, g', p', -, -, -, hthread, hdomain, hactivates⟩ :=
      (activation_fills_slots (receiverContext 0x12) htop hstate).1 .continue m' hrun
    obtain rfl : g = g' := by
      rw [hthread] at hg
      exact (List.singleton_inj.mp hg).symm
    obtain rfl : m'.domain.pool = p' := congrArg Domain.pool hdomain
    have hcount : signature.argumentCount = 3 := by
      rw [← hactivates.length_arguments, harguments]
      rfl
    have hvalues : ((receiverMachine 0x12).thread.operands.take 3).reverse =
        [.object 5, .int32 300, .native 9] := by rfl
    rw [hcount, hvalues] at hactivates
    exact ⟨f, body, signature, g, m', htop, hstate, hrun, hoperands, hg, harguments, hlocals, hread,
      hactivates⟩
  · obtain ⟨f, body, htop, hstate, hbody, hinit⟩ :
        ∃ f body, (receiverMachine 0x02).thread.frames = [f] ∧ f.state = .bodySetup ∧
          f.body = some body ∧ body.initLocals = false := ⟨_, _, rfl, rfl, rfl, rfl⟩
    obtain ⟨hsame, -⟩ := (activation_fills_slots (receiverContext 0x02) htop hstate).2 body
      (Token.ofParts 0x01 1) hbody hinit
    exact ⟨f, body, htop, hstate, hbody, hinit, hsame⟩

end Transition

end ManagedCalls
