import ManagedCalls.Proofs.HostSight
import ManagedCalls.Proofs.RepeatedCollection

/-!
One thread on two domains. The second domain is the first one after others have worked
on it: it has the same tickets and at least the same registered assemblies, and the
storage of the thread is mirrored there under shifted handles. If the thread looks up
registered names only and its host acts on sight, it goes the same way on both domains,
transition by transition, until one of the pools meets its budget.
-/

namespace ManagedCalls

open Stateful Pool

variable {κ α β : Type}

/-- A domain that still has the tickets and the registered assemblies of an earlier one. -/
structure Domain.Keeps (d start : Domain) : Prop where
  tickets_eq : d.tickets = start.tickets
  registered : ∀ {name : String} {assembly : Nat}, start.assembly? name = some assembly →
    d.assembly? name = some assembly

namespace Domain

/-- What comes of collecting a load is written on its ticket. -/
theorem finishLoad_congr {d d' : Domain} (h : d'.tickets = d.tickets) (nameOf : Nat → String)
    (ticket : Nat) : (d'.finishLoad nameOf ticket).1 = (d.finishLoad nameOf ticket).1 := by
  have hticket : d'.ticket? ticket = d.ticket? ticket := by rw [ticket?, h, ticket?]
  rcases d.finishLoad_cases nameOf ticket with ⟨hopen, hrun⟩ |
    ⟨name, assembly, events, hloaded, -, hrun⟩ | ⟨name, reason, hfailed, hrun⟩
  · rcases d'.finishLoad_cases nameOf ticket with ⟨-, hrun'⟩ |
      ⟨name, assembly, events, hloaded, -, -⟩ | ⟨name, reason, hfailed, -⟩
    · rw [hrun, hrun']
    · rw [hticket] at hloaded
      simp [outcome?, hloaded] at hopen
    · rw [hticket] at hfailed
      simp [outcome?, hfailed] at hopen
  · rw [hrun, finishLoad_result (hticket.trans hloaded)]
    rfl
  · rw [hrun, finishLoad_result (hticket.trans hfailed)]
    rfl

theorem Keeps.finishLoad {d start : Domain} (h : d.Keeps start) (nameOf : Nat → String)
    (ticket : Nat) : (d.finishLoad nameOf ticket).2.1.Keeps start := by
  refine ⟨?_, fun hfound => d.finishLoad_assembly? nameOf ticket (h.registered hfound)⟩
  rw [← h.tickets_eq]
  rcases d.finishLoad_cases nameOf ticket with ⟨-, hrun⟩ | ⟨name, assembly, events, -, -, hrun⟩ |
    ⟨name, reason, -, hrun⟩
  · rw [hrun]
  · rw [hrun, retire_eq]
    rfl
  · rw [hrun, retire_eq]

end Domain

/-- A frame that owns the same storage in place of another one. -/
theorem flatMap_set {fs : List (Frame κ)} {index : Nat} {f g : Frame κ}
    (hf : fs[index]? = some f) (hg : g.holdings = f.holdings) :
    (fs.set index g).flatMap Frame.holdings = fs.flatMap Frame.holdings := by
  obtain ⟨hlt, rfl⟩ := List.getElem?_eq_some_iff.mp hf
  have hlt' : index < (fs.map Frame.holdings).length := by rwa [List.length_map]
  rw [List.flatMap_def, List.map_set, hg, ← List.getElem_map Frame.holdings (h := hlt'),
    List.set_getElem_self, List.flatMap_def]

/-- A thread on a domain, and the same thread on another one. -/
structure Twins (s : Shift) (start : Domain) (m m' : Machine κ) : Prop where
  thread_eq : m'.thread = m.thread.rename s.handle
  pools : Mirrors s m.domain.pool m'.domain.pool m.thread.holdings
  left : m.domain.Keeps start
  right : m'.domain.Keeps start

namespace Twins

variable {s : Shift} {start : Domain} {m m' : Machine κ}

theorem relog (h : Twins s start m m') (log log' : Log) :
    Twins s start { m with log } { m' with log := log' } :=
  ⟨h.thread_eq, h.pools, h.left, h.right⟩

theorem frames_eq (h : Twins s start m m') :
    m'.thread.frames = m.thread.frames.map (Frame.rename s.handle) := by
  rw [h.thread_eq]
  rfl

theorem frames_eq_nil (h : Twins s start m m') (hempty : m.thread.frames = []) :
    m'.thread.frames = [] := by
  rw [h.frames_eq, hempty, List.map_nil]

theorem top_eq (h : Twins s start m m') {f : Frame κ} {rest : List (Frame κ)}
    (htop : m.thread.frames = f :: rest) :
    m'.thread.frames = f.rename s.handle :: rest.map (Frame.rename s.handle) := by
  rw [h.frames_eq, htop, List.map_cons]

theorem operands_eq (h : Twins s start m m') : m'.thread.operands = m.thread.operands := by
  rw [h.thread_eq]
  rfl

theorem isComplete_eq (h : Twins s start m m') :
    m'.thread.isComplete = m.thread.isComplete := by
  rw [Thread.isComplete, h.frames_eq, List.isEmpty_map, Thread.isComplete]

theorem depth_eq (h : Twins s start m m') : m'.thread.depth = m.thread.depth := by
  rw [Thread.depth, h.frames_eq, List.length_map, Thread.depth]

/-- Other values on the operand stacks. -/
theorem withOperands (h : Twins s start m m') {vs vs' : List Value} (hvs : vs' = vs)
    (log log' : Log) :
    Twins s start ⟨{ m.thread with operands := vs }, m.domain, log⟩
      ⟨{ m'.thread with operands := vs' }, m'.domain, log'⟩ where
  thread_eq := by
    rw [hvs, h.thread_eq]
    rfl
  pools := h.pools
  left := h.left
  right := h.right

/-- Other frames that own the same storage. -/
theorem withFrames (h : Twins s start m m') {fs : List (Frame κ)}
    (hfs : fs.flatMap Frame.holdings = m.thread.holdings) (log log' : Log) :
    Twins s start ⟨{ m.thread with frames := fs }, m.domain, log⟩
      ⟨{ m'.thread with frames := fs.map (Frame.rename s.handle) }, m'.domain, log'⟩ where
  thread_eq := by
    rw [h.thread_eq]
    rfl
  pools := by
    rw [Thread.holdings, hfs]
    exact h.pools
  left := h.left
  right := h.right

/-- Other pools that mirror each other in the storage of the thread. -/
theorem withPools (h : Twins s start m m') {p q : Pool}
    (hpools : Mirrors s p q m.thread.holdings) (log log' : Log) :
    Twins s start ⟨m.thread, { m.domain with pool := p }, log⟩
      ⟨m'.thread, { m'.domain with pool := q }, log'⟩ where
  thread_eq := h.thread_eq
  pools := hpools
  left := ⟨h.left.tickets_eq, h.left.registered⟩
  right := ⟨h.right.tickets_eq, h.right.registered⟩

/-- Other domains with the same pools. -/
theorem withDomains (h : Twins s start m m') {d d' : Domain} (hpool : d.pool = m.domain.pool)
    (hpool' : d'.pool = m'.domain.pool) (hleft : d.Keeps start) (hright : d'.Keeps start)
    (log log' : Log) : Twins s start ⟨m.thread, d, log⟩ ⟨m'.thread, d', log'⟩ where
  thread_eq := h.thread_eq
  pools := by
    dsimp only
    rw [hpool, hpool']
    exact h.pools
  left := hleft
  right := hright

/-- Another frame on top, with its storage in other pools. -/
theorem withTop (h : Twins s start m m') {f g : Frame κ} {rest : List (Frame κ)}
    (htop : m.thread.frames = f :: rest) {vs vs' : List Value} (hvs : vs' = vs) {p q : Pool}
    (hpools : Mirrors s p q (g.holdings ++ rest.flatMap Frame.holdings)) (log log' : Log) :
    Twins s start
      ⟨Thread.setTop { m.thread with operands := vs } g, { m.domain with pool := p }, log⟩
      ⟨Thread.setTop { m'.thread with operands := vs' } (g.rename s.handle),
        { m'.domain with pool := q }, log'⟩ where
  thread_eq := by
    simp only [Thread.setTop, htop, h.top_eq htop, List.tail_cons, hvs]
    rw [h.thread_eq]
    rfl
  pools := by
    dsimp only
    rw [Thread.holdings_of_top rfl, htop, List.tail_cons]
    exact hpools
  left := ⟨h.left.tickets_eq, h.left.registered⟩
  right := ⟨h.right.tickets_eq, h.right.registered⟩

/-- Another frame on top that owns the same storage. -/
theorem setTop (h : Twins s start m m') {f g : Frame κ} {rest : List (Frame κ)}
    (htop : m.thread.frames = f :: rest) (hg : g.holdings = f.holdings) (log log' : Log) :
    Twins s start ⟨m.thread.setTop g, m.domain, log⟩
      ⟨m'.thread.setTop (g.rename s.handle), m'.domain, log'⟩ := by
  have hpools := h.pools
  rw [Thread.holdings_of_top htop, ← hg] at hpools
  exact h.withTop htop h.operands_eq hpools log log'

/-- The slots on top of both read the same. -/
theorem readTop_eq (h : Twins s start m m') :
    m'.thread.readTop m'.domain.pool = m.thread.readTop m.domain.pool := by
  funext role index
  cases htop : m.thread.frames with
  | nil =>
    have htop' := h.frames_eq_nil htop
    simp [Thread.readTop, Thread.top?, htop, htop']
  | cons f rest =>
    have hread : (f.rename s.handle).readSlot m'.domain.pool role index =
        f.readSlot m.domain.pool role index := by
      refine Frame.readSlot_rename (fun x hx => ?_) role index
      have hmem : x ∈ m.thread.holdings := by
        rw [Thread.holdings_of_top htop]
        exact List.mem_append_left _ hx
      obtain ⟨c, hc, -, hc'⟩ := h.pools.cell x hmem
      exact ⟨c, hc, hc'⟩
    simpa [Thread.readTop, Thread.top?, htop, h.top_eq htop] using hread

/-- The hosts of both see the same. -/
theorem sight_eq (h : Twins s start m m') : m'.sight = m.sight := by
  have htop : m'.thread.top?.map (Frame.rename fun _ => 0) =
      m.thread.top?.map (Frame.rename fun _ => 0) := by
    rw [Thread.top?, h.frames_eq, List.head?_map, Option.map_map]
    refine congrArg (Option.map · m.thread.frames.head?) ?_
    funext f
    exact f.rename_rename s.handle fun _ => 0
  rw [Machine.sight, Machine.sight, h.readTop_eq, htop, h.thread_eq]
  rfl

/-- What a host does to a thread keeps both alike. -/
theorem perform (h : Twins s start m m') (program : Program κ) {a : HostAction}
    (ha : a.isOnThread = true) :
    Twins s start (after (a.perform program) m) (after (a.perform program) m') := by
  cases a with
  | push v => exact h.withOperands (congrArg (v :: ·) h.operands_eq) _ _
  | pop => exact h.withOperands (congrArg List.tail h.operands_eq) _ _
  | popValues count =>
    have hdropped := h.withOperands (congrArg (List.drop count) h.operands_eq) m.log m'.log
    by_cases hle : count ≤ m.thread.operands.length
    · simpa [HostAction.perform, after, Act.popValues, Thread.popValues, hle, h.operands_eq,
        Act.setThread] using hdropped
    · simpa [HostAction.perform, after, Act.popValues, Thread.popValues, hle, h.operands_eq] using h
  | call assembly method =>
    refine ⟨?_, h.pools, h.left, h.right⟩
    have hcall : m'.thread.call assembly method =
        (m.thread.call assembly method).rename s.handle := by
      rw [h.thread_eq]
      rfl
    exact hcall
  | ret =>
    cases htop : m.thread.frames with
    | nil =>
      have htop' := h.frames_eq_nil htop
      simpa [HostAction.perform, after, Act.returnFromFrame, Thread.returnFromFrame, Thread.top?,
        htop, htop'] using h
    | cons f rest =>
      by_cases hstate : f.state = .interpretedExec
      · have hended : Twins s start _ _ :=
          h.setTop htop (g := { f with state := .teardown }) rfl m.log m'.log
        simpa [HostAction.perform, after, Act.returnFromFrame, Thread.returnFromFrame, Thread.top?,
          htop, h.top_eq htop, hstate, Frame.rename, Act.setThread] using hended
      · simpa [HostAction.perform, after, Act.returnFromFrame, Thread.returnFromFrame, Thread.top?,
          htop, h.top_eq htop, hstate, Frame.rename] using h
  | write role index v =>
    cases htop : m.thread.frames with
    | nil =>
      have htop' := h.frames_eq_nil htop
      simpa [HostAction.perform, after, Act.writeSlot, Act.topFrame, Thread.top?, htop, htop'] using
        h
    | cons f rest =>
      have hframe := Transition.topFrame_eq htop
      have hframe' := Transition.topFrame_eq (h.top_eq htop)
      have hsub : f.holdings ⊆ m.thread.holdings := by
        rw [Thread.holdings_of_top htop]
        exact List.subset_append_left _ _
      obtain ⟨e, hwrite, hwrite'⟩ | ⟨g, p, q, hwrite, hwrite', hpools⟩ :=
        Frame.writeSlot_mirrors h.pools hsub role index v
      · simpa [HostAction.perform, after, Act.writeSlot, hframe, hframe', hwrite, hwrite'] using h
      · have hg := (Frame.writeSlot_cases hwrite).1.holdings_eq
        have hafter : after (HostAction.perform program (.write role index v)) m =
            ⟨m.thread.setTop g, { m.domain with pool := p }, m.log⟩ := by
          simp [HostAction.perform, after, Act.writeSlot, hframe, hwrite, Act.setTop, Act.setPool]
        have hafter' : after (HostAction.perform program (.write role index v)) m' =
            ⟨m'.thread.setTop (g.rename s.handle), { m'.domain with pool := q }, m'.log⟩ := by
          simp [HostAction.perform, after, Act.writeSlot, hframe', hwrite', Act.setTop, Act.setPool]
        rw [Thread.holdings_of_top htop, ← hg] at hpools
        rw [hafter, hafter']
        exact h.withTop htop h.operands_eq hpools _ _
  | setIp ip =>
    cases htop : m.thread.frames with
    | nil =>
      have htop' := h.frames_eq_nil htop
      simpa [HostAction.perform, after, Act.topFrame, Thread.top?, htop, htop'] using h
    | cons f rest =>
      have hmoved : Twins s start _ _ := h.setTop htop (g := { f with ip }) rfl m.log m'.log
      simpa [HostAction.perform, after, Transition.topFrame_eq htop,
        Transition.topFrame_eq (h.top_eq htop), Act.setTop, Frame.rename] using hmoved
  | domain a => cases ha
  | note e => exact h.relog _ _

theorem performAll (h : Twins s start m m') (program : Program κ) {actions : List HostAction}
    (hactions : ∀ a ∈ actions, a.isOnThread = true) :
    Twins s start (HostAction.performAll program actions m)
      (HostAction.performAll program actions m') := by
  induction actions generalizing m m' with
  | nil => exact h
  | cons a rest ih =>
    exact ih (h.perform program (hactions a List.mem_cons_self))
      fun b hb => hactions b (List.mem_cons_of_mem _ hb)

end Twins

/-- The name that the topmost frame is about to look up. -/
def Thread.asked? (ctx : Context κ) (t : Thread κ) : Option String :=
  match t.top? with
  | none => none
  | some f =>
    match f.method.kind with
    | .memberRef row =>
      if f.state = .resolve ∧ (ctx.config.maxCallDepth = 0 ∨ t.depth ≤ ctx.config.maxCallDepth) then
        match findTarget (ctx.program.assembly f.calling).tables f.method row f.id with
        | .ok target => some target.assemblyRef.name
        | .error _ => none
      else none
    | _ => none

/-- The same outcome on both domains, unless a pool has met its budget. -/
inductive Tied (s : Shift) (start : Domain) :
    EStateM.Result Fault (Machine κ) α → EStateM.Result Fault (Machine κ) α → Prop
  | ok {a : α} {m m' : Machine κ} (h : Twins s start m m') : Tied s start (.ok a m) (.ok a m')
  | error {e : Fault} {m m' : Machine κ} (h : Twins s start m m') :
      Tied s start (.error e m) (.error e m')
  | overLeft {e : Fault} {m : Machine κ} (r : EStateM.Result Fault (Machine κ) α)
      (h : e.isPoolLimit = true) : Tied s start (.error e m) r
  | overRight {e : Fault} {m' : Machine κ} (r : EStateM.Result Fault (Machine κ) α)
      (h : e.isPoolLimit = true) : Tied s start r (.error e m')

/-- A host that acts on sight does the same on both domains. -/
theorem Act.OnSight.tied {s : Shift} {start : Domain} {m m' : Machine κ} {program : Program κ}
    {x : Act κ α} (hx : x.OnSight program) (h : Twins s start m m') (hm : m.InOrder)
    (hm' : m'.InOrder) : Tied s start (x m) (x m') := by
  obtain ⟨plan, hplan⟩ := hx
  obtain ⟨hthread, houtcome, hafter⟩ := hplan m hm
  obtain ⟨-, houtcome', hafter'⟩ := hplan m' hm'
  rw [h.sight_eq, ← houtcome] at houtcome'
  rw [h.sight_eq] at hafter'
  have htwins : Twins s start (after x m) (after x m') := by
    rw [hafter, hafter']
    exact h.performAll program hthread
  unfold outcome at houtcome'
  unfold after at htwins
  cases hrun : x m with
  | ok a n =>
    cases hrun' : x m' with
    | ok a' n' =>
      rw [hrun, hrun'] at houtcome' htwins
      rw [Except.ok.inj houtcome']
      exact .ok htwins
    | error e n' =>
      rw [hrun, hrun'] at houtcome'
      cases houtcome'
  | error e n =>
    cases hrun' : x m' with
    | ok a' n' =>
      rw [hrun, hrun'] at houtcome'
      cases houtcome'
    | error e n' =>
      rw [hrun, hrun'] at houtcome' htwins
      rw [Except.error.inj houtcome']
      exact .error htwins

/-- What is done after results that are tied. -/
theorem Tied.bind {s : Shift} {start : Domain} {m m' : Machine κ} {x : Act κ α}
    {g : α → Act κ β} (h : Tied s start (x m) (x m'))
    (hg : ∀ a n n', Twins s start n n' → Tied s start (g a n) (g a n')) :
    Tied s start ((x >>= g) m) ((x >>= g) m') := by
  rw [bind_apply, bind_apply]
  generalize x m = r at h ⊢
  generalize x m' = r' at h ⊢
  cases h with
  | ok htwins => exact hg _ _ _ htwins
  | error htwins => exact .error htwins
  | overLeft _ hlimit => exact .overLeft _ hlimit
  | overRight _ hlimit => exact .overRight _ hlimit

namespace Transition

variable {s : Shift} {start : Domain} {m m' : Machine κ} {f : Frame κ} {rest : List (Frame κ)}

theorem resolveBody_tied (ctx : Context κ) (h : Twins s start m m')
    (htop : m.thread.frames = f :: rest) :
    Tied s start (resolveBody ctx f m) (resolveBody ctx (f.rename s.handle) m') := by
  obtain ⟨t', d', log'⟩ := m'
  obtain rfl : t' = m.thread.rename s.handle := h.thread_eq
  cases hbody : (ctx.program.assembly f.calling).body f.method with
  | error e =>
    have hbody' : (ctx.program.assembly (f.rename s.handle).calling).body
      (f.rename s.handle).method = .error e := hbody
    simp only [resolveBody, hbody, hbody']
    exact .error h
  | ok body =>
    have hbody' : (ctx.program.assembly (f.rename s.handle).calling).body
      (f.rename s.handle).method = .ok body := hbody
    simp only [resolveBody, hbody, hbody']
    refine .ok (h.setTop htop ?_ _ _)
    rfl

theorem resolveMember_tied (ctx : Context κ) (h : Twins s start m m')
    (htop : m.thread.frames = f :: rest) {row : Nat}
    (hknown : ∀ target, findTarget (ctx.program.assembly f.calling).tables f.method row f.id =
      .ok target → start.contains target.assemblyRef.name = true) :
    Tied s start (resolveMember ctx f row m) (resolveMember ctx (f.rename s.handle) row m') := by
  obtain ⟨t', d', log'⟩ := m'
  obtain rfl : t' = m.thread.rename s.handle := h.thread_eq
  cases htarget : findTarget (ctx.program.assembly f.calling).tables f.method row f.id with
  | error e =>
    have htarget' : findTarget (ctx.program.assembly (f.rename s.handle).calling).tables
      (f.rename s.handle).method row (f.rename s.handle).id = .error e := htarget
    simp only [resolveMember, htarget, htarget']
    exact .error h
  | ok target =>
    have htarget' : findTarget (ctx.program.assembly (f.rename s.handle).calling).tables
      (f.rename s.handle).method row (f.rename s.handle).id = .ok target := htarget
    obtain ⟨assembly, hfound⟩ := Option.isSome_iff_exists.mp (hknown target htarget)
    have hresolve := Domain.resolve_of_assembly? (h.left.registered hfound)
    have hresolve' : d'.resolve target.assemblyRef.name = _ :=
      Domain.resolve_of_assembly? (h.right.registered hfound)
    simp only [resolveMember, htarget, htarget', bind_apply, get_apply, Act.lift_ok, hresolve,
      hresolve']
    refine .ok (h.setTop htop ?_ _ _)
    rfl

theorem resolve_tied (ctx : Context κ) (h : Twins s start m m')
    (htop : m.thread.frames = f :: rest) (hstate : f.state = .resolve)
    (hknown : ∀ name, m.thread.asked? ctx = some name → start.contains name = true) :
    Tied s start (resolve ctx m) (resolve ctx m') := by
  have hdepth' := h.depth_eq
  by_cases hdepth : ctx.config.maxCallDepth ≠ 0 ∧ m.thread.depth > ctx.config.maxCallDepth
  · simp only [resolve, checkDepth, bind_apply, get_apply, hdepth', if_pos hdepth, throw_apply]
    exact .error h
  have hframe := topFrame_eq htop
  have hframe' := topFrame_eq (h.top_eq htop)
  simp only [resolve, checkDepth, bind_apply, get_apply, hdepth', if_neg hdepth, pure_apply,
    hframe, hframe']
  have hkind' : (f.rename s.handle).method.kind = f.method.kind := rfl
  rw [hkind']
  cases hkind : f.method.kind with
  | methodDef row => exact resolveBody_tied ctx h htop
  | memberRef row =>
    refine resolveMember_tied ctx h htop fun target htarget => hknown _ ?_
    have hwithin : ctx.config.maxCallDepth = 0 ∨ m.thread.depth ≤ ctx.config.maxCallDepth := by
      omega
    simp [Thread.asked?, Thread.top?, htop, hkind, hstate, hwithin, htarget]
  | _ => exact .error h

/-- The same ticket is collected on both domains. -/
theorem awaitAssembly_tied (ctx : Context κ) (h : Twins s start m m')
    (htop : m.thread.frames = f :: rest) (ticket : Nat) :
    Tied s start (awaitAssembly ctx ticket m) (awaitAssembly ctx ticket m') := by
  have hframe := topFrame_eq htop
  have hframe' := topFrame_eq (h.top_eq htop)
  have hsame := Domain.finishLoad_congr (h.right.tickets_eq.trans h.left.tickets_eq.symm)
    ctx.program.nameOf ticket
  have hpool (d : Domain) : (d.finishLoad ctx.program.nameOf ticket).2.1.pool = d.pool :=
    DomainAction.perform_pool ctx.program.nameOf (.finish ticket) d
  have hname : (fun n => (ctx.program.assembly n).name) = ctx.program.nameOf := rfl
  have hcollected := h.withDomains (hpool _) (hpool _) (h.left.finishLoad ctx.program.nameOf ticket)
    (h.right.finishLoad ctx.program.nameOf ticket)
  simp only [awaitAssembly, bind_apply, get_apply, hframe, hframe', hname]
  rw [hsame]
  cases (m.domain.finishLoad ctx.program.nameOf ticket).1 with
  | error e => exact .error (hcollected _ _)
  | ok result =>
    cases result with
    | none => exact .ok (hcollected _ _)
    | some assembly =>
      refine .ok ((hcollected m.log m'.log).setTop htop ?_ _ _)
      rfl

theorem bindNative_tied (ctx : Context κ) (h : Twins s start m m')
    (htop : m.thread.frames = f :: rest) :
    Tied s start (bindNative ctx m) (bindNative ctx m') := by
  have hframe := topFrame_eq htop
  have hframe' := topFrame_eq (h.top_eq htop)
  have hexecuting' : (f.rename s.handle).executing = f.executing := rfl
  have htarget' : (f.rename s.handle).target = f.target := rfl
  simp only [bindNative, bind_apply, hframe, hframe', hexecuting', htarget']
  cases f.executing with
  | none => exact .error h
  | some executing =>
    cases f.target with
    | none => exact .error h
    | some target =>
      cases hnative : (ctx.program.assembly executing).native with
      | none =>
        simp only [hnative]
        exact .error h
      | some library =>
        simp only [hnative]
        cases ctx.decodeMethod target.member.signature with
        | error e => exact .error h
        | ok signature =>
          simp only [bind_apply, Act.lift_ok]
          cases library.createCall target.typeRef target.member signature with
          | error e => exact .error h
          | ok call =>
            refine .ok (h.setTop htop ?_ _ _)
            rfl

/-- Whether the locals of a body can be read, and as what, is up to the program. -/
theorem frameLocals_agree (ctx : Context κ) (f g : Frame κ) (executing : Nat) (body : MethodBody)
    (m m' : Machine κ) :
    (∃ e, frameLocals ctx f executing body m = .error e m ∧
        frameLocals ctx g executing body m' = .error e m') ∨
      ∃ locals log log', frameLocals ctx f executing body m = .ok locals { m with log } ∧
        frameLocals ctx g executing body m' = .ok locals { m' with log := log' } := by
  rcases frameLocals_cases ctx f executing body m with
    ⟨e, hdeclared, hlocals⟩ | ⟨locals, log, hdeclared, hlocals⟩
  · rcases frameLocals_cases ctx g executing body m' with
      ⟨e', hdeclared', hlocals'⟩ | ⟨locals', log', hdeclared', hlocals'⟩
    · obtain rfl := Except.error.inj (hdeclared.symm.trans hdeclared')
      exact Or.inl ⟨e, hlocals, hlocals'⟩
    · cases hdeclared.symm.trans hdeclared'
  · rcases frameLocals_cases ctx g executing body m' with
      ⟨e', hdeclared', hlocals'⟩ | ⟨locals', log', hdeclared', hlocals'⟩
    · cases hdeclared.symm.trans hdeclared'
    · obtain rfl := Except.ok.inj (hdeclared.symm.trans hdeclared')
      exact Or.inr ⟨locals, log, log', hlocals, hlocals'⟩

theorem activate_tied (ctx : Context κ) (h : Twins s start m m')
    (htop : m.thread.frames = f :: rest) (executing : Nat) (body : MethodBody) :
    Tied s start (activate ctx f executing body m)
      (activate ctx (f.rename s.handle) executing body m') := by
  obtain ⟨t', d', log'⟩ := m'
  obtain rfl : t' = m.thread.rename s.handle := h.thread_eq
  cases hsignature : ctx.decodeMethod body.signature with
  | error e =>
    simp only [activate, hsignature]
    exact .error h
  | ok signature =>
    simp only [activate, hsignature, bind_apply, Act.lift_ok]
    obtain ⟨e, hlocals, hlocals'⟩ | ⟨locals, log, log', hlocals, hlocals'⟩ :=
      frameLocals_agree ctx f (f.rename s.handle) executing body m
        ⟨m.thread.rename s.handle, d', log'⟩
    · rw [hlocals, hlocals']
      exact .error h
    · rw [hlocals, hlocals']
      have hvalues : (m.thread.rename s.handle).operands = m.thread.operands := rfl
      simp only [get_apply, Thread.popValues, hvalues]
      by_cases hle : signature.argumentCount ≤ m.thread.operands.length
      · simp only [if_pos hle, Act.lift_ok]
        have hmade := materializeFrame_abreast h.pools signature (locals.getD []) body.initLocals
          (m.thread.operands.take signature.argumentCount).reverse
        generalize materializeFrame signature (locals.getD []) body.initLocals
          (m.thread.operands.take signature.argumentCount).reverse m.domain.pool = made at hmade ⊢
        generalize materializeFrame signature (locals.getD []) body.initLocals
          (m.thread.operands.take signature.argumentCount).reverse d'.pool = made' at hmade ⊢
        cases hmade with
        | failed hpools => exact .error (h.withPools hpools _ _)
        | overLeft _ hlimit => exact .overLeft _ hlimit
        | overRight _ hlimit => exact .overRight _ hlimit
        | made hpools =>
          -- what the frame owned before is forgotten
          rw [Thread.holdings_of_top htop] at hpools
          have hforgets := hpools.sublist
            ((List.sublist_append_right f.holdings _).append_left _)
          exact .ok (h.withTop htop rfl hforgets _ _)
      · simp only [if_neg hle]
        exact .error (h.relog _ _)

theorem setupBody_tied (ctx : Context κ) (h : Twins s start m m')
    (htop : m.thread.frames = f :: rest) : Tied s start (setupBody ctx m) (setupBody ctx m') := by
  have hframe := topFrame_eq htop
  have hframe' := topFrame_eq (h.top_eq htop)
  have hbody' : (f.rename s.handle).body = f.body := rfl
  have hexecuting' : (f.rename s.handle).executing = f.executing := rfl
  simp only [setupBody, bind_apply, hframe, hframe', hbody', hexecuting']
  cases f.body with
  | none => exact .error h
  | some body =>
    cases f.executing with
    | none => exact .error h
    | some executing => exact activate_tied ctx h htop executing body

/-- The call goes back to the same frame. -/
theorem settlePoll_tied (h : Twins s start m m') (below : Nat) (call : NativeCall κ)
    (status : Except Fault NativeStatus) :
    Tied s start (settlePoll below call status m) (settlePoll below call status m') := by
  let index := m.thread.frames.length - 1 - below
  have hfound : (if below < m.thread.frames.length then
      (m.thread.frames.map (Frame.rename s.handle))[index]? else none) =
      (if below < m.thread.frames.length then m.thread.frames[index]? else none).map
        (Frame.rename s.handle) := by
    rw [List.getElem?_map]
    split
    · rfl
    · rfl
  simp only [settlePoll, bind_apply, get_apply, h.frames_eq, List.length_map]
  rw [hfound]
  cases hframe : (if below < m.thread.frames.length then m.thread.frames[index]? else none) with
  | none => exact .error h
  | some g =>
    have hg : m.thread.frames[index]? = some g := by
      split at hframe
      · exact hframe
      · cases hframe
    have hsettled (g' : Frame κ) (hholdings : g'.holdings = g.holdings) (log log' : Log) :
        Twins s start ⟨{ m.thread with frames := m.thread.frames.set index g' }, m.domain, log⟩
          ⟨{ m'.thread with
              frames := (m.thread.frames.map (Frame.rename s.handle)).set index
                (g'.rename s.handle) }, m'.domain, log'⟩ := by
      rw [← List.map_set]
      exact h.withFrames (flatMap_set hg hholdings) log log'
    cases status with
    | error e => exact .error (hsettled { g with nativeCall := some call } rfl _ _)
    | ok status =>
      cases status with
      | pending => exact .ok (hsettled { g with nativeCall := some call } rfl _ _)
      | complete =>
        exact .ok (hsettled { g with nativeCall := some call, state := .teardown } rfl _ _)

theorem teardown_tied (h : Twins s start m m') (htop : m.thread.frames = f :: rest) :
    Tied s start (teardown m) (teardown m') := by
  obtain ⟨t', d', log'⟩ := m'
  obtain rfl : t' = m.thread.rename s.handle := h.thread_eq
  have hframe := topFrame_eq htop
  have hframe' := topFrame_eq (h.top_eq htop)
  have htop' : (m.thread.rename s.handle).frames = _ := h.top_eq htop
  have hpools := h.pools
  rw [Thread.holdings_of_top htop] at hpools
  obtain ⟨hresult, hfailure, hrest⟩ := Frame.release_mirrors hpools
  have hok : (f.release m.domain.pool).result = .ok (f.release m.domain.pool).released := by
    rw [Release.result, hfailure]
  rw [hok] at hresult
  have hleft (log log' : Log) : Twins s start
      ⟨{ m.thread with frames := rest },
        { m.domain with pool := (f.release m.domain.pool).pool }, log⟩
      ⟨{ m.thread.rename s.handle with frames := rest.map (Frame.rename s.handle) },
        { d' with pool := ((f.rename s.handle).release d'.pool).pool }, log'⟩ :=
    ⟨rfl, hrest, ⟨h.left.tickets_eq, h.left.registered⟩,
      ⟨h.right.tickets_eq, h.right.registered⟩⟩
  simp only [teardown, bind_apply, get_apply, hframe, hframe', htop, htop', hresult, hok,
    List.tail_cons]
  by_cases hlow : m.thread.operands.length < f.stackBase - f.consumed
  · have hlow' : (m.thread.rename s.handle).operands.length <
        (f.rename s.handle).stackBase - (f.rename s.handle).consumed := hlow
    simp only [if_pos hlow, if_pos hlow']
    exact .ok (hleft _ _)
  · have hlow' : ¬ (m.thread.rename s.handle).operands.length <
        (f.rename s.handle).stackBase - (f.rename s.handle).consumed := hlow
    simp only [if_neg hlow, if_neg hlow']
    exact .ok (hleft _ _)

theorem pollNative_tied {ctx : Context κ} (hctx : ctx.ActsOnSight) (h : Twins s start m m')
    (hm : m.InOrder) (hm' : m'.InOrder) (htop : m.thread.frames = f :: rest) :
    Tied s start (pollNative ctx m) (pollNative ctx m') := by
  have hframe := topFrame_eq htop
  have hframe' := topFrame_eq (h.top_eq htop)
  have hcall' : (f.rename s.handle).nativeCall = f.nativeCall := rfl
  simp only [pollNative, bind_apply, get_apply, hframe, hframe', hcall', h.depth_eq]
  cases f.nativeCall with
  | none => exact .error h
  | some call =>
    -- the frames are without the call while it is polled
    have hpolled : Twins s start _ _ :=
      h.setTop htop (g := { f with nativeCall := none }) rfl m.log m'.log
    have hleft := hm.setTop htop (g := { f with nativeCall := none }) rfl
    have hright := hm'.setTop (h.top_eq htop)
      (g := { f.rename s.handle with nativeCall := none }) rfl
    have htied := (pollCall_onSight hctx call).tied hpolled hleft hright
    exact htied.bind (g := fun polled => settlePoll (m.thread.depth - 1) polled.2 polled.1)
      fun polled n n' hn => settlePoll_tied hn _ polled.2 polled.1

/-- A transition of a thread that looks up registered names only. -/
theorem run_tied {ctx : Context κ} (hctx : ctx.ActsOnSight) (h : Twins s start m m')
    (hm : m.InOrder) (hm' : m'.InOrder)
    (hknown : ∀ name, m.thread.asked? ctx = some name → start.contains name = true) :
    Tied s start (run ctx m) (run ctx m') := by
  cases htop : m.thread.frames with
  | nil =>
    have hnone : (Act.topFrame : Act κ (Frame κ)) m = .error .emptyCallStack m := by
      simp [Act.topFrame, Thread.top?, htop]
    have hnone' : (Act.topFrame : Act κ (Frame κ)) m' = .error .emptyCallStack m' := by
      simp [Act.topFrame, Thread.top?, h.frames_eq, htop]
    simp only [run, bind_apply, hnone, hnone']
    exact .error h
  | cons f rest =>
    have hframe := topFrame_eq htop
    have hframe' := topFrame_eq (h.top_eq htop)
    have hstate' : (f.rename s.handle).state = f.state := rfl
    have hnoted := h.relog (m.log.add (.entersPhase f.id f.method f.phase))
      (m'.log.add (.entersPhase f.id f.method f.phase))
    simp only [run, bind_apply, hframe, hframe', hstate', Act.note, modify_apply]
    cases hstate : f.state with
    | resolve => exact resolve_tied ctx hnoted htop hstate hknown
    | awaitAssembly ticket => exact awaitAssembly_tied ctx hnoted htop ticket
    | assemblyResolved => exact bindNative_tied ctx hnoted htop
    | bodySetup => exact setupBody_tied ctx hnoted htop
    | nativeExec => exact pollNative_tied hctx hnoted hm hm' htop
    | interpretedExec =>
      exact (hctx.execute.tied hnoted hm hm').bind fun goesOn n n' hn => .ok hn
    | teardown => exact teardown_tied hnoted htop

end Transition

/-- The names that a thread looks up in some transitions, as long as it goes on. -/
def lookups (ctx : Context κ) : Nat → Machine κ → List String
  | 0, _ => []
  | limit + 1, m =>
    (m.thread.asked? ctx).toList ++
      match Transition.run ctx m with
      | .ok .continue m' => lookups ctx limit m'
      | _ => []

/-- How many transitions a step can take. -/
def Context.stepBound (ctx : Context κ) : Nat :=
  if ctx.config.maxTransitions = 0 then ctx.patience else ctx.config.maxTransitions

/-- Frames have what their phases need, and the pool has the storage of the thread. -/
structure Machine.Proper (m : Machine κ) : Prop where
  wellFormed : m.thread.WellFormed
  inOrder : m.InOrder

theorem Machine.Proper.run {ctx : Context κ} (hctx : ctx.Disciplined) {m m' : Machine κ}
    (h : m.Proper) {tick : Tick} (hrun : Transition.run ctx m = .ok tick m') : m'.Proper := by
  obtain ⟨hwf, budget, others, hholds⟩ := h
  have hkept := (holds_kept hctx (Pool.empty budget) others).transition
    (Transition.run_follows ctx m) ⟨hwf, hholds⟩
  rw [after_of_ok hrun] at hkept
  exact ⟨hkept.1, budget, others, hkept.2⟩

section

variable {s : Shift} {start : Domain} {m m' : Machine κ}

theorem advance_tied {ctx : Context κ} (hctx : ctx.ActsOnSight) (limit : Nat)
    (h : Twins s start m m') (hm : m.Proper) (hm' : m'.Proper)
    (hknown : ∀ name ∈ lookups ctx limit m, start.contains name = true) :
    Tied s start (advance ctx limit m) (advance ctx limit m') := by
  induction limit generalizing m m' with
  | zero =>
    rw [advance, advance, h.isComplete_eq]
    exact .ok h
  | succ limit ih =>
    rw [advance, advance, h.isComplete_eq]
    by_cases hdone : m.thread.isComplete = true
    · rw [if_pos hdone, if_pos hdone]
      exact .ok h
    · rw [if_neg hdone, if_neg hdone]
      have hasked (name : String) (hname : m.thread.asked? ctx = some name) :
          start.contains name = true :=
        hknown name (List.mem_append_left _ (Option.mem_toList.mpr hname))
      have htied := Transition.run_tied hctx h hm.inOrder hm'.inOrder hasked
      generalize hleft : Transition.run ctx m = r at htied ⊢
      generalize hright : Transition.run ctx m' = r' at htied ⊢
      cases htied with
      | error htwins => exact .error htwins
      | overLeft _ hlimit => exact .overLeft _ hlimit
      | overRight _ hlimit => exact .overRight _ hlimit
      | @ok tick n n' htwins =>
        cases tick with
        | yield => exact .ok htwins
        | «continue» =>
          refine ih htwins (hm.run hctx.disciplined hleft) (hm'.run hctx.disciplined hright) ?_
          intro name hname
          refine hknown name ?_
          rw [lookups, hleft]
          exact List.mem_append_right _ hname

/-- A whole step goes the same way on both domains. -/
theorem step_tied {ctx : Context κ} (hctx : ctx.ActsOnSight) (h : Twins s start m m')
    (hm : m.Proper) (hm' : m'.Proper)
    (hknown : ∀ name ∈ lookups ctx ctx.stepBound m, start.contains name = true) :
    Tied s start (step ctx m) (step ctx m') := by
  refine (advance_tied hctx ctx.stepBound h hm hm' hknown).bind fun rest n n' hn => ?_
  cases rest with
  | spent =>
    by_cases hlimit : ctx.config.maxTransitions = 0
    · simp only [if_pos hlimit]
      exact .error hn
    · simp only [if_neg hlimit]
      exact .ok (hn.relog _ _)
  | _ =>
    simp only [bind_apply, get_apply, hn.isComplete_eq]
    exact .ok hn

end

end ManagedCalls
