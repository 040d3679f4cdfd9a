import ManagedCalls.Proofs.LoadPaths

/-!
What a call is resolved to. A method token leads to a body of the calling assembly, or
through three rows of its tables to another assembly. Which tokens do, and what is wrong
with the others, is said here without following the walk that finds it out: a frame is
refused for the first condition that fails, and if none does it goes on with exactly
what its token leads to. Only then is a load requested.
-/

namespace ManagedCalls

open Stateful

variable {κ : Type}

section Rows

variable {α : Type} {rows : List α} {row : Nat}

/-- The row of a table with a number, counted from one. -/
def IsRow (rows : List α) (row : Nat) (a : α) : Prop := 0 < row ∧ rows[row - 1]? = some a

/-- The table has no row with this number. -/
def NoRow (rows : List α) (row : Nat) : Prop := row = 0 ∨ rows.length < row

theorem Tables.rowAt_of_isRow {a : α} (h : IsRow rows row a) : rowAt rows row = some a := by
  obtain ⟨hpos, hget⟩ := h
  obtain ⟨n, rfl⟩ := Nat.exists_eq_succ_of_ne_zero (Nat.ne_of_gt hpos)
  exact hget

theorem Tables.rowAt_of_noRow (h : NoRow rows row) : rowAt rows row = none := by
  cases row with
  | zero => rfl
  | succ n =>
    have hlength : rows.length ≤ n := by
      rcases h with hzero | hlong
      · cases hzero
      · omega
    exact List.getElem?_eq_none hlength

theorem isRow_or_noRow (rows : List α) (row : Nat) : (∃ a, IsRow rows row a) ∨ NoRow rows row := by
  by_cases hrow : NoRow rows row
  · exact Or.inr hrow
  · rw [NoRow, not_or] at hrow
    have hlt : row - 1 < rows.length := by omega
    exact Or.inl ⟨rows[row - 1], by omega, List.getElem?_eq_getElem hlt⟩

end Rows

/-- The rows that a member reference leads to. Each stands where the one before it
refers to, and the references are into the right tables. -/
structure Target.IsAt (target : Target) (tables : Tables) (row : Nat) : Prop where
  member : IsRow tables.memberRefs row target.member
  parent_table : target.member.parent.table = .typeRef
  typeRef : IsRow tables.typeRefs target.member.parent.row target.typeRef
  scope_table : target.typeRef.scope.table = .assemblyRef
  assemblyRef : IsRow tables.assemblyRefs target.typeRef.scope.row target.assemblyRef

/-- The first thing wrong on the way from a member reference to an assembly, with the
token it is about. All before it is right. -/
inductive Astray (tables : Tables) (token : Token) (row frame : Nat) : Fault → Prop
  | noMember (hmember : NoRow tables.memberRefs row) :
      Astray tables token row frame (.missingRow token)
  | otherParent {member : MemberRef} (hmember : IsRow tables.memberRefs row member)
      (hparent : member.parent.table ≠ .typeRef) :
      Astray tables token row frame (.unsupportedParent token member.parent.token frame)
  | noType {member : MemberRef} (hmember : IsRow tables.memberRefs row member)
      (hparent : member.parent.table = .typeRef)
      (htype : NoRow tables.typeRefs member.parent.row) :
      Astray tables token row frame (.missingRow member.parent.token)
  | otherScope {member : MemberRef} {typeRef : TypeRef}
      (hmember : IsRow tables.memberRefs row member)
      (hparent : member.parent.table = .typeRef)
      (htype : IsRow tables.typeRefs member.parent.row typeRef)
      (hscope : typeRef.scope.table ≠ .assemblyRef) :
      Astray tables token row frame
        (.unsupportedScope token typeRef.token typeRef.scope.token frame)
  | noAssembly {member : MemberRef} {typeRef : TypeRef}
      (hmember : IsRow tables.memberRefs row member)
      (hparent : member.parent.table = .typeRef)
      (htype : IsRow tables.typeRefs member.parent.row typeRef)
      (hscope : typeRef.scope.table = .assemblyRef)
      (hassembly : NoRow tables.assemblyRefs typeRef.scope.row) :
      Astray tables token row frame (.missingRow typeRef.scope.token)

section Walk

variable {tables : Tables} {token : Token} {row frame : Nat}

theorem findTarget_of_isAt {target : Target} (h : target.IsAt tables row) :
    findTarget tables token row frame = .ok target := by
  simp [findTarget, Tables.memberRef?, Tables.typeRef?, Tables.assemblyRef?,
    Tables.rowAt_of_isRow h.member, Tables.rowAt_of_isRow h.typeRef,
    Tables.rowAt_of_isRow h.assemblyRef, h.parent_table, h.scope_table]

theorem findTarget_of_astray {e : Fault} (h : Astray tables token row frame e) :
    findTarget tables token row frame = .error e := by
  cases h with
  | noMember hmember => simp [findTarget, Tables.memberRef?, Tables.rowAt_of_noRow hmember]
  | otherParent hmember hparent =>
    simp [findTarget, Tables.memberRef?, Tables.rowAt_of_isRow hmember, hparent]
  | noType hmember hparent htype =>
    simp [findTarget, Tables.memberRef?, Tables.typeRef?, Tables.rowAt_of_isRow hmember, hparent,
      Tables.rowAt_of_noRow htype]
  | otherScope hmember hparent htype hscope =>
    simp [findTarget, Tables.memberRef?, Tables.typeRef?, Tables.rowAt_of_isRow hmember, hparent,
      Tables.rowAt_of_isRow htype, hscope]
  | noAssembly hmember hparent htype hscope hassembly =>
    simp [findTarget, Tables.memberRef?, Tables.typeRef?, Tables.assemblyRef?,
      Tables.rowAt_of_isRow hmember, hparent, Tables.rowAt_of_isRow htype, hscope,
      Tables.rowAt_of_noRow hassembly]

theorem isAt_or_astray (tables : Tables) (token : Token) (row frame : Nat) :
    (∃ target : Target, target.IsAt tables row) ∨ ∃ e, Astray tables token row frame e := by
  rcases isRow_or_noRow tables.memberRefs row with ⟨member, hmember⟩ | hmember
  · by_cases hparent : member.parent.table = .typeRef
    · rcases isRow_or_noRow tables.typeRefs member.parent.row with ⟨typeRef, htype⟩ | htype
      · by_cases hscope : typeRef.scope.table = .assemblyRef
        · rcases isRow_or_noRow tables.assemblyRefs typeRef.scope.row with
            ⟨assemblyRef, hassembly⟩ | hassembly
          · exact Or.inl
              ⟨⟨member, typeRef, assemblyRef⟩, hmember, hparent, htype, hscope, hassembly⟩
          · exact Or.inr ⟨_, .noAssembly hmember hparent htype hscope hassembly⟩
        · exact Or.inr ⟨_, .otherScope hmember hparent htype hscope⟩
      · exact Or.inr ⟨_, .noType hmember hparent htype⟩
    · exact Or.inr ⟨_, .otherParent hmember hparent⟩
  · exact Or.inr ⟨_, .noMember hmember⟩

end Walk

/-- Frames at this depth may be resolved. -/
def Context.Allows (ctx : Context κ) (depth : Nat) : Prop :=
  ctx.config.maxCallDepth = 0 ∨ depth ≤ ctx.config.maxCallDepth

/-- The assembly is registered under the name in some case of its letters. -/
def Domain.Registered (d : Domain) (name : String) (assembly : Nat) : Prop :=
  ∃ spelling, NameMap.fold spelling = NameMap.fold name ∧ d.assembly? spelling = some assembly

namespace Domain

variable {d : Domain} {name : String}

theorem registered_iff {assembly : Nat} :
    d.Registered name assembly ↔ d.assembly? name = some assembly := by
  constructor
  · rintro ⟨spelling, hspelling, hfound⟩
    rw [← d.assembly?_congr hspelling]
    exact hfound
  · intro hfound
    exact ⟨name, rfl, hfound⟩

theorem assembly?_of_free (hfree : ∀ assembly, ¬ d.Registered name assembly) :
    d.assembly? name = none := by
  refine Option.eq_none_iff_forall_ne_some.mpr fun assembly hfound => ?_
  exact hfree assembly (registered_iff.mpr hfound)

theorem resolve_of_no_loader (hfree : d.assembly? name = none) (hloader : d.loader = none) :
    d.resolve name = .error (.assemblyNotFound name) := by
  simp [resolve, hfree, hloader]

theorem resolve_of_pending {ticket : Nat} (hfree : d.assembly? name = none)
    (hloader : d.loader.isSome) (hpending : d.pending.find? name = some ticket) :
    d.resolve name = .ok (.pending ticket, d, []) := by
  obtain ⟨loader, hloader⟩ := Option.isSome_iff_exists.mp hloader
  simp [resolve, hfree, hloader, hpending]

end Domain

/-- The assembly has a body under the token. -/
def Assembly.Implements (a : Assembly κ) (token : Token) (body : MethodBody) : Prop :=
  a.body? token = some body

theorem Assembly.exists_implements_iff {a : Assembly κ} {token : Token} :
    (∃ body, a.Implements token body) ↔ ∃ body ∈ a.methods, body.token = token := by
  simp [Implements, body?, ← Option.isSome_iff_exists, List.find?_isSome]

namespace Transition

section Lookup

variable (ctx : Context κ) (t : Thread κ) (d : Domain) (f : Frame κ)

/-- All that resolving the topmost frame of a thread asks for. -/
def Resolvable : Prop :=
  ctx.Allows t.depth ∧
    ((f.method.table = TableId.methodDef.tag ∧
        ∃ body ∈ (ctx.program.assembly f.calling).methods, body.token = f.method) ∨
      (f.method.table = TableId.memberRef.tag ∧
        ∃ target : Target,
          target.IsAt (ctx.program.assembly f.calling).tables f.method.row ∧
          ((∃ assembly, d.Registered target.assemblyRef.name assembly) ∨ d.loader.isSome)))

/-- What resolving a frame fails with: the first condition that does not hold, while all
before it do. -/
inductive Refused : Fault → Prop
  | tooDeep (hdepth : ¬ ctx.Allows t.depth) :
      Refused (.callDepthExceeded t.depth ctx.config.maxCallDepth)
  | otherTable (hdepth : ctx.Allows t.depth) (hbody : f.method.table ≠ TableId.methodDef.tag)
      (hmember : f.method.table ≠ TableId.memberRef.tag) :
      Refused (.unsupportedTokenTable f.method f.id)
  | noBody (hdepth : ctx.Allows t.depth) (htable : f.method.table = TableId.methodDef.tag)
      (hbody : ∀ body ∈ (ctx.program.assembly f.calling).methods, body.token ≠ f.method) :
      Refused (.missingMethodBody f.method)
  | astray {e : Fault} (hdepth : ctx.Allows t.depth)
      (htable : f.method.table = TableId.memberRef.tag)
      (hastray : Astray (ctx.program.assembly f.calling).tables f.method f.method.row f.id e) :
      Refused e
  | notFound {target : Target} (hdepth : ctx.Allows t.depth)
      (htable : f.method.table = TableId.memberRef.tag)
      (htarget : target.IsAt (ctx.program.assembly f.calling).tables f.method.row)
      (hfree : ∀ assembly, ¬ d.Registered target.assemblyRef.name assembly)
      (hloader : d.loader = none) :
      Refused (.assemblyNotFound target.assemblyRef.name)

/-- The frame that a frame becomes when it is resolved, and the domain afterwards. The
domain is another one only if nobody waited for the assembly yet. -/
inductive Resolved : Frame κ → Domain → Prop
  | body {body : MethodBody} (htable : f.method.table = TableId.methodDef.tag)
      (hbody : (ctx.program.assembly f.calling).Implements f.method body) :
      Resolved
        { f with
          executing := some f.calling
          body := some body
          stackBase := t.operands.length
          state := .bodySetup }
        d
  | registered {target : Target} {assembly : Nat}
      (htable : f.method.table = TableId.memberRef.tag)
      (htarget : target.IsAt (ctx.program.assembly f.calling).tables f.method.row)
      (hassembly : d.Registered target.assemblyRef.name assembly) :
      Resolved
        { f with
          target := some target
          executing := some assembly
          stackBase := t.operands.length
          state := .assemblyResolved }
        d
  | joined {target : Target} {ticket : Nat} (htable : f.method.table = TableId.memberRef.tag)
      (htarget : target.IsAt (ctx.program.assembly f.calling).tables f.method.row)
      (hfree : ∀ assembly, ¬ d.Registered target.assemblyRef.name assembly)
      (hloader : d.loader.isSome)
      (hpending : d.pending.find? target.assemblyRef.name = some ticket) :
      Resolved
        { f with
          target := some target
          stackBase := t.operands.length
          state := .awaitAssembly ticket }
        d
  | requested {target : Target} {loader : Loader}
      (htable : f.method.table = TableId.memberRef.tag)
      (htarget : target.IsAt (ctx.program.assembly f.calling).tables f.method.row)
      (hfree : ∀ assembly, ¬ d.Registered target.assemblyRef.name assembly)
      (hloader : d.loader = some loader)
      (hpending : d.pending.find? target.assemblyRef.name = none) :
      Resolved
        { f with
          target := some target
          stackBase := t.operands.length
          state := .awaitAssembly d.tickets.length }
        (d.issue loader target.assemblyRef.name)

end Lookup

section Outcome

variable {ctx : Context κ} {t : Thread κ} {d : Domain} {f : Frame κ}

theorem resolved_of_isAt {target : Target} (htable : f.method.table = TableId.memberRef.tag)
    (htarget : target.IsAt (ctx.program.assembly f.calling).tables f.method.row)
    (havailable : (∃ assembly, d.Registered target.assemblyRef.name assembly) ∨ d.loader.isSome) :
    ∃ g d', Resolved ctx t d f g d' := by
  by_cases hfound : ∃ assembly, d.Registered target.assemblyRef.name assembly
  · obtain ⟨assembly, hassembly⟩ := hfound
    exact ⟨_, _, .registered htable htarget hassembly⟩
  · have hloader : d.loader.isSome := havailable.resolve_left hfound
    have hfree : ∀ assembly, ¬ d.Registered target.assemblyRef.name assembly :=
      not_exists.mp hfound
    cases hpending : d.pending.find? target.assemblyRef.name with
    | some ticket => exact ⟨_, _, .joined htable htarget hfree hloader hpending⟩
    | none =>
      obtain ⟨loader, hloader⟩ := Option.isSome_iff_exists.mp hloader
      exact ⟨_, _, .requested htable htarget hfree hloader hpending⟩

theorem resolved_of_resolvable (h : Resolvable ctx t d f) : ∃ g d', Resolved ctx t d f g d' := by
  obtain ⟨-, ⟨htable, hbody⟩ | ⟨htable, target, htarget, havailable⟩⟩ := h
  · obtain ⟨body, hbody⟩ := Assembly.exists_implements_iff.mpr hbody
    exact ⟨_, _, .body htable hbody⟩
  · exact resolved_of_isAt htable htarget havailable

/-- A frame that cannot be resolved is refused for something. -/
theorem refused_of_not_resolvable (h : ¬ Resolvable ctx t d f) : ∃ e, Refused ctx t d f e := by
  by_cases hdepth : ctx.Allows t.depth
  · by_cases hbody : f.method.table = TableId.methodDef.tag
    · refine ⟨_, .noBody hdepth hbody ?_⟩
      intro body hmem htoken
      exact h ⟨hdepth, Or.inl ⟨hbody, body, hmem, htoken⟩⟩
    · by_cases hmember : f.method.table = TableId.memberRef.tag
      · rcases isAt_or_astray (ctx.program.assembly f.calling).tables f.method f.method.row f.id
          with ⟨target, htarget⟩ | ⟨e, hastray⟩
        · have hmissing (havailable : (∃ assembly,
              d.Registered target.assemblyRef.name assembly) ∨ d.loader.isSome) : False :=
            h ⟨hdepth, Or.inr ⟨hmember, target, htarget, havailable⟩⟩
          refine ⟨_, .notFound hdepth hmember htarget ?_ ?_⟩
          · exact fun assembly hassembly => hmissing (Or.inl ⟨assembly, hassembly⟩)
          · exact Option.not_isSome_iff_eq_none.mp fun hloader => hmissing (Or.inr hloader)
        · exact ⟨e, .astray hdepth hmember hastray⟩
      · exact ⟨_, .otherTable hdepth hbody hmember⟩
  · exact ⟨_, .tooDeep hdepth⟩

end Outcome

theorem checkDepth_of_allows {ctx : Context κ} {m : Machine κ} (h : ctx.Allows m.thread.depth) :
    checkDepth ctx m = .ok () m := by
  have hwithin : ¬ (ctx.config.maxCallDepth ≠ 0 ∧ m.thread.depth > ctx.config.maxCallDepth) := by
    rcases h with hzero | hle
    · exact fun hdeep => hdeep.1 hzero
    · omega
  simp [checkDepth, hwithin]

theorem checkDepth_of_not_allows {ctx : Context κ} {m : Machine κ}
    (h : ¬ ctx.Allows m.thread.depth) :
    checkDepth ctx m = .error (.callDepthExceeded m.thread.depth ctx.config.maxCallDepth) m := by
  rw [Context.Allows, not_or, Nat.not_le] at h
  simp [checkDepth, h]

section Phase

variable (ctx : Context κ) {m : Machine κ} {f : Frame κ} {rest : List (Frame κ)}

/-- The machine once the phase of a frame was noted. -/
def phaseNoted (m : Machine κ) (f : Frame κ) : Machine κ :=
  { m with log := m.log.add (.entersPhase f.id f.method f.phase) }

theorem run_of_resolve (htop : m.thread.frames = f :: rest) (hstate : f.state = .resolve) :
    run ctx m = resolve ctx (phaseNoted m f) := by
  simp [run, topFrame_eq htop, Act.note, hstate, phaseNoted]

theorem resolve_of_methodDef (hdepth : ctx.Allows m.thread.depth)
    (htop : m.thread.frames = f :: rest) (htable : f.method.table = TableId.methodDef.tag) :
    resolve ctx m = resolveBody ctx f m := by
  have hkind : f.method.kind = .methodDef f.method.row := by
    rw [Token.kind, htable]
    rfl
  simp [resolve, checkDepth_of_allows hdepth, topFrame_eq htop, hkind]

theorem resolve_of_memberRef (hdepth : ctx.Allows m.thread.depth)
    (htop : m.thread.frames = f :: rest) (htable : f.method.table = TableId.memberRef.tag) :
    resolve ctx m = resolveMember ctx f f.method.row m := by
  have hkind : f.method.kind = .memberRef f.method.row := by
    rw [Token.kind, htable]
    rfl
  simp [resolve, checkDepth_of_allows hdepth, topFrame_eq htop, hkind]

theorem resolve_of_other (hdepth : ctx.Allows m.thread.depth) (htop : m.thread.frames = f :: rest)
    (hbody : f.method.table ≠ TableId.methodDef.tag)
    (hmember : f.method.table ≠ TableId.memberRef.tag) :
    resolve ctx m = .error (.unsupportedTokenTable f.method f.id) m := by
  have hbody' : ¬ f.method.table = 0x06 := hbody
  have hmember' : ¬ f.method.table = 0x0A := hmember
  have hkind : f.method.kind =
      if f.method.table = 0x01 then .typeRef f.method.row
      else if f.method.table = 0x23 then .assemblyRef f.method.row
      else .unsupported f.method.table f.method.row := by
    rw [Token.kind, if_neg hbody', if_neg hmember']
  by_cases htype : f.method.table = 0x01
  · simp [resolve, checkDepth_of_allows hdepth, topFrame_eq htop, hkind, htype]
  · by_cases hassembly : f.method.table = 0x23
    · simp [resolve, checkDepth_of_allows hdepth, topFrame_eq htop, hkind, hassembly]
    · simp [resolve, checkDepth_of_allows hdepth, topFrame_eq htop, hkind, htype, hassembly]

theorem resolveMember_of_error {row : Nat} {e : Fault}
    (htarget : findTarget (ctx.program.assembly f.calling).tables f.method row f.id = .error e) :
    resolveMember ctx f row m = .error e m := by
  simp [resolveMember, htarget]

theorem resolve_of_refused {e : Fault} (htop : m.thread.frames = f :: rest)
    (h : Refused ctx m.thread m.domain f e) : resolve ctx m = .error e m := by
  cases h with
  | tooDeep hdepth => simp [resolve, checkDepth_of_not_allows hdepth]
  | otherTable hdepth hbody hmember => exact resolve_of_other ctx hdepth htop hbody hmember
  | noBody hdepth htable hbody =>
    have hnone : (ctx.program.assembly f.calling).body? f.method = none := by
      simpa [Assembly.body?] using hbody
    rw [resolve_of_methodDef ctx hdepth htop htable]
    simp [resolveBody, Assembly.body, hnone]
  | astray hdepth htable hastray =>
    rw [resolve_of_memberRef ctx hdepth htop htable]
    exact resolveMember_of_error ctx (findTarget_of_astray hastray)
  | notFound hdepth htable htarget hfree hloader =>
    have hresolve := Domain.resolve_of_no_loader (Domain.assembly?_of_free hfree) hloader
    rw [resolve_of_memberRef ctx hdepth htop htable]
    simp [resolveMember, findTarget_of_isAt htarget, hresolve]

/-- A refused frame leaves nothing behind but the line that it was looked at. -/
theorem run_of_refused {e : Fault} (htop : m.thread.frames = f :: rest)
    (hstate : f.state = .resolve) (h : Refused ctx m.thread m.domain f e) :
    run ctx m = .error e (phaseNoted m f) := by
  rw [run_of_resolve ctx htop hstate]
  exact resolve_of_refused ctx (m := phaseNoted m f) htop h

theorem run_of_resolved {g : Frame κ} {d : Domain} (htop : m.thread.frames = f :: rest)
    (hstate : f.state = .resolve) (hdepth : ctx.Allows m.thread.depth)
    (h : Resolved ctx m.thread m.domain f g d) :
    ∃ log, run ctx m = .ok .continue ⟨{ m.thread with frames := g :: rest }, d, log⟩ := by
  have hmember (htable : f.method.table = TableId.memberRef.tag) :
      f.method.kind = .memberRef f.method.row := by
    rw [Token.kind, htable]
    rfl
  cases h with
  | body htable hbody =>
    have hfound : (ctx.program.assembly f.calling).body? f.method = some _ := hbody
    rw [run_of_resolve ctx htop hstate,
      resolve_of_methodDef ctx (m := phaseNoted m f) hdepth htop htable]
    exact ⟨_, by simp [resolveBody, Assembly.body, hfound, Act.note, Act.setTop, Thread.setTop,
      phaseNoted, htop]; rfl⟩
  | registered htable htarget hassembly =>
    exact run_of_memberRef ctx htop hstate (hmember htable) (findTarget_of_isAt htarget) hdepth
      (Domain.resolve_of_assembly? (Domain.registered_iff.mp hassembly))
  | joined htable htarget hfree hloader hpending =>
    exact run_of_memberRef ctx htop hstate (hmember htable) (findTarget_of_isAt htarget) hdepth
      (Domain.resolve_of_pending (Domain.assembly?_of_free hfree) hloader hpending)
  | requested htable htarget hfree hloader hpending =>
    obtain ⟨events, hresolve⟩ :=
      Domain.resolve_free hloader (Domain.assembly?_of_free hfree) hpending
    exact run_of_memberRef ctx htop hstate (hmember htable) (findTarget_of_isAt htarget) hdepth
      hresolve

end Phase

theorem Resolved.stackBase_eq {ctx : Context κ} {t : Thread κ} {d d' : Domain} {f g : Frame κ}
    (h : Resolved ctx t d f g d') : g.stackBase = t.operands.length := by
  cases h <;> rfl

theorem Resolved.pool_eq {ctx : Context κ} {t : Thread κ} {d d' : Domain} {f g : Frame κ}
    (h : Resolved ctx t d f g d') : d'.pool = d.pool := by
  cases h <;> rfl

/-- A frame is resolved if and only if all conditions hold, and is refused with an error if
and only if this error is the one of the first condition that fails. A refusal leaves the
thread and the domain alone, so no load was requested. A success makes the frame the one
that its token leads to; the other frames, the operand stack and the pool stay. -/
theorem resolve_exact (ctx : Context κ) {m : Machine κ} {f : Frame κ} {rest : List (Frame κ)}
    (htop : m.thread.frames = f :: rest) (hstate : f.state = .resolve) :
    let result := outcome (run ctx) m
    let m' := after (run ctx) m
    (result = .ok .continue ↔ Resolvable ctx m.thread m.domain f) ∧
      (∀ e, result = .error e ↔ Refused ctx m.thread m.domain f e) ∧
      result ≠ .ok .yield ∧
      (∀ e, result = .error e → m' = phaseNoted m f) ∧
      (result = .ok .continue → ∃ g, Resolved ctx m.thread m.domain f g m'.domain ∧
        m'.thread = { m.thread with frames := g :: rest } ∧
        g.stackBase = m.thread.operands.length ∧ m'.domain.pool = m.domain.pool) := by
  intro result m'
  have hrefused {e : Fault} (h : Refused ctx m.thread m.domain f e) : result = .error e :=
    outcome_of_error (run_of_refused ctx htop hstate h)
  by_cases hall : Resolvable ctx m.thread m.domain f
  · obtain ⟨g, d, hresolved⟩ := resolved_of_resolvable hall
    obtain ⟨log, hrun⟩ := run_of_resolved ctx htop hstate hall.1 hresolved
    have hok : result = .ok .continue := outcome_of_ok hrun
    have hafter : m' = _ := after_of_ok hrun
    refine ⟨iff_of_true hok hall, ?_, by simp [hok], by simp [hok], ?_⟩
    · intro e
      exact ⟨fun herror => by simp [hok] at herror, hrefused⟩
    · intro _
      rw [hafter]
      exact ⟨g, hresolved, rfl, hresolved.stackBase_eq, hresolved.pool_eq⟩
  · obtain ⟨e, he⟩ := refused_of_not_resolvable hall
    have herror : result = .error e := hrefused he
    refine ⟨iff_of_false (by simp [herror]) hall, ?_, by simp [herror], ?_, by simp [herror]⟩
    · intro e'
      refine ⟨fun herror' => ?_, hrefused⟩
      obtain rfl : e = e' := Except.error.inj (herror.symm.trans herror')
      exact he
    · intro _ _
      exact after_of_error (run_of_refused ctx htop hstate he)

end Transition

namespace Interpreter

/-- An assembly that refers to a member of a type far beyond its tables. -/
def strayAssembly : Assembly Empty :=
  (AssemblyBuilder.new "App" |>.memberRef ⟨.typeRef, 2 ^ 32 - 1⟩ "poll" [0x00, 0x00, 0x01]).build

def strayContext : Context Empty := plainContext [strayAssembly] {} SignatureDecoder.standard

end Interpreter

open Interpreter

/-- The reference is to an assembly registered under a name in capitals; the stray one is
to a row that no token has room for. -/
theorem Transition.resolve_exact_of_callers :
    let d := Domain.empty 64 none
    let m : Machine Empty := ⟨libraryCaller 1, d.register "LIB" 2, Log.empty .error⟩
    let stray : Machine Empty := ⟨libraryCaller 1, d, Log.empty .error⟩
    outcome (run namesakes) m = .ok .continue ∧
      (after (run namesakes) m).thread.executing? = some 2 ∧
      outcome (run strayContext) stray = .error (.missingRow ⟨0x01FFFFFF⟩) ∧
      after (run strayContext) stray = stray := by
  intro d m stray
  have htable : smallMember.table = TableId.memberRef.tag := by decide +kernel
  have hrow : smallMember.row = 1 := by decide +kernel
  let f : Frame Empty := { id := 1, calling := 0, method := smallMember }
  have htop (m : Machine Empty) (hthread : m.thread = libraryCaller 1) :
      m.thread.frames = f :: [] := by
    rw [hthread]
    rfl
  have hdepth (ctx : Context Empty) (hctx : ctx.config.maxCallDepth = 1024) : ctx.Allows 1 :=
    Or.inr (by omega)
  obtain ⟨hiff, -⟩ := resolve_exact namesakes (htop m rfl) rfl
  obtain ⟨-, hrefused, -, hsame, -⟩ := resolve_exact strayContext (htop stray rfl) rfl
  have hregistered : (d.register "LIB" 2).Registered "Lib" 2 := by
    refine ⟨"LIB", fold_lib.symm, ?_⟩
    rw [Domain.assembly?_register, if_pos rfl]
  have htarget : Target.IsAt
      ⟨⟨1, ⟨.typeRef, 1⟩, "poll", [0x00, 0x00, 0x01]⟩, ⟨1, ⟨.assemblyRef, 1⟩, "Lib", "Host"⟩,
        ⟨1, "Lib"⟩⟩ smallAssembly.tables smallMember.row := by
    rw [hrow]
    exact ⟨⟨by decide, rfl⟩, rfl, ⟨by decide, rfl⟩, rfl, ⟨by decide, rfl⟩⟩
  have hresolvable : Resolvable namesakes m.thread m.domain f :=
    ⟨hdepth _ rfl, Or.inr ⟨htable, _, htarget, Or.inl ⟨2, hregistered⟩⟩⟩
  have hstray : Refused strayContext stray.thread stray.domain f (.missingRow ⟨0x01FFFFFF⟩) := by
    refine .astray (hdepth _ rfl) htable ?_
    have hmember : IsRow strayAssembly.tables.memberRefs f.method.row
        ⟨1, ⟨.typeRef, 2 ^ 32 - 1⟩, "poll", [0x00, 0x00, 0x01]⟩ := by
      rw [hrow]
      exact ⟨by decide, rfl⟩
    exact .noType hmember rfl (Or.inr (by decide))
  have hok := hiff.mpr hresolvable
  have herror := (hrefused _).mpr hstray
  refine ⟨hok, ?_, herror, ?_⟩
  · obtain ⟨log, hrun⟩ := run_of_resolved namesakes (htop m rfl) rfl (hdepth _ rfl)
      (.registered htable htarget hregistered)
    rw [after_of_ok hrun]
    rfl
  · exact hsame _ herror

end ManagedCalls
