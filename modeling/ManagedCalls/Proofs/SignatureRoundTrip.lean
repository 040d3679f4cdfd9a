import ManagedCalls.Proofs.ReadingBack

/-!
Signatures come back from their blobs. By induction over a signature, each of its
parts is read back by the decoder of the part; the types that count are those the
signature has. So a whole signature is read back, and nothing behind it, if it
has fewer types than the budget, and is refused otherwise.
-/

namespace ManagedCalls

open Stateful

namespace TypeSig

theorem encode_eq_cons (t : TypeSig) : t.encode = t.code :: t.encode.tail := by
  cases t <;> rfl

theorem isModifier_code (t : TypeSig) : ElementCode.isModifier t.code = false := by
  cases t <;> rfl

theorem code_beq_sentinel (t : TypeSig) : (t.code == ElementCode.sentinel) = false := by
  cases t <;> rfl

theorem code_beq_byRef (t : TypeSig) : (t.code == ElementCode.byRef) = t.isByRef := by
  cases t <;> rfl

theorem code_beq_pinned (t : TypeSig) : (t.code == ElementCode.pinned) = t.isPinned := by
  cases t <;> rfl

theorem code_eq_typedByRef {t : TypeSig} (h : t.code = ElementCode.typedByRef) :
    t = .typedByRef := by
  cases t <;> first | rfl | cases h

theorem code_of_isNamed {t : TypeSig} (h : t.isNamed = true) :
    (t.code == ElementCode.classType || t.code == ElementCode.valueType) = true := by
  cases t <;> first | rfl | cases h

theorem encodeAll_eq (ts : List TypeSig) : encodeAll ts = ts.flatMap encode := by
  induction ts with
  | nil => rfl
  | cons t ts ih => rw [encodeAll, ih, List.flatMap_cons]

theorem typeCountAll_eq (ts : List TypeSig) : typeCountAll ts = (ts.map typeCount).sum := by
  induction ts with
  | nil => rfl
  | cons t ts ih => rw [typeCountAll, ih, List.map_cons, List.sum_cons]

end TypeSig

namespace Param

theorem encodeAll_eq (ps : List Param) : encodeAll ps = ps.flatMap encode := by
  induction ps with
  | nil => rfl
  | cons p ps ih => rw [encodeAll, ih, List.flatMap_cons]

theorem typeCountAll_eq (ps : List Param) : typeCountAll ps = (ps.map typeCount).sum := by
  induction ps with
  | nil => rfl
  | cons p ps ih => rw [typeCountAll, ih, List.map_cons, List.sum_cons]

/-- No parameter begins like a sentinel. -/
theorem encode_eq_cons (p : Param) :
    ∃ first tail, p.encode = first :: tail ∧ first ≠ ElementCode.sentinel := by
  obtain ⟨mods, isByRef, t⟩ := p
  cases mods with
  | cons token mods => exact ⟨_, _, rfl, by decide⟩
  | nil =>
    cases isByRef with
    | true => exact ⟨_, _, rfl, by decide⟩
    | false =>
      have hne : t.code ≠ ElementCode.sentinel := beq_eq_false_iff_ne.mp t.code_beq_sentinel
      exact ⟨t.code, t.encode.tail, t.encode_eq_cons, hne⟩

end Param

namespace MethodSig

/-- The bits of the first byte, each read back from it. -/
theorem convention_bits (m : MethodSig) :
    (m.convention &&& 0x20 != 0) = m.hasThis ∧ (m.convention &&& 0x40 != 0) = m.explicitThis ∧
      (m.convention &&& 0x0F == 0x05) = m.vararg ∧
      (m.convention &&& 0x10 != 0) = decide (m.genericCount ≠ 0) := by
  have hbits : ∀ vararg generic hasThis explicitThis : Bool,
      let convention : UInt8 :=
        (if vararg then 0x05 else 0x00) ||| (if generic then 0x10 else 0x00) |||
          (if hasThis then 0x20 else 0x00) ||| (if explicitThis then 0x40 else 0x00)
      (convention &&& 0x20 != 0) = hasThis ∧ (convention &&& 0x40 != 0) = explicitThis ∧
        (convention &&& 0x0F == 0x05) = vararg ∧ (convention &&& 0x10 != 0) = generic := by
    decide
  by_cases hzero : m.genericCount = 0
  · simpa [convention, hzero] using hbits m.vararg false m.hasThis m.explicitThis
  · simpa [convention, hzero] using hbits m.vararg true m.hasThis m.explicitThis

end MethodSig

namespace Decode

namespace Reads

variable {α : Type} {bs : Bytes} {n : Nat}

/-- A type is counted, and its element code says how to go on. -/
theorem type {code : UInt8} {t : TypeSig} (h : Reads (typeOf type code) bs n t) :
    Reads type (code :: bs) (1 + n) t := by
  intro position rest count hcount
  rw [type_eq hcount]
  by_cases hlast : typeLimit ≤ count + 1
  · rw [if_neg (by omega)]
    exact ⟨_, by rw [typeWith, bind_apply, countType_of_le hlast]⟩
  · have hbody := (byte code).bind h position rest (count + 1) (Nat.not_le.mp hlast)
    rw [typeWith, bind_apply, countType_of_lt (Nat.not_le.mp hlast)]
    simpa [Nat.add_assoc] using hbody

theorem simple {t : TypeSig} (h : simpleType? t.code = some t) :
    Reads Decode.type [t.code] 1 t := by
  have hbody : Reads (typeOf Decode.type t.code) [] 0 t := by
    rw [typeOf, h]
    exact pure t
  exact type hbody

/-- A type whose code stands in front of what `x` reads. -/
theorem of_code {code : UInt8} {x : Decode α} {wrap : α → TypeSig} {a : α}
    (hcode : typeOf Decode.type code = do return wrap (← x)) (h : Reads x bs n a) :
    Reads Decode.type (code :: bs) (1 + n) (wrap a) :=
  type (hcode ▸ h.map wrap)

/-- A type whose code stands in front of another type, where modifiers may stand
between the two. -/
theorem of_code_unmodified {code : UInt8} {wrap : TypeSig → TypeSig} {t : TypeSig}
    (hcode : typeOf Decode.type code = do let _ ← Decode.modifiers; return wrap (← Decode.type))
    (h : Reads Decode.type t.encode t.typeCount t) :
    Reads Decode.type (code :: t.encode) (1 + t.typeCount) (wrap t) := by
  refine type (hcode ▸ ?_)
  have hwrap := h.map wrap
  have hnone : ∀ token ∈ ([] : List Token), token.typeTable?.isSome := by simp
  rw [t.encode_eq_cons] at hwrap ⊢
  exact modifiers hnone t.isModifier_code hwrap

theorem param {p : Param} (hp : p.isEncodable = true)
    (ht : Reads Decode.type p.type.encode p.type.typeCount p.type) :
    Reads (param Decode.type) p.encode p.typeCount p := by
  obtain ⟨mods, isByRef, t⟩ := p
  simp only [Param.isEncodable, Bool.and_eq_true, List.all_eq_true] at hp
  obtain ⟨⟨hmods, hflag⟩, -⟩ := hp
  have hbody := ht.map fun t => (⟨mods, isByRef, t⟩ : Param)
  unfold Decode.param
  cases isByRef with
  | true =>
    have hbytes : Param.encode ⟨mods, true, t⟩ =
        Token.encodeModifiers mods ++ ElementCode.byRef :: t.encode := by
      simp [Param.encode]
    rw [hbytes]
    exact modifiers hmods rfl (accept_self hbody)
  | false =>
    have hbytes : Param.encode ⟨mods, false, t⟩ =
        Token.encodeModifiers mods ++ t.code :: t.encode.tail := by
      rw [← t.encode_eq_cons]
      simp [Param.encode]
    have hcode : t.code ≠ ElementCode.byRef := by
      rw [Bool.or_false, Bool.not_eq_true'] at hflag
      rw [← beq_eq_false_iff_ne, t.code_beq_byRef, hflag]
    rw [hbytes]
    rw [t.encode_eq_cons] at hbody
    exact modifiers hmods t.isModifier_code (accept_other hcode hbody)

/-- Fixed parameters end after the announced number of them, or at a sentinel. -/
theorem fixedParams {ps : List Param}
    (h : ∀ p ∈ ps, Reads (Decode.param Decode.type) p.encode p.typeCount p) {count : Nat}
    (hcount : ps.length ≤ count) :
    Reads (fixedParams Decode.type count)
      (ps.flatMap Param.encode ++ if ps.length = count then [] else [ElementCode.sentinel])
      (ps.map Param.typeCount).sum ps := by
  induction ps generalizing count with
  | nil =>
    cases count with
    | zero => exact pure []
    | succ count => exact accept_self (pure [])
  | cons p ps ih =>
    cases count with
    | zero => simp at hcount
    | succ count =>
      obtain ⟨hp, hps⟩ := List.forall_mem_cons.mp h
      have hrest := ih hps (Nat.le_of_succ_le_succ hcount)
      obtain ⟨first, tail, hfirst, hne⟩ := p.encode_eq_cons
      rw [hfirst] at hp
      have hread := hp.bind (f := fun p => do return p :: (← Decode.fixedParams Decode.type count))
        (hrest.map (p :: ·))
      have hbytes : (p :: ps).flatMap Param.encode ++
          (if (p :: ps).length = count + 1 then [] else [ElementCode.sentinel]) =
            first :: (tail ++ (ps.flatMap Param.encode ++
              if ps.length = count then [] else [ElementCode.sentinel])) := by
        simp [hfirst]
      rw [hbytes]
      exact accept_other hne hread

theorem genericCount {m : MethodSig} (h : m.genericCount < 2 ^ 29) :
    Reads (genericCount m.convention)
      (if m.genericCount = 0 then [] else encodeUInt m.genericCount) 0 m.genericCount := by
  unfold Decode.genericCount
  rw [m.convention_bits.2.2.2]
  by_cases hzero : m.genericCount = 0
  · simpa [hzero] using pure 0
  · simpa [hzero] using uint h

theorem method {m : MethodSig} (hm : m.isEncodable = true)
    (hreturn : Reads (Decode.param Decode.type) m.returnType.encode m.returnType.typeCount
      m.returnType)
    (hparams : ∀ p ∈ m.params, Reads (Decode.param Decode.type) p.encode p.typeCount p)
    (hvarargs : ∀ p ∈ m.varargs, Reads (Decode.param Decode.type) p.encode p.typeCount p) :
    Reads methodSig m.encode m.typeCount m := by
  obtain ⟨hasThis, explicitThis, vararg, generics, paramCount, returnType, params, varargs⟩ := m
  simp only [MethodSig.isEncodable, Bool.and_eq_true, decide_eq_true_eq] at hm
  obtain ⟨⟨⟨⟨⟨⟨hgenerics, hcount⟩, hlength⟩, hvararg⟩, -⟩, -⟩, -⟩ := hm
  have hfixed := fixedParams hparams (show params.length ≤ paramCount by omega)
  have hvariable : Reads (variableParams Decode.type vararg (paramCount - params.length))
      (varargs.flatMap Param.encode) (varargs.map Param.typeCount).sum varargs := by
    have hmissing : paramCount - params.length = varargs.length := by omega
    rw [hmissing]
    cases vararg with
    | true => exact replicate hvarargs
    | false =>
      obtain rfl : varargs = [] := by simpa using hvararg
      exact pure []
  let m : MethodSig :=
    ⟨hasThis, explicitThis, vararg, generics, paramCount, returnType, params, varargs⟩
  obtain ⟨hthis, hexplicit, hconvention, -⟩ := m.convention_bits
  have hlast : Reads
      (do
        let varargs ← variableParams Decode.type (m.convention &&& 0x0F == 0x05)
          (paramCount - params.length)
        Pure.pure (⟨m.convention &&& 0x20 != 0, m.convention &&& 0x40 != 0,
          m.convention &&& 0x0F == 0x05, generics, paramCount, returnType, params, varargs⟩ :
            MethodSig))
      (varargs.flatMap Param.encode) (varargs.map Param.typeCount).sum m := by
    rw [hthis, hexplicit, hconvention]
    exact hvariable.map fun varargs => { m with varargs }
  have hsentinel : params.length = paramCount ↔ varargs.isEmpty = true := by
    rw [List.isEmpty_iff_length_eq_zero]
    omega
  refine congr ((byte m.convention).bind ((genericCount (m := m) hgenerics).bind
    ((uint hcount).bind (hreturn.bind (hfixed.bind hlast))))) ?_ ?_
  · simp [MethodSig.encode, Param.encodeAll_eq, hsentinel, m]
  · simp [MethodSig.typeCount, Param.typeCountAll_eq, Nat.add_assoc]

/-- A generic instance: the type it is made of, and its arguments. -/
theorem genericInst {g : TypeSig} {args : List TypeSig} (hnamed : g.isNamed = true)
    (hcount : args.length < 2 ^ 29) (hg : Reads Decode.type g.encode g.typeCount g)
    (hargs : ∀ t ∈ args, Reads Decode.type t.encode t.typeCount t) :
    Reads Decode.type (TypeSig.encode (.genericInst g args))
      (TypeSig.typeCount (.genericInst g args)) (.genericInst g args) := by
  have hbase := g.code_of_isNamed hnamed
  have harguments : Reads
      (do return TypeSig.genericInst g (← Decode.replicate Decode.type args.length))
      (args.flatMap TypeSig.encode) (args.map TypeSig.typeCount).sum (TypeSig.genericInst g args) :=
    (replicate hargs).map (TypeSig.genericInst g)
  rw [g.encode_eq_cons] at hg
  have hbody : Reads (typeOf Decode.type ElementCode.genericInst)
      (g.encode ++ (encodeUInt args.length ++ args.flatMap TypeSig.encode))
      (g.typeCount + (0 + (args.map TypeSig.typeCount).sum)) (.genericInst g args) := by
    rw [g.encode_eq_cons]
    refine @peek _ _ _ _ _ g.code ?_
    rw [if_pos hbase]
    exact hg.bind ((uint hcount).bind harguments)
  refine (type hbody).congr ?_ ?_
  · simp [TypeSig.encode, TypeSig.encodeAll_eq]
  · simp [TypeSig.typeCount, TypeSig.typeCountAll_eq, Nat.add_assoc]

/-- An empty list of array bounds. -/
theorem noBounds {x : Decode α} {a : α} (h : Reads x bs n a) :
    Reads
      (do
        let bounds ← Decode.lift Read.compressedUInt
        discard (Decode.lift Read.compressedUInt) bounds
        x)
      (encodeUInt 0 ++ bs) n a := by
  have hnone := (pure ()).bind (f := fun _ => x) h
  have hread := (uint (show 0 < 2 ^ 29 by decide)).bind (f := fun bounds => do
    discard (Decode.lift Read.compressedUInt) bounds
    x) hnone
  exact hread.congr rfl (by omega)

theorem array {t : TypeSig} {rank : Nat} (hrank : rank < 2 ^ 29)
    (ht : Reads Decode.type t.encode t.typeCount t) :
    Reads Decode.type (TypeSig.encode (.array t rank)) (TypeSig.typeCount (.array t rank))
      (.array t rank) := by
  have hbounds := noBounds (noBounds (pure (TypeSig.array t rank)))
  have hbody : Reads (typeOf Decode.type ElementCode.array)
      (t.encode ++ (encodeUInt rank ++ (encodeUInt 0 ++ (encodeUInt 0 ++ []))))
      (t.typeCount + (0 + 0)) (.array t rank) :=
    ht.bind ((uint hrank).bind hbounds)
  refine (type hbody).congr ?_ ?_
  · simp [TypeSig.encode]
  · simp [TypeSig.typeCount]

end Reads

end Decode

open Decode (Reads)

mutual

theorem TypeSig.reads : ∀ t : TypeSig, t.isEncodable = true →
    Reads Decode.type t.encode t.typeCount t
  | .unknown, h => by cases h
  | .void, _ | .boolean, _ | .char, _ | .i1, _ | .u1, _ | .i2, _ | .u2, _ | .i4, _ | .u4, _
  | .i8, _ | .u8, _ | .r4, _ | .r8, _ | .nativeInt, _ | .nativeUInt, _ | .string, _
  | .object, _ | .typedByRef, _ => Reads.simple rfl
  | .pointer t, h => Reads.of_code_unmodified rfl (TypeSig.reads t h)
  | .vector t, h => Reads.of_code_unmodified rfl (TypeSig.reads t h)
  | .byRef t, h => Reads.of_code rfl (TypeSig.reads t h)
  | .pinned t, h => Reads.of_code rfl (TypeSig.reads t h)
  | .valueType _, h => Reads.of_code rfl (Reads.token h)
  | .classType _, h => Reads.of_code rfl (Reads.token h)
  | .typeParameter _, h => Reads.of_code rfl (Reads.uint (of_decide_eq_true h))
  | .methodParameter _, h => Reads.of_code rfl (Reads.uint (of_decide_eq_true h))
  | .array t rank, h => by
    rw [TypeSig.isEncodable, Bool.and_eq_true, decide_eq_true_eq] at h
    exact Reads.array h.2 (TypeSig.reads t h.1)
  | .genericInst g args, h => by
    simp only [TypeSig.isEncodable, Bool.and_eq_true, decide_eq_true_eq] at h
    obtain ⟨⟨⟨hnamed, hg⟩, hcount⟩, hargs⟩ := h
    exact Reads.genericInst hnamed hcount (TypeSig.reads g hg) (TypeSig.reads_each args hargs)
  | .functionPointer m, h => Reads.of_code rfl (MethodSig.reads m h)

theorem TypeSig.reads_each : ∀ ts : List TypeSig, TypeSig.allEncodable ts = true →
    ∀ t ∈ ts, Reads Decode.type t.encode t.typeCount t
  | [], _ => by simp
  | t :: ts, h => by
    rw [TypeSig.allEncodable, Bool.and_eq_true] at h
    exact List.forall_mem_cons.mpr ⟨TypeSig.reads t h.1, TypeSig.reads_each ts h.2⟩

theorem Param.reads : ∀ p : Param, p.isEncodable = true →
    Reads (Decode.param Decode.type) p.encode p.typeCount p
  | ⟨modifiers, isByRef, type⟩, h => by
    have htype := h
    rw [Param.isEncodable, Bool.and_eq_true] at htype
    exact Reads.param h (TypeSig.reads type htype.2)

theorem Param.reads_each : ∀ ps : List Param, Param.allEncodable ps = true →
    ∀ p ∈ ps, Reads (Decode.param Decode.type) p.encode p.typeCount p
  | [], _ => by simp
  | p :: ps, h => by
    rw [Param.allEncodable, Bool.and_eq_true] at h
    exact List.forall_mem_cons.mpr ⟨Param.reads p h.1, Param.reads_each ps h.2⟩

theorem MethodSig.reads : ∀ m : MethodSig, m.isEncodable = true →
    Reads Decode.methodSig m.encode m.typeCount m
  | ⟨hasThis, explicitThis, vararg, genericCount, paramCount, returnType, params, varargs⟩, h => by
    have hparts := h
    simp only [MethodSig.isEncodable, Bool.and_eq_true] at hparts
    obtain ⟨⟨⟨-, hreturn⟩, hparams⟩, hvarargs⟩ := hparts
    exact Reads.method h (Param.reads returnType hreturn) (Param.reads_each params hparams)
      (Param.reads_each varargs hvarargs)

end

namespace LocalVar

/-- Only a plain typed reference begins like one. -/
theorem encode_eq_cons {l : LocalVar} (h : l.isPlainTypedRef = false) :
    ∃ first tail, l.encode = first :: tail ∧ first ≠ ElementCode.typedByRef := by
  obtain ⟨mods, isByRef, isPinned, t⟩ := l
  cases mods with
  | cons token mods => exact ⟨_, _, rfl, by decide⟩
  | nil =>
    cases isPinned with
    | true => exact ⟨_, _, rfl, by decide⟩
    | false =>
      cases isByRef with
      | true => exact ⟨_, _, rfl, by decide⟩
      | false =>
        refine ⟨t.code, t.encode.tail, t.encode_eq_cons, ?_⟩
        intro hcode
        obtain rfl := TypeSig.code_eq_typedByRef hcode
        cases h

/-- What follows modifiers and pin: a by-ref and the type. -/
theorem reads_type {l : LocalVar} (h : l.isEncodable = true) :
    ∃ next tail, (if l.isByRef then [ElementCode.byRef] else []) ++ l.type.encode = next :: tail ∧
      ElementCode.isModifier next = false ∧ next ≠ ElementCode.pinned ∧
      Reads (Decode.localType Decode.type l.modifiers l.isPinned) (next :: tail)
        l.type.typeCount l := by
  obtain ⟨mods, isByRef, isPinned, t⟩ := l
  simp only [isEncodable, Bool.and_eq_true] at h
  obtain ⟨⟨-, hflag⟩, ht⟩ := h
  have hbody := (TypeSig.reads t ht).map fun t => (⟨mods, isByRef, isPinned, t⟩ : LocalVar)
  cases isByRef with
  | true => exact ⟨_, _, rfl, rfl, by decide, Reads.accept_self hbody⟩
  | false =>
    simp only [Bool.or_false, Bool.not_eq_true', Bool.or_eq_false_iff] at hflag
    have hbyRef : t.code ≠ ElementCode.byRef := by
      rw [← beq_eq_false_iff_ne, t.code_beq_byRef, hflag.1]
    have hpinned : t.code ≠ ElementCode.pinned := by
      rw [← beq_eq_false_iff_ne, t.code_beq_pinned, hflag.2]
    rw [t.encode_eq_cons] at hbody
    exact ⟨_, _, t.encode_eq_cons, t.isModifier_code, hpinned, Reads.accept_other hbyRef hbody⟩

theorem reads {l : LocalVar} (h : l.isEncodable = true) :
    Reads (Decode.localVar Decode.type) l.encode l.typeCount l := by
  cases hplain : l.isPlainTypedRef with
  | true =>
    obtain ⟨mods, isByRef, isPinned, t⟩ := l
    simp only [isPlainTypedRef, Bool.and_eq_true, List.isEmpty_iff, Bool.not_eq_true'] at hplain
    obtain ⟨⟨⟨rfl, rfl⟩, rfl⟩, ht⟩ := hplain
    split at ht
    · exact Reads.accept_self (Reads.pure _)
    · cases ht
  | false =>
    have hmods : ∀ token ∈ l.modifiers, token.typeTable?.isSome := by
      simp only [isEncodable, Bool.and_eq_true, List.all_eq_true] at h
      exact h.1.1
    obtain ⟨next, tail, hnext, hmodifier, hpinned, htype⟩ := reads_type h
    have hread := Reads.constraints (f := fun found => Decode.localType Decode.type found.1 found.2)
      hmods l.isPinned hmodifier hpinned htype
    rw [← hnext, ← List.append_assoc] at hread
    obtain ⟨first, rest, hfirst, hne⟩ := encode_eq_cons hplain
    have hcount : l.typeCount = l.type.typeCount := by rw [typeCount, hplain]; rfl
    rw [hcount, hfirst]
    rw [← encode, hfirst] at hread
    exact Reads.accept_other hne hread

end LocalVar

theorem LocalsSig.reads {ls : LocalsSig} (h : ls.isEncodable = true) :
    Reads Decode.localsSig ls.encode ls.typeCount ls := by
  simp only [LocalsSig.isEncodable, Bool.and_eq_true, decide_eq_true_eq, List.all_eq_true] at h
  have hlocals := Reads.replicate fun l hl => LocalVar.reads (h.2 l hl)
  have hbody := (Reads.uint h.1).bind hlocals
  have hread : Reads Decode.localsSig _ _ ls := (Reads.byte 0x07).bind hbody
  exact hread.congr rfl (by rw [Nat.zero_add, Nat.zero_add, LocalsSig.typeCount])

namespace Decode

/-- What a fresh decoder makes of bytes that it reads. -/
theorem Reads.fresh {α : Type} {x : Decode α} {bs : Bytes} {n : Nat} {a : α}
    (h : Reads x bs n a) (rest : Bytes) :
    if n ≤ 49 then
      x (Decoder.ofBytes (bs ++ rest)) = .ok a ⟨⟨bs.length, rest⟩, n⟩
    else
      ∃ d, x (Decoder.ofBytes (bs ++ rest)) = .error (.recursionLimit 50) d := by
  have hread := h 0 rest 0 (by decide)
  by_cases hn : n ≤ 49
  · rw [if_pos hn]
    rw [if_pos (show 0 + n < typeLimit by unfold typeLimit; omega)] at hread
    rw [Nat.zero_add, Nat.zero_add] at hread
    exact hread
  · rw [if_neg hn]
    rw [if_neg (show ¬ 0 + n < typeLimit by unfold typeLimit; omega)] at hread
    exact hread

/-- Whatever follows the bytes of a signature, a fresh decoder gives the signature
back and has read just its bytes, if it has at most 49 types; otherwise the
decoder refuses the fiftieth. -/
theorem signatures_read_back (rest : Bytes) :
    (∀ m : MethodSig, m.isEncodable = true →
      if m.typeCount ≤ 49 then
        methodSig (Decoder.ofBytes (m.encode ++ rest)) =
          .ok m ⟨⟨m.encode.length, rest⟩, m.typeCount⟩
      else
        ∃ d, methodSig (Decoder.ofBytes (m.encode ++ rest)) = .error (.recursionLimit 50) d) ∧
    ∀ ls : LocalsSig, ls.isEncodable = true →
      if ls.typeCount ≤ 49 then
        localsSig (Decoder.ofBytes (ls.encode ++ rest)) =
          .ok ls ⟨⟨ls.encode.length, rest⟩, ls.typeCount⟩
      else
        ∃ d, localsSig (Decoder.ofBytes (ls.encode ++ rest)) = .error (.recursionLimit 50) d := by
  constructor
  · intro m hm
    exact (MethodSig.reads m hm).fresh rest
  · intro ls hls
    exact (LocalsSig.reads hls).fresh rest

/-- A pointer to a function that takes a number by reference. -/
def callback : TypeSig :=
  .functionPointer
    ⟨true, false, false, 0, 1, ⟨[], false, .void⟩, [⟨[], true, .i4⟩], []⟩

/-- A generic vararg method with arrays of callback lists. -/
def nestedMethod : MethodSig :=
  ⟨true, false, true, 300, 2, ⟨[Token.ofParts 0x01 1], false, .methodParameter 2⟩,
    [⟨[], false, .array (.genericInst (.classType (Token.ofParts 0x1B 70000)) [callback]) 2⟩],
    [⟨[], true, .byRef (.vector .string)⟩]⟩

/-- A typed reference, which does not count, a pinned reference to a pin, and
numbers up to the fiftieth type. -/
def manyLocals : LocalsSig :=
  ⟨[], false, false, .typedByRef⟩ :: ⟨[], true, true, .pinned .u1⟩ ::
    List.replicate 48 ⟨[], false, false, .i4⟩

theorem signatures_read_back_of_nested :
    nestedMethod.isEncodable = true ∧
      methodSig (Decoder.ofBytes (nestedMethod.encode ++ [0xFF])) =
        .ok nestedMethod ⟨⟨30, [0xFF]⟩, 10⟩ ∧
      manyLocals.isEncodable = true ∧
      ∃ d, localsSig (Decoder.ofBytes (manyLocals.encode ++ [])) =
        .error (.recursionLimit 50) d := by
  have hm : nestedMethod.isEncodable = true := by decide
  have hls : manyLocals.isEncodable = true := by decide
  have hread := (signatures_read_back [0xFF]).1 nestedMethod hm
  have hrefused := (signatures_read_back []).2 manyLocals hls
  rw [if_pos (by decide)] at hread
  rw [if_neg (by decide)] at hrefused
  exact ⟨hm, hread, hls, hrefused⟩

end Decode

end ManagedCalls
