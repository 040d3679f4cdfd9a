import ManagedCalls.Proofs.SignatureForms

/-!
How many parameters a signature has. Decoding a method signature reads as many parameters
as are announced, unless a sentinel ends them; behind a sentinel the vararg convention
goes on reading, and every other convention stops at once. So arguments line up with
parameters for every count that a blob announces. All this is so for the signatures of
function pointers as well, at any depth.
-/

namespace ManagedCalls

open Stateful

/-- Some of the bytes, all next to each other, are a form of the signature. -/
def Inside (bs : Bytes) (m : MethodSig) : Prop :=
  ∃ front sig back ns, bs = front ++ (sig ++ back) ∧ Form sig (.method m) ns

namespace Inside

variable {bs : Bytes} {m : MethodSig}

theorem append_left (h : Inside bs m) (more : Bytes) : Inside (more ++ bs) m := by
  obtain ⟨front, sig, back, ns, rfl, hform⟩ := h
  exact ⟨more ++ front, sig, back, ns, by rw [List.append_assoc], hform⟩

theorem append_right (h : Inside bs m) (more : Bytes) : Inside (bs ++ more) m := by
  obtain ⟨front, sig, back, ns, rfl, hform⟩ := h
  exact ⟨front, sig, back ++ more, ns, by simp only [List.append_assoc], hform⟩

theorem cons (h : Inside bs m) (b : UInt8) : Inside (b :: bs) m := h.append_left [b]

end Inside

theorem not_signature_mem_tokens {m : MethodSig} {ts : List Token} :
    SigPart.signature m ∉ ts.map SigPart.token := by
  simp

/-- The signature of a function pointer stands in one piece in the bytes around it. -/
theorem Form.inside {bs : Bytes} {p : Piece} {ns : List Nat} (h : Form bs p ns) {m : MethodSig}
    (hm : .signature m ∈ p.parts) : Inside bs m := by
  induction h with
  | noFront => cases hm
  | modifier hcode htoken hrest ih => exact absurd hm not_signature_mem_tokens
  | pin hrest ih => exact absurd hm not_signature_mem_tokens
  | simple hcode =>
    have hnone : (Piece.type _).parts = [] := TypeSig.parts_of_simpleType? hcode
    rw [hnone] at hm
    cases hm
  | pointer hfront ht _ ih => exact ((ih hm).append_left _).cons _
  | vector hfront ht _ ih => exact ((ih hm).append_left _).cons _
  | byRef ht ih => exact (ih hm).cons _
  | pinned ht ih => exact (ih hm).cons _
  | valueType htoken => simp [Piece.parts, TypeSig.parts] at hm
  | classType htoken => simp [Piece.parts, TypeSig.parts] at hm
  | typeParameter hn => cases hm
  | methodParameter hn => cases hm
  | array ht hshape ih => exact ((ih hm).append_right _).cons _
  | genericInst hg hcount hargs ihg ihargs =>
    rcases List.mem_append.mp hm with hm | hm
    · exact ((ihg hm).append_right _).cons _
    · exact (((ihargs hm).append_left _).append_left _).cons _
  | functionPointer hmethod ih => exact (ih hm).cons _
  | noType => cases hm
  | types ht hts iht ihts =>
    rcases List.mem_append.mp hm with hm | hm
    · exact (iht hm).append_right _
    · exact (ihts hm).append_left _
  | param hfront ht ihfront iht =>
    rcases List.mem_append.mp hm with hm | hm
    · exact absurd hm not_signature_mem_tokens
    · exact ((iht hm).append_left _).append_left _
  | noParam => cases hm
  | params hp hps ihp ihps =>
    rcases List.mem_append.mp hm with hm | hm
    · exact (ihp hm).append_right _
    · exact (ihps hm).append_left _
  | @method convention generic count bs fixed sentinel extra m' ns ns₁ ns₂ hconvention hgeneric
      hcount hreturn hfixed hsentinel hextra hvarargs hdecoded ihreturn ihfixed ihextra =>
    rw [Piece.parts, MethodSig.parts_eq, List.mem_cons, List.mem_append, List.mem_append] at hm
    rcases hm with hself | hm | hm | hm
    · obtain rfl := SigPart.signature.inj hself
      exact ⟨[], _, [], _, (List.append_nil _).symm, .method hconvention hgeneric hcount hreturn
        hfixed hsentinel hextra hvarargs hdecoded⟩
    · exact ((((ihreturn hm).append_right _).append_left _).append_left _).cons _
    · exact (((((ihfixed hm).append_right _).append_left _).append_left _).append_left _).cons _
    · exact ((((((ihextra hm).append_left _).append_left _).append_left _).append_left
        _).append_left _).cons _
  | typedRef => cases hm
  | localVar hfront ht ihfront iht =>
    rcases List.mem_append.mp hm with hm | hm
    · exact absurd hm not_signature_mem_tokens
    · exact ((iht hm).append_left _).append_left _
  | noLocal => cases hm
  | localVars hl hls ihl ihls =>
    rcases List.mem_append.mp hm with hm | hm
    · exact (ihl hm).append_right _
    · exact (ihls hm).append_left _
  | locals hcount hls ih => exact ((ih hm).append_left _).cons _

namespace MethodSig

/-- The parameters that a signature has, when its bytes are these, and the arguments that
they belong to. -/
structure HasArity (m : MethodSig) (bs : Bytes) : Prop where
  length_le : m.params.length + m.varargs.length ≤ m.paramCount
  length_eq : m.vararg = true → m.params.length + m.varargs.length = m.paramCount
  varargs_eq_nil : m.vararg = false → m.varargs = []
  /-- Without the vararg convention parameters are missing only where the bytes end with a
  sentinel. -/
  sentinel : m.vararg = false → m.params.length < m.paramCount →
    bs.getLast? = some ElementCode.sentinel
  /-- The receiver comes first, then the parameters in their order. -/
  arguments : (List.range (m.params.length + m.varargs.length)).map
    (fun i => m.argument? (m.hasThis.toNat + i)) = (m.params ++ m.varargs).map some
  receiver : m.hasThis = true → m.argument? 0 = none
  beyond : ∀ i, m.hasThis.toNat + (m.params.length + m.varargs.length) ≤ i → m.argument? i = none
  declared : m.vararg = true →
    ∀ i, (m.argument? i).isSome = true ↔ m.hasThis.toNat ≤ i ∧ i < m.argumentCount

theorem argument?_add (m : MethodSig) (i : Nat) :
    m.argument? (m.hasThis.toNat + i) = (m.params ++ m.varargs)[i]? := by
  unfold argument?
  cases m.hasThis with
  | true =>
    rw [if_pos rfl, Bool.toNat_true, Nat.add_comm]
  | false =>
    rw [if_neg (by decide), Bool.toNat_false, Nat.zero_add]

theorem argument?_receiver {m : MethodSig} (h : m.hasThis = true) : m.argument? 0 = none := by
  rw [argument?, if_pos h]

theorem argument?_eq_none_iff (m : MethodSig) (i : Nat) :
    m.argument? i = none ↔
      i < m.hasThis.toNat ∨ m.hasThis.toNat + (m.params.length + m.varargs.length) ≤ i := by
  rcases Nat.lt_or_ge i m.hasThis.toNat with hless | hge
  · have hthis : m.hasThis = true := by
      cases hthis : m.hasThis with
      | true => rfl
      | false => simp [hthis] at hless
    have hzero : i = 0 := by
      rw [hthis, Bool.toNat_true] at hless
      omega
    subst hzero
    exact ⟨fun _ => Or.inl hless, fun _ => argument?_receiver hthis⟩
  · obtain ⟨k, rfl⟩ := Nat.exists_eq_add_of_le hge
    rw [argument?_add, List.getElem?_eq_none_iff, List.length_append]
    omega

theorem map_argument? (m : MethodSig) :
    (List.range (m.params.length + m.varargs.length)).map
      (fun i => m.argument? (m.hasThis.toNat + i)) = (m.params ++ m.varargs).map some := by
  have hall (ps : List Param) : (List.range ps.length).map (fun i => ps[i]?) = ps.map some := by
    apply List.ext_getElem
    · simp
    · intro i hi hi'
      simp
  simp only [argument?_add, ← List.length_append, hall]

theorem argumentCount_eq (m : MethodSig) : m.argumentCount = m.paramCount + m.hasThis.toNat := by
  unfold argumentCount
  cases m.hasThis with
  | true => rfl
  | false => rfl

end MethodSig

theorem Form.hasArity {bs : Bytes} {m : MethodSig} {ns : List Nat} (h : Form bs (.method m) ns) :
    m.HasArity bs := by
  cases h with
  | method hconvention hgeneric hcount hreturn hfixed hsentinel hextra hvarargs hdecoded =>
    have hfixed_le : m.params.length ≤ m.paramCount := by
      cases hsentinel with
      | complete hall => exact Nat.le_of_eq hall
      | missing hless => exact Nat.le_of_lt hless
    have heq (hvararg : m.vararg = true) : m.params.length + m.varargs.length = m.paramCount := by
      rw [if_pos hvararg] at hvarargs
      omega
    have hnone (hplain : m.vararg = false) : m.varargs = [] := by
      rw [if_neg (by rw [hplain]; decide)] at hvarargs
      exact List.length_eq_zero_iff.mp hvarargs
    refine ⟨?_, heq, hnone, fun hplain hless => ?_, m.map_argument?, MethodSig.argument?_receiver,
      fun i hi => (m.argument?_eq_none_iff i).mpr (Or.inr hi), fun hvararg i => ?_⟩
    · cases hvararg : m.vararg with
      | true => exact Nat.le_of_eq (heq hvararg)
      | false => simpa [hnone hvararg] using hfixed_le
    · rw [hnone hplain] at hextra
      cases hextra
      cases hsentinel with
      | complete hall => omega
      | missing _ =>
        rw [List.append_nil, ← List.append_assoc, ← List.append_assoc, ← List.append_assoc,
          ← List.cons_append, List.getLast?_concat]
    · rw [Option.isSome_iff_ne_none, ne_eq, m.argument?_eq_none_iff, m.argumentCount_eq,
        heq hvararg]
      omega

theorem Form.decoded {bs : Bytes} {m : MethodSig} {ns : List Nat} (h : Form bs (.method m) ns) :
    Decoded bs m := by
  cases h with
  | method _ _ _ _ _ _ _ _ hdecoded => exact hdecoded

namespace Decode

/-- Whatever blob a method signature is decoded from, it has the arity that its bytes
show, and so has the signature of every function pointer in it: it is decoded from bytes of
its own inside the blob, which show its arity. -/
theorem signatures_have_arity {blob : Bytes} {m : MethodSig} {d : Decoder}
    (h : methodSig (Decoder.ofBytes blob) = .ok m d) :
    m.HasArity (blob.take d.cursor.position) ∧
      ∀ m' ∈ m.signatures, ∃ front sig back,
        blob.take d.cursor.position = front ++ (sig ++ back) ∧ Decoded sig m' ∧
          m'.HasArity sig := by
  obtain ⟨ns, hform⟩ := Sound.methodSig.consumed Exact.methodSig h
  refine ⟨hform.hasArity, fun m' hm' => ?_⟩
  obtain ⟨part, hpart, hsignature⟩ := List.mem_filterMap.mp hm'
  cases part with
  | token t => cases hsignature
  | signature m'' =>
    obtain rfl := Option.some.inj hsignature
    obtain ⟨front, sig, back, ns', hbytes, hform'⟩ := hform.inside hpart
    exact ⟨front, sig, back, hbytes, hform'.decoded, hform'.hasArity⟩

/-- Nothing in return for a number, which is a variable argument. -/
def variadicCallback : MethodSig :=
  ⟨false, false, true, 0, 1, ⟨[], false, .void⟩, [], [⟨[], false, .r8⟩]⟩

/-- An instance method that announces two parameters and has one, a function pointer. -/
def shortMethod : MethodSig :=
  ⟨true, false, false, 0, 2, ⟨[], false, .void⟩,
    [⟨[], false, .functionPointer variadicCallback⟩], []⟩

/-- A sentinel stands where the second parameter is missing. One byte is left over. -/
def shortBlob : Bytes := [0x20, 0x02, 0x01, 0x1B, 0x05, 0x01, 0x01, 0x41, 0x0D, 0x41, 0xFF]

theorem signatures_have_arity_of_short :
    methodSig (Decoder.ofBytes shortBlob) = .ok shortMethod ⟨⟨10, [0xFF]⟩, 4⟩ ∧
      shortMethod.HasArity (shortBlob.take 10) ∧
      (shortBlob.take 10).getLast? = some ElementCode.sentinel ∧
      ∃ front sig back, shortBlob.take 10 = front ++ (sig ++ back) ∧
        Decoded sig variadicCallback ∧ variadicCallback.HasArity sig ∧
        ∀ i, (variadicCallback.argument? i).isSome = true ↔ i < 1 := by
  have hrun : methodSig (Decoder.ofBytes shortBlob) = .ok shortMethod ⟨⟨10, [0xFF]⟩, 4⟩ := by
    rfl
  obtain ⟨harity, hnested⟩ := signatures_have_arity hrun
  have hinside : variadicCallback ∈ shortMethod.signatures :=
    List.mem_cons_of_mem _ List.mem_cons_self
  obtain ⟨front, sig, back, hbytes, hdecoded, harity'⟩ := hnested variadicCallback hinside
  refine ⟨hrun, harity, harity.sentinel rfl (by decide), front, sig, back, hbytes, hdecoded,
    harity', fun i => ?_⟩
  have hdeclared := harity'.declared rfl i
  have hcount : variadicCallback.argumentCount = 1 := rfl
  rw [hdeclared, hcount]
  exact ⟨fun h => h.2, fun h => ⟨Nat.zero_le i, h⟩⟩

end Decode

end ManagedCalls
