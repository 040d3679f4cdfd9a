import ManagedCalls.Proofs.SignatureRoundTrip

/-!
What a refused blob has too much of. A limit on nesting refuses a type that is
nested fifty deep, however many types come before it. The decoder of signatures
refuses the fiftieth type instead, wherever it stands. Up to there it does what a
decoder with a limit on nesting does, and nothing that is nested too deep gets
past it; but flat signatures with many parameters or locals are refused as well.
-/

namespace ManagedCalls.Decode

open Stateful

variable {α β : Type}

/-- Counts a type, with no limit on the count. -/
def tally : Decode Unit := modify fun d => { d with typesRead := d.typesRead + 1 }

/-- A type of at most `levels` levels, its own among them. The types it encloses have
one level less, and a type with no level left is refused. -/
def typeByDepth : Nat → Decode TypeSig
  | 0 => do
    tally
    let _ ← lift Read.byte
    tooManyTypes
  | levels + 1 => do
    tally
    let code ← lift Read.byte
    typeOf (typeByDepth levels) code

-- a pointer to a pointer to a number has three levels
example : (outcome (typeByDepth 3) (Decoder.ofBytes [0x0F, 0x0F, 0x08])).isOk = true ∧
    (outcome (typeByDepth 2) (Decoder.ofBytes [0x0F, 0x0F, 0x08])).isOk = false := by
  decide

/-- A method signature with any number of types, none of which is nested fifty deep. -/
def methodByDepth : Decode MethodSig := methodWith (typeByDepth 49)

def localsByDepth : Decode LocalsSig := localsWith (typeByDepth 49)

/-- A fresh decoder refuses the blob for its limit. -/
def Refuses (x : Decode α) (blob : Bytes) : Prop :=
  ∃ limit d, x (Decoder.ofBytes blob) = .error (.recursionLimit limit) d

/-- How many types a fresh decoder begins. -/
def typesBegun (x : Decode α) (blob : Bytes) : Nat := (after x (Decoder.ofBytes blob)).typesRead

/-- The decoder never takes back a type it has counted. -/
def Rising (y : Decode α) : Prop := ∀ d, d.typesRead ≤ (after y d).typesRead

theorem Rising.bind {y : Decode α} {g : α → Decode β} (hy : Rising y) (hg : ∀ a, Rising (g a)) :
    Rising (y >>= g) := by
  intro d
  have hfirst := hy d
  cases hrun : y d with
  | ok a d' =>
    rw [after_of_ok hrun] at hfirst
    rw [after_bind_of_ok hrun]
    exact Nat.le_trans hfirst (hg a d')
  | error e d' =>
    rw [after_of_error hrun] at hfirst
    rw [after_bind_of_error hrun]
    exact hfirst

/-- From `c` types on, both do the same until the first refuses; by then the second
has counted as far as the limit. -/
structure Shadows (c : Nat) (x y : Decode α) : Prop where
  counted : SameFrom c x x
  rising : Rising y
  shadows : ∀ d, c ≤ d.typesRead → d.typesRead < typeLimit →
    x d = y d ∨
      (∃ limit d', x d = .error (.recursionLimit limit) d') ∧ typeLimit ≤ (after y d).typesRead

namespace Shadows

variable {c : Nat}

theorem of_same {x : Decode α} (hcounted : SameFrom c x x) (hrising : Rising x) : Shadows c x x :=
  ⟨hcounted, hrising, fun _ _ _ => Or.inl rfl⟩

theorem bind {x y : Decode α} {f g : α → Decode β} (hxy : Shadows c x y)
    (hfg : ∀ a, Shadows c (f a) (g a)) : Shadows c (x >>= f) (y >>= g) where
  counted := hxy.counted.bind fun a => (hfg a).counted
  rising := hxy.rising.bind fun a => (hfg a).rising
  shadows := by
    intro d hc hlt
    rcases hxy.shadows d hc hlt with hsame | ⟨⟨limit, d', hrefused⟩, hfull⟩
    · obtain ⟨-, hcounted⟩ := hxy.counted d hc hlt
      rw [after, bind_apply, bind_apply, ← hsame]
      cases hrun : x d with
      | ok a d' =>
        rw [hrun] at hcounted
        exact (hfg a).shadows d' hcounted.1 hcounted.2
      | error e d' => exact Or.inl rfl
    · refine Or.inr ⟨⟨limit, d', by rw [bind_apply, hrefused]⟩, ?_⟩
      cases hrun : y d with
      | ok a d₁ =>
        rw [after_of_ok hrun] at hfull
        rw [after_bind_of_ok hrun]
        exact Nat.le_trans hfull ((hfg a).rising d₁)
      | error e d₁ =>
        rw [after_of_error hrun] at hfull
        rw [after_bind_of_error hrun]
        exact hfull

theorem lift {read : Read α} (h : read.Unlimited) :
    Shadows c (Decode.lift read) (Decode.lift read) := by
  refine of_same (.lift h) fun d => ?_
  unfold after Decode.lift
  cases read d.cursor with
  | ok a cursor => exact Nat.le_refl _
  | error e cursor => exact Nat.le_refl _

theorem congruence (c : Nat) : Congruence fun α => Shadows c (α := α) where
  pure := fun a => of_same (.pure a) fun _ => Nat.le_refl _
  malformed := fun why => of_same (.malformed why) fun _ => Nat.le_refl _
  get := of_same .get fun _ => Nat.le_refl _
  lift := lift
  bind := bind

end Shadows

theorem tally_rising : Rising tally := fun _ => Nat.le_succ _

/-- The last type within the count is refused. -/
theorem type_refused {d : Decoder} (hlt : d.typesRead < typeLimit)
    (hlast : typeLimit ≤ d.typesRead + 1) {rest : Decode TypeSig} (hrest : Rising rest) :
    (∃ limit d', type d = .error (.recursionLimit limit) d') ∧
      typeLimit ≤ (after (do tally; rest) d).typesRead := by
  constructor
  · rw [type_eq hlt, typeWith, bind_apply, countType_of_le hlast]
    exact ⟨_, _, rfl⟩
  · let counted : Decoder := { d with typesRead := d.typesRead + 1 }
    have htally : tally d = .ok () counted := rfl
    rw [after_bind_of_ok htally]
    exact Nat.le_trans hlast (hrest counted)

/-- Levels that last to the limit do not run out before the count does. -/
theorem Shadows.type {c levels : Nat} (h : typeLimit ≤ c + levels + 1) :
    Shadows c type (typeByDepth levels) := by
  induction levels generalizing c with
  | zero =>
    have hbyte : Rising (Decode.lift Read.byte) := (Shadows.lift (c := 0) .byte).rising
    have hrest : Rising (do let _ ← Decode.lift Read.byte; (tooManyTypes : Decode TypeSig)) :=
      hbyte.bind fun _ _ => Nat.le_refl _
    refine ⟨.type, tally_rising.bind fun _ => hrest, fun d hc hlt => Or.inr ?_⟩
    exact type_refused hlt (by omega) hrest
  | succ levels ih =>
    have hcongr := Shadows.congruence (c + 1)
    have hrest := hcongr.bind (hcongr.lift .byte) fun code => hcongr.typeOf (ih (by omega)) code
    refine ⟨.type, tally_rising.bind fun _ => hrest.rising, fun d hc hlt => ?_⟩
    by_cases hlast : typeLimit ≤ d.typesRead + 1
    · exact Or.inr (type_refused hlt hlast hrest.rising)
    · -- both count this type, and then read on alike
      let counted : Decoder := { d with typesRead := d.typesRead + 1 }
      have hnext := hrest.shadows counted (Nat.succ_le_succ hc) (Nat.not_le.mp hlast)
      rw [type_eq hlt, typeWith, bind_apply, countType_of_lt (Nat.not_le.mp hlast)]
      exact hnext

theorem ofBytes_lt_limit (blob : Bytes) : (Decoder.ofBytes blob).typesRead < typeLimit :=
  show 0 < typeLimit by decide

theorem SameFrom.refuses_iff {x : Decode α} (h : SameFrom 0 x x) (blob : Bytes) :
    Refuses x blob ↔ 50 ≤ typesBegun x blob := by
  obtain ⟨-, hcounted⟩ := h (Decoder.ofBytes blob) (Nat.zero_le _) (ofBytes_lt_limit blob)
  constructor
  · rintro ⟨limit, d, hrun⟩
    rw [hrun] at hcounted
    rw [typesBegun, after_of_error hrun, hcounted.2]
    exact Nat.le_refl _
  · intro hfull
    cases hrun : x (Decoder.ofBytes blob) with
    | ok a d =>
      rw [hrun] at hcounted
      rw [typesBegun, after_of_ok hrun] at hfull
      exact absurd hcounted.2 (Nat.not_lt.mpr hfull)
    | error e d =>
      rw [hrun] at hcounted
      rw [typesBegun, after_of_error hrun] at hfull
      cases e with
      | recursionLimit limit => exact ⟨limit, d, hrun⟩
      | malformed why => exact absurd hcounted (Nat.not_lt.mpr hfull)
      | outOfBounds => exact absurd hcounted (Nat.not_lt.mpr hfull)

/-- What a limit on the count does, beside a limit on nesting. -/
theorem Shadows.refuses {x y : Decode α} (h : Shadows 0 x y) (blob : Bytes) :
    (Refuses x blob ↔ 50 ≤ typesBegun y blob) ∧ (Refuses y blob → Refuses x blob) ∧
      (typesBegun y blob < 50 → x (Decoder.ofBytes blob) = y (Decoder.ofBytes blob)) := by
  rcases h.shadows (Decoder.ofBytes blob) (Nat.zero_le _) (ofBytes_lt_limit blob) with
    hsame | ⟨hrefuses, hfull⟩
  · have hbegun : typesBegun y blob = typesBegun x blob := by
      rw [typesBegun, typesBegun, after, after, hsame]
    refine ⟨hbegun ▸ h.counted.refuses_iff blob, fun hdeep => ?_, fun _ => hsame⟩
    rwa [Refuses, hsame]
  · refine ⟨⟨fun _ => hfull, fun _ => hrefuses⟩, fun _ => hrefuses, fun hfew => ?_⟩
    exact absurd hfull (Nat.not_le.mpr hfew)

theorem Shadows.meant_iff {x y : Decode α} (h : Shadows 0 x y) (blob : Bytes) :
    (Refuses x blob → Refuses y blob) ↔ typesBegun y blob < 50 ∨ Refuses y blob := by
  have hrefuses := (h.refuses blob).1
  constructor
  · intro hmeant
    rcases Nat.lt_or_ge (typesBegun y blob) 50 with hfew | hmany
    · exact Or.inl hfew
    · exact Or.inr (hmeant (hrefuses.mpr hmany))
  · rintro (hfew | hdeep) hrefused
    · exact absurd (hrefuses.mp hrefused) (Nat.not_le.mpr hfew)
    · exact hdeep

/-- A blob is refused exactly if fifty types are begun in it. This is what a limit on
nesting would do if and only if there are fewer, or one is nested fifty deep; deep
nesting is refused in any case, and blobs with fewer types are read as with
a limit on nesting. -/
theorem limit_counts_types (blob : Bytes) :
    ((Refuses methodSig blob ↔ 50 ≤ typesBegun methodByDepth blob) ∧
      (Refuses methodByDepth blob → Refuses methodSig blob) ∧
      (typesBegun methodByDepth blob < 50 →
        methodSig (Decoder.ofBytes blob) = methodByDepth (Decoder.ofBytes blob)) ∧
      ((Refuses methodSig blob → Refuses methodByDepth blob) ↔
        typesBegun methodByDepth blob < 50 ∨ Refuses methodByDepth blob)) ∧
    ((Refuses localsSig blob ↔ 50 ≤ typesBegun localsByDepth blob) ∧
      (Refuses localsByDepth blob → Refuses localsSig blob) ∧
      (typesBegun localsByDepth blob < 50 →
        localsSig (Decoder.ofBytes blob) = localsByDepth (Decoder.ofBytes blob)) ∧
      ((Refuses localsSig blob → Refuses localsByDepth blob) ↔
        typesBegun localsByDepth blob < 50 ∨ Refuses localsByDepth blob)) := by
  have hcongr := Shadows.congruence 0
  have htype : Shadows 0 type (typeByDepth 49) := Shadows.type (by decide)
  have hmethod : Shadows 0 methodSig methodByDepth := hcongr.methodWith htype
  have hlocals : Shadows 0 localsSig localsByDepth := hcongr.localsWith htype
  obtain ⟨hcount, hdeep, hsame⟩ := hmethod.refuses blob
  obtain ⟨hcount', hdeep', hsame'⟩ := hlocals.refuses blob
  exact ⟨⟨hcount, hdeep, hsame, hmethod.meant_iff blob⟩, hcount', hdeep', hsame',
    hlocals.meant_iff blob⟩

/-- Forty-nine numbers, and nothing in return. -/
def flatMethod : MethodSig :=
  ⟨false, false, false, 0, 49, ⟨[], false, .void⟩, List.replicate 49 ⟨[], false, .i4⟩, []⟩

/-- Fifty numbers. -/
def flatLocals : LocalsSig := List.replicate 50 ⟨[], false, false, .i4⟩

theorem not_refuses_of_isOk {x : Decode α} {blob : Bytes}
    (h : (outcome x (Decoder.ofBytes blob)).isOk = true) : ¬ Refuses x blob := by
  rintro ⟨limit, d, hrun⟩
  rw [outcome_of_error hrun] at h
  cases h

/-- No type encloses another in what is refused here. -/
theorem flat_signatures_refused :
    flatMethod.encode = [0x00, 0x31, 0x01] ++ List.replicate 49 0x08 ∧
      ¬ (Refuses methodSig flatMethod.encode → Refuses methodByDepth flatMethod.encode) ∧
      flatLocals.encode = [0x07, 0x32] ++ List.replicate 50 0x08 ∧
      ¬ (Refuses localsSig flatLocals.encode → Refuses localsByDepth flatLocals.encode) := by
  have hm : flatMethod.isEncodable = true := by decide
  have hls : flatLocals.isEncodable = true := by decide
  have hmethod := (MethodSig.reads flatMethod hm).fresh []
  have hlocals := (LocalsSig.reads hls).fresh []
  rw [if_neg (by decide), List.append_nil] at hmethod hlocals
  refine ⟨by decide, fun hmeant => ?_, by decide, fun hmeant => ?_⟩
  · exact not_refuses_of_isOk (by decide +kernel) (hmeant ⟨50, hmethod⟩)
  · exact not_refuses_of_isOk (by decide +kernel) (hmeant ⟨50, hlocals⟩)

end ManagedCalls.Decode
