import ManagedCalls.Signature.Decode

/-!
The budget of types. Decoders of signatures are built from a decoder of types in
a few ways, and what these ways respect goes over from types to signatures. So
it is with the count: whatever the blob is, it never falls, and it reaches the
limit exactly when the decoder refuses to go on. Hence levels of nesting never
run out before the count does, and a type is read by the same decoder as the
types nested in it.
-/

namespace ManagedCalls

open Stateful

/-- A read that is never refused for the number of types. -/
def Read.Unlimited {α : Type} (read : Read α) : Prop :=
  ∀ c limit c', read c ≠ .error (.recursionLimit limit) c'

namespace Read.Unlimited

variable {α β : Type}

theorem pure (a : α) : Unlimited (Pure.pure a : Read α) := by
  intro c limit c' h
  cases h

theorem malformed (why : Malformation) : Unlimited (throw (.malformed why) : Read α) := by
  intro c limit c' h
  cases h

theorem bind {x : Read α} {f : α → Read β} (hx : Unlimited x) (hf : ∀ a, Unlimited (f a)) :
    Unlimited (x >>= f) := by
  intro c limit c' h
  rw [bind_apply] at h
  cases hrun : x c with
  | ok a c₁ =>
    rw [hrun] at h
    exact hf a c₁ limit c' h
  | error e c₁ =>
    rw [hrun] at h
    obtain ⟨rfl, rfl⟩ := EStateM.Result.error.inj h
    exact hx c _ _ hrun

theorem peek : Unlimited Read.peek := by
  intro c limit c' h
  unfold Read.peek at h
  split at h
  · cases h
  · cases h

theorem byte : Unlimited Read.byte := by
  intro c limit c' h
  unfold Read.byte at h
  split at h
  · cases h
  · cases h

theorem skip : Unlimited Read.skip := byte.bind fun _ => pure _

theorem compressedUInt : Unlimited Read.compressedUInt := by
  refine byte.bind fun lead => ?_
  cases CompressedWidth.ofLead? lead with
  | none => exact malformed _
  | some width =>
    cases width with
    | one => exact pure _
    | two => exact byte.bind fun _ => pure _
    | four => exact byte.bind fun _ => byte.bind fun _ => byte.bind fun _ => pure _

theorem compressedToken : Unlimited Read.compressedToken := by
  refine compressedUInt.bind fun n => ?_
  cases TypeTable.ofCode? (n % 4) with
  | none => exact malformed _
  | some table => exact pure _

end Read.Unlimited

namespace Decode

variable {α β : Type}

/-- A relation between decoders that the ways to build larger ones respect. -/
structure Congruence (R : (α : Type) → Decode α → Decode α → Prop) : Prop where
  pure : ∀ {α} (a : α), R α (Pure.pure a) (Pure.pure a)
  malformed : ∀ {α} (why : Malformation),
    R α (throw (.malformed why)) (throw (.malformed why))
  get : R Decoder MonadState.get MonadState.get
  lift : ∀ {α} {read : Read α}, read.Unlimited → R α (lift read) (lift read)
  bind : ∀ {α β} {x y : Decode α} {f g : α → Decode β}, R α x y → (∀ a, R β (f a) (g a)) →
    R β (x >>= f) (y >>= g)

theorem related_ite {R : Decode α → Decode α → Prop} {p : Prop} [Decidable p]
    {x y x' y' : Decode α} (hthen : R x y) (helse : R x' y') :
    R (if p then x else x') (if p then y else y') := by
  by_cases hp : p
  · rw [if_pos hp, if_pos hp]
    exact hthen
  · rw [if_neg hp, if_neg hp]
    exact helse

namespace Congruence

variable {R : (α : Type) → Decode α → Decode α → Prop} (h : Congruence R) {x y : Decode TypeSig}

include h

theorem replicate {a b : Decode α} (hab : R α a b) (n : Nat) :
    R (List α) (replicate a n) (replicate b n) := by
  induction n with
  | zero => exact h.pure []
  | succ n ih => exact h.bind hab fun first => h.bind ih fun rest => h.pure (first :: rest)

theorem discard {a b : Decode α} (hab : R α a b) (n : Nat) :
    R Unit (discard a n) (discard b n) := by
  induction n with
  | zero => exact h.pure ()
  | succ n ih => exact h.bind hab fun _ => ih

theorem accept (code : UInt8) : R Bool (accept code) (accept code) :=
  h.bind (h.lift .peek) fun _ =>
    related_ite (h.bind (h.lift .skip) fun _ => h.pure true) (h.pure false)

theorem modifiersWithin (n : Nat) :
    R (List Token) (modifiersWithin n) (modifiersWithin n) := by
  induction n with
  | zero => exact h.pure []
  | succ n ih =>
    refine h.bind h.get fun d => ?_
    cases d.cursor.rest with
    | nil => exact h.pure []
    | cons code rest =>
      refine related_ite ?_ (h.pure [])
      exact h.bind (h.lift .skip) fun _ => h.bind (h.lift .compressedToken) fun token =>
        h.bind ih fun tokens => h.pure (token :: tokens)

theorem modifiers : R (List Token) modifiers modifiers :=
  h.bind h.get fun _ => h.modifiersWithin _

theorem param (hxy : R TypeSig x y) : R Param (param x) (param y) :=
  h.bind h.modifiers fun _ => h.bind (h.accept _) fun _ => h.bind hxy fun _ => h.pure _

theorem fixedParams (hxy : R TypeSig x y) (n : Nat) :
    R (List Param) (fixedParams x n) (fixedParams y n) := by
  induction n with
  | zero => exact h.pure []
  | succ n ih =>
    refine h.bind (h.accept _) fun ended => ?_
    cases ended with
    | true => exact h.pure []
    | false => exact h.bind (h.param hxy) fun p => h.bind ih fun ps => h.pure (p :: ps)

theorem genericCount (convention : UInt8) :
    R Nat (genericCount convention) (genericCount convention) :=
  related_ite (h.lift .compressedUInt) (h.pure 0)

theorem variableParams (hxy : R TypeSig x y) (vararg : Bool) (n : Nat) :
    R (List Param) (variableParams x vararg n) (variableParams y vararg n) := by
  cases vararg with
  | true => exact h.replicate (h.param hxy) n
  | false => exact h.pure []

theorem methodWith (hxy : R TypeSig x y) : R MethodSig (methodWith x) (methodWith y) :=
  h.bind (h.lift .byte) fun convention => h.bind (h.genericCount convention) fun _ =>
    h.bind (h.lift .compressedUInt) fun paramCount => h.bind (h.param hxy) fun _ =>
      h.bind (h.fixedParams hxy paramCount) fun _ => h.bind (h.variableParams hxy _ _) fun _ =>
        h.pure _

theorem typeOf (hxy : R TypeSig x y) (code : UInt8) :
    R TypeSig (typeOf x code) (typeOf y code) := by
  have huint := h.lift .compressedUInt
  have htoken := h.lift .compressedToken
  unfold Decode.typeOf
  cases simpleType? code with
  | some t => exact h.pure t
  | none =>
    refine related_ite (h.bind h.modifiers fun _ => h.bind hxy fun t => h.pure _) ?_
    refine related_ite (h.bind hxy fun t => h.pure _) ?_
    refine related_ite (h.bind htoken fun token => h.pure _) ?_
    refine related_ite (h.bind htoken fun token => h.pure _) ?_
    refine related_ite (h.bind huint fun n => h.pure _) ?_
    refine related_ite
      (h.bind hxy fun element => h.bind huint fun rank => h.bind huint fun sizes =>
        h.bind (h.discard huint sizes) fun _ => h.bind huint fun bounds =>
          h.bind (h.discard huint bounds) fun _ => h.pure _) ?_
    refine related_ite
      (h.bind (h.lift .peek) fun next =>
        related_ite
          (h.bind hxy fun generic => h.bind huint fun count =>
            h.bind (h.replicate hxy count) fun arguments => h.pure _)
          (h.malformed _)) ?_
    refine related_ite (h.bind (h.methodWith hxy) fun m => h.pure _) ?_
    refine related_ite (h.bind h.modifiers fun _ => h.bind hxy fun t => h.pure _) ?_
    refine related_ite (h.bind huint fun n => h.pure _) ?_
    exact related_ite (h.bind hxy fun t => h.pure _) (h.malformed _)

theorem constraintsWithin (n : Nat) :
    R (List Token × Bool) (constraintsWithin n) (constraintsWithin n) := by
  induction n with
  | zero => exact h.pure _
  | succ n ih =>
    refine h.bind h.get fun d => ?_
    cases d.cursor.rest with
    | nil => exact h.pure _
    | cons code rest =>
      refine related_ite ?_ (related_ite ?_ (h.pure _))
      · exact h.bind (h.lift .skip) fun _ => h.bind (h.lift .compressedToken) fun token =>
          h.bind ih fun found => h.pure _
      · exact h.bind (h.lift .skip) fun _ => h.bind ih fun found => h.pure _

theorem localVar (hxy : R TypeSig x y) : R LocalVar (localVar x) (localVar y) := by
  refine h.bind (h.accept _) fun plain => ?_
  cases plain with
  | true => exact h.pure _
  | false =>
    have hconstraints := h.bind h.get fun d => h.constraintsWithin d.cursor.rest.length
    exact h.bind hconstraints fun found => h.bind (h.accept _) fun _ => h.bind hxy fun _ => h.pure _

theorem localsWith (hxy : R TypeSig x y) : R LocalsSig (localsWith x) (localsWith y) :=
  h.bind (h.lift .byte) fun _ =>
    related_ite
      (h.bind (h.lift .compressedUInt) fun count => h.replicate (h.localVar hxy) count)
      (h.malformed _)

end Congruence

/-- What may come of decoding that began with `c` types read: the count has not
fallen, and it is at the limit if and only if the decoder refused to go on. -/
def Counted (c : Nat) : EStateM.Result BlobError Decoder α → Prop
  | .ok _ d => c ≤ d.typesRead ∧ d.typesRead < typeLimit
  | .error (.recursionLimit limit) d => limit = typeLimit ∧ d.typesRead = typeLimit
  | .error _ d => d.typesRead < typeLimit

theorem Counted.mono {c c' : Nat} (h : c' ≤ c) {r : EStateM.Result BlobError Decoder α}
    (hr : Counted c r) : Counted c' r := by
  match r, hr with
  | .ok _ _, hr => exact ⟨Nat.le_trans h hr.1, hr.2⟩
  | .error (.recursionLimit _) _, hr => exact hr
  | .error (.malformed _) _, hr => exact hr
  | .error .outOfBounds _, hr => exact hr

theorem Counted.error {c : Nat} {e : BlobError} {d : Decoder}
    (h : Counted c (.error e d : EStateM.Result BlobError Decoder α)) :
    Counted c (.error e d : EStateM.Result BlobError Decoder β) := by
  cases e with
  | recursionLimit limit => exact h
  | malformed why => exact h
  | outOfBounds => exact h

/-- From `c` types on, both do the same within the budget. -/
def SameFrom (c : Nat) (x y : Decode α) : Prop :=
  ∀ d, c ≤ d.typesRead → d.typesRead < typeLimit → x d = y d ∧ Counted c (x d)

namespace SameFrom

variable {c : Nat}

theorem pure (a : α) : SameFrom c (Pure.pure a) (Pure.pure a) := fun _ hc hlt => ⟨rfl, hc, hlt⟩

theorem malformed (why : Malformation) :
    SameFrom c (throw (.malformed why) : Decode α) (throw (.malformed why)) :=
  fun _ _ hlt => ⟨rfl, hlt⟩

theorem get : SameFrom c (MonadState.get : Decode Decoder) MonadState.get :=
  fun _ hc hlt => ⟨rfl, hc, hlt⟩

theorem bind {x y : Decode α} {f g : α → Decode β} (hxy : SameFrom c x y)
    (hfg : ∀ a, SameFrom c (f a) (g a)) : SameFrom c (x >>= f) (y >>= g) := by
  intro d hc hlt
  obtain ⟨hsame, hcounted⟩ := hxy d hc hlt
  rw [bind_apply, bind_apply, ← hsame]
  cases hrun : x d with
  | ok a d' =>
    rw [hrun] at hcounted
    exact hfg a d' hcounted.1 hcounted.2
  | error e d' =>
    rw [hrun] at hcounted
    exact ⟨rfl, hcounted.error⟩

theorem lift {read : Read α} (h : read.Unlimited) : SameFrom c (lift read) (lift read) := by
  intro d hc hlt
  refine ⟨rfl, ?_⟩
  unfold Decode.lift
  cases hrun : read d.cursor with
  | ok a cursor => exact ⟨hc, hlt⟩
  | error e cursor =>
    cases e with
    | recursionLimit limit => exact absurd hrun (h _ _ _)
    | malformed why => exact hlt
    | outOfBounds => exact hlt

theorem congruence (c : Nat) : Congruence fun α => SameFrom c (α := α) where
  pure := pure
  malformed := malformed
  get := get
  lift := lift
  bind := bind

end SameFrom

theorem countType_of_lt {d : Decoder} (h : d.typesRead + 1 < typeLimit) :
    countType d = .ok () { d with typesRead := d.typesRead + 1 } := by
  simp [countType, Nat.not_le.mpr h]

theorem countType_of_le {d : Decoder} (h : typeLimit ≤ d.typesRead + 1) :
    countType d =
      .error (.recursionLimit typeLimit) { d with typesRead := d.typesRead + 1 } := by
  simp [countType, tooManyTypes, h]

/-- Nested types are read with one more type counted. -/
theorem SameFrom.typeWith {c : Nat} {x y : Decode TypeSig} (h : SameFrom (c + 1) x y) :
    SameFrom c (typeWith x) (typeWith y) := by
  intro d hc hlt
  rw [Decode.typeWith, Decode.typeWith, bind_apply, bind_apply]
  by_cases hlast : typeLimit ≤ d.typesRead + 1
  · rw [countType_of_le hlast]
    exact ⟨rfl, rfl, by dsimp only; omega⟩
  · rw [countType_of_lt (Nat.not_le.mp hlast)]
    have hcongr := SameFrom.congruence (c + 1)
    have hrest := hcongr.bind (hcongr.lift .byte) fun code => hcongr.typeOf h code
    obtain ⟨hsame, hcounted⟩ :=
      hrest { d with typesRead := d.typesRead + 1 } (Nat.succ_le_succ hc) (Nat.not_le.mp hlast)
    exact ⟨hsame, hcounted.mono (Nat.le_succ c)⟩

/-- Levels that last to the limit all read the same. -/
theorem SameFrom.typeWithin {c levels levels' : Nat} (h : typeLimit ≤ c + levels)
    (h' : typeLimit ≤ c + levels') : SameFrom c (typeWithin levels) (typeWithin levels') := by
  induction levels generalizing c levels' with
  | zero =>
    intro d hc hlt
    omega
  | succ levels ih =>
    cases levels' with
    | zero =>
      intro d hc hlt
      omega
    | succ levels' =>
      have hnested : SameFrom (c + 1) (Decode.typeWithin levels) (Decode.typeWithin levels') :=
        ih (by omega) (by omega)
      exact hnested.typeWith

theorem SameFrom.type {c : Nat} : SameFrom c type type :=
  .typeWithin (Nat.le_add_left _ _) (Nat.le_add_left _ _)

/-- A type is read by the same decoder as the types nested in it. -/
theorem type_eq {d : Decoder} (h : d.typesRead < typeLimit) : type d = typeWith type d := by
  have hlevels : SameFrom 0 (typeWith (typeWithin (typeLimit - 1))) (typeWith type) :=
    .typeWith (.typeWithin (by decide) (Nat.le_add_left _ _))
  exact (hlevels d (Nat.zero_le _) h).1

end Decode

end ManagedCalls
