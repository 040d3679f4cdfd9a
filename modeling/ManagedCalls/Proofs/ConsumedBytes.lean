import ManagedCalls.Proofs.TypeBudget

/-!
The bytes that decide a signature. A decoder that succeeds has consumed some bytes. It
does the same whatever follows them, and with fewer of them it finds the end of the
data. Decoders in a row have this property if each of them has it. Modifiers, pins,
sentinels and marks of references are looked at before they are consumed, and modifiers
stop silently where the data end; but behind them there is always a type to be read,
which finds the end in their place.
-/

namespace ManagedCalls.Decode

open Stateful

variable {α β γ : Type}

theorem bind_eq_ok {x : Decode α} {f : α → Decode β} {d d' : Decoder} {b : β}
    (h : (x >>= f) d = .ok b d') : ∃ a d₁, x d = .ok a d₁ ∧ f a d₁ = .ok b d' := by
  rw [bind_apply] at h
  cases hrun : x d with
  | ok a d₁ =>
    rw [hrun] at h
    exact ⟨a, d₁, rfl, h⟩
  | error e d₁ =>
    rw [hrun] at h
    cases h

/-- With so many types read and just these bytes, the decoder finds the end of the data. -/
def Starves (x : Decode α) (count : Nat) (bs : Bytes) : Prop :=
  ∀ position, ∃ d, x ⟨⟨position, bs⟩, count⟩ = .error .outOfBounds d

/-- With `count` types read the decoder consumes the bytes `bs` and gives `a`, whatever
follows, and has `count'` types read. With fewer of the bytes it starves. -/
structure Consumes (x : Decode α) (count : Nat) (bs : Bytes) (a : α) (count' : Nat) : Prop where
  reads : ∀ position rest, x ⟨⟨position, bs ++ rest⟩, count⟩ =
    .ok a ⟨⟨position + bs.length, rest⟩, count'⟩
  starves : ∀ front back, bs = front ++ back → back ≠ [] → Starves x count front

/-- Whenever the decoder succeeds, it is the bytes it has consumed that decide this. -/
def Exact (x : Decode α) : Prop :=
  ∀ position count bytes a d, x ⟨⟨position, bytes⟩, count⟩ = .ok a d →
    ∃ bs rest count', bytes = bs ++ rest ∧ Consumes x count bs a count'

/-- The decoder does not succeed without a byte. -/
def Hungry (x : Decode α) : Prop :=
  ∀ position count a d, x ⟨⟨position, []⟩, count⟩ ≠ .ok a d

theorem Consumes.exists_cons {x : Decode α} {count count' : Nat} {bs : Bytes} {a : α}
    (h : Consumes x count bs a count') (hx : Hungry x) : ∃ b tail, bs = b :: tail := by
  cases bs with
  | nil => exact absurd (h.reads 0 []) (hx _ _ _ _)
  | cons b tail => exact ⟨b, tail, rfl⟩

/-- The front of two parts has the first part in it, or ends within it. -/
theorem front_cases {first second front back : Bytes} (h : first ++ second = front ++ back) :
    (∃ next, front = first ++ next ∧ second = next ++ back) ∨
      ∃ missing, first = front ++ missing ∧ missing ≠ [] := by
  rcases List.append_eq_append_iff.mp h with hnext | ⟨missing, hfirst, hback⟩
  · exact Or.inl hnext
  · by_cases hmissing : missing = []
    · subst hmissing
      rw [List.append_nil] at hfirst
      exact Or.inl ⟨[], by rw [List.append_nil, hfirst], hback.symm⟩
    · exact Or.inr ⟨missing, hfirst, hmissing⟩

theorem Consumes.bind {x : Decode α} {f : α → Decode β} {count count₁ count₂ : Nat}
    {bs bs' : Bytes} {a : α} {b : β} (hx : Consumes x count bs a count₁)
    (hf : Consumes (f a) count₁ bs' b count₂) : Consumes (x >>= f) count (bs ++ bs') b count₂ where
  reads := by
    intro position rest
    rw [bind_apply, List.append_assoc, hx.reads, List.length_append, ← Nat.add_assoc]
    exact hf.reads (position + bs.length) rest
  starves := by
    intro front back hsplit hback position
    -- what is missing is missing behind the first part, or already in it
    rcases front_cases hsplit with ⟨next, rfl, hnext⟩ | ⟨missing, hfirst, hmissing⟩
    · obtain ⟨d, hd⟩ := hf.starves next back hnext hback (position + bs.length)
      exact ⟨d, by rw [bind_apply, hx.reads]; exact hd⟩
    · obtain ⟨d, hd⟩ := hx.starves front missing hfirst hmissing position
      exact ⟨d, by rw [bind_apply, hd]⟩

namespace Hungry

theorem bind {x : Decode α} (hx : Hungry x) (f : α → Decode β) : Hungry (x >>= f) := by
  intro position count b d h
  obtain ⟨a, d₁, hrun, -⟩ := bind_eq_ok h
  exact hx position count a d₁ hrun

theorem throw (e : BlobError) : Hungry (throw e : Decode α) := fun _ _ _ _ h => by cases h

theorem ite {p : Prop} [Decidable p] {x y : Decode α} (hx : Hungry x) (hy : Hungry y) :
    Hungry (if p then x else y) := by
  by_cases hp : p
  · rwa [if_pos hp]
  · rwa [if_neg hp]

theorem byte : Hungry (lift Read.byte) := fun _ _ _ _ h => by cases h

theorem skip : Hungry (lift Read.skip) := fun _ _ _ _ h => by cases h

theorem accept (code : UInt8) : Hungry (accept code) := by
  intro position count a d h
  simp [Decode.accept, lift] at h

end Hungry

theorem lift_bind (x : Read α) (f : α → Read β) :
    lift (x >>= f) = lift x >>= fun a => lift (f a) := by
  funext d
  simp only [lift, bind_apply]
  cases x d.cursor with
  | ok a c => rfl
  | error e c => rfl

/-- A read counts no types. -/
theorem typesRead_of_lift {read : Read α} {d d' : Decoder} {a : α} (h : lift read d = .ok a d') :
    d'.typesRead = d.typesRead := by
  unfold lift at h
  split at h
  · obtain ⟨-, rfl⟩ := EStateM.Result.ok.inj h
    rfl
  · cases h

theorem lift_map (g : α → β) (x : Read α) : lift (g <$> x) = g <$> lift x := by
  rw [map_eq_pure_bind, map_eq_pure_bind, lift_bind]
  rfl

namespace Exact

variable {x : Decode α} {f : α → Decode β}

theorem pure (a : α) : Exact (Pure.pure a : Decode α) := by
  intro position count bytes a' d h
  obtain ⟨rfl, -⟩ := EStateM.Result.ok.inj h
  refine ⟨[], bytes, count, rfl, fun _ _ => rfl, fun front back hsplit hback => ?_⟩
  exact absurd (List.append_eq_nil_iff.mp hsplit.symm).2 hback

theorem throw (e : BlobError) : Exact (throw e : Decode α) := fun _ _ _ _ _ h => by cases h

theorem ite {p : Prop} [Decidable p] {y : Decode α} (hx : Exact x) (hy : Exact y) :
    Exact (if p then x else y) := by
  by_cases hp : p
  · rwa [if_pos hp]
  · rwa [if_neg hp]

theorem bind (hx : Exact x) (hf : ∀ a, Exact (f a)) : Exact (x >>= f) := by
  intro position count bytes b d h
  obtain ⟨a, d₁, hrun, hthen⟩ := bind_eq_ok h
  obtain ⟨bs, rest, count₁, rfl, hconsumes⟩ := hx _ _ _ _ _ hrun
  obtain ⟨-, rfl⟩ := EStateM.Result.ok.inj ((hconsumes.reads position rest).symm.trans hrun)
  obtain ⟨bs', rest', count₂, rfl, hnext⟩ := hf a _ _ _ _ _ hthen
  exact ⟨bs ++ bs', rest', count₂, (List.append_assoc ..).symm, hconsumes.bind hnext⟩

theorem map (hx : Exact x) (g : α → β) : Exact (do let a ← x; Pure.pure (g a)) :=
  hx.bind fun a => pure (g a)

theorem byte : Exact (lift Read.byte) := by
  intro position count bytes b d h
  cases bytes with
  | nil => cases h
  | cons first rest =>
    obtain ⟨rfl, -⟩ := EStateM.Result.ok.inj h
    refine ⟨[first], rest, count, rfl, fun _ _ => rfl, fun front back hsplit hback position => ?_⟩
    have hfront : front = [] := by
      cases front with
      | nil => rfl
      | cons b tail =>
        have hnone := (List.append_eq_nil_iff.mp (List.cons.inj hsplit).2.symm).2
        exact absurd hnone hback
    rw [hfront]
    exact ⟨_, rfl⟩

theorem skip : Exact (lift Read.skip) := by
  rw [Read.skip, lift_bind]
  exact byte.bind fun _ => pure ()

theorem compressedUInt : Exact (lift Read.compressedUInt) := by
  rw [Read.compressedUInt, lift_bind]
  refine byte.bind fun lead => ?_
  cases CompressedWidth.ofLead? lead with
  | none => exact throw _
  | some width =>
    cases width with
    | one => exact pure _
    | two =>
      rw [lift_bind]
      exact byte.bind fun low => pure _
    | four =>
      simp only [lift_bind]
      exact byte.bind fun _ => byte.bind fun _ => byte.bind fun _ => pure _

theorem compressedToken : Exact (lift Read.compressedToken) := by
  rw [Read.compressedToken, lift_bind]
  refine compressedUInt.bind fun n => ?_
  cases TypeTable.ofCode? (n % 4) with
  | none => exact throw _
  | some table => exact pure _

/-- A byte that was looked at is consumed if what follows takes one. -/
theorem peek {f : UInt8 → Decode α} (hf : ∀ b, Exact (f b)) (hungry : ∀ b, Hungry (f b)) :
    Exact (lift Read.peek >>= f) := by
  intro position count bytes a d h
  cases bytes with
  | nil => cases h
  | cons b tail =>
    obtain ⟨bs, rest, count', hbytes, hconsumes⟩ := hf b _ _ _ _ _ h
    obtain ⟨b', bs', rfl⟩ := hconsumes.exists_cons (hungry b)
    obtain rfl : b = b' := (List.cons.inj hbytes).1
    refine ⟨b :: bs', rest, count', hbytes, fun position rest => hconsumes.reads position rest, ?_⟩
    intro front back hsplit hback position
    cases front with
    | nil => exact ⟨_, rfl⟩
    | cons b' front =>
      obtain rfl : b = b' := (List.cons.inj hsplit).1
      exact hconsumes.starves (b :: front) back hsplit hback position

theorem accept {f : Bool → Decode α} (code : UInt8) (htrue : Exact (f true))
    (hfalse : Exact (f false)) (hungry : Hungry (f false)) : Exact (accept code >>= f) := by
  have hpeek : Decode.accept code >>= f = lift Read.peek >>= fun next =>
      if next == code then do lift Read.skip; f true else f false := by
    rw [Decode.accept, bind_assoc]
    refine congrArg _ (funext fun next => ?_)
    by_cases hnext : next == code
    · simp [hnext]
    · simp [hnext]
  rw [hpeek]
  exact peek (fun next => (skip.bind fun _ => htrue).ite hfalse)
    fun next => (Hungry.skip.bind _).ite hungry

end Exact

/-- Reads items as long as the next byte begins one. -/
def scan (item? : UInt8 → Option (Read β)) (done : α) (more : β → α → α) : Nat → Decode α
  | 0 => pure done
  | n + 1 => do
    let d ← get
    match d.cursor.rest with
    | code :: _ =>
      match item? code with
      | some item =>
        let b ← lift item
        let a ← scan item? done more n
        pure (more b a)
      | none => pure done
    | [] => pure done

def modifier? (code : UInt8) : Option (Read Token) :=
  if ElementCode.isModifier code then
    some do
      Read.skip
      Read.compressedToken
  else none

theorem modifiersWithin_eq (n : Nat) : modifiersWithin n = scan modifier? [] (· :: ·) n := by
  induction n with
  | zero => rfl
  | succ n ih =>
    rw [modifiersWithin, scan, ih]
    refine congrArg _ (funext fun d => ?_)
    cases d.cursor.rest with
    | nil => rfl
    | cons code rest =>
      by_cases hcode : ElementCode.isModifier code = true
      · simp [modifier?, hcode, lift_bind]
      · simp [modifier?, hcode]

/-- A modifier, or nothing for a pin. -/
def constraint? (code : UInt8) : Option (Read (Option Token)) :=
  if ElementCode.isModifier code then
    some do
      Read.skip
      return some (← Read.compressedToken)
  else if code == ElementCode.pinned then
    some do
      Read.skip
      return none
  else none

/-- Puts a constraint in front of others. -/
def constrain : Option Token → List Token × Bool → List Token × Bool
  | some token, found => (token :: found.1, found.2)
  | none, found => (found.1, true)

theorem constraintsWithin_eq (n : Nat) :
    constraintsWithin n = scan constraint? ([], false) constrain n := by
  induction n with
  | zero => rfl
  | succ n ih =>
    rw [constraintsWithin, scan, ih]
    refine congrArg _ (funext fun d => ?_)
    cases d.cursor.rest with
    | nil => rfl
    | cons code rest =>
      by_cases hcode : ElementCode.isModifier code = true
      · simp [constraint?, hcode, lift_bind, lift_map, constrain]
      · by_cases hpinned : code == ElementCode.pinned
        · simp [constraint?, hcode, hpinned, lift_map, constrain]
        · simp [constraint?, hcode, hpinned]

section

variable {item? : UInt8 → Option (Read β)} {done : α} {more : β → α → α}

/-- What a loop reads as `a` before `rest`, with any number of turns that is not less than
the bytes it has. Where the data end earlier it stops, or it starves in an item. -/
structure Scans (item? : UInt8 → Option (Read β)) (done : α) (more : β → α → α) (count : Nat)
    (bs rest : Bytes) (a : α) : Prop where
  reads : ∀ position n rest', (bs ++ rest').length ≤ n → rest'.head? = rest.head? →
    scan item? done more n ⟨⟨position, bs ++ rest'⟩, count⟩ =
      .ok a ⟨⟨position + bs.length, rest'⟩, count⟩
  ends : ∀ position n front back, bs = front ++ back → front.length ≤ n →
    (∃ d, scan item? done more n ⟨⟨position, front⟩, count⟩ = .error .outOfBounds d) ∨
      ∃ a', scan item? done more n ⟨⟨position, front⟩, count⟩ =
        .ok a' ⟨⟨position + front.length, []⟩, count⟩

/-- Where no item begins the loop is over. -/
theorem scan_stop {bytes : Bytes} (h : ∀ code ∈ bytes.head?, item? code = none)
    (n position count : Nat) :
    scan item? done more n ⟨⟨position, bytes⟩, count⟩ = .ok done ⟨⟨position, bytes⟩, count⟩ := by
  cases n with
  | zero => rfl
  | succ n =>
    cases bytes with
    | nil => rfl
    | cons code tail => simp [scan, h code rfl]

theorem scan_nil (n position count : Nat) :
    scan item? done more n ⟨⟨position, []⟩, count⟩ = .ok done ⟨⟨position, []⟩, count⟩ :=
  scan_stop (fun _ hnone => by cases hnone) n position count

theorem scan_item {code : UInt8} {item : Read β} (hcode : item? code = some item)
    (n position count : Nat) (rest : Bytes) :
    scan item? done more (n + 1) ⟨⟨position, code :: rest⟩, count⟩ =
      (do let b ← lift item; let a ← scan item? done more n; pure (more b a) : Decode α)
        ⟨⟨position, code :: rest⟩, count⟩ := by
  simp [scan, hcode]

namespace Scans

variable {count : Nat}

theorem stop {rest : Bytes} (h : ∀ code ∈ rest.head?, item? code = none) :
    Scans item? done more count [] rest done where
  reads := fun position n rest' _ hhead => scan_stop (hhead ▸ h) n position count
  ends := by
    intro position n front back hsplit hn
    obtain ⟨rfl, rfl⟩ := List.append_eq_nil_iff.mp hsplit.symm
    exact Or.inr ⟨done, scan_nil _ _ _⟩

theorem item {code : UInt8} {item : Read β} (hcode : item? code = some item) {bs bs' rest : Bytes}
    {b : β} {a : α} (hitem : Consumes (lift item) count (code :: bs) b count)
    (h : Scans item? done more count bs' rest a) :
    Scans item? done more count (code :: bs ++ bs') rest (more b a) where
  reads := by
    intro position n rest' hn hhead
    have hlength : (code :: bs ++ bs' ++ rest').length = bs.length + (bs' ++ rest').length + 1 := by
      simp only [List.length_append, List.length_cons]
      omega
    obtain ⟨n, rfl⟩ := Nat.exists_eq_succ_of_ne_zero (n := n) (by omega)
    have hrest := h.reads (position + (code :: bs).length) n rest' (by omega) hhead
    rw [List.append_assoc, List.cons_append, scan_item hcode, bind_apply, ← List.cons_append,
      hitem.reads]
    dsimp only
    rw [bind_apply, hrest, List.length_append, Nat.add_assoc]
    rfl
  ends := by
    intro position n front back hsplit hn
    cases front with
    | nil => exact Or.inr ⟨done, scan_nil _ _ _⟩
    | cons code' front =>
      obtain rfl : code = code' := (List.cons.inj hsplit).1
      obtain ⟨n, rfl⟩ := Nat.exists_eq_succ_of_ne_zero (n := n) (by simp at hn; omega)
      rw [scan_item hcode, bind_apply]
      rcases front_cases hsplit with ⟨next, hfront, hnext⟩ | ⟨missing, hbs, hmissing⟩
      · rw [hfront, hitem.reads]
        dsimp only
        rw [bind_apply]
        have hle : next.length ≤ n := by
          have hlength := congrArg List.length hfront
          simp only [List.length_append, List.length_cons] at hlength hn
          omega
        rcases h.ends (position + (code :: bs).length) n next back hnext hle with
          ⟨d, hstarved⟩ | ⟨a', hstopped⟩
        · exact Or.inl ⟨d, by rw [hstarved]⟩
        · refine Or.inr ⟨more b a', ?_⟩
          rw [hstopped, List.length_append, Nat.add_assoc]
          rfl
      · obtain ⟨d, hd⟩ := hitem.starves (code :: front) missing hbs hmissing position
        exact Or.inl ⟨d, by rw [hd]⟩

end Scans

/-- A loop over exact items scans. -/
theorem exists_scans
    (hitems : ∀ code item, item? code = some item → Exact (lift item) ∧ Hungry (lift item))
    (n : Nat) {position count : Nat} {bytes : Bytes} {a : α} {d : Decoder}
    (hn : bytes.length ≤ n)
    (h : scan item? done more n ⟨⟨position, bytes⟩, count⟩ = .ok a d) :
    ∃ bs rest, bytes = bs ++ rest ∧ Scans item? done more count bs rest a := by
  have hstopped {position n : Nat} {bytes : Bytes} {a : α} {d : Decoder}
      (hstop : ∀ code ∈ bytes.head?, item? code = none)
      (h : scan item? done more n ⟨⟨position, bytes⟩, count⟩ = .ok a d) :
      ∃ bs rest, bytes = bs ++ rest ∧ Scans item? done more count bs rest a := by
    rw [scan_stop hstop] at h
    obtain ⟨rfl, -⟩ := EStateM.Result.ok.inj h
    exact ⟨[], bytes, rfl, .stop hstop⟩
  induction n generalizing position bytes a d with
  | zero =>
    obtain rfl : bytes = [] := List.length_eq_zero_iff.mp (Nat.le_zero.mp hn)
    exact hstopped (fun _ hnone => by cases hnone) h
  | succ n ih =>
    cases bytes with
    | nil => exact hstopped (fun _ hnone => by cases hnone) h
    | cons code tail =>
      cases hcode : item? code with
      | none => exact hstopped (by simpa using hcode) h
      | some item =>
        obtain ⟨hexact, hhungry⟩ := hitems code item hcode
        rw [scan_item hcode] at h
        obtain ⟨b, d₁, hitem, hrest⟩ := bind_eq_ok h
        obtain ⟨bs, rest, count', hbytes, hconsumes⟩ := hexact _ _ _ _ _ hitem
        obtain ⟨code', bs, rfl⟩ := hconsumes.exists_cons hhungry
        obtain ⟨rfl, rfl⟩ := List.cons.inj hbytes
        have hread := hconsumes.reads position rest
        obtain ⟨-, rfl⟩ := EStateM.Result.ok.inj (hread.symm.trans hitem)
        obtain rfl : count' = count := typesRead_of_lift hitem
        obtain ⟨a', d₂, hscan, hdone⟩ := bind_eq_ok hrest
        obtain ⟨rfl, -⟩ := EStateM.Result.ok.inj hdone
        obtain ⟨bs', rest', rfl, hscans⟩ := ih (by simp at hn; omega) hscan
        exact ⟨code :: bs ++ bs', rest', by simp, .item hcode hconsumes hscans⟩

theorem scan_bind_apply (f : α → Decode γ) (position count : Nat) (bytes : Bytes) :
    (do let d ← get; let a ← scan item? done more d.cursor.rest.length; f a : Decode γ)
        ⟨⟨position, bytes⟩, count⟩ =
      match scan item? done more bytes.length ⟨⟨position, bytes⟩, count⟩ with
      | .ok a d => f a d
      | .error e d => .error e d := by
  simp only [bind_apply, get_apply]
  cases scan item? done more bytes.length ⟨⟨position, bytes⟩, count⟩ with
  | ok a d => rfl
  | error e d => rfl

/-- Behind a loop that stops at the end of the data without a word there must be something
that starves there, whatever the loop has found. -/
theorem Exact.scan {f : α → Decode γ}
    (hitems : ∀ code item, item? code = some item → Exact (lift item) ∧ Hungry (lift item))
    (hf : ∀ a, Exact (f a)) (hungry : ∀ a, Hungry (f a))
    (hstarves : ∀ a a' count, Starves (f a) count [] → Starves (f a') count []) :
    Exact (do let d ← get; let a ← scan item? done more d.cursor.rest.length; f a) := by
  intro position count bytes c d h
  obtain ⟨d₀, d₁, hget, hloop⟩ := bind_eq_ok h
  obtain ⟨rfl, rfl⟩ := EStateM.Result.ok.inj hget
  obtain ⟨a, d', hrun, hthen⟩ := bind_eq_ok hloop
  obtain ⟨bs, rest, rfl, hscans⟩ := exists_scans hitems _ (Nat.le_refl _) hrun
  obtain ⟨-, rfl⟩ := EStateM.Result.ok.inj
    ((hscans.reads position _ rest (Nat.le_refl _) rfl).symm.trans hrun)
  obtain ⟨bs', rest', count', rfl, hnext⟩ := hf a _ _ _ _ _ hthen
  obtain ⟨b, tail, rfl⟩ := hnext.exists_cons (hungry a)
  have hempty := hnext.starves [] (b :: tail) rfl (List.cons_ne_nil _ _)
  have hends {front back : Bytes} (hsplit : bs = front ++ back) (position : Nat) :
      ∃ d, (do let d ← get; let a ← Decode.scan item? done more d.cursor.rest.length; f a)
        ⟨⟨position, front⟩, count⟩ = .error .outOfBounds d := by
    rw [scan_bind_apply]
    rcases hscans.ends position _ front back hsplit (Nat.le_refl _) with
      ⟨d, hstarved⟩ | ⟨a', hstopped⟩
    · exact ⟨d, by rw [hstarved]⟩
    · obtain ⟨d, hd⟩ := hstarves a a' count hempty (position + front.length)
      exact ⟨d, by rw [hstopped]; exact hd⟩
  refine ⟨bs ++ b :: tail, rest', count', by simp, fun position rest => ?_, ?_⟩
  · rw [scan_bind_apply, List.append_assoc,
      hscans.reads position _ (b :: tail ++ rest) (Nat.le_refl _) rfl]
    dsimp only
    rw [hnext.reads, List.length_append, Nat.add_assoc]
  · intro front back hsplit hback position
    rcases front_cases hsplit with ⟨next, rfl, hbehind⟩ | ⟨missing, hbs, -⟩
    · cases next with
      | nil =>
        rw [List.append_nil]
        exact hends (List.append_nil _).symm position
      | cons b' next =>
        obtain rfl : b = b' := (List.cons.inj hbehind).1
        obtain ⟨d, hd⟩ := hnext.starves (b :: next) back hbehind hback (position + bs.length)
        refine ⟨d, ?_⟩
        rw [scan_bind_apply, hscans.reads position _ (b :: next) (Nat.le_refl _) rfl]
        exact hd
    · exact hends hbs position

end

theorem modifier?_exact (code : UInt8) (item : Read Token) (h : modifier? code = some item) :
    Exact (lift item) ∧ Hungry (lift item) := by
  unfold modifier? at h
  split at h
  · obtain rfl := Option.some.inj h
    rw [lift_bind]
    exact ⟨Exact.skip.bind fun _ => .compressedToken, Hungry.skip.bind _⟩
  · cases h

theorem constraint?_exact (code : UInt8) (item : Read (Option Token))
    (h : constraint? code = some item) : Exact (lift item) ∧ Hungry (lift item) := by
  unfold constraint? at h
  split at h
  · obtain rfl := Option.some.inj h
    simp only [lift_bind]
    exact ⟨Exact.skip.bind fun _ => Exact.compressedToken.map some, Hungry.skip.bind _⟩
  · split at h
    · obtain rfl := Option.some.inj h
      rw [lift_bind]
      exact ⟨Exact.skip.map fun _ => none, Hungry.skip.bind _⟩
    · cases h

theorem Exact.modifiers {f : List Token → Decode α} (hf : ∀ mods, Exact (f mods))
    (hungry : ∀ mods, Hungry (f mods))
    (hstarves : ∀ mods mods' count, Starves (f mods) count [] → Starves (f mods') count []) :
    Exact (modifiers >>= f) := by
  simp only [Decode.modifiers, bind_assoc, modifiersWithin_eq]
  exact Exact.scan modifier?_exact hf hungry hstarves

theorem Exact.constraints {f : List Token × Bool → Decode α} (hf : ∀ found, Exact (f found))
    (hungry : ∀ found, Hungry (f found))
    (hstarves : ∀ found found' count, Starves (f found) count [] → Starves (f found') count []) :
    Exact (constraints >>= f) := by
  simp only [Decode.constraints, bind_assoc, constraintsWithin_eq]
  exact Exact.scan constraint?_exact hf hungry hstarves

theorem Hungry.modifiers {f : List Token → Decode α} (hf : Hungry (f [])) :
    Hungry (modifiers >>= f) := hf

theorem Hungry.constraints {f : List Token × Bool → Decode α} (hf : Hungry (f ([], false))) :
    Hungry (constraints >>= f) := hf

theorem Starves.accept (code : UInt8) (f : Bool → Decode α) (count : Nat) :
    Starves (accept code >>= f) count [] := fun _ => ⟨_, rfl⟩

namespace Exact

theorem replicate {item : Decode α} (hitem : Exact item) (n : Nat) : Exact (replicate item n) := by
  induction n with
  | zero => exact pure []
  | succ n ih => exact hitem.bind fun a => ih.map (a :: ·)

theorem discard {item : Decode α} (hitem : Exact item) (n : Nat) : Exact (discard item n) := by
  induction n with
  | zero => exact pure ()
  | succ n ih => exact hitem.bind fun _ => ih

theorem genericCount (convention : UInt8) : Exact (genericCount convention) :=
  compressedUInt.ite (pure 0)

/-- The count is the same with fewer bytes, so it is no reason for another refusal. -/
theorem countType : Exact countType := by
  intro position count bytes a d h
  by_cases hlast : typeLimit ≤ count + 1
  · rw [countType_of_le hlast] at h
    cases h
  · refine ⟨[], bytes, count + 1, rfl, fun _ _ => countType_of_lt (Nat.not_le.mp hlast), ?_⟩
    intro front back hsplit hback
    exact absurd (List.append_eq_nil_iff.mp hsplit.symm).2 hback

end Exact

theorem Hungry.param (type : Decode TypeSig) : Hungry (param type) :=
  .modifiers ((Hungry.accept _).bind _)

theorem Hungry.typeWith (nested : Decode TypeSig) : Hungry (typeWith nested) := by
  intro position count t d h
  rw [Decode.typeWith, bind_apply] at h
  by_cases hlast : typeLimit ≤ count + 1
  · rw [countType_of_le hlast] at h
    cases h
  · rw [countType_of_lt (Nat.not_le.mp hlast)] at h
    exact (Hungry.byte.bind _) _ _ _ _ h

namespace Exact

variable {type : Decode TypeSig} (htype : Exact type) (hungry : Hungry type)

include htype hungry

theorem param : Exact (param type) := by
  refine modifiers (fun mods => ?_) (fun mods => (Hungry.accept _).bind _)
    fun _ mods count _ => Starves.accept _ _ _
  exact accept _ (htype.map _) (htype.map _) (hungry.bind _)

theorem fixedParams (n : Nat) : Exact (fixedParams type n) := by
  induction n with
  | zero => exact pure []
  | succ n ih =>
    have hparam := param htype hungry
    exact accept _ (pure []) (hparam.bind fun p => ih.map (p :: ·)) ((Hungry.param type).bind _)

theorem variableParams (vararg : Bool) (n : Nat) : Exact (variableParams type vararg n) :=
  ((param htype hungry).replicate n).ite (pure [])

theorem methodWith : Exact (methodWith type) :=
  byte.bind fun convention => (genericCount convention).bind fun _ =>
    compressedUInt.bind fun paramCount => (param htype hungry).bind fun _ =>
      (fixedParams htype hungry paramCount).bind fun _ =>
        (variableParams htype hungry _ _).bind fun _ => pure _

theorem typeOf (code : UInt8) : Exact (typeOf type code) := by
  have hmodified (wrap : TypeSig → TypeSig) :
      Exact (do let _ ← Decode.modifiers; let t ← type; Pure.pure (wrap t)) :=
    modifiers (fun _ => htype.map wrap) (fun _ => hungry.bind _) fun _ _ _ hstarved => hstarved
  have harray : Exact (do
      let element ← type
      let rank ← lift Read.compressedUInt
      let sizes ← lift Read.compressedUInt
      Decode.discard (lift Read.compressedUInt) sizes
      let lowerBounds ← lift Read.compressedUInt
      Decode.discard (lift Read.compressedUInt) lowerBounds
      return TypeSig.array element rank) :=
    htype.bind fun _ => compressedUInt.bind fun _ => compressedUInt.bind fun sizes =>
      (compressedUInt.discard sizes).bind fun _ => compressedUInt.bind fun bounds =>
        (compressedUInt.discard bounds).bind fun _ => pure _
  unfold Decode.typeOf
  cases simpleType? code with
  | some t => exact pure t
  | none =>
    refine ite (hmodified .pointer) ?_
    refine ite (htype.map _) ?_
    refine ite (compressedToken.map _) ?_
    refine ite (compressedToken.map _) ?_
    refine ite (compressedUInt.map _) ?_
    refine ite harray ?_
    refine ite (peek (fun next => ?_) fun next => ?_) ?_
    · refine ite (htype.bind fun _ => compressedUInt.bind fun count => ?_) (throw _)
      exact (htype.replicate count).map _
    · exact (hungry.bind _).ite (Hungry.throw _)
    refine ite ((methodWith htype hungry).map _) ?_
    refine ite (hmodified .vector) ?_
    refine ite (compressedUInt.map _) ?_
    exact ite (htype.map _) (throw _)

theorem typeWith : Exact (typeWith type) :=
  countType.bind fun _ => byte.bind fun code => typeOf htype hungry code

theorem localType (mods : List Token) (isPinned : Bool) : Exact (localType type mods isPinned) :=
  accept _ (htype.map _) (htype.map _) (hungry.bind _)

theorem localVar : Exact (localVar type) := by
  refine accept _ (pure _) ?_ (Hungry.constraints ((Hungry.accept _).bind _))
  exact constraints (fun found => localType htype hungry found.1 found.2)
    (fun _ => (Hungry.accept _).bind _) fun _ _ _ _ => Starves.accept _ _ _

theorem localsWith : Exact (localsWith type) := by
  refine byte.bind fun head => ite (compressedUInt.bind fun count => ?_) (throw _)
  exact (localVar htype hungry).replicate count

end Exact

theorem Hungry.typeWithin (levels : Nat) : Hungry (typeWithin levels) := by
  cases levels with
  | zero =>
    intro position count t d h
    rw [Decode.typeWithin, bind_apply] at h
    cases hcount : countType ⟨⟨position, []⟩, count⟩ with
    | ok _ d' => simp [hcount, tooManyTypes] at h
    | error e d' => simp [hcount] at h
  | succ levels => exact .typeWith _

theorem Exact.typeWithin (levels : Nat) : Exact (typeWithin levels) := by
  induction levels with
  | zero => exact countType.bind fun _ => throw _
  | succ levels ih => exact ih.typeWith (.typeWithin levels)

theorem Exact.methodSig : Exact methodSig :=
  (Exact.typeWithin typeLimit).methodWith (.typeWithin typeLimit)

theorem Exact.localsSig : Exact localsSig :=
  (Exact.typeWithin typeLimit).localsWith (.typeWithin typeLimit)

/-- If a fresh decoder succeeds on the blob, the bytes it has consumed are bytes of the
blob. Whatever else follows them, it gives the same result from the same bytes, and if
only the first of them are there, it runs out of data. -/
def DecidedByConsumed (x : Decode α) (blob : Bytes) : Prop :=
  ∀ a d, x (Decoder.ofBytes blob) = .ok a d →
    let consumed := d.cursor.position
    consumed ≤ blob.length ∧
      (∀ suffix, x (Decoder.ofBytes (blob.take consumed ++ suffix)) =
        .ok a ⟨⟨consumed, suffix⟩, d.typesRead⟩) ∧
      ∀ k < consumed, ∃ d', x (Decoder.ofBytes (blob.take k)) = .error .outOfBounds d'

theorem Exact.decided {x : Decode α} (hx : Exact x) (blob : Bytes) : DecidedByConsumed x blob := by
  intro a d h consumed
  obtain ⟨bs, rest, count, hblob, hconsumes⟩ := hx _ _ _ _ _ h
  have hread := hconsumes.reads 0 rest
  rw [← hblob, Nat.zero_add] at hread
  obtain ⟨-, rfl⟩ := EStateM.Result.ok.inj (hread.symm.trans h)
  have hlength : consumed = bs.length := rfl
  have htake : blob.take consumed = bs := by rw [hlength, hblob, List.take_left]
  refine ⟨?_, fun suffix => ?_, fun k hk => ?_⟩
  · rw [hlength, hblob, List.length_append]
    omega
  · have hagain := hconsumes.reads 0 suffix
    rw [Nat.zero_add] at hagain
    rw [htake]
    exact hagain
  · have hfront : blob.take k = bs.take k := by
      rw [← htake, List.take_take, Nat.min_eq_left (Nat.le_of_lt hk)]
    rw [hfront]
    refine hconsumes.starves (bs.take k) (bs.drop k) (List.take_append_drop k bs).symm ?_ 0
    exact fun hnone => by
      have hle := List.drop_eq_nil_iff.mp hnone
      omega

/-- A signature is decided by the bytes that are consumed. In particular no shortened
signature is taken for another one, though modifiers and pins may end where the data
end, and though parameters may end at a sentinel. -/
theorem consumed_bytes_decide (blob : Bytes) :
    DecidedByConsumed methodSig blob ∧ DecidedByConsumed localsSig blob :=
  ⟨Exact.methodSig.decided blob, Exact.localsSig.decided blob⟩

/-- A reference with a modifier in return for a modified pointer, and a number behind a
sentinel; two bytes are left over. -/
def sentinelBlob : Bytes :=
  [0x05, 0x02, 0x20, 0x05, 0x10, 0x08, 0x0F, 0x1F, 0x05, 0x08, 0x41, 0x08, 0x1F, 0xFF]

/-- A pinned and modified reference and a typed reference; one byte is left over. -/
def pinnedBlob : Bytes := [0x07, 0x02, 0x45, 0x1F, 0x05, 0x10, 0x1C, 0x16, 0x45]

theorem consumed_bytes_decide_of_sentinel :
    (∃ m d, methodSig (Decoder.ofBytes sentinelBlob) = .ok m d ∧ d.cursor.position = 12 ∧
      (∀ suffix, methodSig (Decoder.ofBytes (sentinelBlob.take 12 ++ suffix)) =
        .ok m ⟨⟨12, suffix⟩, d.typesRead⟩) ∧
      ∀ k < 12, ∃ d', methodSig (Decoder.ofBytes (sentinelBlob.take k)) =
        .error .outOfBounds d') ∧
    ∃ ls d, localsSig (Decoder.ofBytes pinnedBlob) = .ok ls d ∧ d.cursor.position = 8 ∧
      (∀ suffix, localsSig (Decoder.ofBytes (pinnedBlob.take 8 ++ suffix)) =
        .ok ls ⟨⟨8, suffix⟩, d.typesRead⟩) ∧
      ∀ k < 8, ∃ d', localsSig (Decoder.ofBytes (pinnedBlob.take k)) =
        .error .outOfBounds d' := by
  obtain ⟨m, d, hm, hd⟩ : ∃ m d, methodSig (Decoder.ofBytes sentinelBlob) = .ok m d ∧
      d.cursor.position = 12 := ⟨_, _, rfl, rfl⟩
  obtain ⟨ls, d', hls, hd'⟩ : ∃ ls d, localsSig (Decoder.ofBytes pinnedBlob) = .ok ls d ∧
      d.cursor.position = 8 := ⟨_, _, rfl, rfl⟩
  obtain ⟨-, hmethod, htruncated⟩ := (consumed_bytes_decide sentinelBlob).1 m d hm
  obtain ⟨-, hlocals, htruncated'⟩ := (consumed_bytes_decide pinnedBlob).2 ls d' hls
  rw [hd] at hmethod htruncated
  rw [hd'] at hlocals htruncated'
  exact ⟨⟨m, d, hm, hd, hmethod, htruncated⟩, ls, d', hls, hd', hlocals, htruncated'⟩

end ManagedCalls.Decode
