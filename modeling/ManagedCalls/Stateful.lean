/-!
Reads, decodings and actions are stateful computations that keep their state
when they fail. These equations run such a computation on a state. A run has an
outcome and a state after it, whether it fails or not.
-/

namespace ManagedCalls.Stateful

variable {ε σ α β : Type}

@[simp] theorem bind_apply (x : EStateM ε σ α) (f : α → EStateM ε σ β) (s : σ) :
    (x >>= f) s =
      match x s with
      | .ok a s' => f a s'
      | .error e s' => .error e s' := rfl

@[simp] theorem pure_apply (a : α) (s : σ) : (pure a : EStateM ε σ α) s = .ok a s := rfl

@[simp] theorem map_apply (f : α → β) (x : EStateM ε σ α) (s : σ) :
    (f <$> x) s =
      match x s with
      | .ok a s' => .ok (f a) s'
      | .error e s' => .error e s' := rfl

@[simp] theorem throw_apply (e : ε) (s : σ) : (throw e : EStateM ε σ α) s = .error e s := rfl

@[simp] theorem get_apply (s : σ) : (get : EStateM ε σ σ) s = .ok s s := rfl

@[simp] theorem set_apply (s s' : σ) : (set s' : EStateM ε σ PUnit) s = .ok ⟨⟩ s' := rfl

@[simp] theorem modify_apply (f : σ → σ) (s : σ) :
    (modify f : EStateM ε σ PUnit) s = .ok ⟨⟩ (f s) := rfl

theorem bind_of_ok {x : EStateM ε σ α} {f : α → EStateM ε σ β} {a : α} {s s' : σ}
    (h : x s = .ok a s') : (x >>= f) s = f a s' := by
  rw [bind_apply, h]

theorem bind_of_error {x : EStateM ε σ α} {f : α → EStateM ε σ β} {e : ε} {s s' : σ}
    (h : x s = .error e s') : (x >>= f) s = .error e s' := by
  rw [bind_apply, h]

def outcome (x : EStateM ε σ α) (s : σ) : Except ε α :=
  match x s with
  | .ok a _ => .ok a
  | .error e _ => .error e

def after (x : EStateM ε σ α) (s : σ) : σ :=
  match x s with
  | .ok _ s' => s'
  | .error _ s' => s'

theorem after_of_ok {x : EStateM ε σ α} {a : α} {s s' : σ} (h : x s = .ok a s') :
    after x s = s' := by
  rw [after, h]

theorem outcome_of_ok {x : EStateM ε σ α} {a : α} {s s' : σ} (h : x s = .ok a s') :
    outcome x s = .ok a := by
  rw [outcome, h]

theorem outcome_of_error {x : EStateM ε σ α} {e : ε} {s s' : σ} (h : x s = .error e s') :
    outcome x s = .error e := by
  rw [outcome, h]

theorem after_of_error {x : EStateM ε σ α} {e : ε} {s s' : σ} (h : x s = .error e s') :
    after x s = s' := by
  rw [after, h]

theorem after_bind_of_ok {x : EStateM ε σ α} {f : α → EStateM ε σ β} {a : α} {s s' : σ}
    (h : x s = .ok a s') : after (x >>= f) s = after (f a) s' := by
  rw [after, bind_apply, h, after]

theorem after_bind_of_error {x : EStateM ε σ α} {f : α → EStateM ε σ β} {e : ε} {s s' : σ}
    (h : x s = .error e s') : after (x >>= f) s = s' := by
  rw [after, bind_apply, h]

theorem after_discard (x : EStateM ε σ α) (s : σ) :
    after (do let _ ← x) s = after x s := by
  cases h : x s with
  | ok a s' => simp [after, h]
  | error e s' => simp [after, h]

end ManagedCalls.Stateful
