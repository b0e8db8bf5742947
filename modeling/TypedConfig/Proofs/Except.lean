/-!
# Sequences that may fail

When two steps in a row succeed, and how they fail, without a state and with one; and what a
sequence of steps yields, a result with one property or an error with another (`Yields`).
-/

namespace TypedConfig

variable {ε α β : Type} {x : Except ε α} {f : α → Except ε β}

theorem bind_eq_ok {b : β} : x >>= f = .ok b ↔ ∃ a, x = .ok a ∧ f a = .ok b := by
  cases x with
  | error e => simp [bind, Except.bind]
  | ok a => simp [bind, Except.bind]

theorem bind_eq_error {e : ε} :
    x >>= f = .error e ↔ x = .error e ∨ ∃ a, x = .ok a ∧ f a = .error e := by
  cases x with
  | error e => simp [bind, Except.bind]
  | ok a => simp [bind, Except.bind]

section State

variable {σ : Type} {x : EStateM ε σ α} {f : α → EStateM ε σ β} {s s' : σ}

theorem run_bind_eq_ok {b : β} :
    (x >>= f) s = .ok b s' ↔ ∃ a r, x s = .ok a r ∧ f a r = .ok b s' := by
  simp only [Bind.bind, EStateM.bind]
  cases hx : x s with
  | ok a r =>
    constructor
    · exact fun h => ⟨a, r, rfl, h⟩
    · rintro ⟨a, r, ⟨⟩, h⟩
      exact h
  | error e r => simp

theorem run_bind_eq_error {e : ε} :
    (x >>= f) s = .error e s' ↔ x s = .error e s' ∨ ∃ a r, x s = .ok a r ∧ f a r = .error e s' := by
  simp only [Bind.bind, EStateM.bind]
  cases hx : x s with
  | ok a r =>
    constructor
    · exact fun h => .inr ⟨a, r, rfl, h⟩
    · rintro (⟨⟨⟩⟩ | ⟨a, r, ⟨⟩, h⟩)
      exact h
  | error e r => simp

end State

/-- A result has the one property, an error the other. -/
def Yields (x : Except ε α) (P : α → Prop) (W : ε → Prop) : Prop :=
  match x with
  | .ok a => P a
  | .error e => W e

namespace Yields

variable {P P' : α → Prop} {Q : β → Prop} {W W' : ε → Prop}

theorem mono (h : Yields x P W) (hP : ∀ a, P a → P' a) (hW : ∀ e, W e → W' e) :
    Yields x P' W' := by
  cases x with
  | ok a => exact hP a h
  | error e => exact hW e h

theorem bind (hx : Yields x P W) (hf : ∀ a, P a → Yields (f a) Q W) : Yields (x >>= f) Q W := by
  cases x with
  | ok a => exact hf a hx
  | error e => exact hx

theorem of_eq_ok {a : α} (h : Yields x P W) (hx : x = .ok a) : P a := by
  rw [hx] at h
  exact h

theorem of_eq_error {e : ε} (h : Yields x P W) (hx : x = .error e) : W e := by
  rw [hx] at h
  exact h

end Yields

end TypedConfig
