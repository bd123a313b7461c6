import Mathlib.Data.List.Basic

/-!
# Support — stateful programs that may stop

A handler is a program of `EStateM ε σ α`: it reads and writes a state of type `σ`, and ends
with a result or with a fault of type `ε`.  The state a fault leaves behind is kept, so a
handler that fails half way leaves its half of the writes.

* `bind_eq_ok`, `bind_of_ok`, `bind_of_error`: how a sequence ends, from how its parts end.
* `onFst`, `onSnd`: a program on one half of a pair of states.
* `mapFault`: a program whose faults are translated.
-/

namespace Vuvuzela.Support

variable {ε σ τ α β : Type}

/-! ### Sequencing -/

theorem bind_eq_ok {x : EStateM ε σ α} {f : α → EStateM ε σ β} {s s' : σ} {b : β} :
    (x >>= f) s = .ok b s' ↔ ∃ a s₁, x s = .ok a s₁ ∧ f a s₁ = .ok b s' := by
  simp only [bind, EStateM.bind]
  cases x s with
  | ok a s₁ => simp
  | error e s₁ => simp

/-- The same for a program without a state. -/
theorem except_bind_eq_ok {x : Except ε α} {f : α → Except ε β} {b : β} :
    x >>= f = .ok b ↔ ∃ a, x = .ok a ∧ f a = .ok b := by
  simp only [bind, Except.bind]
  cases x with
  | error e => simp
  | ok a => simp

@[simp] theorem pure_eq (a : α) (s : σ) : (pure a : EStateM ε σ α) s = .ok a s := rfl

@[simp] theorem throw_eq (e : ε) (s : σ) : (throw e : EStateM ε σ α) s = .error e s := rfl

@[simp] theorem get_eq (s : σ) : (get : EStateM ε σ σ) s = .ok s s := rfl

/-- A sequence whose first part ends with a result goes on with the second. -/
theorem bind_of_ok {x : EStateM ε σ α} {f : α → EStateM ε σ β} {s s₁ : σ} {a : α}
    (h : x s = .ok a s₁) : (x >>= f) s = f a s₁ := by
  simp only [bind, EStateM.bind, h]

/-- A sequence whose first part ends with a fault ends there. -/
theorem bind_of_error {x : EStateM ε σ α} {f : α → EStateM ε σ β} {s s₁ : σ} {e : ε}
    (h : x s = .error e s₁) : (x >>= f) s = .error e s₁ := by
  simp only [bind, EStateM.bind, h]

/-! ### Programs on one half of a state -/

/-- Run `x` on the first half of the state. -/
def onFst (x : EStateM ε σ α) : EStateM ε (σ × τ) α := fun p =>
  match x p.1 with
  | .ok a s => .ok a (s, p.2)
  | .error e s => .error e (s, p.2)

/-- Run `x` on the second half of the state. -/
def onSnd (x : EStateM ε τ α) : EStateM ε (σ × τ) α := fun p =>
  match x p.2 with
  | .ok a t => .ok a (p.1, t)
  | .error e t => .error e (p.1, t)

theorem onFst_eq_ok {x : EStateM ε σ α} {p q : σ × τ} {a : α} :
    onFst x p = .ok a q ↔ x p.1 = .ok a q.1 ∧ q.2 = p.2 := by
  obtain ⟨s', t'⟩ := q
  simp only [onFst]
  cases x p.1 with
  | ok a s => simp; tauto
  | error e s => simp

theorem onFst_eq_error {x : EStateM ε σ α} {p q : σ × τ} {e : ε} :
    onFst x p = .error e q ↔ x p.1 = .error e q.1 ∧ q.2 = p.2 := by
  obtain ⟨s', t'⟩ := q
  simp only [onFst]
  cases x p.1 with
  | ok a s => simp
  | error e s => simp; tauto

theorem onSnd_eq_ok {x : EStateM ε τ α} {p q : σ × τ} {a : α} :
    onSnd x p = .ok a q ↔ x p.2 = .ok a q.2 ∧ q.1 = p.1 := by
  obtain ⟨s', t'⟩ := q
  simp only [onSnd]
  cases x p.2 with
  | ok a t => simp; tauto
  | error e t => simp

theorem onSnd_eq_error {x : EStateM ε τ α} {p q : σ × τ} {e : ε} :
    onSnd x p = .error e q ↔ x p.2 = .error e q.2 ∧ q.1 = p.1 := by
  obtain ⟨s', t'⟩ := q
  simp only [onSnd]
  cases x p.2 with
  | ok a t => simp
  | error e t => simp; tauto

theorem onFst_of_ok {x : EStateM ε σ α} {s s' : σ} {a : α} (t : τ) (h : x s = .ok a s') :
    onFst x (s, t) = .ok a (s', t) := onFst_eq_ok.mpr ⟨h, rfl⟩

theorem onFst_of_error {x : EStateM ε σ α} {s s' : σ} {e : ε} (t : τ) (h : x s = .error e s') :
    onFst x (s, t) = .error e (s', t) := onFst_eq_error.mpr ⟨h, rfl⟩

theorem onSnd_of_ok {x : EStateM ε τ α} {t t' : τ} {a : α} (s : σ) (h : x t = .ok a t') :
    onSnd x (s, t) = .ok a (s, t') := onSnd_eq_ok.mpr ⟨h, rfl⟩

theorem onSnd_of_error {x : EStateM ε τ α} {t t' : τ} {e : ε} (s : σ) (h : x t = .error e t') :
    onSnd x (s, t) = .error e (s, t') := onSnd_eq_error.mpr ⟨h, rfl⟩

/-! ### Translated faults -/

/-- `x`, with its faults translated by `f`. -/
def mapFault (f : ε → ε) (x : EStateM ε σ α) : EStateM ε σ α := fun s =>
  match x s with
  | .ok a s' => .ok a s'
  | .error e s' => .error (f e) s'

@[simp] theorem mapFault_eq_ok {f : ε → ε} {x : EStateM ε σ α} {s s' : σ} {a : α} :
    mapFault f x s = .ok a s' ↔ x s = .ok a s' := by
  simp only [mapFault]
  cases x s <;> simp

theorem mapFault_eq_error {f : ε → ε} {x : EStateM ε σ α} {s s' : σ} {e : ε} :
    mapFault f x s = .error e s' ↔ ∃ e₀, x s = .error e₀ s' ∧ f e₀ = e := by
  simp only [mapFault]
  cases x s with
  | ok a s₁ => simp
  | error e₀ s₁ => simp; tauto

theorem mapFault_of_error {f : ε → ε} {x : EStateM ε σ α} {s s' : σ} {e : ε}
    (h : x s = .error e s') : mapFault f x s = .error (f e) s' :=
  mapFault_eq_error.mpr ⟨e, h, rfl⟩

end Vuvuzela.Support
