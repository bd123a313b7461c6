import Vuvuzela.Support.Effects

/-!
# Support — programs from two states

Two programs simulate each other along a relation on their states if, started from states in the
relation, they end alike: with one result or with one fault, and in states in the relation.  A
program that simulates itself cannot tell the states of the relation apart.

The rules follow the ways programs are put together: `Simulates.bind`, `Simulates.ite` and, for
programs on one half of a pair, `Simulates.onFst` and `Simulates.onSnd`.
-/

namespace Vuvuzela.Support

variable {ε σ τ ρ α β : Type} {R : σ → τ → Prop}

/-- One result or one fault, in states in the relation. -/
inductive Alike (R : σ → τ → Prop) : EStateM.Result ε σ α → EStateM.Result ε τ α → Prop where
  | ok {a : α} {s : σ} {t : τ} (h : R s t) : Alike R (.ok a s) (.ok a t)
  | error {e : ε} {s : σ} {t : τ} (h : R s t) : Alike R (.error e s) (.error e t)

theorem Alike.mono {S : σ → τ → Prop} (hRS : ∀ s t, R s t → S s t)
    {x : EStateM.Result ε σ α} {y : EStateM.Result ε τ α} (h : Alike R x y) : Alike S x y := by
  cases h with
  | ok h => exact .ok (hRS _ _ h)
  | error h => exact .error (hRS _ _ h)

/-- From states in the relation, the programs end alike. -/
def Simulates (R : σ → τ → Prop) (x : EStateM ε σ α) (y : EStateM ε τ α) : Prop :=
  ∀ ⦃s : σ⦄ ⦃t : τ⦄, R s t → Alike R (x s) (y t)

/-- Both return. -/
theorem Simulates.result (a : α) :
    Simulates R (pure a : EStateM ε σ α) (pure a : EStateM ε τ α) := fun _ _ h => .ok h

/-- Both throw. -/
theorem Simulates.fail (e : ε) :
    Simulates R (throw e : EStateM ε σ α) (throw e : EStateM ε τ α) := fun _ _ h => .error h

/-- Both change their state, within the relation. -/
theorem Simulates.change {f : σ → σ} {g : τ → τ} (hfg : ∀ s t, R s t → R (f s) (g t)) :
    Simulates R (modify f : EStateM ε σ Unit) (modify g : EStateM ε τ Unit) :=
  fun s t h => .ok (hfg s t h)

/-- Sequences, part by part. -/
theorem Simulates.bind {x : EStateM ε σ α} {y : EStateM ε τ α} {f : α → EStateM ε σ β}
    {g : α → EStateM ε τ β} (hx : Simulates R x y) (hf : ∀ a, Simulates R (f a) (g a)) :
    Simulates R (x >>= f) (y >>= g) := by
  intro s t h
  have hend := hx h
  generalize hs : x s = rx at hend
  generalize ht : y t = ry at hend
  cases hend with
  | ok hR =>
      rw [bind_of_ok hs, bind_of_ok ht]
      exact hf _ hR
  | error hR =>
      rw [bind_of_error hs, bind_of_error ht]
      exact .error hR

/-- A test that reads no state. -/
theorem Simulates.ite {c : Prop} [Decidable c] {x x' : EStateM ε σ α} {y y' : EStateM ε τ α}
    (hx : Simulates R x y) (hx' : Simulates R x' y') :
    Simulates R (if c then x else x') (if c then y else y') := by
  split
  · exact hx
  · exact hx'

/-! ### Pairs of states -/

/-- The first halves are in the relation, and the second halves are the same. -/
def Beside (R : σ → τ → Prop) (p : σ × ρ) (q : τ × ρ) : Prop := R p.1 q.1 ∧ p.2 = q.2

theorem Simulates.onFst {x : EStateM ε σ α} {y : EStateM ε τ α} (h : Simulates R x y) :
    Simulates (Beside (ρ := ρ) R) (Support.onFst x) (Support.onFst y) := by
  rintro ⟨s, u⟩ ⟨t, v⟩ ⟨hR, huv⟩
  cases huv
  have hend := h hR
  generalize hs : x s = rx at hend
  generalize ht : y t = ry at hend
  cases hend with
  | ok hR' =>
      rw [onFst_of_ok u hs, onFst_of_ok u ht]
      exact .ok ⟨hR', rfl⟩
  | error hR' =>
      rw [onFst_of_error u hs, onFst_of_error u ht]
      exact .error ⟨hR', rfl⟩

/-- A program on the second halves, which are the same. -/
theorem Simulates.onSnd (x : EStateM ε ρ α) :
    Simulates (Beside R) (Support.onSnd x) (Support.onSnd x) := by
  rintro ⟨s, u⟩ ⟨t, v⟩ ⟨hR, huv⟩
  cases huv
  cases hx : x u with
  | ok a u' =>
      rw [onSnd_of_ok s hx, onSnd_of_ok t hx]
      exact .ok ⟨hR, rfl⟩
  | error e u' =>
      rw [onSnd_of_error s hx, onSnd_of_error t hx]
      exact .error ⟨hR, rfl⟩

end Vuvuzela.Support
