import Mathlib.Data.List.Perm.Basic
import Mathlib.Data.Multiset.Basic
import Mathlib.Probability.ProbabilityMassFunction.Constructions

/-!
# Support — draws that an order does not show in

Two reasons why a law stays the same when its input is put into another order.  A draw in which
every value is as likely as any other may be replaced by its image under a bijection
(`bind_eq_of_equiv`): it is enough to say which draw on the one side does what a draw on the other
side does.  And values drawn independently, one for each entry of a list, are to the entries what
they would be in any other order (`independent_zip`).
-/

namespace Vuvuzela.Support

variable {α β γ : Type}

/-- Only the values a draw may have count. -/
theorem map_congr_support {μ : PMF α} {f g : α → β} (h : ∀ a ∈ μ.support, f a = g a) :
    μ.map f = μ.map g := by
  ext b
  rw [PMF.map_apply, PMF.map_apply]
  refine tsum_congr fun a => ?_
  by_cases ha : a ∈ μ.support
  · rw [h a ha]
  · rw [(PMF.apply_eq_zero_iff μ a).mpr ha, ite_self, ite_self]

theorem bind_congr_support {μ : PMF α} {f g : α → PMF β} (h : ∀ a ∈ μ.support, f a = g a) :
    μ.bind f = μ.bind g := by
  ext b
  rw [PMF.bind_apply, PMF.bind_apply]
  refine tsum_congr fun a => ?_
  by_cases ha : a ∈ μ.support
  · rw [h a ha]
  · rw [(PMF.apply_eq_zero_iff μ a).mpr ha, zero_mul, zero_mul]

/-! ### Equally likely values -/

section Constant

variable {μ : PMF α} {c : ENNReal}

/-- A bijection keeps a law in which every value is equally likely. -/
theorem map_equiv (hμ : ∀ a, μ a = c) (e : α ≃ α) : μ.map e = μ := by
  ext a
  rw [PMF.map_apply, tsum_eq_single (e.symm a), if_pos (e.apply_symm_apply a).symm, hμ, hμ]
  intro b hb
  exact if_neg fun h => hb (by rw [h, e.symm_apply_apply])

/-- **One draw in place of another.** -/
theorem bind_eq_of_equiv (hμ : ∀ a, μ a = c) (e : α ≃ α) {f g : α → PMF β}
    (h : ∀ a, g (e a) = f a) : μ.bind f = μ.bind g := by
  conv_rhs => rw [← map_equiv hμ e, PMF.bind_map]
  exact congrArg μ.bind (funext fun a => (h a).symm)

end Constant

/-! ### Independent values -/

/-- Values drawn independently, one after the other. -/
noncomputable def independent (ν : PMF α) : Nat → PMF (List α)
  | 0 => PMF.pure []
  | n + 1 => ν.bind fun a => (independent ν n).map (a :: ·)

variable (ν : PMF α)

theorem length_of_mem_independent :
    ∀ {n : Nat} {as : List α}, as ∈ (independent ν n).support → as.length = n
  | 0, as, h => by
      obtain rfl := (PMF.mem_support_pure_iff _ _).mp h
      rfl
  | n + 1, as, h => by
      obtain ⟨a, -, h⟩ := (PMF.mem_support_bind_iff _ _ _).mp h
      obtain ⟨as, has, rfl⟩ := (PMF.mem_support_map_iff _ _ _).mp h
      rw [List.length_cons, length_of_mem_independent has]

/-- The values of one more entry are drawn before those of the others. -/
theorem map_zip_cons (b : β) (l : List β) :
    (independent ν (b :: l).length).map (fun as => ((b :: l).zip as : Multiset (β × α))) =
      ν.bind fun a => ((independent ν l.length).map
        fun as => (l.zip as : Multiset (β × α))).map ((b, a) ::ₘ ·) := by
  rw [List.length_cons, independent, PMF.map_bind]
  refine congrArg ν.bind (funext fun a => ?_)
  rw [PMF.map_comp, PMF.map_comp]
  rfl

/-- **The order of the entries does not show in the values.** -/
theorem independent_zip {l l' : List β} (h : l.Perm l') :
    (independent ν l.length).map (fun as => (l.zip as : Multiset (β × α))) =
      (independent ν l'.length).map fun as => (l'.zip as : Multiset (β × α)) := by
  induction h with
  | nil => rfl
  | cons b _ ih => rw [map_zip_cons, map_zip_cons, ih]
  | swap b b' l =>
      -- the values of the two entries are drawn one after the other, in either order
      simp only [map_zip_cons, PMF.map_bind, PMF.map_comp]
      rw [PMF.bind_comm]
      refine congrArg ν.bind (funext fun a => congrArg ν.bind (funext fun a' => ?_))
      exact congrArg (fun f => PMF.map f _)
        (funext fun as => Multiset.cons_swap (b', a') (b, a) (l.zip as))
  | trans _ _ ih₁ ih₂ => exact ih₁.trans ih₂

end Vuvuzela.Support
