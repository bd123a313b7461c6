import Vuvuzela.Support.Draws
import Vuvuzela.Support.Effects
import Mathlib.Probability.Distributions.Uniform

/-!
# Support — programs that draw from a source

A program takes values from the front of a list, as many as it needs, and leaves the others.  The
values are drawn independently from one law `ν`.  Such a program *draws* from a law `μ` (`Draws`)
when its result says nothing about how far it read: of `n` values it leaves some number, or they do
not suffice; where they suffice, the result is drawn from `μ`, and the values that are left are
independent draws from `ν` as before.

That it does not read for ever is part of it: `n` values do not suffice with probability `c * r ^ n`
at most.  For that to hold of programs one after the other, the values that are left count as well,
`k` of them with `r ^ k` (`weight`).

* `Draws.both`: two programs that draw, one after the other.
* `draws_of_retry`: a loop that takes the first value it accepts.
* `Draws.apply`: each result comes up as often as the law says, among the results that come up.
-/

namespace Vuvuzela.Support

variable {ε σ ρ α β γ : Type}

/-! ### Means -/

/-- The mean of a weight under a law. -/
noncomputable def mean (μ : PMF α) (w : α → ENNReal) : ENNReal := tsum fun a => μ a * w a

theorem mean_pure (a : α) (w : α → ENNReal) : mean (PMF.pure a) w = w a := by
  rw [mean, tsum_eq_single a fun b hb => by rw [PMF.pure_apply_of_ne _ _ hb, zero_mul],
    PMF.pure_apply_self, one_mul]

theorem mean_bind (μ : PMF α) (f : α → PMF β) (w : β → ENNReal) :
    mean (μ.bind f) w = mean μ fun a => mean (f a) w := by
  simp only [mean, PMF.bind_apply, ← ENNReal.tsum_mul_right, ← ENNReal.tsum_mul_left, mul_assoc]
  exact ENNReal.tsum_comm

theorem mean_mono {μ : PMF α} {w w' : α → ENNReal} (h : ∀ a, w a ≤ w' a) : mean μ w ≤ mean μ w' :=
  ENNReal.tsum_le_tsum fun a => mul_le_mul_right (h a) (μ a)

theorem mean_mul_right (μ : PMF α) (w : α → ENNReal) (c : ENNReal) :
    mean μ (fun a => w a * c) = mean μ w * c := by
  simp only [mean, ← mul_assoc, ENNReal.tsum_mul_right]

theorem apply_le_mean (μ : PMF α) {w : α → ENNReal} {a : α} (h : w a = 1) : μ a ≤ mean μ w := by
  rw [← mul_one (μ a), ← h]
  exact ENNReal.le_tsum a

theorem mean_bool (μ : PMF Bool) (w : Bool → ENNReal) :
    mean μ w = μ true * w true + μ false * w false := by
  rw [mean, tsum_fintype, Fintype.sum_bool]

/-! ### A value, or none -/

/-- A value from `μ` where the coin says so. -/
noncomputable def maybe (coin : PMF Bool) (μ : PMF α) : PMF (Option α) :=
  coin.bind fun b => cond b (μ.map some) (PMF.pure none)

theorem map_some_apply (μ : PMF α) (a : α) : (μ.map some) (some a) = μ a := by
  rw [PMF.map_apply, tsum_eq_single a fun b hb => if_neg fun h => hb (Option.some.inj h).symm,
    if_pos rfl]

theorem map_some_none (μ : PMF α) : (μ.map some) none = 0 := by
  rw [PMF.map_apply, ENNReal.tsum_eq_zero]
  exact fun a => if_neg nofun

theorem maybe_some (coin : PMF Bool) (μ : PMF α) (a : α) :
    maybe coin μ (some a) = coin true * μ a := by
  change mean coin (fun b => (cond b (μ.map some) (PMF.pure none) : PMF (Option α)) (some a)) = _
  rw [mean_bool, cond_true, cond_false, map_some_apply,
    PMF.pure_apply_of_ne _ _ (Option.some_ne_none a), mul_zero, add_zero]

theorem maybe_none (coin : PMF Bool) (μ : PMF α) : maybe coin μ none = coin false := by
  change mean coin (fun b => (cond b (μ.map some) (PMF.pure none) : PMF (Option α)) none) = _
  rw [mean_bool, cond_true, cond_false, map_some_none, PMF.pure_apply_self, mul_zero, mul_one,
    zero_add]

theorem add_eq_one (coin : PMF Bool) : coin true + coin false = 1 := by
  rw [← coin.tsum_coe, tsum_fintype, Fintype.sum_bool]

theorem isSome_false (κ : PMF (Option α)) : (κ.map Option.isSome) false = κ none := by
  rw [PMF.map_apply, tsum_eq_single none]
  · simp
  · intro o ho
    cases o with
    | none => exact absurd rfl ho
    | some a => simp

theorem isSome_true (κ : PMF (Option α)) :
    (κ.map Option.isSome) true = tsum fun a => κ (some a) := by
  rw [PMF.map_apply, ← (Option.some_injective α).tsum_eq]
  · simp
  · intro o ho
    cases o with
    | none => simp at ho
    | some a => exact ⟨a, rfl⟩

theorem isSome_true_of_proportion {κ : PMF (Option α)} {μ : PMF α} {p : ENNReal}
    (h : ∀ a, κ (some a) = p * μ a) : (κ.map Option.isSome) true = p := by
  rw [isSome_true]
  simp only [h, ENNReal.tsum_mul_left, μ.tsum_coe, mul_one]

/-- Where the values come up in the proportions of a law, they are drawn from it. -/
theorem eq_maybe {κ : PMF (Option α)} {μ : PMF α} {p : ENNReal} (h : ∀ a, κ (some a) = p * μ a) :
    κ = maybe (κ.map Option.isSome) μ := by
  ext o
  cases o with
  | none => rw [maybe_none, isSome_false]
  | some a => rw [maybe_some, isSome_true_of_proportion h, h]

/-- A function of a value that is drawn uniformly. -/
theorem map_uniform_apply [Fintype α] [Nonempty α] [DecidableEq γ] (f : α → β) (g : β → γ)
    (b : γ) : (((PMF.uniformOfFintype α).map f).map g) b =
      (Finset.univ.filter fun a => b = g (f a)).card * ((Fintype.card α : Nat) : ENNReal)⁻¹ := by
  rw [PMF.map_comp, PMF.map_apply, tsum_fintype]
  simp only [PMF.uniformOfFintype_apply, Function.comp_apply]
  rw [← Finset.sum_filter, Finset.sum_const, nsmul_eq_mul]

/-! ### Drawing -/

/-- The result of a program and what it leaves of the source, where it has a result. -/
def ended : EStateM.Result ε (List ρ) α → Option (α × List ρ)
  | .ok a rest => some (a, rest)
  | .error .. => none

/-- A result from `μ` and as many values as are left of the source; or none. -/
noncomputable def outcome (ν : PMF ρ) (μ : PMF α) : Option Nat → PMF (Option (α × List ρ))
  | none => PMF.pure none
  | some k => μ.bind fun a => (independent ν k).map fun rest => some (a, rest)

/-- What the values that are left count; where they did not suffice, all. -/
noncomputable def weight (r : ENNReal) : Option Nat → ENNReal
  | none => 1
  | some k => r ^ k

/-- `x` draws from `μ`, and goes on with `n` values with probability `c * r ^ n` at most. -/
def Draws (ν : PMF ρ) (r c : ENNReal) (μ : PMF α) (x : EStateM ε (List ρ) α) : Prop :=
  ∀ n, ∃ left : PMF (Option Nat),
    (independent ν n).map (fun reads => ended (x reads)) = left.bind (outcome ν μ) ∧
    mean left (weight r) ≤ c * r ^ n

variable {ν : PMF ρ} {r c d : ENNReal} {μ : PMF α} {κ : PMF β}

theorem draws_pure (a : α) : Draws ν r 1 (PMF.pure a) (pure a : EStateM ε (List ρ) α) := by
  intro n
  refine ⟨PMF.pure (some n), ?_, ?_⟩
  · rw [PMF.pure_bind, outcome, PMF.pure_bind]
    rfl
  · rw [mean_pure, weight, one_mul]

theorem ended_both (x : EStateM ε (List ρ) α) (y : EStateM ε (List ρ) β) (f : α → β → γ)
    (reads : List ρ) :
    ended ((do let a ← x; let b ← y; return f a b : EStateM ε (List ρ) γ) reads) =
      (ended (x reads)).bind fun e => (ended (y e.2)).map (Prod.map (f e.1) id) := by
  simp only [bind, EStateM.bind]
  cases x reads with
  | error e s => rfl
  | ok a rest =>
      simp only [ended, Option.bind_some]
      cases y rest with
      | error e s => rfl
      | ok b rest => rfl

theorem outcome_both (f : α → β → γ) (o : Option Nat) :
    (μ.bind fun a => (outcome ν κ o).map (Option.map (Prod.map (f a) id))) =
      outcome ν (μ.bind fun a => κ.map (f a)) o := by
  cases o with
  | none => simp only [outcome, PMF.pure_map, Option.map_none, PMF.bind_const]
  | some k =>
      simp only [outcome, PMF.map_bind, PMF.map_comp, PMF.bind_bind, PMF.bind_map]
      rfl

/-- **One after the other.**  The second program finds a source as good as the first did, whatever
the first made of it. -/
theorem Draws.both {x : EStateM ε (List ρ) α} {y : EStateM ε (List ρ) β} (hx : Draws ν r c μ x)
    (hy : Draws ν r d κ y) (hd : 1 ≤ d) (f : α → β → γ) :
    Draws ν r (c * d) (μ.bind fun a => κ.map (f a)) (do
      let a ← x
      let b ← y
      return f a b) := by
  intro n
  obtain ⟨left, hlaw, hrate⟩ := hx n
  choose left' hlaw' hrate' using hy
  refine ⟨left.bind fun o => o.elim (PMF.pure none) left', ?_, ?_⟩
  · have hmap := congrArg (PMF.map fun o => o.bind fun e =>
      (ended (y e.2)).map (Prod.map (f e.1) id)) hlaw
    rw [PMF.map_comp, PMF.map_bind] at hmap
    simp only [ended_both]
    refine hmap.trans ?_
    rw [PMF.bind_bind]
    refine congrArg left.bind (funext fun o => ?_)
    cases o with
    | none => simp only [outcome, PMF.pure_map, Option.bind_none, Option.elim, PMF.pure_bind]
    | some k =>
        -- what is left for the second program does not depend on the result of the first
        calc (outcome ν μ (some k)).map (fun o => o.bind fun e =>
                (ended (y e.2)).map (Prod.map (f e.1) id))
            = μ.bind fun a => ((independent ν k).map fun rest => ended (y rest)).map
                (Option.map (Prod.map (f a) id)) := by
              simp only [outcome, PMF.map_bind, PMF.map_comp]
              rfl
          _ = μ.bind fun a => (left' k).bind fun o =>
                (outcome ν κ o).map (Option.map (Prod.map (f a) id)) := by
              simp only [hlaw', PMF.map_bind]
          _ = (left' k).bind (outcome ν (μ.bind fun a => κ.map (f a))) := by
              rw [PMF.bind_comm]
              simp only [outcome_both]
  · rw [mean_bind]
    calc mean left (fun o => mean (o.elim (PMF.pure none) left') (weight r))
        ≤ mean left (fun o => weight r o * d) := by
          refine mean_mono fun o => ?_
          cases o with
          | none => simpa [mean_pure, weight] using hd
          | some k => simpa [weight, mul_comm] using hrate' k
      _ = mean left (weight r) * d := mean_mul_right left _ d
      _ ≤ c * r ^ n * d := mul_le_mul_left hrate d
      _ = c * d * r ^ n := mul_right_comm ..

/-! ### Trying again -/

theorem independent_succ_map {n : Nat} (f : List ρ → β) :
    (independent ν (n + 1)).map f =
      ν.bind fun v => (independent ν n).map fun vs => f (v :: vs) := by
  rw [independent, PMF.map_bind]
  simp only [PMF.map_comp]
  rfl

/-- What a loop leaves of `n` values that takes one after the other, until the coin says so. -/
noncomputable def tries (coin : PMF Bool) : Nat → PMF (Option Nat)
  | 0 => PMF.pure none
  | n + 1 => coin.bind fun b => cond b (PMF.pure (some n)) (tries coin n)

theorem mean_tries {coin : PMF Bool} (hc : 1 ≤ c) (hrate : coin true + coin false * c ≤ c * r) :
    ∀ n, mean (tries coin n) (weight r) ≤ c * r ^ n
  | 0 => by simpa [tries, mean_pure, weight] using hc
  | n + 1 => by
      have ih := mean_tries hc hrate n
      rw [tries, mean_bind, mean_bool]
      simp only [cond_true, cond_false, mean_pure, weight]
      calc coin true * r ^ n + coin false * mean (tries coin n) (weight r)
          ≤ coin true * r ^ n + coin false * (c * r ^ n) := by gcongr
        _ = (coin true + coin false * c) * r ^ n := by ring
        _ ≤ c * r * r ^ n := by gcongr
        _ = c * r ^ (n + 1) := by ring

/-- A loop that accepts at least every other value reads on with a probability that falls by a
quarter with every value. -/
theorem retry_rate {p : ENNReal} (hp : p ≤ 1) (hhalf : 2⁻¹ ≤ p) :
    p + (1 - p) * 2 ≤ 2 * (3 / 4) := by
  have hq : 1 - p ≤ 2⁻¹ := by
    refine tsub_le_iff_right.mpr ?_
    calc (1 : ENNReal) = 2⁻¹ + 2⁻¹ := ENNReal.inv_two_add_inv_two.symm
      _ ≤ 2⁻¹ + p := by gcongr
  have htop : (2 : ENNReal) * (3 / 4) ≠ ⊤ := by
    simp [ENNReal.mul_eq_top, ENNReal.div_eq_top]
  calc p + (1 - p) * 2 = p + (1 - p) + (1 - p) := by ring
    _ = 1 + (1 - p) := by rw [add_tsub_cancel_of_le hp]
    _ ≤ 1 + 2⁻¹ := by gcongr
    _ = 2 * (3 / 4) := by
      rw [← ENNReal.toReal_eq_toReal_iff' (by simp) htop, ENNReal.toReal_add (by simp) (by simp)]
      norm_num

/-- **The first value that is accepted.**  The loop has a state of its own, which the values it
accepts and what it makes of them do not depend on. -/
theorem draws_of_retry {x : σ → EStateM ε (List ρ) α} {I : σ → Prop} (accept : ρ → Option α)
    {p : ENNReal} (hnil : ∀ s, I s → ended (x s []) = none)
    (hsome : ∀ s, I s → ∀ v ∈ ν.support, ∀ a, accept v = some a →
      ∀ reads, x s (v :: reads) = .ok a reads)
    (hnone : ∀ s, I s → ∀ v ∈ ν.support, accept v = none →
      ∃ s', I s' ∧ ∀ reads, x s (v :: reads) = x s' reads)
    (hlaw : ∀ a, (ν.map accept) (some a) = p * μ a) (hc : 1 ≤ c)
    (hrate : p + (1 - p) * c ≤ c * r) {s : σ} (hs : I s) : Draws ν r c μ (x s) := by
  have heq := eq_maybe hlaw
  have hp := isSome_true_of_proportion hlaw
  generalize (ν.map accept).map Option.isSome = coin at heq hp
  have hq : coin false = 1 - coin true := by
    rw [← add_eq_one coin, ENNReal.add_sub_cancel_left (coin.apply_ne_top true)]
  rw [← hp, ← hq] at hrate
  intro n
  refine ⟨tries coin n, ?_, mean_tries hc hrate n⟩
  induction n generalizing s with
  | zero => simp only [independent, tries, PMF.pure_map, PMF.pure_bind, outcome, hnil s hs]
  | succ n ih =>
      -- a value that is accepted ends the loop, any other leaves it as it was
      let next : Option α → PMF (Option (α × List ρ)) := fun o =>
        o.elim ((tries coin n).bind (outcome ν μ))
          fun a => (independent ν n).map fun rest => some (a, rest)
      have hstep : ∀ v ∈ ν.support,
          ((independent ν n).map fun reads => ended (x s (v :: reads))) = next (accept v) := by
        intro v hv
        cases haccept : accept v with
        | some a =>
            simp only [hsome s hs v hv a haccept]
            rfl
        | none =>
            obtain ⟨s', hs', hgo⟩ := hnone s hs v hv haccept
            simp only [hgo]
            exact ih hs'
      calc (independent ν (n + 1)).map (fun reads => ended (x s reads))
          = ν.bind fun v => next (accept v) := by
            rw [independent_succ_map]
            exact bind_congr_support hstep
        _ = (ν.map accept).bind next := (PMF.bind_map ν accept next).symm
        _ = coin.bind fun b => (cond b (μ.map some) (PMF.pure none)).bind next := by
            rw [heq, maybe, PMF.bind_bind]
        _ = (tries coin (n + 1)).bind (outcome ν μ) := by
            rw [tries, PMF.bind_bind]
            refine congrArg coin.bind (funext fun b => ?_)
            cases b with
            | false => simp only [cond_false, PMF.pure_bind]; rfl
            | true => simp only [cond_true, PMF.pure_bind, PMF.bind_map]; rfl

/-! ### What comes up -/

/-- **The law of the result.**  Every result comes up in proportion to the law, and one comes up but
for a probability that vanishes with the number of values. -/
theorem Draws.apply {x : EStateM ε (List ρ) α} (hx : Draws ν r c μ x) (n : Nat) :
    ∃ p, 1 ≤ p + c * r ^ n ∧
      ∀ a, ((independent ν n).map fun reads => (ended (x reads)).map Prod.fst) (some a) =
        p * μ a := by
  obtain ⟨left, hlaw, hrate⟩ := hx n
  refine ⟨(left.map Option.isSome) true, ?_, fun a => ?_⟩
  · rw [← add_eq_one (left.map Option.isSome), isSome_false]
    gcongr
    exact (apply_le_mean left rfl).trans hrate
  · have hmap := congrArg (PMF.map (Option.map Prod.fst)) hlaw
    rw [PMF.map_comp, PMF.map_bind] at hmap
    have hmaybe : (left.bind fun o => (outcome ν μ o).map (Option.map Prod.fst)) =
        maybe (left.map Option.isSome) μ := by
      rw [maybe, PMF.bind_map]
      refine congrArg left.bind (funext fun o => ?_)
      cases o with
      | none => exact PMF.pure_map _ _
      | some k =>
          simp only [outcome, PMF.map_bind, PMF.map_comp]
          exact congrArg μ.bind (funext fun a => PMF.map_const (independent ν k) (some a))
    calc ((independent ν n).map fun reads => (ended (x reads)).map Prod.fst) (some a)
        = maybe (left.map Option.isSome) μ (some a) := by rw [← hmaybe, ← hmap]; rfl
      _ = (left.map Option.isSome) true * μ a := maybe_some ..

end Vuvuzela.Support
