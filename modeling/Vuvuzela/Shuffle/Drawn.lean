import Vuvuzela.Shuffle.Permutations
import Vuvuzela.Shuffle.Uniform
import Vuvuzela.Support.Sources

/-!
# Shuffle — the law of a shuffler

`independentIndices` is the law of the shufflers that `NewShuffler` draws.  The reads of the source
are four bytes each, independent and uniform (`uniformRead`).  `Intn` throws away a draw that is too
large and tries again, so that its value, but not the number of its reads, is uniform
(`intn_draws`); `NewShuffler` makes its calls one after the other on what is left of the source
(`newShuffler_draws`).  A draw is thrown away with probability one half at most, so that the reads
suffice almost always, when there are many.
-/

namespace Vuvuzela
open Support

/-- A read that fills the buffer with four bytes, every four as likely as any other. -/
noncomputable def uniformRead : PMF ReadCall :=
  (PMF.uniformOfFintype (Fin (256 ^ 4))).map fun x : Fin (256 ^ 4) => .wrote (beBytes 4 x)

/-- What `Intn` makes of a read that fills the buffer. -/
def intnValue (n : UInt32) : ReadCall → Option Nat
  | .failed => none
  | .wrote b => if accepts n (uint32 b) then some (uint32 b % n).toNat else none

theorem of_mem_support_uniformRead {call : ReadCall} (h : call ∈ uniformRead.support) :
    ∃ b, call = .wrote b ∧ b.length = 4 := by
  obtain ⟨x, -, rfl⟩ := (PMF.mem_support_map_iff _ _ _).mp h
  exact ⟨_, rfl, length_beBytes 4 x⟩

theorem fillBuffer_of_length {r b : Bytes} (hr : r.length = 4) (hb : b.length = 4) :
    fillBuffer r b = b := by
  rw [fillBuffer, hr, hb, List.take_of_length_le hb.le, List.drop_of_length_le hr.le,
    List.append_nil]

/-! ### One value -/

theorem intnValue_eq_some {n : UInt32} {b : Bytes} {v : Nat} :
    intnValue n (.wrote b) = some v ↔ accepts n (uint32 b) = true ∧ (uint32 b % n).toNat = v := by
  rw [intnValue]
  split
  · rename_i h
    simp [h]
  · rename_i h
    simp [h]

/-- The draws that give a value are as many for each. -/
theorem card_intnValue {n : UInt32} {v : Nat} (hv : v < n.toNat) :
    (Finset.univ.filter fun x : Fin (256 ^ 4) =>
      some v = intnValue n (.wrote (beBytes 4 x))).card = (2 ^ 32 - 1) / n.toNat := by
  have hinj : Function.Injective fun x : Fin (256 ^ 4) => beBytes 4 x := by
    intro x y h
    have hnat := congrArg beNat h
    simp only [beNat_beBytes x.2, beNat_beBytes y.2] at hnat
    exact Fin.ext hnat
  rw [← ncard_draws_of_value hv, ← Set.ncard_coe_finset, ← Set.ncard_image_of_injective _ hinj]
  congr 1
  ext b
  simp only [Finset.coe_filter, Finset.mem_univ, true_and, Set.mem_image, Set.mem_ofPred_eq]
  constructor
  · rintro ⟨x, hx, rfl⟩
    exact ⟨length_beBytes 4 x, intnValue_eq_some.mp hx.symm⟩
  · rintro ⟨hb, hx⟩
    have hlt : beNat b < 256 ^ 4 := hb ▸ beNat_lt b
    have hback : beBytes 4 (beNat b) = b :=
      beNat_inj (by rw [length_beBytes, hb]) (beNat_beBytes hlt)
    refine ⟨⟨beNat b, hlt⟩, ?_, hback⟩
    exact hback.symm ▸ (intnValue_eq_some.mpr hx).symm

theorem map_intnValue_apply (n : UInt32) (o : Option Nat) :
    (uniformRead.map (intnValue n)) o =
      (Finset.univ.filter fun x : Fin (256 ^ 4) => o = intnValue n (.wrote (beBytes 4 x))).card *
        ((256 ^ 4 : Nat) : ENNReal)⁻¹ := by
  rw [uniformRead, map_uniform_apply, Fintype.card_fin]

/-- The probability that a draw is accepted. -/
noncomputable def acceptance (n : Nat) : ENNReal :=
  (n * ((2 ^ 32 - 1) / n) : Nat) * ((256 ^ 4 : Nat) : ENNReal)⁻¹

theorem acceptance_le_one (n : Nat) : acceptance n ≤ 1 := by
  have hle : n * ((2 ^ 32 - 1) / n) ≤ 256 ^ 4 := (Nat.mul_div_le _ n).trans (by decide)
  calc acceptance n ≤ ((256 ^ 4 : Nat) : ENNReal) * ((256 ^ 4 : Nat) : ENNReal)⁻¹ := by
        rw [acceptance]
        gcongr
    _ = 1 := ENNReal.mul_inv_cancel (by simp) (ENNReal.natCast_ne_top _)

/-- At least half of the draws are below the bound. -/
theorem half_le_acceptance {n : Nat} (hpos : 0 < n) (hn : n < 2 ^ 32) :
    2⁻¹ ≤ acceptance n := by
  have hhalf : 2 ^ 31 ≤ n * ((2 ^ 32 - 1) / n) := by
    have hmod := Nat.div_add_mod (2 ^ 32 - 1) n
    have hlt := Nat.mod_lt (2 ^ 32 - 1) hpos
    have hone : n * 1 ≤ n * ((2 ^ 32 - 1) / n) :=
      Nat.mul_le_mul_left n (Nat.div_pos (by omega) hpos)
    omega
  have hw : ((256 ^ 4 : Nat) : ENNReal) = 2 * ((2 ^ 31 : Nat) : ENNReal) := by
    rw [show (256 ^ 4 : Nat) = 2 * 2 ^ 31 by decide, Nat.cast_mul, Nat.cast_ofNat]
  calc (2⁻¹ : ENNReal) = ((2 ^ 31 : Nat) : ENNReal) * ((256 ^ 4 : Nat) : ENNReal)⁻¹ := by
        rw [hw, ENNReal.mul_inv (by simp) (by simp), mul_left_comm,
          ENNReal.mul_inv_cancel (by simp) (ENNReal.natCast_ne_top _), mul_one]
    _ ≤ acceptance n := by
        rw [acceptance]
        gcongr

/-- Uniform values below a bound. -/
noncomputable def uniformBelow (n : Nat) [NeZero n] : PMF Nat :=
  (PMF.uniformOfFintype (Fin n)).map Fin.val

theorem uniformBelow_of_lt {n v : Nat} [NeZero n] (hv : v < n) :
    uniformBelow n v = (n : ENNReal)⁻¹ := by
  rw [uniformBelow, PMF.map_apply, tsum_eq_single ⟨v, hv⟩, if_pos rfl, PMF.uniformOfFintype_apply,
    Fintype.card_fin]
  intro j hj
  exact if_neg fun h => hj (Fin.ext h.symm)

theorem uniformBelow_of_not_lt {n v : Nat} [NeZero n] (hv : ¬ v < n) : uniformBelow n v = 0 := by
  rw [uniformBelow, PMF.map_apply, ENNReal.tsum_eq_zero]
  intro j
  refine if_neg fun h => hv ?_
  rw [h]
  exact j.2

/-- **One draw.**  A value below the bound comes up as often as any other. -/
theorem map_intnValue_some {n : Nat} (hn : n + 1 < 2 ^ 32) (v : Nat) :
    (uniformRead.map (intnValue (UInt32.ofNat (n + 1)))) (some v) =
      acceptance (n + 1) * uniformBelow (n + 1) v := by
  have hnat : (UInt32.ofNat (n + 1)).toNat = n + 1 := UInt32.toNat_ofNat_of_lt' hn
  rw [map_intnValue_apply]
  by_cases hv : v < n + 1
  · rw [card_intnValue (by rwa [hnat]), hnat, uniformBelow_of_lt hv, acceptance, Nat.cast_mul,
      mul_right_comm, mul_right_comm ((n + 1 : Nat) : ENNReal),
      ENNReal.mul_inv_cancel (by simp) (ENNReal.natCast_ne_top _), one_mul]
  · rw [uniformBelow_of_not_lt hv, mul_zero, Finset.filter_eq_empty_iff.mpr, Finset.card_empty,
      Nat.cast_zero, zero_mul]
    intro x _ h
    obtain ⟨-, hmod⟩ := intnValue_eq_some.mp h.symm
    have hlt := Nat.mod_lt (uint32 (beBytes 4 x)).toNat (by omega : 0 < n + 1)
    rw [UInt32.toNat_mod, hnat] at hmod
    omega

/-! ### All of them -/

theorem intnLoop_of_some {n : UInt32} {r b : Bytes} {v : Nat} (hr : r.length = 4)
    (hb : b.length = 4) (hv : intnValue n (.wrote b) = some v) (reads : List ReadCall) :
    intnLoop n r (.wrote b :: reads) = .ok v reads := by
  obtain ⟨haccept, rfl⟩ := intnValue_eq_some.mp hv
  rw [intnLoop, fillBuffer_of_length hr hb, if_pos (of_decide_eq_true haccept)]

theorem intnLoop_of_none {n : UInt32} {r b : Bytes} (hr : r.length = 4) (hb : b.length = 4)
    (hnone : intnValue n (.wrote b) = none) (reads : List ReadCall) :
    intnLoop n r (.wrote b :: reads) = intnLoop n b reads := by
  have hreject : ¬ uint32 b < intnBound n := by
    intro h
    have haccept : accepts n (uint32 b) = true := decide_eq_true h
    rw [intnValue, if_pos haccept] at hnone
    cases hnone
  rw [intnLoop, fillBuffer_of_length hr hb, if_neg hreject]

/-- `Intn` draws uniformly. -/
theorem intn_draws {n : Nat} (hn : n + 1 < 2 ^ 32) :
    Draws uniformRead (3 / 4) 2 (uniformBelow (n + 1)) (intn (n + 1)) := by
  have hne : UInt32.ofNat (n + 1) ≠ 0 := by
    intro h
    have hnat : (UInt32.ofNat (n + 1)).toNat = n + 1 := UInt32.toNat_ofNat_of_lt' hn
    rw [h] at hnat
    cases hnat
  have hintn : intn (n + 1) = intnLoop (UInt32.ofNat (n + 1)) (List.replicate 4 0) := by
    funext reads
    rw [intn, if_neg hne]
  have hrate := retry_rate (acceptance_le_one (n + 1)) (half_le_acceptance (Nat.succ_pos n) hn)
  rw [hintn]
  refine draws_of_retry (intnValue (UInt32.ofNat (n + 1))) (I := fun r => r.length = 4)
    (fun r _ => rfl) ?_ ?_ (map_intnValue_some hn) (by norm_num) hrate rfl
  · intro r hr call hcall v hv reads
    obtain ⟨b, rfl, hb⟩ := of_mem_support_uniformRead hcall
    exact intnLoop_of_some hr hb hv reads
  · intro r hr call hcall hnone
    obtain ⟨b, rfl, hb⟩ := of_mem_support_uniformRead hcall
    exact ⟨b, hb, intnLoop_of_none hr hb hnone⟩

/-- **`NewShuffler` draws its indices independently**, each uniformly from its own range. -/
theorem newShuffler_draws {n : Nat} (hn : n < 2 ^ 32) :
    Draws uniformRead (3 / 4) (2 ^ n) ((independentIndices n).map fun s => s.1)
      (newShuffler n) := by
  induction n with
  | zero =>
      have hlaw : ((independentIndices 0).map fun s => s.1) = PMF.pure [] := PMF.pure_map _ _
      rw [hlaw, pow_zero]
      exact draws_pure []
  | succ n ih =>
      have hboth := (ih (by omega)).both (intn_draws hn) (by norm_num) fun p j => p ++ [j]
      have hlaw : ((independentIndices (n + 1)).map fun s => s.1) =
          ((independentIndices n).map fun s => s.1).bind fun p =>
            (uniformBelow (n + 1)).map fun j => p ++ [j] := by
        rw [independentIndices, PMF.map_bind, PMF.bind_map]
        refine congrArg (independentIndices n).bind (funext fun s => ?_)
        rw [Function.comp_apply, uniformBelow, PMF.map_comp, PMF.map_comp]
        rfl
      rw [hlaw, newShuffler_succ, pow_succ]
      exact hboth

/-- **The law of a shuffler.**  From so many reads, four bytes each, independent and uniform,
`NewShuffler` makes the shufflers in the proportions of `independentIndices`, and it makes one with
a probability that goes to one with the number of the reads. -/
theorem newShuffler_law {n : Nat} (hn : n < 2 ^ 32) (reads : Nat) :
    ∃ p : ENNReal, 1 ≤ p + 2 ^ n * (3 / 4) ^ reads ∧
      ∀ s : Shuffler n, ((independent uniformRead reads).map fun calls =>
        (ended (newShuffler n calls)).map Prod.fst) (some s.1) = p * independentIndices n s := by
  obtain ⟨p, hp, hlaw⟩ := (newShuffler_draws hn).apply reads
  refine ⟨p, hp, fun s => ?_⟩
  rw [hlaw, PMF.map_apply, tsum_eq_single s, if_pos rfl]
  intro t ht
  exact if_neg fun h => ht (Subtype.ext h.symm)

end Vuvuzela
