import Vuvuzela.Source.Shuffle
import Mathlib.Data.Set.Card

/-!
# Shuffle — the values of `Intn`

`Intn` takes the first draw below its bound, and its value is that draw modulo `n` (`intn_eq_ok`).
The bound is the largest multiple of `n` that a `uint32` holds.  So the draws below it fall into
whole blocks of `n`, and each value has one draw in each block (`intn_unbiased`).
-/

namespace Vuvuzela
open Support

/-! ### The first accepted draw -/

/-- The numbers that the reads leave in the buffer, up to the first that fails. -/
def draws : Bytes → List ReadCall → List UInt32
  | _, [] => []
  | _, .failed :: _ => []
  | r, .wrote b :: reads => uint32 (fillBuffer r b) :: draws (fillBuffer r b) reads

/-- `Intn` accepts a draw. -/
def accepts (n x : UInt32) : Bool := x < intnBound n

theorem intnLoop_eq_ok {n : UInt32} {v : Nat} {reads : List ReadCall} :
    ∀ {r : Bytes}, (∃ rest, intnLoop n r reads = .ok v rest) ↔
      ∃ x, (draws r reads).find? (accepts n) = some x ∧ v = (x % n).toNat := by
  induction reads with
  | nil => intro r; simp [intnLoop, draws]
  | cons call reads ih =>
      intro r
      cases call with
      | failed => simp [intnLoop, draws]
      | wrote b =>
          rw [intnLoop, draws]
          by_cases hx : uint32 (fillBuffer r b) < intnBound n
          · rw [if_pos hx, List.find?_cons_of_pos (p := accepts n) (decide_eq_true hx)]
            constructor
            · rintro ⟨rest, h⟩
              exact ⟨_, rfl, (EStateM.Result.ok.inj h).1.symm⟩
            · rintro ⟨x, h, rfl⟩
              obtain rfl := Option.some.inj h
              exact ⟨reads, rfl⟩
          · have hfirst : ¬ accepts n (uint32 (fillBuffer r b)) = true :=
              fun h => hx (of_decide_eq_true h)
            rw [if_neg hx, List.find?_cons_of_neg hfirst]
            exact ih

/-- **`Intn` returns the first accepted draw**, modulo its bound. -/
theorem intn_eq_ok {n v : Nat} (hn : UInt32.ofNat n ≠ 0) (reads : List ReadCall) :
    (∃ rest, intn n reads = .ok v rest) ↔
      ∃ x, (draws (List.replicate 4 0) reads).find? (accepts (UInt32.ofNat n)) = some x ∧
        v = (x % UInt32.ofNat n).toNat := by
  simp only [intn, if_neg hn]
  exact intnLoop_eq_ok

/-! ### The accepted draws -/

/-- The bound is a whole number of blocks. -/
theorem toNat_intnBound (n : UInt32) :
    (intnBound n).toNat = n.toNat * ((2 ^ 32 - 1) / n.toNat) := by
  have hmax : (~~~(0 : UInt32)).toNat = 2 ^ 32 - 1 := rfl
  have hle : ~~~(0 : UInt32) % n ≤ ~~~(0 : UInt32) := by
    rw [UInt32.le_iff_toNat_le, UInt32.toNat_mod]
    exact Nat.mod_le _ _
  rw [intnBound, UInt32.toNat_sub_of_le _ _ hle, UInt32.toNat_mod, hmax]
  have := Nat.div_add_mod (2 ^ 32 - 1) n.toNat
  omega

theorem toNat_uint32 {b : Bytes} (hb : b.length = 4) : (uint32 b).toNat = beNat b := by
  have hlt := beNat_lt b
  rw [hb] at hlt
  rw [uint32, List.take_of_length_le (by omega), UInt32.toNat_ofNat_of_lt' (by exact hlt)]

/-- What `Intn` makes of four bytes, in numbers. -/
theorem accepts_uint32 {n : UInt32} {b : Bytes} (hb : b.length = 4) :
    accepts n (uint32 b) = true ↔ beNat b < n.toNat * ((2 ^ 32 - 1) / n.toNat) := by
  rw [accepts, decide_eq_true_eq, UInt32.lt_iff_toNat_lt, toNat_uint32 hb, toNat_intnBound]

/-- A draw of block `k` is below the bound, and fits into four bytes. -/
theorem block_lt {n : UInt32} {r k : Nat} (hr : r < n.toNat) (hk : k < (2 ^ 32 - 1) / n.toNat) :
    r + n.toNat * k < n.toNat * ((2 ^ 32 - 1) / n.toNat) ∧ r + n.toNat * k < 256 ^ 4 := by
  have hblock : n.toNat * (k + 1) ≤ n.toNat * ((2 ^ 32 - 1) / n.toNat) := Nat.mul_le_mul_left _ hk
  have hmax : n.toNat * ((2 ^ 32 - 1) / n.toNat) ≤ 2 ^ 32 - 1 := Nat.mul_div_le _ _
  rw [Nat.mul_add, Nat.mul_one] at hblock
  omega

/-- The four bytes that give a value: one draw in each block. -/
theorem draws_of_value {n : UInt32} {r : Nat} (hr : r < n.toNat) :
    {b : Bytes | b.length = 4 ∧ accepts n (uint32 b) = true ∧ (uint32 b % n).toNat = r} =
      (fun k => beBytes 4 (r + n.toNat * k)) ''
        (Finset.range ((2 ^ 32 - 1) / n.toNat) : Set Nat) := by
  ext b
  simp only [Set.mem_ofPred_eq, Set.mem_image, Finset.coe_range, Set.mem_Iio]
  constructor
  · rintro ⟨hb, haccept, hvalue⟩
    rw [accepts_uint32 hb] at haccept
    rw [UInt32.toNat_mod, toNat_uint32 hb] at hvalue
    have hlt := beNat_lt b
    rw [hb] at hlt
    refine ⟨beNat b / n.toNat, Nat.div_lt_of_lt_mul haccept, ?_⟩
    rw [← hvalue, Nat.mod_add_div]
    exact beNat_inj (by rw [length_beBytes, hb]) (beNat_beBytes hlt)
  · rintro ⟨k, hk, rfl⟩
    obtain ⟨hbound, hsize⟩ := block_lt hr hk
    have hlen := length_beBytes 4 (r + n.toNat * k)
    refine ⟨hlen, (accepts_uint32 hlen).mpr (by rwa [beNat_beBytes hsize]), ?_⟩
    rw [UInt32.toNat_mod, toNat_uint32 hlen, beNat_beBytes hsize, Nat.add_mul_mod_self_left,
      Nat.mod_eq_of_lt hr]

/-- Every value has one draw in each block. -/
theorem ncard_draws_of_value {n : UInt32} {r : Nat} (hr : r < n.toNat) :
    {b : Bytes | b.length = 4 ∧ accepts n (uint32 b) = true ∧ (uint32 b % n).toNat = r}.ncard =
      (2 ^ 32 - 1) / n.toNat := by
  have hinj : Set.InjOn (fun k => beBytes 4 (r + n.toNat * k))
      (Finset.range ((2 ^ 32 - 1) / n.toNat) : Set Nat) := by
    intro k hk k' hk' heq
    rw [Finset.coe_range, Set.mem_Iio] at hk hk'
    have hnat := congrArg beNat heq
    simp only [beNat_beBytes (block_lt hr hk).2, beNat_beBytes (block_lt hr hk').2] at hnat
    exact Nat.eq_of_mul_eq_mul_left (by omega : 0 < n.toNat) (Nat.add_left_cancel hnat)
  rw [draws_of_value hr, hinj.ncard_image, Set.ncard_coe_finset, Finset.card_range]

/-- **`Intn` is unbiased and in range**, for every bound that a `uint32` holds.  The bound on the
draws is a positive multiple of `n`; of the draws of four bytes, the same positive number is
accepted for each value below `n`; and `Intn` returns exactly where a draw is accepted, with the
first such draw modulo `n`. -/
theorem intn_unbiased {n : Nat} (hpos : 1 ≤ n) (hmax : n ≤ 2 ^ 32 - 1) :
    0 < (intnBound (UInt32.ofNat n)).toNat ∧ n ∣ (intnBound (UInt32.ofNat n)).toNat ∧
    (∃ count, 0 < count ∧ ∀ r < n,
      {b : Bytes | b.length = 4 ∧ accepts (UInt32.ofNat n) (uint32 b) = true ∧
        (uint32 b % UInt32.ofNat n).toNat = r}.ncard = count) ∧
    ∀ (reads : List ReadCall) (v : Nat),
      ((∃ rest, intn n reads = .ok v rest) ↔
        ∃ x, (draws (List.replicate 4 0) reads).find? (accepts (UInt32.ofNat n)) = some x ∧
          v = x.toNat % n) ∧
      ((∃ rest, intn n reads = .ok v rest) → v < n) := by
  have hn : (UInt32.ofNat n).toNat = n := UInt32.toNat_ofNat_of_lt' (by
    rw [UInt32.size]
    omega)
  have hne : UInt32.ofNat n ≠ 0 := by
    intro h
    rw [h] at hn
    exact absurd hn.symm (by simpa using Nat.one_le_iff_ne_zero.mp hpos)
  have hblocks : 0 < (2 ^ 32 - 1) / n := Nat.div_pos hmax hpos
  have hbound := toNat_intnBound (UInt32.ofNat n)
  rw [hn] at hbound
  refine ⟨?_, ?_, ⟨(2 ^ 32 - 1) / n, hblocks, fun r hr => ?_⟩, fun reads v => ⟨?_, ?_⟩⟩
  · rw [hbound]
    exact Nat.mul_pos hpos hblocks
  · rw [hbound]
    exact Nat.dvd_mul_right _ _
  · have hcard := ncard_draws_of_value (n := UInt32.ofNat n) (r := r) (by rwa [hn])
    rwa [hn] at hcard
  · have hfirst := intn_eq_ok (v := v) hne reads
    simp only [UInt32.toNat_mod, hn] at hfirst
    exact hfirst
  · rintro ⟨rest, h⟩
    exact intn_lt h

theorem intn_unbiased_six :
    ∃ rest, intn 6 [.wrote [255, 255, 255, 254], .wrote [0, 0, 0, 15]] = .ok 3 rest :=
  (((intn_unbiased (n := 6) (by decide) (by decide)).2.2.2 _ 3).1).mpr
    ⟨15, by decide +kernel, by decide⟩

end Vuvuzela
