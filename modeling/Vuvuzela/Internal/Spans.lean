import Vuvuzela.Source.Span
import Mathlib.Data.Rat.Floor

/-!
# Internal — the spans of a batch

`Spans` cuts the positions below `total` into ranges of `spanSize`.  In 64-bit arithmetic the sum
`total + spanSize - 1` can wrap around, and the capacity asked for is then no capacity
(`intSpans_cap_overflow`).  Where it does not, and the spans can be allocated, the function is
`spans` on natural numbers (`intSpans_natCast`), so it returns, and its result is a partition
(`intSpans_partition`).
-/

namespace Vuvuzela

/-! ### The two arithmetics -/

def Span.toInt (span : Span) : IntSpan := ⟨span.start, span.count⟩

/-- The loop does not leave the natural numbers.  A turn advances, so the turns that are left are
at most the positions that are. -/
theorem intSpansLoop_natCast {total spanSize : Nat} (hs : 0 < spanSize)
    (hsum : total + spanSize ≤ 2 ^ 63) :
    ∀ {fuel i : Nat}, i ≤ total → total < fuel + i →
      intSpansLoop total spanSize fuel i =
        some ((spansLoop total spanSize fuel i).map Span.toInt)
  | 0, i, hi, hf => by omega
  | fuel + 1, i, hi, hf => by
      simp only [intSpansLoop, spansLoop]
      by_cases hlt : i < total
      · have hend : wrapInt ((i : Int) + spanSize) = (i + spanSize : Nat) :=
          wrapInt_natCast (by omega)
        have hleft : wrapInt ((total : Int) - i) = (total - i : Nat) := by
          rw [← Int.ofNat_sub hi]
          exact wrapInt_natCast (by omega)
        rw [if_pos (by omega), if_pos hlt, hend, hleft]
        by_cases hle : i + spanSize ≤ total
        · rw [if_pos (by omega), if_pos hle, hend,
            intSpansLoop_natCast hs hsum hle (by omega)]
          rfl
        · have hdone : wrapInt ((i : Int) + (total - i : Nat)) = (i + (total - i) : Nat) :=
            wrapInt_natCast (by omega)
          rw [if_neg (by omega), if_neg hle, hdone,
            intSpansLoop_natCast hs hsum (by omega) (by omega)]
          rfl
      · rw [if_neg (by omega), if_neg hlt]
        rfl

/-- The capacity is the number of spans, unless the sum wraps around. -/
theorem spansCap_natCast {total spanSize : Nat} (hs : 0 < spanSize)
    (hsum : total + spanSize ≤ 2 ^ 63) : spansCap total spanSize = numSpans total spanSize := by
  have hlt : total + spanSize - 1 < 2 ^ 63 := by omega
  -- a sum of `2 ^ 63` wraps around, and the subtraction wraps it back
  have hwrap : wrapInt (wrapInt ((total : Int) + spanSize) - 1) = (total + spanSize - 1 : Nat) := by
    rw [wrapInt_wrapInt_sub, ← wrapInt_natCast hlt]
    congr 1
    omega
  have hdiv : (total + spanSize - 1) / spanSize < 2 ^ 63 := (Nat.div_le_self _ _).trans_lt hlt
  rw [spansCap, hwrap, ← Int.ofNat_tdiv, wrapInt_natCast hdiv]
  rfl

theorem intSpans_natCast {total spanSize : Nat} (hs : 0 < spanSize)
    (hsum : total + spanSize ≤ 2 ^ 63) (halloc : numSpans total spanSize ≤ 2 ^ 44) {fuel : Nat}
    (hf : total < fuel) :
    intSpans fuel total spanSize = .ok (some ((spans total spanSize).map Span.toInt)) := by
  have hloop : spansLoop total spanSize fuel 0 = spans total spanSize := by
    have h := spansLoop_eq total hs fuel 0 (by omega) (Nat.zero_le _)
    rw [Nat.zero_mul, Nat.sub_zero, ← List.range_eq_range'] at h
    rw [h, spans_eq hs]
  rw [intSpans, if_neg (by omega), spansCap_natCast hs hsum,
    if_pos (by simp only [maxAlloc]; omega), ← Int.natCast_zero,
    intSpansLoop_natCast hs hsum (Nat.zero_le _) (by omega), hloop]

/-! ### The partition -/

/-- The spans of `l` cut the positions below `total` into ranges of `spanSize`. -/
structure Partitions (total spanSize : Int) (l : List IntSpan) : Prop where
  length : (l.length : Int) = ⌈(total : ℚ) / spanSize⌉
  first : ∀ s, l.head? = some s → s.start = 0
  next : ∀ j s t, l[j]? = some s → l[j + 1]? = some t → t.start = s.start + s.count
  last : ∀ s, l.getLast? = some s → s.start + s.count = total
  count : ∀ s ∈ l, 1 ≤ s.count ∧ s.count ≤ spanSize
  full : ∀ s ∈ l.dropLast, s.count = spanSize
  position : ∀ i, 0 ≤ i → i < total →
    ∃! j : Nat, ∃ s, l[j]? = some s ∧ s.start ≤ i ∧ i < s.start + s.count

section Closed

variable {total spanSize : Nat} (hs : 0 < spanSize)
include hs

/-- The spans there are, by their index. -/
theorem getElem?_spans {j : Nat} {s : IntSpan} :
    ((spans total spanSize).map Span.toInt)[j]? = some s ↔
      j * spanSize < total ∧ (spanAt total spanSize j).toInt = s := by
  rw [spans_eq hs, List.map_map, List.getElem?_map, ← lt_numSpans hs]
  by_cases hj : j < numSpans total spanSize
  · simp [hj]
  · simp [hj]

theorem length_spans : (spans total spanSize).length = numSpans total spanSize := by
  rw [spans_eq hs, List.length_map, List.length_range]

/-- The number of spans is `total / spanSize`, rounded up. -/
theorem numSpans_eq_ceil :
    (numSpans total spanSize : Int) = ⌈((total : Int) : ℚ) / ((spanSize : Int) : ℚ)⌉ := by
  have hpos : (0 : ℚ) < ((spanSize : Int) : ℚ) := by exact_mod_cast hs
  have hle : total ≤ numSpans total spanSize * spanSize :=
    Nat.not_lt.mp fun h => Nat.lt_irrefl _ ((lt_numSpans hs).mpr h)
  have hlt : numSpans total spanSize * spanSize < total + spanSize := by
    have h : numSpans total spanSize * spanSize ≤ total + spanSize - 1 := Nat.div_mul_le_self ..
    omega
  rw [eq_comm, Int.ceil_eq_iff, lt_div_iff₀ hpos, div_le_iff₀ hpos, sub_mul, one_mul,
    sub_lt_iff_lt_add]
  exact ⟨by exact_mod_cast hlt, by exact_mod_cast hle⟩

theorem spans_partitions : Partitions total spanSize ((spans total spanSize).map Span.toInt) where
  length := by rw [List.length_map, length_spans hs, numSpans_eq_ceil hs]
  first s h := by
    rw [List.head?_eq_getElem?] at h
    obtain ⟨-, rfl⟩ := (getElem?_spans hs).mp h
    simp [Span.toInt, spanAt]
  next j s t h₁ h₂ := by
    obtain ⟨-, rfl⟩ := (getElem?_spans hs).mp h₁
    obtain ⟨hlt, rfl⟩ := (getElem?_spans hs).mp h₂
    rw [Nat.succ_mul] at hlt
    simp only [Span.toInt, spanAt, Nat.succ_mul]
    omega
  last s h := by
    rw [List.getLast?_eq_getElem?, List.length_map, length_spans hs] at h
    obtain ⟨hlt, rfl⟩ := (getElem?_spans hs).mp h
    -- no span starts after the last
    have hend : ¬ (numSpans total spanSize - 1 + 1) * spanSize < total := fun h => by
      have := (lt_numSpans hs).mpr h
      omega
    rw [Nat.succ_mul] at hend
    simp only [Span.toInt, spanAt]
    omega
  count s h := by
    obtain ⟨j, hj⟩ := List.mem_iff_getElem?.mp h
    obtain ⟨hlt, rfl⟩ := (getElem?_spans hs).mp hj
    simp only [Span.toInt, spanAt]
    omega
  full s h := by
    obtain ⟨j, hj⟩ := List.mem_iff_getElem?.mp h
    rw [List.getElem?_dropLast] at hj
    split at hj
    · rename_i hlast
      obtain ⟨-, rfl⟩ := (getElem?_spans hs).mp hj
      rw [List.length_map, length_spans hs] at hlast
      have hlt : (j + 1) * spanSize < total := (lt_numSpans hs).mp (by omega)
      rw [Nat.succ_mul] at hlt
      simp only [Span.toInt, spanAt]
      omega
    · cases hj
  position i hi hlt := by
    lift i to Nat using hi
    have hlt : i < total := by omega
    have hin {j : Nat} : (∃ s, ((spans total spanSize).map Span.toInt)[j]? = some s ∧ s.start ≤ i ∧
        (i : Int) < s.start + s.count) ↔ i / spanSize = j := by
      rw [← inSpan_spanAt hs hlt]
      constructor
      · rintro ⟨s, hj, h₁, h₂⟩
        obtain ⟨-, rfl⟩ := (getElem?_spans hs).mp hj
        exact ⟨Int.ofNat_le.mp h₁, Int.ofNat_lt.mp h₂⟩
      · rintro ⟨h₁, h₂⟩
        have hstart : j * spanSize < total := Nat.lt_of_le_of_lt h₁ hlt
        exact ⟨_, (getElem?_spans hs).mpr ⟨hstart, rfl⟩, Int.ofNat_le.mpr h₁, Int.ofNat_lt.mpr h₂⟩
    exact ⟨i / spanSize, hin.mpr rfl, fun j h => (hin.mp h).symm⟩

end Closed

/-- **`Spans` partitions the batch**, for every batch and span size whose sum is an `int` and a
number of spans that can be allocated. -/
theorem intSpans_partition {total spanSize : Int} (htotal : 0 ≤ total) (hsize : 1 ≤ spanSize)
    (hsum : total + spanSize ≤ 2 ^ 63) (halloc : 16 * ⌈(total : ℚ) / spanSize⌉ ≤ maxAlloc) :
    ∃ l, (∃ turns, ∀ fuel, turns ≤ fuel → intSpans fuel total spanSize = .ok (some l)) ∧
      Partitions total spanSize l := by
  lift total to Nat using htotal
  lift spanSize to Nat using by omega
  have hs : 0 < spanSize := by omega
  refine ⟨_, ⟨total + 1, fun fuel hf => ?_⟩, spans_partitions hs⟩
  rw [← numSpans_eq_ceil hs, maxAlloc] at halloc
  exact intSpans_natCast hs (by omega) (by omega) hf

theorem intSpans_partition_five :
    ∃ l, (∃ turns, ∀ fuel, turns ≤ fuel → intSpans fuel 5 2 = .ok (some l)) ∧ Partitions 5 2 l :=
  intSpans_partition (by decide) (by decide) (by decide) (by norm_num [maxAlloc])

/-- Two positions in spans of the largest size: `total + spanSize - 1` wraps around, and `make`
is called with a negative capacity. -/
theorem intSpans_cap_overflow :
    spansCap 2 (2 ^ 63 - 1) = -1 ∧ ∀ fuel, intSpans fuel 2 (2 ^ 63 - 1) = .error .make := by
  have hcap : spansCap 2 (2 ^ 63 - 1) = -1 := by decide
  refine ⟨hcap, fun fuel => ?_⟩
  rw [intSpans, if_neg (by decide), hcap, if_neg (by decide)]

/-- As many spans as positions, and one more than can be allocated: nothing wraps around, and `make`
panics. -/
theorem intSpans_alloc_overflow :
    (2 ^ 44 + 1 : Int) + 1 ≤ 2 ^ 63 ∧ spansCap (2 ^ 44 + 1) 1 = 2 ^ 44 + 1 ∧
      ∀ fuel, intSpans fuel (2 ^ 44 + 1) 1 = .error .make := by
  have hcap : spansCap (2 ^ 44 + 1) 1 = 2 ^ 44 + 1 := by decide
  refine ⟨by decide, hcap, fun fuel => ?_⟩
  rw [intSpans, if_neg (by decide), hcap, if_neg (by decide)]

end Vuvuzela
