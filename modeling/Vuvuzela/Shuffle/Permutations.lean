import Vuvuzela.Source.Shuffle
import Vuvuzela.Support.Firsts
import Mathlib.Probability.Distributions.Uniform
import Mathlib.Data.Nat.Factorial.Basic

/-!
# Shuffle — the permutations a shuffler makes

A shuffler that `NewShuffler` drew is undone by `Unshuffle`, and replies in the order of a shuffled
batch come back in the order of the batch (`shuffle_reversible`).

The vectors of a length are as many as the permutations of that length.  The last index of a
vector says where the last element goes, and it is free; what the vector does before that is what
its other indices do to the other elements.  So each permutation of a list without repetitions is
made by one vector and no other, and indices drawn independently and uniformly make every
permutation equally likely (`every_permutation_once`).
-/

namespace Vuvuzela
open Support
open scoped Nat

variable {α β : Type} {n : Nat}

namespace Shuffler

/-! ### Back and forth -/

theorem unshuffle_of_shuffle (s : Shuffler n) {x y : List α} (hx : x.length = n)
    (hy : s.shuffle x = some y) : s.unshuffle y = some x := by
  rw [s.shuffle_eq hx] at hy
  rw [s.unshuffle_eq ((swaps?_length hy).trans hx)]
  exact swaps?_reverse hy

theorem shuffle_of_unshuffle (s : Shuffler n) {x y : List α} (hx : x.length = n)
    (hy : s.unshuffle x = some y) : s.shuffle y = some x := by
  rw [s.unshuffle_eq hx] at hy
  rw [s.shuffle_eq ((swaps?_length hy).trans hx)]
  simpa using swaps?_reverse hy

end Shuffler

/-- **Shuffling is reversible**, with every shuffler that `NewShuffler` draws from any source.  The
shuffled batch is a permutation of the batch, either of the two loops undoes the other, and a list
of replies comes back so that each is where the entry it answers was. -/
theorem shuffle_reversible {p : List Nat} {reads rest : List ReadCall}
    (h : newShuffler n reads = .ok p rest) :
    ∃ s : Shuffler n, s.1 = p ∧ ∀ (α β : Type) (x : List α), x.length = n →
      ∃ y z, s.shuffle x = some y ∧ y.Perm x ∧ s.unshuffle y = some x ∧
        s.unshuffle x = some z ∧ s.shuffle z = some x ∧
        ∀ replies : List β, replies.length = n →
          ∃ (w : List β) (place : List Nat), s.unshuffle replies = some w ∧
            place.Perm (List.range n) ∧
            ∀ j v : Nat, place[j]? = some v → y[j]? = x[v]? ∧ w[v]? = replies[j]? := by
  let s : Shuffler n := ⟨p, newShuffler_spec h⟩
  refine ⟨s, rfl, fun α β x hx => ?_⟩
  obtain ⟨y, hy, hperm⟩ := s.shuffle_spec hx
  obtain ⟨z, hz, -⟩ := s.unshuffle_isSome hx
  refine ⟨y, z, hy, hperm, s.unshuffle_of_shuffle hx hy, hz, s.shuffle_of_unshuffle hx hz,
    fun replies hreplies => ?_⟩
  obtain ⟨w, hw, -⟩ := s.unshuffle_isSome hreplies
  obtain ⟨place, hplace, hpos⟩ := s.shuffle_positions hx hy hreplies hw
  exact ⟨w, place, hw, hplace, hpos⟩

/-- Three indices, the second of them drawn again because the first draw for it was too large. -/
def sampleReads : List ReadCall :=
  [.wrote [0, 0, 0, 0], .wrote [255, 255, 255, 255], .wrote [0, 0, 0, 1], .wrote [0, 0, 0, 3]]

theorem shuffle_reversible_sample :
    ∃ s : Shuffler 3, s.1 = [0, 1, 0] ∧ s.shuffle ["a", "b", "c"] = some ["c", "b", "a"] ∧
      s.unshuffle ["c", "b", "a"] = some ["a", "b", "c"] := by
  have hdraw : newShuffler 3 sampleReads = .ok [0, 1, 0] [] := rfl
  obtain ⟨s, hs, hrest⟩ := shuffle_reversible hdraw
  obtain ⟨y, z, hy, -, hback, -⟩ := hrest String String ["a", "b", "c"] rfl
  obtain rfl : y = ["c", "b", "a"] := by
    have hsome : s.shuffle ["a", "b", "c"] = some ["c", "b", "a"] := by
      rw [Shuffler.shuffle, hs]
      decide +kernel
    exact Option.some.inj (hy.symm.trans hsome)
  exact ⟨s, hs, hy, hback⟩

/-! ### One vector for each permutation -/

namespace Shuffler

/-- A shuffler with one more index. -/
def snoc (s : Shuffler n) (j : Fin (n + 1)) : Shuffler (n + 1) :=
  ⟨s.1 ++ [j.1], by rw [List.length_append, s.2.1]; rfl, fun i k hik => by
    rcases getElem?_concat_eq_some.mp hik with hold | ⟨hi, rfl⟩
    · exact s.2.2 i k hold
    · rw [s.2.1] at hi
      omega⟩

/-- The shuffler of no index. -/
def empty : Shuffler 0 := ⟨[], rfl, nofun⟩

theorem eq_empty (s : Shuffler 0) : s = empty := Subtype.ext (List.length_eq_zero_iff.mp s.2.1)

theorem exists_snoc (s : Shuffler (n + 1)) :
    ∃ (s' : Shuffler n) (j : Fin (n + 1)), s = s'.snoc j := by
  obtain ⟨l, hlen, hle⟩ := s
  rcases List.eq_nil_or_concat l with rfl | ⟨l', j, rfl⟩
  · cases hlen
  · rw [List.concat_eq_append] at hlen hle
    have hlen' : l'.length = n := by simpa using hlen
    have hj : j ≤ n := hlen' ▸ hle l'.length j (by simp)
    refine ⟨⟨l', hlen', fun i k hik => hle i k ?_⟩, ⟨j, by omega⟩, Subtype.ext (by simp [snoc])⟩
    exact getElem?_concat_eq_some.mpr (.inl hik)

theorem snoc_inj {s s' : Shuffler n} {j j' : Fin (n + 1)} (h : s.snoc j = s'.snoc j') :
    s = s' ∧ j = j' := by
  have hlist : s.1 ++ [j.1] = s'.1 ++ [j'.1] := congrArg Subtype.val h
  obtain ⟨hs, hj⟩ := List.append_inj' hlist rfl
  exact ⟨Subtype.ext hs, Fin.ext (List.singleton_inj.mp hj)⟩

theorem pairs_snoc (s : Shuffler n) (j : Fin (n + 1)) :
    (s.snoc j).pairs = s.pairs ++ [(n, j.1)] := by
  rw [pairs, List.range_succ, List.map_append, List.map_singleton]
  congr 1
  · refine List.map_congr_left fun i hi => ?_
    rw [List.mem_range, ← s.2.1] at hi
    simp [snoc, List.getElem?_append_left hi]
  · simp [snoc, ← s.2.1]

/-- The last index says where the last element goes, after the others were shuffled. -/
theorem shuffle_snoc (s : Shuffler n) (j : Fin (n + 1)) {x y : List α} (hx : x.length = n)
    (hy : s.shuffle x = some y) (a : α) :
    (s.snoc j).shuffle (x ++ [a]) = swap? (y ++ [a]) n j := by
  rw [s.shuffle_eq hx] at hy
  rw [shuffle_eq _ (by simp [hx]), pairs_snoc, swaps?_append, swaps?_append_right [a] hy,
    Option.bind_some, swaps?_cons]
  cases swap? (y ++ [a]) n j <;> rfl

end Shuffler

/-- **Every permutation is made by one vector.** -/
theorem existsUnique_shuffle : ∀ {n : Nat} {x y : List α}, x.length = n → x.Nodup → y.Perm x →
    ∃! s : Shuffler n, s.shuffle x = some y := by
  intro n
  induction n with
  | zero =>
      intro x y hx _ hy
      obtain rfl := List.length_eq_zero_iff.mp hx
      obtain rfl := List.perm_nil.mp hy
      exact ⟨.empty, rfl, fun s _ => s.eq_empty⟩
  | succ n ih =>
      intro x y hx hnodup hy
      rcases List.eq_nil_or_concat x with rfl | ⟨x, a, rfl⟩
      · cases hx
      rw [List.concat_eq_append] at *
      have hx' : x.length = n := by simpa using hx
      have hylen : y.length = n + 1 := hy.length_eq.trans hx
      have hynodup : y.Nodup := hy.nodup_iff.mpr hnodup
      -- the last element of the batch is at the place the last index names
      have hmem : a ∈ y := hy.mem_iff.mpr (List.mem_append_right x List.mem_cons_self)
      obtain ⟨j, hj⟩ := List.mem_iff_getElem?.mp hmem
      have hjlt : j < y.length := (List.getElem?_eq_some_iff.mp hj).1
      obtain ⟨z, hz⟩ := swap?_of_lt (x := y) (i := n) (j := j) (by omega) hjlt
      have hza : z[n]? = some a := by
        rw [getElem?_swap hz]
        split
        · rename_i e
          rw [e, hj]
        · rw [if_pos rfl, hj]
      have hzlen : z.length = n + 1 := (swap?_length hz).trans hylen
      obtain ⟨z, b, rfl⟩ : ∃ z' b, z = z' ++ [b] := by
        rcases List.eq_nil_or_concat z with rfl | ⟨z', b, rfl⟩
        · cases hzlen
        · exact ⟨z', b, List.concat_eq_append ..⟩
      have hzlen' : z.length = n := by simpa using hzlen
      obtain rfl : b = a := by
        rw [← hzlen'] at hza
        simpa using hza
      have hperm : z.Perm x := List.perm_append_right_iff _ |>.mp ((swap?_perm hz).trans hy)
      obtain ⟨s, hs, hunique⟩ := ih hx' (List.nodup_append.mp hnodup).1 hperm
      refine ⟨s.snoc ⟨j, by omega⟩, ?_, fun s' hs' => ?_⟩
      · exact (s.shuffle_snoc _ hx' hs b).trans (swap?_swap hz)
      · obtain ⟨t, k, rfl⟩ := s'.exists_snoc
        obtain ⟨w, hw, -⟩ := t.shuffle_spec hx'
        have hwlen : w.length = n := by
          obtain ⟨w', hw', hwperm⟩ := t.shuffle_spec hx'
          cases hw.symm.trans hw'
          exact hwperm.length_eq.trans hx'
        have hswap : swap? (w ++ [b]) n k = some y := (t.shuffle_snoc k hx' hw b).symm.trans hs'
        have hyk : y[k.1]? = some b := by
          rw [getElem?_swap hswap, if_pos rfl, ← hwlen]
          simp
        obtain rfl : k.1 = j := (List.getElem?_inj (by omega) hynodup).mp (hyk.trans hj.symm)
        have hback : w ++ [b] = z ++ [b] := Option.some.inj ((swap?_swap hswap).symm.trans hz)
        obtain rfl : w = z := List.append_cancel_right hback
        rw [hunique t hw]

/-! ### Independent indices -/

/-- The indices of a shuffler drawn independently, each uniformly from its own range: the law of
`NewShuffler` on a source of uniform bytes (`newShuffler_law`). -/
noncomputable def independentIndices : (n : Nat) → PMF (Shuffler n)
  | 0 => PMF.pure .empty
  | n + 1 => (independentIndices n).bind fun s => (PMF.uniformOfFintype (Fin (n + 1))).map s.snoc

/-- Every vector is as likely as any other. -/
theorem independentIndices_apply (s : Shuffler n) :
    independentIndices n s = ((n ! : Nat) : ENNReal)⁻¹ := by
  induction n with
  | zero => simp [independentIndices, s.eq_empty]
  | succ n ih =>
      obtain ⟨s, j, rfl⟩ := s.exists_snoc
      -- the last index is `j` with probability `1 / (n + 1)`, after the vector `s` and no other
      have hlast : ((PMF.uniformOfFintype (Fin (n + 1))).map s.snoc) (s.snoc j) =
          ((n + 1 : Nat) : ENNReal)⁻¹ := by
        rw [PMF.map_apply, tsum_eq_single j fun k hk => if_neg fun h =>
          hk (Shuffler.snoc_inj h).2.symm]
        simp
      have hother : ∀ t : Shuffler n, t ≠ s →
          ((PMF.uniformOfFintype (Fin (n + 1))).map t.snoc) (s.snoc j) = 0 := by
        intro t ht
        rw [PMF.map_apply, ENNReal.tsum_eq_zero]
        exact fun k => if_neg fun h => ht (Shuffler.snoc_inj h).1.symm
      rw [independentIndices, PMF.bind_apply,
        tsum_eq_single s fun t ht => by rw [hother t ht, mul_zero], hlast, ih, Nat.factorial_succ,
        Nat.cast_mul, ENNReal.mul_inv (.inr (ENNReal.natCast_ne_top _))
          (.inl (ENNReal.natCast_ne_top _)), mul_comm]

/-- **Every permutation, by one vector and as likely as any other.**  A shuffler of the length of a
list without repetitions makes a permutation of it; each permutation is made by exactly one
shuffler, so that independent uniform indices make it with probability `1 / n!`. -/
theorem every_permutation_once {x : List α} (hx : x.length = n) (hnodup : x.Nodup) :
    (∀ s : Shuffler n, ∃ y, s.shuffle x = some y ∧ y.Perm x) ∧
    (∀ y : List α, y.Perm x → ∃! s : Shuffler n, s.shuffle x = some y) ∧
    ∀ y : List α, y.Perm x →
      ((independentIndices n).map fun s => s.shuffle x) (some y) = ((n ! : Nat) : ENNReal)⁻¹ := by
  refine ⟨fun s => s.shuffle_spec hx, fun y => existsUnique_shuffle hx hnodup, fun y hy => ?_⟩
  obtain ⟨s, hs, hunique⟩ := existsUnique_shuffle hx hnodup hy
  have hother : ∀ t : Shuffler n, t ≠ s → some y ≠ t.shuffle x :=
    fun t ht h => ht (hunique t h.symm)
  rw [PMF.map_apply, tsum_eq_single s fun t ht => if_neg (hother t ht), if_pos hs.symm,
    independentIndices_apply]

theorem every_permutation_once_sample :
    ∃! s : Shuffler 3, s.shuffle ["a", "b", "c"] = some ["b", "c", "a"] :=
  (every_permutation_once (x := ["a", "b", "c"]) rfl (by decide)).2.1 ["b", "c", "a"] (by decide)

end Vuvuzela
