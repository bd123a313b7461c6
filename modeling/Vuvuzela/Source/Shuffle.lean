import Vuvuzela.Source.Bytes
import Vuvuzela.Support.Effects
import Vuvuzela.Support.Swaps
import Mathlib.Data.List.Range

/-!
# Source — shuffling a batch

`shuffle.go`.  A shuffler for a batch of `n` is what `NewShuffler` returns: `n` indices, the
`i`-th of them at most `i` (`newShuffler_spec`).  `shuffle` and `unshuffle` have no value where Go
would index out of range; for a batch of the shuffler's own length they have one (`shuffle_spec`).

The random source is given by what the calls of its `Read` will do, one after the other.
-/

namespace Vuvuzela
open Support

variable {α β : Type}

/-- What `NewShuffler` returns for a batch of `n`. -/
def Shuffler (n : Nat) : Type :=
  { s : List Nat // s.length = n ∧ ∀ i j : Nat, s[i]? = some j → j ≤ i }

namespace Shuffler

variable {n : Nat}

/-- The body of both loops. -/
def swapStep (s : List Nat) (x : List α) (i : Nat) : Option (List α) := do
  let j ← s[i]?
  swap? x i j

/-- `Shuffle`. -/
def shuffle (s : Shuffler n) (x : List α) : Option (List α) :=
  (List.range x.length).foldlM (swapStep s.1) x

/-- `Unshuffle`. -/
def unshuffle (s : Shuffler n) (x : List α) : Option (List α) :=
  (List.range x.length).reverse.foldlM (swapStep s.1) x

/-- The swap made at each position. -/
def pairs (s : Shuffler n) : List (Nat × Nat) := (List.range n).map fun i => (i, s.1.getD i 0)

theorem foldlM_swapStep (s : Shuffler n) :
    ∀ (is : List Nat) (x : List α), (∀ i ∈ is, i < n) →
      is.foldlM (swapStep s.1) x = swaps? (is.map fun i => (i, s.1.getD i 0)) x
  | [], _, _ => rfl
  | i :: is, x, h => by
      have hi : i < s.1.length := by rw [s.2.1]; exact h i List.mem_cons_self
      have e : swapStep s.1 x i = swap? x i (s.1.getD i 0) := by
        simp [swapStep, List.getElem?_eq_getElem hi]
      rw [List.foldlM_cons, List.map_cons, swaps?_cons, e]
      cases swap? x i (s.1.getD i 0) with
      | none => rfl
      | some y => exact foldlM_swapStep s is y fun j hj => h j (List.mem_cons_of_mem _ hj)

theorem shuffle_eq (s : Shuffler n) {x : List α} (hx : x.length = n) :
    s.shuffle x = swaps? s.pairs x := by
  rw [shuffle, hx]
  exact foldlM_swapStep s _ x fun i hi => List.mem_range.mp hi

theorem unshuffle_eq (s : Shuffler n) {x : List α} (hx : x.length = n) :
    s.unshuffle x = swaps? s.pairs.reverse x := by
  rw [unshuffle, hx, pairs, ← List.map_reverse]
  exact foldlM_swapStep s _ x fun i hi => List.mem_range.mp (List.mem_reverse.mp hi)

theorem pairs_lt (s : Shuffler n) : ∀ p ∈ s.pairs, p.1 < n ∧ p.2 < n := by
  intro p hp
  obtain ⟨i, hi, rfl⟩ := List.mem_map.mp hp
  have hi' := List.mem_range.mp hi
  have hlt : i < s.1.length := by rw [s.2.1]; exact hi'
  have hle := s.2.2 i (s.1.getD i 0) (by simp [List.getElem?_eq_getElem hlt])
  exact ⟨hi', lt_of_le_of_lt hle hi'⟩

/-- **Shuffling.**  A batch of the shuffler's length is shuffled into a permutation of it. -/
theorem shuffle_spec (s : Shuffler n) {x : List α} (hx : x.length = n) :
    ∃ y, s.shuffle x = some y ∧ y.Perm x := by
  obtain ⟨y, hy⟩ : ∃ y, swaps? s.pairs x = some y := swaps?_isSome (by rw [hx]; exact s.pairs_lt)
  exact ⟨y, (s.shuffle_eq hx).trans hy, swaps?_perm hy⟩

/-- **Replies find their way back.**  Where the entries of a shuffled batch are related to a
list of replies, the entries of the batch are related to the unshuffled replies. -/
theorem unshuffle_spec (s : Shuffler n) {R : α → β → Prop} {x y : List α} {z : List β}
    (hx : x.length = n) (hy : s.shuffle x = some y) (hR : List.Forall₂ R y z) :
    ∃ w, s.unshuffle z = some w ∧ List.Forall₂ R x w := by
  rw [s.shuffle_eq hx] at hy
  have hz : z.length = n := by rw [← hR.length_eq, swaps?_length hy, hx]
  obtain ⟨w, hw, hR'⟩ := swaps?_forall₂ hR (swaps?_reverse hy)
  exact ⟨w, (s.unshuffle_eq hz).trans hw, hR'⟩

theorem unshuffle_isSome (s : Shuffler n) {z : List α} (hz : z.length = n) :
    ∃ w, s.unshuffle z = some w ∧ w.length = n := by
  obtain ⟨w, hw⟩ : ∃ w, swaps? s.pairs.reverse z = some w := swaps?_isSome fun p hp => by
    rw [hz]; exact s.pairs_lt p (List.mem_reverse.mp hp)
  exact ⟨w, (s.unshuffle_eq hz).trans hw, (swaps?_length hw).trans hz⟩

/-- A shuffle moves positions and does not look at what is there. -/
theorem shuffle_map (s : Shuffler n) (f : α → β) {x : List α} (hx : x.length = n) :
    s.shuffle (x.map f) = (s.shuffle x).map (List.map f) := by
  rw [s.shuffle_eq hx, s.shuffle_eq (by simpa using hx), swaps?_map]

/-- Where the entries went: a permutation of the positions that tells, of each position of the
shuffled batch, the position its entry came from and its reply goes back to. -/
theorem shuffle_positions (s : Shuffler n) {x y : List α} {z w : List β} (hx : x.length = n)
    (hy : s.shuffle x = some y) (hz : z.length = n) (hw : s.unshuffle z = some w) :
    ∃ place : List Nat, place.Perm (List.range n) ∧
      ∀ j v : Nat, place[j]? = some v → y[j]? = x[v]? ∧ w[v]? = z[j]? := by
  obtain ⟨place, hplace, hperm⟩ := s.shuffle_spec (x := List.range n) List.length_range
  have hlen : place.length = n := by rw [hperm.length_eq, List.length_range]
  -- the batch itself is the table of its entries, and a shuffle moves a table by its positions
  have htable : x.map some = (List.range n).map fun v => x[v]? := by
    refine List.ext_getElem? fun k => ?_
    by_cases hk : k < n
    · simp [hk, hx]
    · simp [hk, hx]
  have hmap : y.map some = place.map fun v => x[v]? := by
    have h₁ := s.shuffle_map some hx
    rw [hy, htable, s.shuffle_map _ List.length_range, hplace] at h₁
    exact (Option.some.inj h₁).symm
  have hR : List.Forall₂ (fun v a => ∃ j : Nat, place[j]? = some v ∧ z[j]? = some a) place z := by
    refine forall₂_iff_getElem?.mpr ⟨hlen.trans hz.symm, fun j v a hv ha => ⟨j, hv, ha⟩⟩
  obtain ⟨w', hw', hback⟩ := s.unshuffle_spec List.length_range hplace hR
  obtain rfl : w' = w := Option.some.inj (hw'.symm.trans hw)
  obtain ⟨hlen', hback⟩ := forall₂_iff_getElem?.mp hback
  refine ⟨place, hperm, fun j v hj => ⟨?_, ?_⟩⟩
  · have h := congrArg (·[j]?) hmap
    simp only [List.getElem?_map, hj, Option.map_some] at h
    obtain ⟨a, ha, e⟩ := Option.map_eq_some_iff.mp h
    rw [ha, e]
  · have hv : v < n := List.mem_range.mp (hperm.mem_iff.mp (List.mem_of_getElem? hj))
    have hvw : v < w'.length := by rw [← hlen', List.length_range]; exact hv
    obtain ⟨j', hj', hz'⟩ := hback v v _ (List.getElem?_range hv) (List.getElem?_eq_getElem hvw)
    have hnodup : place.Nodup := hperm.nodup_iff.mpr List.nodup_range
    have hlt := (List.getElem?_eq_some_iff.mp hj').1
    obtain rfl : j' = j := (List.getElem?_inj hlt hnodup).mp (hj'.trans hj.symm)
    rw [hz', List.getElem?_eq_getElem hvw]

end Shuffler

/-! ### Drawing a shuffler -/

/-- What a call of `Read` does: it writes bytes to the front of the buffer, or it fails. -/
inductive ReadCall where
  | wrote (b : Bytes)
  | failed
  deriving DecidableEq

/-- How a draw ends without a value: `panic(err)` where a read failed, a division by zero, or no
end yet, where the reads so far do not suffice. -/
inductive DrawFault where
  | failed
  | divide
  | waiting
  deriving DecidableEq

/-- A program that draws from a source, of which it leaves the reads it did not make. -/
abbrev Draw (α : Type) := EStateM DrawFault (List ReadCall) α

/-- The buffer `r` after a read that wrote `b`. -/
def fillBuffer (r b : Bytes) : Bytes := b.take r.length ++ r.drop b.length

/-- `max-m`, below which `Intn` accepts a draw. -/
def intnBound (n : UInt32) : UInt32 :=
  let max := ~~~(0 : UInt32)
  let m := max % n
  max - m

/-- The loop of `Intn`, with the buffer as the last read left it. -/
def intnLoop (n : UInt32) : Bytes → Draw Nat
  | _, [] => .error .waiting []
  | _, .failed :: reads => .error .failed reads
  | r, .wrote b :: reads =>
      let x := uint32 (fillBuffer r b)
      if x < intnBound n then .ok (x % n).toNat reads else intnLoop n (fillBuffer r b) reads

/-- `Intn`. -/
def intn (n : Nat) : Draw Nat := fun reads =>
  if UInt32.ofNat n = 0 then .error .divide reads
  else intnLoop (UInt32.ofNat n) (List.replicate 4 0) reads

/-- `NewShuffler`. -/
def newShuffler (n : Nat) : Draw (List Nat) :=
  (List.range n).foldlM (fun p i => do
    let j ← intn (i + 1)
    return p ++ [j]) []

theorem intnLoop_lt {n : UInt32} (hn : n ≠ 0) {v : Nat} {reads rest : List ReadCall} :
    ∀ {r : Bytes}, intnLoop n r reads = .ok v rest → v < n.toNat := by
  have hpos : 0 < n.toNat := Nat.pos_of_ne_zero fun e => hn (UInt32.toNat_inj.mp e)
  induction reads with
  | nil => intro r h; cases h
  | cons call reads ih =>
      intro r h
      cases call with
      | failed => cases h
      | wrote b =>
          rw [intnLoop] at h
          split at h
          · obtain ⟨rfl, -⟩ := EStateM.Result.ok.inj h
            rw [UInt32.toNat_mod]
            exact Nat.mod_lt _ hpos
          · exact ih h

/-- A draw is below its bound, also where the bound does not fit into a `uint32`. -/
theorem intn_lt {n v : Nat} {reads rest : List ReadCall} (h : intn n reads = .ok v rest) :
    v < n := by
  rw [intn] at h
  split at h
  · cases h
  · rename_i hn
    have hlt := intnLoop_lt hn h
    rw [UInt32.toNat_ofNat'] at hlt
    exact lt_of_lt_of_le hlt (Nat.mod_le _ _)

theorem newShuffler_succ (n : Nat) :
    newShuffler (n + 1) = do
      let p ← newShuffler n
      let j ← intn (n + 1)
      return p ++ [j] := by
  rw [newShuffler, List.range_succ, List.foldlM_append]
  simp only [List.foldlM_cons, List.foldlM_nil, bind_pure]
  rfl

/-- **What `NewShuffler` returns**, from any source. -/
theorem newShuffler_spec {n : Nat} :
    ∀ {s : List Nat} {reads rest : List ReadCall}, newShuffler n reads = .ok s rest →
      s.length = n ∧ ∀ i j : Nat, s[i]? = some j → j ≤ i := by
  induction n with
  | zero =>
      intro s reads rest h
      cases h
      exact ⟨rfl, nofun⟩
  | succ n ih =>
      intro s reads rest h
      rw [newShuffler_succ] at h
      obtain ⟨p, reads₁, hp, h⟩ := bind_eq_ok.mp h
      obtain ⟨j, reads₂, hj, h⟩ := bind_eq_ok.mp h
      cases h
      obtain ⟨hlen, hle⟩ := ih hp
      refine ⟨by rw [List.length_append, hlen, List.length_singleton], fun i k hik => ?_⟩
      rcases Nat.lt_or_ge i p.length with hi | hi
      · rw [List.getElem?_append_left hi] at hik
        exact hle i k hik
      · -- the last index was drawn below `n + 1`
        rw [List.getElem?_append_right hi] at hik
        have hi' : i - p.length = 0 := by
          have := (List.getElem?_eq_some_iff.mp hik).1
          simp at this
          omega
        rw [hi'] at hik
        cases hik
        have := intn_lt hj
        omega

end Vuvuzela
