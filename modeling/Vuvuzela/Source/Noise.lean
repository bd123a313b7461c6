import Vuvuzela.Source.Wire
import Mathlib.Data.List.Range

/-!
# Source — cover traffic

`noise.go`: the onions a server adds to a batch.  What `rand.Read` and `GenerateKey` give is an
argument (`FakeCoins`), one for each onion.  The `dest` slices are written in place, position by
position; `fillWithFakeSingles_eq` and `fillWithFakeDoubles_eq` give the list they end as.
-/

namespace Vuvuzela

/-- The random draws of one fake onion: the bytes of the exchange, and the private key of each
layer. -/
structure FakeCoins where
  payload : Nat → UInt8
  keys : Nat → BoxKey

variable (box : NaclBox) (nonce : Nonce) (nextKeys : List BoxKey)

/-- A fake onion around `exchange`. -/
def fakeOnion (exchange : Bytes) (coins : FakeCoins) : Bytes :=
  (Onionbox.seal box exchange nonce nextKeys coins.keys).1

/-- The exchange of a fake single. -/
def singleExchange (coins : FakeCoins) : Bytes := randRead coins.payload sizeConvoExchange

/-- The two exchanges of a fake double: the second copies the dead drop of the first. -/
def doubleExchanges (coins : FakeCoins × FakeCoins) : Bytes × Bytes :=
  let exchange1 := randRead coins.1.payload sizeConvoExchange
  (exchange1, exchange1.take 16 ++ randRead coins.2.payload (sizeConvoExchange - 16))

def fillWithFakeSingles (dest : List Bytes) (coins : Nat → FakeCoins) : List Bytes :=
  (List.range dest.length).foldl
    (fun dest i => dest.set i (fakeOnion box nonce nextKeys (singleExchange (coins i)) (coins i)))
    dest

def fillWithFakeDoubles (dest : List Bytes) (coins : Nat → FakeCoins × FakeCoins) : List Bytes :=
  (List.range (dest.length / 2)).foldl
    (fun dest i =>
      let exchanges := doubleExchanges (coins i)
      (dest.set (i * 2) (fakeOnion box nonce nextKeys exchanges.1 (coins i).1)).set (i * 2 + 1)
        (fakeOnion box nonce nextKeys exchanges.2 (coins i).2))
    dest

/-- The bucket of each fake introduction: `noiseCounts[b]` times `b`, for each `b` in turn. -/
def noiseBuckets (noiseCounts : List Nat) : List Nat :=
  noiseCounts.zipIdx.flatMap fun p => List.replicate p.1 p.2

/-- The exchange of a fake introduction. -/
def introExchange (bucket : Nat) (coins : FakeCoins) : Bytes :=
  putUint32 (UInt32.ofNat bucket) ++ randRead coins.payload (sizeDialExchange - 4)

def fillWithFakeIntroductions (dest : List Bytes) (noiseCounts : List Nat)
    (coins : Nat → FakeCoins) : List Bytes :=
  (List.range dest.length).foldl
    (fun dest i => dest.set i (fakeOnion box nonce nextKeys
      (introExchange ((noiseBuckets noiseCounts).getD i 0) (coins i)) (coins i)))
    dest

/-! ### Loops that fill a slice -/

section Fill

variable {α : Type}

theorem getElem?_foldl_set (f : Nat → α) :
    ∀ (n : Nat) (dest : List α) (k : Nat),
      ((List.range n).foldl (fun dest i => dest.set i (f i)) dest)[k]? =
        if k < n ∧ k < dest.length then some (f k) else dest[k]?
  | 0, dest, k => by simp
  | n + 1, dest, k => by
      have hlen : ((List.range n).foldl (fun dest i => dest.set i (f i)) dest).length =
          dest.length := by
        induction n with
        | zero => rfl
        | succ n ih => simp only [List.range_succ, List.foldl_append, List.foldl_cons,
            List.foldl_nil, List.length_set, ih]
      rw [List.range_succ, List.foldl_append, List.foldl_cons, List.foldl_nil,
        List.getElem?_set, getElem?_foldl_set f n dest k, hlen]
      by_cases hk : n = k
      · subst hk
        by_cases hd : n < dest.length
        · simp [hd]
        · simp [hd]
      · have : k < n + 1 ↔ k < n := by omega
        simp [hk, this]

/-- A loop that sets every position of a slice. -/
theorem foldl_set_range (f : Nat → α) (dest : List α) :
    (List.range dest.length).foldl (fun dest i => dest.set i (f i)) dest =
      (List.range dest.length).map f := by
  refine List.ext_getElem? fun k => ?_
  rw [getElem?_foldl_set]
  by_cases hk : k < dest.length
  · simp [hk]
  · simp [hk]

/-- Two entries for each index, as a list. -/
def pairUp (f g : Nat → α) (n : Nat) : List α := (List.range n).flatMap fun i => [f i, g i]

theorem pairUp_succ (f g : Nat → α) (n : Nat) :
    pairUp f g (n + 1) = pairUp f g n ++ [f n, g n] := by
  simp [pairUp, List.range_succ]

@[simp] theorem length_pairUp (f g : Nat → α) : ∀ n : Nat, (pairUp f g n).length = n * 2
  | 0 => rfl
  | n + 1 => by rw [pairUp_succ]; simp [length_pairUp f g n]; omega

/-- A loop that sets two positions of a slice for each index. -/
theorem foldl_set_pairs (f g : Nat → α) :
    ∀ (n : Nat) (dest : List α), n * 2 ≤ dest.length →
      (List.range n).foldl (fun dest i => (dest.set (i * 2) (f i)).set (i * 2 + 1) (g i)) dest =
        pairUp f g n ++ dest.drop (n * 2)
  | 0, dest, _ => by simp [pairUp]
  | n + 1, dest, h => by
      rw [List.range_succ, List.foldl_append, List.foldl_cons, List.foldl_nil,
        foldl_set_pairs f g n dest (by omega), pairUp_succ]
      have h₁ : n * 2 < dest.length := by omega
      have h₂ : n * 2 + 1 < dest.length := by omega
      rw [List.drop_eq_getElem_cons h₁, List.drop_eq_getElem_cons h₂]
      have h₃ : ¬ n * 2 + 1 < n * 2 := by omega
      simp only [List.set_append, length_pairUp, Nat.lt_irrefl, if_false, Nat.sub_self,
        List.set_cons_zero, Nat.add_sub_cancel_left, if_neg h₃, List.set_cons_succ,
        List.append_assoc, List.cons_append, List.nil_append, Nat.succ_mul]

end Fill

theorem fillWithFakeSingles_eq (dest : List Bytes) (coins : Nat → FakeCoins) :
    fillWithFakeSingles box nonce nextKeys dest coins =
      (List.range dest.length).map fun i =>
        fakeOnion box nonce nextKeys (singleExchange (coins i)) (coins i) :=
  foldl_set_range _ dest

/-- A slice of even length is filled to its end. -/
theorem fillWithFakeDoubles_eq {dest : List Bytes} {n : Nat} (h : dest.length = n * 2)
    (coins : Nat → FakeCoins × FakeCoins) :
    fillWithFakeDoubles box nonce nextKeys dest coins =
      pairUp (fun i => fakeOnion box nonce nextKeys (doubleExchanges (coins i)).1 (coins i).1)
        (fun i => fakeOnion box nonce nextKeys (doubleExchanges (coins i)).2 (coins i).2) n := by
  have hn : dest.length / 2 = n := by omega
  have := foldl_set_pairs
    (fun i => fakeOnion box nonce nextKeys (doubleExchanges (coins i)).1 (coins i).1)
    (fun i => fakeOnion box nonce nextKeys (doubleExchanges (coins i)).2 (coins i).2) n dest h.ge
  rw [List.drop_of_length_le h.le, List.append_nil] at this
  rw [fillWithFakeDoubles, hn]
  exact this

theorem fillWithFakeIntroductions_eq (dest : List Bytes) (noiseCounts : List Nat)
    (coins : Nat → FakeCoins) :
    fillWithFakeIntroductions box nonce nextKeys dest noiseCounts coins =
      (List.range dest.length).map fun i => fakeOnion box nonce nextKeys
        (introExchange ((noiseBuckets noiseCounts).getD i 0) (coins i)) (coins i) :=
  foldl_set_range _ dest

end Vuvuzela
