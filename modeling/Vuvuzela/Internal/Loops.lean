import Vuvuzela.Source.Loops
import Vuvuzela.Internal.ParallelFor
import Vuvuzela.Chain.Sample
import Mathlib.Algebra.Order.BigOperators.Group.Finset

/-!
# Internal — parallel loops end as sequential ones

A loop whose iterations set different positions of a slice (`Fills`), run by `ParallelFor`.  The
calls of `Next` in it are a run of the calls alone, so every index is given out once; the writes
that were made and those that are left are those of the indices that were given out
(`Loop.Follows`).  Writes to different positions commute.  So in every interleaving
(**`loop_sequential`**) the slice is, when `ParallelFor` returns, what the loop makes of it without
workers; and it does return: an interleaving has a bounded number of steps, and there is a next one
until every worker is at its end.

The noise of a round is filled in by two such loops, one after the other (**`noise_filled`**).
-/

namespace Vuvuzela.ParallelFor
open Support

variable {α : Type} {n k : Nat} {body : Int → List (Int × α)} {dest : List α}
  {h : List (LoopEvent k α)} {s s' : Loop k α}

/-- A write, where it is in range. -/
def put (dest : List α) (p : Int × α) : List α := dest.set p.1.toNat p.2

/-- The iterations of a loop set different positions of a slice. -/
structure Fills (n : Nat) (body : Int → List (Int × α)) (dest : List α) : Prop where
  range : ∀ i < n, ∀ p ∈ body (i : Nat), 0 ≤ p.1 ∧ p.1 < dest.length
  nodup : (((List.range n).flatMap fun i => body (i : Nat)).map Prod.fst).Nodup

/-! ### What happened in a loop -/

namespace LoopEvent

/-- The calls of `Next`. -/
def call? : LoopEvent k α → Option (Fin k × Option Int)
  | .next w r => some (w, r)
  | .write _ _ _ => none
  | .again _ => none

def write? : LoopEvent k α → Option (Int × α)
  | .next _ _ => none
  | .write _ p a => some (p, a)
  | .again _ => none

end LoopEvent

/-- The calls of `Next` in a history. -/
def nexts (h : List (LoopEvent k α)) : List (Fin k × Option Int) := h.filterMap LoopEvent.call?

/-- The writes of a history. -/
def writes (h : List (LoopEvent k α)) : List (Int × α) := h.filterMap LoopEvent.write?

/-- The steps that a worker has left, in the body it is in. -/
def Phase.weight : Phase α → Nat
  | .next => 1
  | .body left => left.length + 2
  | .done => 0

/-- One for a worker at its end. -/
def Phase.ended : Phase α → Nat
  | .next => 0
  | .body _ => 0
  | .done => 1

/-- How a state comes from what happened. -/
structure Loop.Follows (n : Nat) (body : Int → List (Int × α)) (dest : List α)
    (h : List (LoopEvent k α)) (s : Loop k α) : Prop where
  calls : (system n k).Run System.Any (nexts h) s.calls
  memory : s.dest = (writes h).foldl put dest
  size : s.dest.length = dest.length
  /-- The writes of the indices that were given out were made, or are left. -/
  shares : (((returned (nexts h)).flatMap body : List (Int × α)) : Multiset (Int × α)) =
    (writes h : Multiset (Int × α)) + ∑ w, ((s.phase w).left : Multiset (Int × α))
  ended : falses (nexts h) = ∑ w, (s.phase w).ended
  done : ∀ w, s.phase w = .done → (w, none) ∈ nexts h
  /-- Every index that was given out pays for the steps of its body. -/
  weight : h.length + ∑ w, (s.phase w).weight =
    k + ((returned (nexts h)).map fun i => (body i).length + 2).sum

theorem Loop.Follows.start (n : Nat) (body : Int → List (Int × α)) (dest : List α) :
    Loop.Follows n body dest [] (⟨ParallelFor.start n k, fun _ => .next, dest⟩ : Loop k α) where
  calls := .init rfl
  memory := rfl
  size := rfl
  shares := by simp [nexts, returned, writes, Phase.left]
  ended := by simp [nexts, falses, Phase.ended]
  done w hw := by cases hw
  weight := by simp [nexts, returned, Phase.weight]

section Step

variable {w : Fin k}

/-- A worker that is not at its end afterwards ended before if any did. -/
theorem Loop.Follows.done_update (hs : s.Follows n body dest h) {l : LoopEvent k α} {p : Phase α}
    (hp : p = .done → l.call? = some (w, none)) (v : Fin k)
    (hv : Function.update s.phase w p v = .done) : (v, none) ∈ nexts (h ++ [l]) := by
  rw [nexts, filterMap_concat, List.mem_append]
  by_cases hvw : v = w
  · subst hvw
    rw [Function.update_self] at hv
    rw [hp hv]
    exact .inr (List.mem_singleton_self _)
  · rw [Function.update_of_ne hvw] at hv
    exact .inl (hs.done v hv)

theorem Loop.Follows.next (hs : s.Follows n body dest h) {r : Option Int} {calls : State k}
    (hphase : s.phase w = .next) (hnext : s.calls.next w = (r, calls)) :
    Loop.Follows n body dest (h ++ [.next w r])
      { s with calls := calls, phase := Function.update s.phase w (.called body r) } := by
  have hlist : nexts (h ++ [.next w r]) = nexts h ++ [(w, r)] := filterMap_concat ..
  have hsame : writes (h ++ [.next w r]) = writes h :=
    (filterMap_concat ..).trans (List.append_nil _)
  have hleft := sum_update (fun p : Phase α => (p.left : Multiset (Int × α))) s.phase w
    (.called body r)
  have hended := sum_update Phase.ended s.phase w (.called body r)
  have hweight := sum_update Phase.weight s.phase w (.called body r)
  have hcount := hs.ended
  have hsteps := hs.weight
  rw [hphase] at hleft hended hweight
  refine ⟨?_, ?_, hs.size, ?_, ?_, hs.done_update fun hr => ?_, ?_⟩
  · rw [hlist]
    exact hs.calls.step trivial hnext
  · rw [hsame]
    exact hs.memory
  · rw [hlist, hsame]
    cases r with
    | none =>
        rw [returned_concat_none, hs.shares]
        exact congrArg _ (add_right_cancel hleft).symm
    | some i =>
        rw [returned_concat_some, List.flatMap_append, List.flatMap_singleton, ← Multiset.coe_add,
          hs.shares, add_assoc]
        exact congrArg _ (hleft.symm.trans (add_zero _))
  · rw [hlist]
    cases r with
    | none =>
        rw [falses_concat_none]
        change _ + 0 = _ + 1 at hended
        exact (congrArg (· + 1) hcount).trans hended.symm
    | some i =>
        rw [falses_concat_some]
        exact hcount.trans (add_right_cancel hended).symm
  · cases r with
    | none => rfl
    | some i => cases hr
  · rw [hlist, List.length_append, List.length_singleton]
    cases r with
    | none =>
        rw [returned_concat_none]
        change _ + 1 = _ + 0 at hweight
        dsimp only
        omega
    | some i =>
        rw [returned_concat_some, List.map_append, List.sum_append, List.map_singleton,
          List.sum_singleton]
        change _ + 1 = _ + ((body i).length + 2) at hweight
        dsimp only
        omega

theorem Loop.Follows.write (hs : s.Follows n body dest h) {p : Int} {a : α}
    {left : List (Int × α)} {dest' : List α} (hphase : s.phase w = .body ((p, a) :: left))
    (hset : setAt? s.dest p a = some dest') :
    Loop.Follows n body dest (h ++ [.write w p a])
      { s with phase := Function.update s.phase w (.body left), dest := dest' } := by
  have hsame : nexts (h ++ [.write w p a]) = nexts h :=
    (filterMap_concat ..).trans (List.append_nil _)
  have hlist : writes (h ++ [.write w p a]) = writes h ++ [(p, a)] := filterMap_concat ..
  have hleft := sum_update (fun p : Phase α => (p.left : Multiset (Int × α))) s.phase w
    (.body left)
  have hended := sum_update Phase.ended s.phase w (.body left)
  have hweight := sum_update Phase.weight s.phase w (.body left)
  have hcount := hs.ended
  have hsteps := hs.weight
  rw [hphase] at hleft hended hweight
  obtain rfl : s.dest.set p.toNat a = dest' := by
    rw [setAt?] at hset
    split at hset
    · exact Option.some.inj hset
    · cases hset
  refine ⟨?_, ?_, ?_, ?_, ?_, hs.done_update (by rintro ⟨⟩), ?_⟩
  · rw [hsame]
    exact hs.calls
  · rw [hlist, List.foldl_append, ← hs.memory]
    rfl
  · rw [List.length_set]
    exact hs.size
  · rw [hsame, hlist, coe_concat, hs.shares, add_assoc]
    -- the write that was left is now one that was made
    refine congrArg _ (add_right_cancel (hleft.symm.trans ?_))
    change _ + (((p, a) :: left : List (Int × α)) : Multiset (Int × α)) =
      {(p, a)} + _ + (left : Multiset (Int × α))
    rw [← Multiset.cons_coe, ← Multiset.singleton_add]
    abel
  · rw [hsame]
    exact hcount.trans (add_right_cancel hended).symm
  · rw [hsame, List.length_append, List.length_singleton]
    change _ + (left.length + 1 + 2) = _ + (left.length + 2) at hweight
    dsimp only
    omega

theorem Loop.Follows.again (hs : s.Follows n body dest h) (hphase : s.phase w = .body []) :
    Loop.Follows n body dest (h ++ [.again w])
      { s with phase := Function.update s.phase w .next } := by
  have hsame : nexts (h ++ [.again w]) = nexts h :=
    (filterMap_concat ..).trans (List.append_nil _)
  have hsame' : writes (h ++ [.again w]) = writes h :=
    (filterMap_concat ..).trans (List.append_nil _)
  have hleft := sum_update (fun p : Phase α => (p.left : Multiset (Int × α))) s.phase w .next
  have hended := sum_update Phase.ended s.phase w .next
  have hweight := sum_update Phase.weight s.phase w .next
  have hcount := hs.ended
  have hsteps := hs.weight
  rw [hphase] at hleft hended hweight
  refine ⟨?_, ?_, hs.size, ?_, ?_, hs.done_update (by rintro ⟨⟩), ?_⟩
  · rw [hsame]
    exact hs.calls
  · rw [hsame']
    exact hs.memory
  · rw [hsame, hsame', hs.shares]
    exact congrArg _ (add_right_cancel hleft).symm
  · rw [hsame]
    exact hcount.trans (add_right_cancel hended).symm
  · rw [hsame, List.length_append, List.length_singleton]
    change _ + 2 = _ + 1 at hweight
    dsimp only
    omega

end Step

theorem Loop.follows_of_run (run : (loop n k body dest).Run System.Any h s) :
    s.Follows n body dest h := by
  refine run.invariant ?_ ?_
  · rintro s rfl
    exact .start n body dest
  · intro h s l s' hs _ t
    cases t with
    | next hphase hnext => exact hs.next hphase hnext
    | write hphase hset => exact hs.write hphase hset
    | again hphase => exact hs.again hphase

/-! ### Loops that set one position for each index -/

theorem fills_setOne (f : Nat → α) (dest : List α) : Fills dest.length (setOne f) dest where
  range i hi p hp := by
    obtain rfl := List.mem_singleton.mp hp
    exact ⟨Int.natCast_nonneg i, Int.ofNat_lt.mpr hi⟩
  nodup := by
    rw [List.map_flatMap]
    change ((List.range dest.length).flatMap fun i : Nat => [(i : Int)]).Nodup
    rw [← List.map_eq_flatMap]
    exact List.nodup_range.map fun _ _ h => Int.ofNat.inj h

/-- A loop that sets every position of a slice. -/
theorem sequential_setOne (f : Nat → α) (dest : List α) :
    sequential dest.length (setOne f) dest = (List.range dest.length).map f :=
  foldl_set_range f dest

/-! ### Every loop -/

section Loop

/-- The counter of `ParallelFor` does not wrap around, whatever the workers do. -/
def Fits (n k : Nat) : Prop := (n : Int) + (k + 1) * stepSize n k ≤ 2 ^ 63

instance (n k : Nat) : Decidable (Fits n k) := inferInstanceAs (Decidable (_ ≤ _))

/-- The counter is far from its end for every slice that can be made, and any number of CPUs. -/
theorem fits_of_makeOk {n k : Nat} (hn : makeOk n) (hk : k ≤ 2 ^ 58) : Fits n k := by
  obtain ⟨-, hn⟩ := hn
  rw [maxAlloc] at hn
  rw [Fits, stepSize, Int.tdiv_eq_ediv_of_nonneg (Int.natCast_nonneg n)]
  have hq : 0 ≤ (n : Int) / k := Int.ediv_nonneg (Int.natCast_nonneg n) (Int.natCast_nonneg k)
  have hle : (n : Int) / k ≤ n := Int.ediv_le_self k (Int.natCast_nonneg n)
  have hmul : (k : Int) * ((n : Int) / k) ≤ n := by exact_mod_cast Nat.mul_div_le n k
  rw [Int.tdiv_eq_ediv_of_nonneg hq]
  split
  · omega
  · have hstep : (k : Int) * ((n : Int) / k / 100) ≤ k * ((n : Int) / k) :=
      Int.mul_le_mul_of_nonneg_left (by omega) (Int.natCast_nonneg k)
    rw [add_mul, one_mul]
    omega

theorem Loop.Follows.accounted (hs : s.Follows n body dest h) (hfits : Fits n k) :
    Accounted n (nexts h) s.calls := by
  refine accounted_of_run (Int.natCast_nonneg n) hs.calls ?_
  have hle : falses (nexts h) ≤ k := by
    rw [hs.ended]
    refine (Finset.sum_le_card_nsmul Finset.univ _ 1 fun w _ => ?_).trans (by simp)
    cases s.phase w with
    | next => exact Nat.zero_le 1
    | body left => exact Nat.zero_le 1
    | done => exact le_refl 1
  have hmul : ((falses (nexts h) : Int) + 1) * stepSize n k ≤ (k + 1) * stepSize n k :=
    Int.mul_le_mul_of_nonneg_right (by omega) (stepSize_pos n k).le
  rw [Fits] at hfits
  rw [Room]
  omega

/-- Every index that was given out is one of the loop, and none is given out twice. -/
theorem Accounted.returned_le {h : List (Fin k × Option Int)} {s : State k}
    (hacc : Accounted n h s) : (returned h : Multiset Int) ≤ Multiset.Ico 0 (n : Int) := by
  have hle : (returned h : Multiset Int) ≤ Multiset.Ico 0 (min s.gp.current n) := by
    rw [← hacc.shares]
    exact Multiset.le_add_right _ _
  refine hle.trans ((Multiset.le_iff_subset Multiset.nodup_Ico).mpr fun i hi => ?_)
  rw [Multiset.mem_Ico] at hi ⊢
  omega

/-- When all workers have got `false`, every index was given out. -/
theorem Accounted.returned_eq {h : List (Fin k × Option Int)} {s : State k} (hk : 1 ≤ k)
    (hacc : Accounted n h s) (hall : ∀ w, (w, none) ∈ h) :
    (returned h : Multiset Int) = Multiset.Ico 0 (n : Int) := by
  have hempty : ∑ w, Multiset.Ico (s.workers w).current (s.workers w).max = 0 :=
    Finset.sum_eq_zero fun w _ => Multiset.Ico_eq_zero_of_le (hacc.finished w (hall w)).2
  have hge := (hacc.finished ⟨0, hk⟩ (hall _)).1
  have hreturned := hacc.shares
  rwa [hempty, add_zero, min_eq_right hge] at hreturned

/-- The indices of a loop, in order. -/
theorem coe_range : (((List.range n).map Nat.cast : List Int) : Multiset Int) =
    Multiset.Ico 0 (n : Int) := by
  have hnodup : ((List.range n).map (Nat.cast : Nat → Int)).Nodup :=
    List.nodup_range.map fun _ _ h => Int.ofNat.inj h
  refine (Multiset.Nodup.ext (Multiset.coe_nodup.mpr hnodup) Multiset.nodup_Ico).mpr fun i => ?_
  rw [Multiset.mem_coe, List.mem_map, Multiset.mem_Ico]
  constructor
  · rintro ⟨j, hj, rfl⟩
    have := List.mem_range.mp hj
    omega
  · rintro ⟨hlo, hhi⟩
    exact ⟨i.toNat, List.mem_range.mpr (by omega), by omega⟩

/-- Writes to different positions may be made in any order. -/
theorem foldl_put_perm {ws ws' : List (Int × α)} (hperm : ws.Perm ws')
    (hnodup : (ws.map Prod.fst).Nodup) (hrange : ∀ p ∈ ws, 0 ≤ p.1) :
    ws.foldl put dest = ws'.foldl put dest := by
  refine hperm.foldl_eq' (fun p hp q hq dest => ?_) dest
  by_cases hpos : p.1 = q.1
  · rw [List.inj_on_of_nodup_map hnodup hp hq hpos]
  · have hne : p.1.toNat ≠ q.1.toNat := by
      have h₁ := hrange p hp
      have h₂ := hrange q hq
      omega
    exact List.set_comm _ _ hne

theorem sequential_eq (n : Nat) (body : Int → List (Int × α)) (dest : List α) :
    sequential n body dest = ((List.range n).flatMap fun i => body (i : Nat)).foldl put dest :=
  (List.foldl_flatMap ..).symm

/-- The steps a loop may take. -/
def maxSteps (n k : Nat) (body : Int → List (Int × α)) : Nat :=
  k + ((List.range n).map fun i => (body (i : Nat)).length + 2).sum

section Run

variable (hfits : Fits n k) (run : (loop n k body dest).Run System.Any h s)
include hfits run

/-- When `ParallelFor` returns, nothing is left: the writes are those of all indices. -/
theorem Loop.dest_of_returned (hk : 1 ≤ k) (hfills : Fills n body dest) (hreturned : s.Returned) :
    s.dest = sequential n body dest := by
  have hs := Loop.follows_of_run run
  have hnone : ∑ w, ((s.phase w).left : Multiset (Int × α)) = 0 :=
    Finset.sum_eq_zero fun w _ => by rw [hreturned w]; rfl
  have hall := (hs.accounted hfits).returned_eq hk fun w => hs.done w (hreturned w)
  rw [← coe_range, Multiset.coe_eq_coe] at hall
  have hshares := hs.shares
  rw [hnone, add_zero, Multiset.coe_eq_coe] at hshares
  have hperm : (writes h).Perm ((List.range n).flatMap fun i => body (i : Nat)) := by
    refine hshares.symm.trans ((hall.flatMap_right body).trans (.of_eq ?_))
    rw [List.flatMap_map]
  rw [hs.memory, sequential_eq]
  refine foldl_put_perm hperm ((hperm.map Prod.fst).nodup_iff.mpr hfills.nodup) fun p hp => ?_
  obtain ⟨i, hi, hpi⟩ := List.mem_flatMap.mp (hperm.mem_iff.mp hp)
  exact (hfills.range i (List.mem_range.mp hi) p hpi).1

/-- Every step is paid for by an index, and the indices are those of the loop. -/
theorem Loop.length_le : h.length ≤ maxSteps n k body := by
  have hs := Loop.follows_of_run run
  have hweight := hs.weight
  obtain ⟨rest, hrest⟩ := Multiset.le_iff_exists_add.mp (hs.accounted hfits).returned_le
  have hsum := congrArg (fun m : Multiset Int => (m.map fun i => (body i).length + 2).sum) hrest
  simp only [← coe_range, Multiset.map_add, Multiset.sum_add, Multiset.map_coe, Multiset.sum_coe,
    List.map_map, Function.comp_def] at hsum
  rw [maxSteps]
  omega

/-- A worker that is not at its end can go on. -/
theorem Loop.step_of_not_done (hfills : Fills n body dest) {w : Fin k} (hw : s.phase w ≠ .done) :
    ∃ l s', (loop n k body dest).step s l s' := by
  have hs := Loop.follows_of_run run
  cases hphase : s.phase w with
  | done => exact absurd hphase hw
  | next => exact ⟨_, _, .next hphase rfl⟩
  | body left =>
      cases left with
      | nil => exact ⟨_, _, .again hphase⟩
      | cons p left =>
          -- the write is one of an index of the loop, so it is in range
          have hmem : p ∈ (returned (nexts h)).flatMap body := by
            rw [← Multiset.mem_coe, hs.shares, Multiset.mem_add]
            refine .inr (Multiset.mem_sum.mpr ⟨w, Finset.mem_univ w, ?_⟩)
            rw [hphase]
            exact Multiset.mem_coe.mpr List.mem_cons_self
          obtain ⟨i, hi, hp⟩ := List.mem_flatMap.mp hmem
          have hi' := Multiset.mem_Ico.mp
            (Multiset.mem_of_le (hs.accounted hfits).returned_le (Multiset.mem_coe.mpr hi))
          obtain ⟨j, rfl⟩ := Int.eq_ofNat_of_zero_le hi'.1
          have hrange := hfills.range j (by omega) p hp
          rw [← hs.size] at hrange
          exact ⟨_, _, .write hphase (if_pos hrange)⟩

end Run

/-- The worker of an event. -/
def LoopEvent.worker : LoopEvent k α → Fin k
  | .next w _ => w
  | .write w _ _ => w
  | .again w => w

/-- The step of a worker, where it has one. -/
def Loop.advance (body : Int → List (Int × α)) (w : Fin k) (s : Loop k α) :
    Option (LoopEvent k α × Loop k α) :=
  match s.phase w with
  | .next =>
      let call := s.calls.next w
      some (.next w call.1,
        { s with calls := call.2, phase := Function.update s.phase w (.called body call.1) })
  | .body [] => some (.again w, { s with phase := Function.update s.phase w .next })
  | .body ((p, a) :: left) => (setAt? s.dest p a).map fun dest =>
      (.write w p a, { s with phase := Function.update s.phase w (.body left), dest := dest })
  | .done => none

theorem Loop.step_of_advance (w : Fin k) (s : Loop k α) (l : LoopEvent k α) (s' : Loop k α)
    (hstep : s.advance body w = some (l, s')) : LoopStep body s l s' ∧ l.worker = w := by
  rw [Loop.advance] at hstep
  split at hstep
  · rename_i hphase
    cases hstep
    exact ⟨.next hphase rfl, rfl⟩
  · rename_i hphase
    cases hstep
    exact ⟨.again hphase, rfl⟩
  · rename_i hphase
    obtain ⟨dest, hset, heq⟩ := Option.map_eq_some_iff.mp hstep
    cases heq
    exact ⟨.write hphase hset, rfl⟩
  · cases hstep

/-- An interleaving, given by the worker of each step. -/
theorem run_of_schedule (n k : Nat) (body : Int → List (Int × α)) (dest : List α)
    (ws : List (Fin k))
    (hreplay : (System.replay (Loop.advance body) (fun _ _ _ => true) ws []
      (⟨start n k, fun _ => .next, dest⟩ : Loop k α)).any
        (fun r => decide (∀ w, (r.2.phase w).ended = 1)) = true) :
    ∃ h s, (loop n k body dest).Run System.Any h s ∧ s.Returned := by
  obtain ⟨⟨h, s⟩, hrun, hdone⟩ := (Option.any_eq_true _ _).mp hreplay
  refine ⟨h, s, (System.Run.replay Loop.step_of_advance (fun _ _ _ _ => trivial) (.init rfl)
    hrun).1, fun w => ?_⟩
  have hw := of_decide_eq_true hdone w
  cases hphase : s.phase w with
  | done => rfl
  | next => simp [hphase, Phase.ended] at hw
  | body left => simp [hphase, Phase.ended] at hw

/-- **A parallel loop ends as the sequential one**, in every interleaving of its workers.  No
interleaving goes on for ever, and none stops before `ParallelFor` returns. -/
theorem loop_sequential (hk : 1 ≤ k) (hfits : Fits n k) (hfills : Fills n body dest)
    (run : (loop n k body dest).Run System.Any h s) :
    (s.Returned → s.dest = sequential n body dest) ∧
    h.length ≤ maxSteps n k body ∧
    (¬ s.Returned → ∃ l s', (loop n k body dest).step s l s') := by
  refine ⟨Loop.dest_of_returned hfits run hk hfills, Loop.length_le hfits run, fun hnot => ?_⟩
  rw [Loop.Returned, not_forall] at hnot
  obtain ⟨w, hw⟩ := hnot
  exact Loop.step_of_not_done hfits run hfills hw

end Loop

/-- Two workers fill a slice between them, ten positions and two. -/
theorem loop_sequential_sample : ∃ (h : List (LoopEvent 2 Nat)) (s : Loop 2 Nat),
    (loop 12 2 (setOne (· + 1)) (List.replicate 12 0)).Run System.Any h s ∧ s.Returned ∧
    s.dest = [1, 2, 3, 4, 5, 6, 7, 8, 9, 10, 11, 12] := by
  obtain ⟨h, s, run, hreturned⟩ := run_of_schedule 12 2 (setOne (· + 1)) (List.replicate 12 0)
    ((List.replicate 7 [0, 1]).flatten ++ List.replicate 24 0)
    (by decide +kernel)
  exact ⟨h, s, run, hreturned, (loop_sequential (n := 12) (by decide) (by decide)
    (fills_setOne (· + 1) (List.replicate 12 0)) run).1 hreturned⟩

/-! ### The loops of a round -/

section Bodies

variable (box : NaclBox) (nonce : Nonce) (nextKeys : List BoxKey)

theorem fills_fakeDouble (coins : Nat → FakeCoins × FakeCoins) (dest : List Bytes) :
    Fills (dest.length / 2) (fakeDouble box nonce nextKeys coins) dest where
  range i hi p hp := by
    simp only [fakeDouble, List.mem_cons, List.not_mem_nil, or_false] at hp
    rcases hp with rfl | rfl
    · dsimp only
      omega
    · dsimp only
      omega
  nodup := by
    rw [List.map_flatMap]
    change ((List.range (dest.length / 2)).flatMap
      fun i : Nat => [(i : Int) * 2, (i : Int) * 2 + 1]).Nodup
    rw [List.nodup_flatMap]
    refine ⟨fun i _ => by simp, List.nodup_range.imp fun {i j} hij p hp hp' => ?_⟩
    simp only [List.mem_cons, List.not_mem_nil, or_false] at hp hp'
    omega

theorem sequential_fakeDouble (coins : Nat → FakeCoins × FakeCoins) (dest : List Bytes) :
    sequential (dest.length / 2) (fakeDouble box nonce nextKeys coins) dest =
      fillWithFakeDoubles box nonce nextKeys dest coins := by
  have hpos : ∀ i : Nat, ((i : Int) * 2).toNat = i * 2 ∧ ((i : Int) * 2 + 1).toNat = i * 2 + 1 :=
    fun i => by omega
  simp only [sequential, fillWithFakeDoubles, fakeDouble, List.foldl_cons, List.foldl_nil,
    Int.toNat_natCast, hpos]

/-- A loop whose body sets one position makes a table. -/
theorem Loop.dest_of_setOne {f : Nat → α} (hk : 1 ≤ k) (hfits : Fits n k) (hdest : dest.length = n)
    (run : (loop n k (setOne f) dest).Run System.Any h s) (hreturned : s.Returned) :
    s.dest = (List.range n).map f := by
  subst hdest
  rw [Loop.dest_of_returned hfits run hk (fills_setOne f dest) hreturned, sequential_setOne]

/-- **The noise of a round**, whatever the workers of its two loops do: when both have returned,
the slice holds what the loops make of it one index after the other.  The counters of the loops must
not wrap around, which they do not for a slice that can be made (`fits_of_makeOk`). -/
theorem noise_filled {cfg : Config} {coins : ConvoCoins} {Round : UInt32} (hk : 1 ≤ k)
    (hfits : Fits coins.singles k) (hfits' : Fits (coins.numFakeDoubles / 2) k)
    {h h' : List (LoopEvent k Bytes)} {s s' : Loop k Bytes}
    (run : (loop coins.singles k (fakeSingle box (forwardNonce Round)
      (cfg.pki.nextServerKeys cfg.serverName) coins.single)
        ((madeNoise coins).take coins.singles)).Run System.Any h s)
    (run' : (loop (coins.numFakeDoubles / 2 : Nat) k (fakeDouble box (forwardNonce Round)
      (cfg.pki.nextServerKeys cfg.serverName) coins.double)
        ((madeNoise coins).drop coins.singles)).Run System.Any h' s')
    (hreturned : s.Returned) (hreturned' : s'.Returned) :
    s.dest ++ s'.dest = coins.noise box cfg Round := by
  have htake : ((madeNoise coins).take coins.singles).length = coins.singles := by
    simp [madeNoise]
  have hdrop : ((madeNoise coins).drop coins.singles).length = coins.numFakeDoubles := by
    simp [madeNoise]
  have hdoubles := fills_fakeDouble box (forwardNonce Round)
    (cfg.pki.nextServerKeys cfg.serverName) coins.double ((madeNoise coins).drop coins.singles)
  rw [hdrop] at hdoubles
  rw [Loop.dest_of_setOne hk hfits htake run hreturned,
    Loop.dest_of_returned hfits' run' hk hdoubles hreturned']
  change _ = fillWithFakeSingles box (forwardNonce Round) (cfg.pki.nextServerKeys cfg.serverName)
      ((madeNoise coins).take coins.singles) coins.single ++
    fillWithFakeDoubles box (forwardNonce Round) (cfg.pki.nextServerKeys cfg.serverName)
      ((madeNoise coins).drop coins.singles) coins.double
  rw [fillWithFakeSingles_eq, htake, ← hdrop, sequential_fakeDouble]

/-- The noise of the sample, one single and a double, with two workers for each loop. -/
theorem noise_filled_sample : ∃ (h h' : List (LoopEvent 2 Bytes)) (s s' : Loop 2 Bytes),
    (loop 1 2 (fakeSingle tagBox (forwardNonce 1)
      (sampleConfig.pki.nextServerKeys sampleConfig.serverName) sampleCoins.single)
        ((madeNoise sampleCoins).take 1)).Run System.Any h s ∧
    (loop 1 2 (fakeDouble tagBox (forwardNonce 1)
      (sampleConfig.pki.nextServerKeys sampleConfig.serverName) sampleCoins.double)
        ((madeNoise sampleCoins).drop 1)).Run System.Any h' s' ∧
    s.dest ++ s'.dest = sampleCoins.noise tagBox sampleConfig 1 := by
  obtain ⟨h, s, run, hreturned⟩ := run_of_schedule 1 2 (fakeSingle tagBox (forwardNonce 1)
    (sampleConfig.pki.nextServerKeys sampleConfig.serverName) sampleCoins.single)
    ((madeNoise sampleCoins).take 1) [1, 0, 1, 1, 1] (by decide +kernel)
  obtain ⟨h', s', run', hreturned'⟩ := run_of_schedule 1 2 (fakeDouble tagBox (forwardNonce 1)
    (sampleConfig.pki.nextServerKeys sampleConfig.serverName) sampleCoins.double)
    ((madeNoise sampleCoins).drop 1) [0, 1, 0, 0, 0, 0] (by decide +kernel)
  have hfilled : s.dest ++ s'.dest = sampleCoins.noise tagBox sampleConfig 1 :=
    noise_filled tagBox (by decide) (fits_of_makeOk (by decide) (by decide))
      (fits_of_makeOk (by decide) (by decide)) run run' hreturned hreturned'
  exact ⟨h, h', s, s', run, run', hfilled⟩

/-- **The noise of a round of dialing.** -/
theorem dialNoise_filled {cfg : Config} {coins : DialCoins} {Round : UInt32} (hk : 1 ≤ k)
    (hfits : Fits (coins.noiseCounts cfg).sum k)
    {h : List (LoopEvent k Bytes)} {s : Loop k Bytes}
    (run : (loop (coins.noiseCounts cfg).sum k (fakeIntroduction box (forwardNonce Round)
      (cfg.pki.nextServerKeys cfg.serverName) (coins.noiseCounts cfg) coins.intro)
        (List.replicate (coins.noiseCounts cfg).sum [])).Run System.Any h s)
    (hreturned : s.Returned) : s.dest = coins.noise box cfg Round := by
  rw [Loop.dest_of_setOne hk hfits List.length_replicate run hreturned, DialCoins.noise,
    fillWithFakeIntroductions_eq, List.length_replicate]

end Bodies

/-- **The replies of the last server**: the exchanges are read by one loop, and the dead drops by
another. -/
theorem replies_filled {incoming : List Bytes} (hk : 1 ≤ k) (hfits : Fits incoming.length k)
    {h : List (LoopEvent k ConvoExchange)} {s : Loop k ConvoExchange}
    {h' : List (LoopEvent k Bytes)} {s' : Loop k Bytes} {made : List ConvoExchange}
    (hmade : made.length = incoming.length)
    (run : (loop incoming.length k (readExchange incoming) made).Run System.Any h s)
    (hreturned : s.Returned)
    (run' : (loop incoming.length k (readDrop s.dest)
      (List.replicate incoming.length [])).Run System.Any h' s')
    (hreturned' : s'.Returned) :
    s.dest = readExchanges incoming ∧ s'.dest = dropReplies (readExchanges incoming) := by
  have hexchanges : s.dest = readExchanges incoming := by
    rw [Loop.dest_of_setOne hk hfits hmade run hreturned, readExchanges]
    refine List.ext_getElem (by simp) fun i hi _ => ?_
    rw [List.length_map, List.length_range] at hi
    simp [hi]
  refine ⟨hexchanges, ?_⟩
  rw [Loop.dest_of_setOne hk hfits List.length_replicate run' hreturned', hexchanges, dropReplies]
  refine List.ext_getElem (by simp [readExchanges]) fun i hi _ => ?_
  rw [List.length_map, List.length_range] at hi
  simp [readExchanges, hi]

end Vuvuzela.ParallelFor
