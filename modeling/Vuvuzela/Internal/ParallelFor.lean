import Vuvuzela.Source.ParallelFor
import Vuvuzela.Support.Shares
import Mathlib.Data.Int.ConditionallyCompleteOrder
import Mathlib.Data.Int.Interval
import Mathlib.Order.ConditionallyCompleteLattice.Basic
import Mathlib.Order.Interval.Multiset

/-!
# Internal — every index once

What the workers of a `ParallelFor` get, in any interleaving of their calls of `Next`.  While the
shared counter has not wrapped around, what was returned and what is left in the ranges of the
workers are together the indices below the counter (`Accounted`).  So no index is returned twice,
and when every worker has got `false` none is left (`indices_once`).

The counter goes on with every `false`, and there is no bound on the calls.  After enough of them
it wraps around, and a worker that had got `false` gets a negative index
(`index_after_false`).
-/

namespace Vuvuzela.ParallelFor
open Support

variable {n : Int} {k : Nat} {h : List (Fin k × Option Int)} {s s' : State k}

/-- The indices that were returned. -/
def returned (h : List (Fin k × Option Int)) : List Int := h.filterMap Prod.snd

/-- How often `Next` returned `false`. -/
def falses (h : List (Fin k × Option Int)) : Nat := h.countP fun l => l.2.isNone

/-- The counter is not near its end: there is room for one more step after the indices and the
calls that returned `false`. -/
def Room (n : Int) (h : List (Fin k × Option Int)) : Prop :=
  n + (falses h + 1) * stepSize n k ≤ 2 ^ 63

instance (n : Int) (h : List (Fin k × Option Int)) : Decidable (Room n h) :=
  inferInstanceAs (Decidable (_ ≤ _))

theorem stepSize_pos (n : Int) (k : Nat) : 0 < stepSize n k := by
  simp only [stepSize]
  split <;> omega

@[simp] theorem returned_concat_some (h : List (Fin k × Option Int)) (w : Fin k) (i : Int) :
    returned (h ++ [(w, some i)]) = returned h ++ [i] := by
  simp [returned]

@[simp] theorem returned_concat_none (h : List (Fin k × Option Int)) (w : Fin k) :
    returned (h ++ [(w, none)]) = returned h := by
  simp [returned]

@[simp] theorem falses_concat_some (h : List (Fin k × Option Int)) (w : Fin k) (i : Int) :
    falses (h ++ [(w, some i)]) = falses h := by
  simp [falses]

@[simp] theorem falses_concat_none (h : List (Fin k × Option Int)) (w : Fin k) :
    falses (h ++ [(w, none)]) = falses h + 1 := by
  simp [falses]

theorem Room.of_append {h₁ h₂ : List (Fin k × Option Int)} (hroom : Room n (h₁ ++ h₂)) :
    Room n h₁ := by
  have hle : falses h₁ ≤ falses (h₁ ++ h₂) := by
    rw [falses, falses, List.countP_append]
    omega
  have hmul : (falses h₁ + 1 : Int) * stepSize n k ≤ (falses (h₁ ++ h₂) + 1) * stepSize n k :=
    Int.mul_le_mul_of_nonneg_right (by omega) (stepSize_pos n k).le
  simp only [Room] at hroom ⊢
  omega

/-! ### One call -/

/-- The counter before the add, whether or not the add wraps around. -/
theorem wrapInt_base {m step : Int} (hm : IsInt m) : wrapInt (wrapInt (m + step) - step) = m := by
  rw [wrapInt_wrapInt_sub, add_sub_cancel_right, wrapInt_of_isInt hm]

section Next

variable {p : P} {gp : GP}

theorem P.next_of_left (hleft : p.current < p.max) (hint : IsInt (p.current + 1)) :
    p.next gp = (some p.current, ⟨p.max, p.current + 1⟩, gp) := by
  rw [P.next, if_neg (Int.not_le.mpr hleft), wrapInt_of_isInt hint]

theorem P.next_of_lt (hmax : gp.max = n) (hnone : p.max ≤ p.current) (hlt : gp.current < n)
    (hnonneg : 0 ≤ gp.current) (hpos : 0 < gp.step) (hroom : n + gp.step ≤ 2 ^ 63) :
    p.next gp = (some gp.current, ⟨min n (gp.current + gp.step), gp.current + 1⟩,
      { gp with current := gp.current + gp.step }) := by
  have hcur : wrapInt (gp.current + gp.step) = gp.current + gp.step :=
    wrapInt_of_isInt ⟨by omega, by omega⟩
  have hsucc : wrapInt (gp.current + 1) = gp.current + 1 :=
    wrapInt_of_isInt ⟨by omega, by omega⟩
  have hgp : gp.next = (some gp.current, { gp with current := gp.current + gp.step }) := by
    rw [GP.next, wrapInt_base ⟨by omega, by omega⟩, if_neg (by omega), hcur]
  have hmin : (if gp.max < gp.current + gp.step then gp.max else gp.current + gp.step) =
      min n (gp.current + gp.step) := by
    split <;> omega
  simp only [P.next, if_pos hnone, hgp, hcur, hsucc, hmin]

theorem P.next_of_le (hnone : p.max ≤ p.current) (hge : gp.max ≤ gp.current)
    (hint : IsInt gp.current) :
    p.next gp = (none, p, { gp with current := wrapInt (gp.current + gp.step) }) := by
  simp only [P.next, if_pos hnone, GP.next, wrapInt_base hint, if_pos hge]

end Next

/-- How a call of `Next` by worker `w` goes while nothing wraps around. -/
inductive Got (n : Int) (s : State k) (w : Fin k) : Option Int → State k → Prop where
  /-- The next index of the worker's range. -/
  | own (hleft : (s.workers w).current < (s.workers w).max) :
      Got n s w (some (s.workers w).current)
        ⟨s.gp, Function.update s.workers w
          ⟨(s.workers w).max, (s.workers w).current + 1⟩⟩
  /-- The first index of a new range. -/
  | taken (hnone : (s.workers w).max ≤ (s.workers w).current) (hlt : s.gp.current < n) :
      Got n s w (some s.gp.current)
        ⟨{ s.gp with current := s.gp.current + s.gp.step }, Function.update s.workers w
          ⟨min n (s.gp.current + s.gp.step), s.gp.current + 1⟩⟩
  /-- No range is left. -/
  | exhausted (hnone : (s.workers w).max ≤ (s.workers w).current) (hge : n ≤ s.gp.current) :
      Got n s w none ⟨{ s.gp with current := s.gp.current + s.gp.step }, s.workers⟩

/-- What was returned, and what is left to return. -/
structure Accounted (n : Int) (h : List (Fin k × Option Int)) (s : State k) : Prop where
  max : s.gp.max = n
  step : s.gp.step = stepSize n k
  nonneg : 0 ≤ s.gp.current
  bound : s.gp.current < n + (falses h + 1) * stepSize n k
  ranges : ∀ w, 0 ≤ (s.workers w).current ∧ (s.workers w).max ≤ n
  shares : (returned h : Multiset Int) +
    ∑ w, Multiset.Ico (s.workers w).current (s.workers w).max =
      Multiset.Ico 0 (min s.gp.current n)
  finished : ∀ w, (w, none) ∈ h →
    n ≤ s.gp.current ∧ (s.workers w).max ≤ (s.workers w).current

theorem Room.first (hroom : Room n h) : n + stepSize n k ≤ 2 ^ 63 := by
  have hmul : 0 ≤ (falses h : Int) * stepSize n k :=
    Int.mul_nonneg (by omega) (stepSize_pos n k).le
  rw [Room, Int.add_mul, Int.one_mul] at hroom
  omega

theorem Accounted.lt_of_room (hacc : Accounted n h s) (hroom : Room n h) :
    s.gp.current < 2 ^ 63 :=
  hacc.bound.trans_le hroom

theorem got_of_next (hacc : Accounted n h s) {w : Fin k} {r : Option Int}
    (hnext : s.next w = (r, s')) (hroom : Room n (h ++ [(w, r)])) : Got n s w r s' := by
  have hfirst := hroom.first
  have hpos := stepSize_pos n k
  have hnonneg := hacc.nonneg
  rw [← hacc.step] at hfirst hpos
  rw [State.next] at hnext
  by_cases hleft : (s.workers w).current < (s.workers w).max
  · have hrange := hacc.ranges w
    rw [P.next_of_left hleft ⟨by omega, by omega⟩] at hnext
    cases hnext
    exact .own hleft
  · rw [Int.not_lt] at hleft
    by_cases hlt : s.gp.current < n
    · rw [P.next_of_lt hacc.max hleft hlt hnonneg hpos hfirst] at hnext
      cases hnext
      exact .taken hleft hlt
    · have hge : n ≤ s.gp.current := Int.not_lt.mp hlt
      have hint : IsInt s.gp.current := ⟨by omega, hacc.lt_of_room hroom.of_append⟩
      rw [P.next_of_le hleft (by rwa [hacc.max]) hint, Function.update_eq_self] at hnext
      cases hnext
      -- the call is one more `false`, and there is room for it
      have hbound := hacc.bound
      rw [Room, falses_concat_none, Int.natCast_add, Int.add_mul, ← hacc.step] at hroom
      rw [← hacc.step] at hbound
      have hcur : wrapInt (s.gp.current + s.gp.step) = s.gp.current + s.gp.step :=
        wrapInt_of_isInt ⟨by omega, by push_cast at hroom; omega⟩
      rw [hcur]
      exact .exhausted hleft hge

/-! ### Every call -/

/-- The first index of a range, and the rest. -/
theorem Ico_eq_singleton_add {a b : Int} (hlt : a < b) :
    Multiset.Ico a b = {a} + Multiset.Ico (a + 1) b := by
  have hone : Finset.Ico a (a + 1) = {a} := by
    ext i
    simp only [Finset.mem_Ico, Finset.mem_singleton]
    omega
  rw [← Multiset.Ico_add_Ico_eq_Ico (by omega : a ≤ a + 1) hlt, Multiset.Ico, hone]
  rfl

section Step

variable {w : Fin k}

theorem Accounted.own_step (hacc : Accounted n h s)
    (hleft : (s.workers w).current < (s.workers w).max) :
    Accounted n (h ++ [(w, some (s.workers w).current)]) ⟨s.gp, Function.update s.workers w
      ⟨(s.workers w).max, (s.workers w).current + 1⟩⟩ where
  max := hacc.max
  step := hacc.step
  nonneg := hacc.nonneg
  bound := by
    rw [falses_concat_some]
    exact hacc.bound
  ranges := by
    have hrange := hacc.ranges w
    exact (Function.forall_update_iff s.workers fun _ p => 0 ≤ p.current ∧ p.max ≤ n).mpr
      ⟨⟨Int.le_add_one hrange.1, hrange.2⟩, fun w' _ => hacc.ranges w'⟩
  shares := by
    have hsum := sum_update (fun p : P => Multiset.Ico p.current p.max) s.workers w
      ⟨(s.workers w).max, (s.workers w).current + 1⟩
    rw [Ico_eq_singleton_add hleft, ← add_assoc, add_right_cancel_iff] at hsum
    rw [returned_concat_some, coe_concat, ← hacc.shares, ← hsum]
    abel
  finished w' hw' := by
    have hold : (w', none) ∈ h := by simpa using hw'
    obtain ⟨hge, hempty⟩ := hacc.finished w' hold
    have hne : w' ≠ w := by
      rintro rfl
      omega
    exact ⟨hge, by simpa only [Function.update_of_ne hne] using hempty⟩

theorem Accounted.taken_step (hacc : Accounted n h s)
    (hnone : (s.workers w).max ≤ (s.workers w).current) (hlt : s.gp.current < n) :
    Accounted n (h ++ [(w, some s.gp.current)])
      ⟨{ s.gp with current := s.gp.current + s.gp.step }, Function.update s.workers w
        ⟨min n (s.gp.current + s.gp.step), s.gp.current + 1⟩⟩ := by
  have hpos := stepSize_pos n k
  have hnonneg := hacc.nonneg
  rw [← hacc.step] at hpos
  exact {
    max := hacc.max
    step := hacc.step
    nonneg := by
      simp only
      omega
    bound := by
      have hmul : 0 ≤ (falses h : Int) * s.gp.step := Int.mul_nonneg (by omega) hpos.le
      rw [falses_concat_some, ← hacc.step, Int.add_mul, Int.one_mul]
      simp only
      omega
    ranges := (Function.forall_update_iff s.workers fun _ p => 0 ≤ p.current ∧ p.max ≤ n).mpr
      ⟨⟨by simp only; omega, min_le_left _ _⟩, fun w' _ => hacc.ranges w'⟩
    shares := by
      have hsum := sum_update (fun p : P => Multiset.Ico p.current p.max) s.workers w
        ⟨min n (s.gp.current + s.gp.step), s.gp.current + 1⟩
      rw [Multiset.Ico_eq_zero_of_le hnone, add_zero] at hsum
      have hrange := Ico_eq_singleton_add
        (lt_min hlt (by omega : s.gp.current < s.gp.current + s.gp.step))
      have hold := hacc.shares
      rw [min_eq_left hlt.le] at hold
      have hjoin := Multiset.Ico_add_Ico_eq_Ico hnonneg
        (le_min hlt.le (by omega : s.gp.current ≤ s.gp.current + s.gp.step))
      rw [min_comm (s.gp.current + s.gp.step), ← hjoin, hrange, ← hold, returned_concat_some,
        coe_concat, hsum]
      abel
    finished := fun w' hw' => by
      have hold : (w', none) ∈ h := by simpa using hw'
      have hge := (hacc.finished w' hold).1
      omega }

theorem Accounted.exhausted_step (hacc : Accounted n h s)
    (hnone : (s.workers w).max ≤ (s.workers w).current) (hge : n ≤ s.gp.current) :
    Accounted n (h ++ [(w, none)])
      ⟨{ s.gp with current := s.gp.current + s.gp.step }, s.workers⟩ := by
  have hpos := stepSize_pos n k
  have hnonneg := hacc.nonneg
  have hbound := hacc.bound
  rw [← hacc.step] at hpos hbound
  exact {
    max := hacc.max
    step := hacc.step
    nonneg := by
      simp only
      omega
    bound := by
      rw [falses_concat_none, ← hacc.step, Int.natCast_add, Int.add_mul]
      simp only
      push_cast
      omega
    ranges := hacc.ranges
    shares := by
      have hold := hacc.shares
      have hge' : n ≤ s.gp.current + s.gp.step := by omega
      rw [min_eq_right hge] at hold
      rw [returned_concat_none, hold]
      exact congrArg _ (min_eq_right hge').symm
    finished := fun w' hw' => by
      rcases List.mem_append.mp hw' with hold | hnew
      · obtain ⟨hge', hempty⟩ := hacc.finished w' hold
        exact ⟨by simp only; omega, hempty⟩
      · cases List.mem_singleton.mp hnew
        exact ⟨by simp only; omega, hnone⟩ }

end Step

theorem Accounted.start (hn : 0 ≤ n) : Accounted n [] (start n k) where
  max := rfl
  step := rfl
  nonneg := le_refl 0
  bound := by
    have hpos := stepSize_pos n k
    simp only [ParallelFor.start, falses, List.countP_nil]
    push_cast
    omega
  ranges _ := ⟨le_refl 0, hn⟩
  shares := by simp [returned, ParallelFor.start, hn]
  finished w hw := by cases hw

theorem accounted_of_run {C : List (Fin k × Option Int) → State k → Fin k × Option Int → Prop}
    (hn : 0 ≤ n) (run : (system n k).Run C h s) (hroom : Room n h) : Accounted n h s := by
  induction run with
  | init h₀ =>
      rw [h₀]
      exact .start hn
  | @step h s s' l _ _ t ih =>
      obtain ⟨w, r⟩ := l
      have hacc := ih hroom.of_append
      have hgot : Got n s w r s' := got_of_next hacc t hroom
      cases hgot with
      | own hleft => exact hacc.own_step hleft
      | taken hnone hlt => exact hacc.taken_step hnone hlt
      | exhausted hnone hge => exact hacc.exhausted_step hnone hge

/-! ### Every index once -/

/-- A worker that has got `false` gets nothing else. -/
theorem Accounted.next_of_finished (hacc : Accounted n h s) {w : Fin k} (hw : (w, none) ∈ h)
    {r : Option Int} (hnext : s.next w = (r, s')) (hroom : Room n (h ++ [(w, r)])) : r = none := by
  obtain ⟨hge, hempty⟩ := hacc.finished w hw
  cases got_of_next hacc hnext hroom with
  | own hleft => omega
  | taken hnone hlt => omega
  | exhausted => rfl

/-- **Every index once**, in every interleaving of the calls of `Next`, as long as the counter has
room. -/
theorem indices_once (hn : 0 ≤ n) (hk : 1 ≤ k)
    (run : (system n k).Run System.Any h s) (hroom : Room n h) :
    (∀ i ∈ returned h, 0 ≤ i ∧ i < n) ∧ (returned h).Nodup ∧
      ((∀ w, (w, none) ∈ h) → ∀ i, 0 ≤ i → i < n → (returned h).count i = 1) ∧
      ∀ h₁ h₂ w, h = h₁ ++ (w, none) :: h₂ → ∀ r, (w, r) ∈ h₂ → r = none := by
  have hacc := accounted_of_run hn run hroom
  have hle : (returned h : Multiset Int) ≤ Multiset.Ico 0 (min s.gp.current n) := by
    rw [← hacc.shares]
    exact Multiset.le_add_right _ _
  refine ⟨?_, ?_, ?_, ?_⟩
  · intro i hi
    have hmem := Multiset.mem_of_le hle (Multiset.mem_coe.mpr hi)
    rw [Multiset.mem_Ico] at hmem
    omega
  · exact Multiset.coe_nodup.mp (Multiset.nodup_of_le hle (Multiset.nodup_Ico))
  · intro hall i hlo hhi
    -- every range is empty, and the counter is past the indices
    have hempty : ∑ w, Multiset.Ico (s.workers w).current (s.workers w).max = 0 :=
      Finset.sum_eq_zero fun w _ => Multiset.Ico_eq_zero_of_le (hacc.finished w (hall w)).2
    have hge := (hacc.finished ⟨0, hk⟩ (hall _)).1
    have hreturned := hacc.shares
    rw [hempty, add_zero, min_eq_right hge] at hreturned
    rw [← Multiset.coe_count, hreturned]
    exact Multiset.count_eq_one_of_mem Multiset.nodup_Ico (Multiset.mem_Ico.mpr ⟨hlo, hhi⟩)
  · rintro h₁ h₂ w rfl r hr
    obtain ⟨h₃, h₄, rfl⟩ := List.append_of_mem hr
    rw [← List.cons_append, ← List.append_assoc] at run hroom
    obtain ⟨s₁, s₂, run₁, -, hnext⟩ := run.label
    have hroom₁ : Room n ((h₁ ++ (w, none) :: h₃) ++ [(w, r)]) := by
      rw [List.append_cons (h₁ ++ (w, none) :: h₃)] at hroom
      exact hroom.of_append
    exact (accounted_of_run hn run₁ hroom₁.of_append).next_of_finished (by simp) hnext hroom₁

/-- Calls of `Next` one after the other, by the workers of a list. -/
theorem run_of_calls (n : Int) (ws : List (Fin k)) (h : List (Fin k × Option Int))
    (hreplay : (System.replay (fun w (s : State k) => some ((w, (s.next w).1), (s.next w).2))
      (fun _ _ _ => true) ws [] (start n k)).map Prod.fst = some h) :
    ∃ s, (system n k).Run System.Any h s := by
  obtain ⟨⟨h', s⟩, hrun, rfl⟩ := Option.map_eq_some_iff.mp hreplay
  have hcall : ∀ (w : Fin k) (s : State k) (l : Fin k × Option Int) (s' : State k),
      some ((w, (s.next w).1), (s.next w).2) = some (l, s') →
        (system n k).step s l s' ∧ l.1 = w := by
    intro w s l s' heq
    cases heq
    exact ⟨rfl, rfl⟩
  exact ⟨s, (System.Run.replay hcall (fun _ _ _ _ => trivial) (.init rfl) hrun).1⟩

/-- Two workers and two indices: the first worker gets both. -/
theorem indices_once_two :
    ∃ (h : List (Fin 2 × Option Int)) (s : State 2), (system 2 2).Run System.Any h s ∧
      (∀ w, (w, none) ∈ h) ∧ ∀ i, 0 ≤ i → i < 2 → (returned h).count i = 1 := by
  obtain ⟨s, run⟩ := run_of_calls 2 [(0 : Fin 2), 1, 0, 0]
    [(0, some 0), (1, none), (0, some 1), (0, none)] (by decide +kernel)
  have hall : ∀ w : Fin 2, (w, none) ∈
      [((0 : Fin 2), some (0 : Int)), (1, none), (0, some 1), (0, none)] := by decide
  exact ⟨_, s, run, hall, (indices_once (by decide) (by decide) run (by decide)).2.2.1 hall⟩

/-! ### Too many calls -/

/-- The only worker of a loop gets `false`. -/
theorem run_false {n : Int} {h : List (Fin 1 × Option Int)} {p p' : P} {gp gp' : GP}
    (run : (system n 1).Run System.Any h ⟨gp, fun _ => p⟩)
    (hcall : p.next gp = (none, p', gp')) :
    (system n 1).Run System.Any (h ++ [(0, none)]) ⟨gp', fun _ => p'⟩ := by
  refine run.step trivial ?_
  change State.next _ 0 = _
  rw [State.next, hcall]
  congr 2
  funext w
  rw [Subsingleton.elim w 0, Function.update_self]

/-- The worker of a loop without indices gets `false` each time, and the counter goes on. -/
theorem falses_run (j : Nat) (hj : (10 * j : Int) < 2 ^ 63) :
    (system 0 1).Run System.Any (List.replicate j (0, none))
      ⟨⟨0, 10 * j, 10⟩, fun _ => ⟨0, 0⟩⟩ := by
  induction j with
  | zero => exact .init rfl
  | succ j ih =>
      have hcur : wrapInt (10 * j + 10) = 10 * (j + 1 : Nat) := by
        rw [wrapInt_of_isInt ⟨by omega, by omega⟩]
        omega
      have hcall : P.next ⟨0, 0⟩ ⟨0, 10 * j, 10⟩ =
          (none, ⟨0, 0⟩, ⟨0, 10 * (j + 1 : Nat), 10⟩) := by
        have hint : IsInt (10 * j) := ⟨by omega, by omega⟩
        rw [P.next_of_le (le_refl 0) (by simp only; omega) hint, hcur]
      rw [List.replicate_succ']
      exact run_false (ih (by omega)) hcall

/-- The counter wraps around, and a worker that has got `false` gets an index that the loop does
not have. -/
theorem index_after_false :
    ∃ (h : List (Fin 1 × Option Int)) (s : State 1), (system 0 1).Run System.Any h s ∧
      ∃ h₁ i, h = h₁ ++ (0, none) :: [(0, some i)] ∧ i < 0 := by
  have hwrap : P.next ⟨0, 0⟩ ⟨0, 10 * (922337203685477580 : Nat), 10⟩ =
      (none, ⟨0, 0⟩, ⟨0, -9223372036854775806, 10⟩) := by decide +kernel
  have hindex : (P.next ⟨0, 0⟩ ⟨0, -9223372036854775806, 10⟩).1 =
      some (-9223372036854775806) := by decide +kernel
  have run := run_false (falses_run 922337203685477580 (by decide)) hwrap
  exact ⟨_, _, run.step (l := (0, some (-9223372036854775806))) trivial (Prod.ext hindex rfl),
    _, _, List.append_assoc _ _ _, by decide⟩

end Vuvuzela.ParallelFor
