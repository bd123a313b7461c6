import Mathlib.Data.List.Forall2
import Mathlib.Data.List.Perm.Basic

/-!
# Support — sequences of in-place swaps

`swap? x i j` exchanges two entries of a list, and has no value when one of the positions is
out of range.  `swaps? ps x` makes the swaps `ps` in order.

* `swaps?_isSome`: swaps at positions in range have a value.
* `swaps?_perm`: the result is a permutation of the list.
* `swaps?_reverse`: the swaps undone in the opposite order give the list back.
* `swaps?_forall₂`: two lists related entry by entry stay related when the same swaps are made
  in both.  Taken together with `swaps?_reverse`: what is computed entry by entry from a
  swapped list is, unswapped, computed entry by entry from the list itself.
* `swaps?_map`: swaps commute with a map.
* `swaps?_append_right`: swaps in the front of a list leave the rest.
-/

namespace Vuvuzela.Support

variable {α β : Type}

/-- `x[i], x[j] = x[j], x[i]`. -/
def swap? (x : List α) (i j : Nat) : Option (List α) := do
  let a ← x[i]?
  let b ← x[j]?
  return (x.set i b).set j a

/-- The swaps `ps`, in order. -/
def swaps? (ps : List (Nat × Nat)) (x : List α) : Option (List α) :=
  ps.foldlM (fun x p => swap? x p.1 p.2) x

@[simp] theorem swaps?_nil (x : List α) : swaps? [] x = some x := rfl

theorem swaps?_cons (p : Nat × Nat) (ps : List (Nat × Nat)) (x : List α) :
    swaps? (p :: ps) x = (swap? x p.1 p.2).bind (swaps? ps) := rfl

theorem swaps?_append (ps qs : List (Nat × Nat)) (x : List α) :
    swaps? (ps ++ qs) x = (swaps? ps x).bind (swaps? qs) := by
  simp only [swaps?, List.foldlM_append]
  rfl

/-! ### One swap -/

theorem swap?_eq_some {x y : List α} {i j : Nat} :
    swap? x i j = some y ↔
      ∃ (hi : i < x.length) (hj : j < x.length), y = (x.set i x[j]).set j x[i] := by
  simp only [swap?, Option.bind_eq_bind, Option.bind_eq_some_iff, List.getElem?_eq_some_iff,
    Option.pure_def, Option.some.injEq]
  constructor
  · rintro ⟨a, ⟨hi, rfl⟩, b, ⟨hj, rfl⟩, rfl⟩
    exact ⟨hi, hj, rfl⟩
  · rintro ⟨hi, hj, rfl⟩
    exact ⟨x[i], ⟨hi, rfl⟩, x[j], ⟨hj, rfl⟩, rfl⟩

theorem swap?_length {x y : List α} {i j : Nat} (h : swap? x i j = some y) :
    y.length = x.length := by
  obtain ⟨_, _, rfl⟩ := swap?_eq_some.mp h
  simp

/-- A swap in range has a value. -/
theorem swap?_of_lt {x : List α} {i j : Nat} (hi : i < x.length) (hj : j < x.length) :
    ∃ y, swap? x i j = some y := ⟨_, swap?_eq_some.mpr ⟨hi, hj, rfl⟩⟩

/-- The entries of a swapped list. -/
theorem getElem?_swap {x y : List α} {i j : Nat} (h : swap? x i j = some y) (k : Nat) :
    y[k]? = if k = j then x[i]? else if k = i then x[j]? else x[k]? := by
  obtain ⟨hi, hj, rfl⟩ := swap?_eq_some.mp h
  by_cases hkj : k = j
  · subst hkj
    simp [hj, hi]
  · rw [List.getElem?_set_ne (Ne.symm hkj), if_neg hkj]
    by_cases hki : k = i
    · subst hki
      simp [hi, hj]
    · rw [List.getElem?_set_ne (Ne.symm hki), if_neg hki]

/-- A swap undoes itself. -/
theorem swap?_swap {x y : List α} {i j : Nat} (h : swap? x i j = some y) :
    swap? y i j = some x := by
  obtain ⟨hi, hj, -⟩ := swap?_eq_some.mp h
  have hl := swap?_length h
  obtain ⟨z, hz⟩ := swap?_of_lt (x := y) (i := i) (j := j) (by omega) (by omega)
  rw [hz]
  congr 1
  refine List.ext_getElem? fun k => ?_
  rw [getElem?_swap hz, getElem?_swap h, getElem?_swap h, getElem?_swap h]
  by_cases hkj : k = j
  · subst hkj
    by_cases hki : i = k
    · subst hki; simp
    · simp [hki]
  · by_cases hki : k = i
    · subst hki; simp [hkj]
    · simp [hkj, hki]

theorem swap?_perm {x y : List α} {i j : Nat} (h : swap? x i j = some y) : y.Perm x := by
  obtain ⟨hi, hj, rfl⟩ := swap?_eq_some.mp h
  exact List.set_set_perm hi hj

/-- Two lists are related entry by entry when they are as long as each other and the entries
at each position are related. -/
theorem forall₂_iff_getElem? {R : α → β → Prop} {x : List α} {x' : List β} :
    List.Forall₂ R x x' ↔ x.length = x'.length ∧
      ∀ (k : Nat) (a : α) (a' : β), x[k]? = some a → x'[k]? = some a' → R a a' := by
  rw [List.forall₂_iff_get]
  refine and_congr_right fun hl => ⟨fun h k a a' ha ha' => ?_, fun h k hk hk' => ?_⟩
  · obtain ⟨hk, rfl⟩ := List.getElem?_eq_some_iff.mp ha
    obtain ⟨hk', rfl⟩ := List.getElem?_eq_some_iff.mp ha'
    exact h k hk hk'
  · exact h k _ _ (List.getElem?_eq_getElem hk) (List.getElem?_eq_getElem hk')

/-- Related lists stay related when the same swap is made in both. -/
theorem swap?_forall₂ {R : α → β → Prop} {x y : List α} {x' : List β} {i j : Nat}
    (hR : List.Forall₂ R x x') (h : swap? x i j = some y) :
    ∃ y', swap? x' i j = some y' ∧ List.Forall₂ R y y' := by
  obtain ⟨hi, hj, -⟩ := swap?_eq_some.mp h
  obtain ⟨hl, hR⟩ := forall₂_iff_getElem?.mp hR
  obtain ⟨y', hy'⟩ := swap?_of_lt (x := x') (i := i) (j := j) (by omega) (by omega)
  refine ⟨y', hy', forall₂_iff_getElem?.mpr
    ⟨by rw [swap?_length h, swap?_length hy']; exact hl, fun k a a' ha ha' => ?_⟩⟩
  rw [getElem?_swap h] at ha
  rw [getElem?_swap hy'] at ha'
  by_cases hkj : k = j
  · rw [if_pos hkj] at ha ha'
    exact hR i a a' ha ha'
  · rw [if_neg hkj] at ha ha'
    by_cases hki : k = i
    · rw [if_pos hki] at ha ha'
      exact hR j a a' ha ha'
    · rw [if_neg hki] at ha ha'
      exact hR k a a' ha ha'

theorem swap?_map (f : α → β) (x : List α) (i j : Nat) :
    swap? (x.map f) i j = (swap? x i j).map (List.map f) := by
  simp only [swap?, List.getElem?_map]
  cases x[i]? with
  | none => rfl
  | some a =>
      cases x[j]? with
      | none => rfl
      | some b => simp [List.map_set]

/-- A swap in the front of a list leaves the rest. -/
theorem swap?_append_right {x y : List α} {i j : Nat} (h : swap? x i j = some y) (z : List α) :
    swap? (x ++ z) i j = some (y ++ z) := by
  obtain ⟨hi, hj, rfl⟩ := swap?_eq_some.mp h
  have hlen : x.length ≤ (x ++ z).length := by simp
  refine swap?_eq_some.mpr ⟨by omega, by omega, ?_⟩
  rw [List.getElem_append_left hi, List.getElem_append_left hj, List.set_append_left _ _ hi,
    List.set_append_left _ _ (by rwa [List.length_set])]

/-! ### Sequences of swaps -/

/-- The induction over the swaps that were made. -/
theorem swaps?_induction {motive : List (Nat × Nat) → List α → List α → Prop}
    (nil : ∀ x, motive [] x x)
    (cons : ∀ p ps x y z, swap? x p.1 p.2 = some z → motive ps z y → motive (p :: ps) x y)
    {ps : List (Nat × Nat)} {x y : List α} (h : swaps? ps x = some y) : motive ps x y := by
  induction ps generalizing x with
  | nil =>
      cases h
      exact nil _
  | cons p ps ih =>
      rw [swaps?_cons, Option.bind_eq_some_iff] at h
      obtain ⟨z, hz, h⟩ := h
      exact cons p ps x y z hz (ih h)

theorem swaps?_length {ps : List (Nat × Nat)} {x y : List α} (h : swaps? ps x = some y) :
    y.length = x.length := by
  refine swaps?_induction (motive := fun _ x y => y.length = x.length) (fun _ => rfl) ?_ h
  intro p ps x y z hz ih
  rw [ih, swap?_length hz]

/-- Swaps at positions in range have a value. -/
theorem swaps?_isSome {ps : List (Nat × Nat)} :
    ∀ {x : List α}, (∀ p ∈ ps, p.1 < x.length ∧ p.2 < x.length) → ∃ y, swaps? ps x = some y := by
  induction ps with
  | nil => intro x _; exact ⟨x, rfl⟩
  | cons p ps ih =>
      intro x h
      obtain ⟨h₁, h₂⟩ := h p List.mem_cons_self
      obtain ⟨z, hz⟩ := swap?_of_lt h₁ h₂
      rw [swaps?_cons, hz]
      refine ih fun q hq => ?_
      rw [swap?_length hz]
      exact h q (List.mem_cons_of_mem _ hq)

theorem swaps?_perm {ps : List (Nat × Nat)} {x y : List α} (h : swaps? ps x = some y) :
    y.Perm x := by
  refine swaps?_induction (motive := fun _ x y => y.Perm x) (fun _ => .refl _) ?_ h
  intro p ps x y z hz ih
  exact ih.trans (swap?_perm hz)

/-- **Swaps undone in the opposite order.** -/
theorem swaps?_reverse {ps : List (Nat × Nat)} {x y : List α} (h : swaps? ps x = some y) :
    swaps? ps.reverse y = some x := by
  refine swaps?_induction (motive := fun ps x y => swaps? ps.reverse y = some x)
    (fun _ => rfl) ?_ h
  intro p ps x y z hz ih
  rw [List.reverse_cons, swaps?_append, ih]
  simp only [Option.bind_some, swaps?_cons, swap?_swap hz, swaps?_nil]

/-- **Related lists stay related** when the same swaps are made in both. -/
theorem swaps?_forall₂ {R : α → β → Prop} {ps : List (Nat × Nat)} {x y : List α} {x' : List β}
    (hR : List.Forall₂ R x x') (h : swaps? ps x = some y) :
    ∃ y', swaps? ps x' = some y' ∧ List.Forall₂ R y y' := by
  refine swaps?_induction (motive := fun ps x y => ∀ x', List.Forall₂ R x x' →
    ∃ y', swaps? ps x' = some y' ∧ List.Forall₂ R y y') (fun _ x' hR => ⟨x', rfl, hR⟩) ?_ h x' hR
  intro p ps x y z hz ih x' hR
  obtain ⟨z', hz', hR'⟩ := swap?_forall₂ hR hz
  obtain ⟨y', hy', hR''⟩ := ih z' hR'
  exact ⟨y', by rw [swaps?_cons, hz']; exact hy', hR''⟩

theorem swaps?_map (f : α → β) (ps : List (Nat × Nat)) :
    ∀ x : List α, swaps? ps (x.map f) = (swaps? ps x).map (List.map f) := by
  induction ps with
  | nil => intro x; rfl
  | cons p ps ih =>
      intro x
      rw [swaps?_cons, swaps?_cons, swap?_map]
      cases swap? x p.1 p.2 with
      | none => rfl
      | some z => exact ih z

/-- Swaps in the front of a list leave the rest. -/
theorem swaps?_append_right {ps : List (Nat × Nat)} (z : List α) {x y : List α}
    (h : swaps? ps x = some y) : swaps? ps (x ++ z) = some (y ++ z) := by
  refine swaps?_induction (motive := fun ps x y => swaps? ps (x ++ z) = some (y ++ z))
    (fun _ => rfl) ?_ h
  intro p ps x y w hw ih
  rw [swaps?_cons, swap?_append_right hw z]
  exact ih

end Vuvuzela.Support
