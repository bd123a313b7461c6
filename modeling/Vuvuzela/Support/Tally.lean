import Mathlib.Data.List.Dedup
import Mathlib.Data.Finset.Dedup
import Mathlib.Data.Finset.Card
import Mathlib.Data.List.Nodup

/-!
# Support — how many values occur once, and how many more often

`once l` is the number of values that occur in `l` exactly once, `often l` the number of those
that occur twice or more.  Both are computed one element at a time (`once_concat`,
`often_concat`), do not look at the order (`once_perm`, `often_perm`), and add up over lists
with no value in common (`once_append`, `often_append`).
-/

namespace Vuvuzela.Support

variable {α : Type} [BEq α] [LawfulBEq α] [DecidableEq α]

/-- The number of values that occur exactly once. -/
def once (l : List α) : Nat := (l.toFinset.filter fun a => l.count a = 1).card

/-- The number of values that occur twice or more. -/
def often (l : List α) : Nat := (l.toFinset.filter fun a => 2 ≤ l.count a).card

theorem count_concat (l : List α) (a b : α) :
    (l ++ [a]).count b = l.count b + if a = b then 1 else 0 := by
  by_cases h : a = b
  · subst h; simp
  · simp [h]

theorem once_concat (l : List α) (a : α) :
    (once (l ++ [a]) : Int) = once l +
      (if l.count a = 0 then 1 else if l.count a = 1 then -1 else 0) := by
  -- `a` joins the values that occur once, leaves them, or was past them already
  rcases Nat.lt_trichotomy (l.count a) 1 with h | h | h
  · have h₀ : l.count a = 0 := by omega
    have hs : ((l ++ [a]).toFinset.filter fun b => (l ++ [a]).count b = 1) =
        insert a (l.toFinset.filter fun b => l.count b = 1) := by
      ext b
      by_cases hb : a = b
      · subst hb; simp [h₀]
      · simp [hb, Ne.symm hb]
    rw [once, once, hs, Finset.card_insert_of_notMem (by simp [h₀])]
    simp [h₀]
  · have hs : ((l ++ [a]).toFinset.filter fun b => (l ++ [a]).count b = 1) =
        (l.toFinset.filter fun b => l.count b = 1).erase a := by
      ext b
      by_cases hb : a = b
      · subst hb; simp [h]
      · simp [hb, Ne.symm hb]
    have hmem : a ∈ l.toFinset.filter fun b => l.count b = 1 := by
      simp [h, List.one_le_count_iff.mp h.ge]
    have hpos := Finset.card_pos.mpr ⟨a, hmem⟩
    rw [once, once, hs, Finset.card_erase_of_mem hmem]
    simp only [h, Nat.one_ne_zero, if_false, if_true]
    omega
  · have hs : ((l ++ [a]).toFinset.filter fun b => (l ++ [a]).count b = 1) =
        l.toFinset.filter fun b => l.count b = 1 := by
      ext b
      by_cases hb : a = b
      · subst hb
        simp only [List.toFinset_append, Finset.mem_filter, count_concat, if_true]
        omega
      · simp [hb, Ne.symm hb]
    rw [once, once, hs, if_neg (by omega), if_neg (by omega)]
    omega

theorem often_concat (l : List α) (a : α) :
    (often (l ++ [a]) : Int) = often l + if l.count a = 1 then 1 else 0 := by
  -- the second occurrence of a value is the one that makes it occur often
  by_cases h : l.count a = 1
  · have hs : ((l ++ [a]).toFinset.filter fun b => 2 ≤ (l ++ [a]).count b) =
        insert a (l.toFinset.filter fun b => 2 ≤ l.count b) := by
      ext b
      by_cases hb : a = b
      · subst hb; simp [h]
      · simp [hb, Ne.symm hb]
    rw [often, often, hs, Finset.card_insert_of_notMem (by simp [h])]
    simp [h]
  · have hs : ((l ++ [a]).toFinset.filter fun b => 2 ≤ (l ++ [a]).count b) =
        l.toFinset.filter fun b => 2 ≤ l.count b := by
      ext b
      by_cases hb : a = b
      · subst hb
        simp only [List.toFinset_append, Finset.mem_filter, Finset.mem_union, List.mem_toFinset,
          count_concat, if_true]
        have := List.count_pos_iff (a := a) (l := l)
        constructor
        · rintro ⟨-, h₂⟩; exact ⟨this.mp (by omega), by omega⟩
        · rintro ⟨h₁, h₂⟩; exact ⟨.inl h₁, by omega⟩
      · simp [hb, Ne.symm hb]
    rw [often, often, hs, if_neg h]
    omega

omit [LawfulBEq α] in
theorem once_perm {l l' : List α} (h : l.Perm l') : once l = once l' := by
  rw [once, once, List.toFinset_eq_of_perm _ _ h]
  simp only [h.count_eq]

omit [LawfulBEq α] in
theorem often_perm {l l' : List α} (h : l.Perm l') : often l = often l' := by
  rw [often, often, List.toFinset_eq_of_perm _ _ h]
  simp only [h.count_eq]

/-- Over lists with no value in common, a condition on counts splits. -/
theorem card_filter_count_append {l l' : List α} (hdisj : l.Disjoint l') (p : Nat → Prop)
    [DecidablePred p] :
    ((l ++ l').toFinset.filter fun a => p ((l ++ l').count a)).card =
      (l.toFinset.filter fun a => p (l.count a)).card +
        (l'.toFinset.filter fun a => p (l'.count a)).card := by
  rw [← Finset.card_union_of_disjoint]
  · congr 1
    ext a
    simp only [List.toFinset_append, List.count_append, Finset.mem_filter, Finset.mem_union,
      List.mem_toFinset]
    by_cases h : a ∈ l
    · have h' : l'.count a = 0 := List.count_eq_zero.mpr fun ha => hdisj h ha
      have hn : a ∉ l' := fun ha => hdisj h ha
      simp [h, h', hn]
    · have h₀ : l.count a = 0 := List.count_eq_zero.mpr h
      simp [h, h₀]
  · rw [Finset.disjoint_left]
    intro a ha ha'
    simp only [Finset.mem_filter, List.mem_toFinset] at ha ha'
    exact hdisj ha.1 ha'.1

theorem once_append {l l' : List α} (h : l.Disjoint l') : once (l ++ l') = once l + once l' :=
  card_filter_count_append h (· = 1)

theorem often_append {l l' : List α} (h : l.Disjoint l') : often (l ++ l') = often l + often l' :=
  card_filter_count_append h (2 ≤ ·)

/-! ### Lists of distinct values, each taken once or twice -/

theorem once_of_nodup {l : List α} (h : l.Nodup) : once l = l.length := by
  rw [once, Finset.filter_true_of_mem, List.toFinset_card_of_nodup h]
  intro a ha
  exact List.count_eq_one_of_mem h (List.mem_toFinset.mp ha)

theorem often_of_nodup {l : List α} (h : l.Nodup) : often l = 0 := by
  rw [often, Finset.card_eq_zero, Finset.filter_eq_empty_iff]
  intro a _
  have := List.nodup_iff_count_le_one.mp h a
  omega

/-- Every value of the list, twice in a row. -/
def doubled (l : List α) : List α := l.flatMap fun a => [a, a]

omit [BEq α] [LawfulBEq α] [DecidableEq α] in
theorem mem_doubled {l : List α} {a : α} : a ∈ doubled l ↔ a ∈ l := by
  simp [doubled]

omit [LawfulBEq α] [DecidableEq α] in
theorem count_doubled (l : List α) (a : α) : (doubled l).count a = 2 * l.count a := by
  induction l with
  | nil => rfl
  | cons b l ih =>
      have : doubled (b :: l) = b :: b :: doubled l := rfl
      rw [this, List.count_cons, List.count_cons, List.count_cons, ih]
      split <;> omega

omit [LawfulBEq α] in
theorem once_doubled (l : List α) : once (doubled l) = 0 := by
  rw [once, Finset.card_eq_zero, Finset.filter_eq_empty_iff]
  intro a _
  rw [count_doubled]
  omega

theorem often_doubled {l : List α} (h : l.Nodup) : often (doubled l) = l.length := by
  have hs : (doubled l).toFinset = l.toFinset := by ext a; simp [mem_doubled]
  rw [often, hs, Finset.filter_true_of_mem, List.toFinset_card_of_nodup h]
  intro a ha
  have := List.count_pos_iff.mpr (List.mem_toFinset.mp ha)
  rw [count_doubled]
  omega

end Vuvuzela.Support
