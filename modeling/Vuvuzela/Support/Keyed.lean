import Mathlib.Data.List.Nodup
import Mathlib.Data.List.Perm.Basic

/-!
# Support — lists of values with keys

`valuesAt k l` are the values of `l` with the key `k`.  Where no key occurs twice, there is at
most one (`valuesAt_of_mem`, `valuesAt_of_notMem`).  `exists_split` is a list seen from one of its
positions, and from the same position after it was set.
-/

namespace Vuvuzela.Support

variable {κ β α : Type} [DecidableEq κ]

/-- The values with the key `k`. -/
def valuesAt (k : κ) (l : List (κ × β)) : List β :=
  l.filterMap fun x => if x.1 = k then some x.2 else none

theorem valuesAt_cons (k : κ) (x : κ × β) (l : List (κ × β)) :
    valuesAt k (x :: l) = if x.1 = k then x.2 :: valuesAt k l else valuesAt k l := by
  by_cases h : x.1 = k
  · simp [valuesAt, h]
  · simp [valuesAt, h]

theorem valuesAt_of_notMem {k : κ} : ∀ {l : List (κ × β)}, k ∉ l.map Prod.fst → valuesAt k l = []
  | [], _ => rfl
  | x :: l, h => by
      rw [List.map_cons, List.mem_cons, not_or] at h
      rw [valuesAt_cons, if_neg (Ne.symm h.1), valuesAt_of_notMem h.2]

theorem valuesAt_of_mem {k : κ} {b : β} :
    ∀ {l : List (κ × β)}, (l.map Prod.fst).Nodup → (k, b) ∈ l → valuesAt k l = [b]
  | [], _, h => nomatch h
  | x :: l, hn, h => by
      rw [List.map_cons, List.nodup_cons] at hn
      rw [valuesAt_cons]
      rcases List.mem_cons.mp h with rfl | h
      · rw [if_pos rfl, valuesAt_of_notMem hn.1]
      · have hne : x.1 ≠ k := fun e => hn.1 (e ▸ List.mem_map_of_mem (f := Prod.fst) h)
        rw [if_neg hne, valuesAt_of_mem hn.2 h]

omit [DecidableEq κ] in
/-- Where no key occurs twice, a key has one value. -/
theorem value_unique {l : List (κ × β)} (hn : (l.map Prod.fst).Nodup) {k : κ} {a b : β}
    (ha : (k, a) ∈ l) (hb : (k, b) ∈ l) : a = b :=
  congrArg Prod.snd (List.inj_on_of_nodup_map hn ha hb rfl)

/-- A list seen from a position, before and after the position is set. -/
theorem exists_split {l : List α} {k : Nat} {a : α} (h : l[k]? = some a) :
    ∃ l₁ l₂, l = l₁ ++ a :: l₂ ∧ ∀ b, l.set k b = l₁ ++ b :: l₂ := by
  obtain ⟨hk, rfl⟩ := List.getElem?_eq_some_iff.mp h
  refine ⟨l.take k, l.drop (k + 1), ?_, fun b => ?_⟩
  · rw [List.getElem_cons_drop, List.take_append_drop]
  · rw [List.set_eq_take_append_cons_drop, if_pos hk]

end Vuvuzela.Support
