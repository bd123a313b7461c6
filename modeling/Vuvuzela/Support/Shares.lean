import Mathlib.Algebra.BigOperators.Fin
import Mathlib.Algebra.Order.Group.Multiset
import Mathlib.Data.Multiset.Basic
import Mathlib.Tactic.Abel

/-!
# Support — who holds what

Things that move between the parts of a system, counted with a multiset: what a list holds and
what it holds after one is added or taken, and what all parts hold together after one of them
changes (`sum_update`).
-/

namespace Vuvuzela.Support

section Lists

variable {α : Type} {l : List α} {a : α}

theorem coe_concat (l : List α) (a : α) : ((l ++ [a] : List α) : Multiset α) = l + {a} :=
  (Multiset.coe_add l [a]).symm

theorem coe_of_head? (h : l.head? = some a) : (l : Multiset α) = l.tail + {a} := by
  obtain ⟨l', rfl⟩ := List.head?_eq_some_iff.mp h
  rw [List.tail_cons, ← Multiset.cons_coe, ← Multiset.singleton_add, add_comm]

theorem coe_of_mem [DecidableEq α] (h : a ∈ l) : (l : Multiset α) = l.erase a + {a} := by
  rw [← Multiset.coe_erase, add_comm, Multiset.singleton_add,
    Multiset.cons_erase (Multiset.mem_coe.mpr h)]

end Lists

/-- The shares of all parts, when one part changes. -/
theorem sum_update {ι P M : Type} [Fintype ι] [DecidableEq ι] [AddCommMonoid M] (share : P → M)
    (parts : ι → P) (i : ι) (p : P) :
    ∑ j, share (Function.update parts i p j) + share (parts i) =
      ∑ j, share (parts j) + share p := by
  have hcomp : (fun j => share (Function.update parts i p j)) =
      Function.update (fun j => share (parts j)) i (share p) :=
    Function.comp_update share parts i p
  rw [hcomp, Finset.sum_update_of_mem (Finset.mem_univ i),
    Finset.sum_eq_add_sum_sdiff_singleton_of_mem (Finset.mem_univ i) fun j => share (parts j)]
  abel

end Vuvuzela.Support
