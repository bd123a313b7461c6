import Vuvuzela.Shuffle.Permutations
import Vuvuzela.Support.Draws

/-!
# Shuffle — what a shuffle hides

Two batches of the same entries in different orders.  For each shuffler of the one batch there is
one of the other that puts its entries into the same order, and that sends replies back to the same
entries (`exists_relabel`).  Which is a bijection between shufflers; they are equally likely, so a
shuffled batch does not tell the order the batch was in.
-/

namespace Vuvuzela
open Support

variable {α β : Type} {n : Nat}

namespace Shuffler

/-- The shuffler that makes of `y` what `s` makes of `x`. -/
theorem exists_same {x y : List α} (hx : x.length = n) (hnodup : x.Nodup) (h : y.Perm x)
    (s : Shuffler n) : ∃! s' : Shuffler n, s'.shuffle y = s.shuffle x := by
  obtain ⟨z, hz, hperm⟩ := s.shuffle_spec hx
  rw [hz]
  exact existsUnique_shuffle (h.length_eq.trans hx) (h.nodup_iff.mpr hnodup) (hperm.trans h.symm)

/-- For two orders of a list without repetitions, a bijection between the shufflers that make of
each order the same list. -/
theorem exists_equiv {x y : List α} (hx : x.length = n) (hnodup : x.Nodup) (h : y.Perm x) :
    ∃ e : Shuffler n ≃ Shuffler n, ∀ s, (e s).shuffle y = s.shuffle x := by
  have hy : y.length = n := h.length_eq.trans hx
  have hnodup' : y.Nodup := h.nodup_iff.mpr hnodup
  choose there hthere huniq using exists_same hx hnodup h
  choose back hback huniq' using exists_same hy hnodup' h.symm
  refine ⟨⟨there, back, fun s => ?_, fun s => ?_⟩, hthere⟩
  · exact (huniq' (there s) s (hthere s).symm).symm
  · exact (huniq (back s) s (hback s).symm).symm

/-- The positions in a list, by what is there. -/
def At (x : List α) (v : Nat) (a : α) : Prop := x[v]? = some a

theorem at_rightUnique (x : List α) : Relator.RightUnique (At x) := fun _ _ _ h h' =>
  Option.some.inj (h.symm.trans h')

theorem at_range {x : List α} (hx : x.length = n) : List.Forall₂ (At x) (List.range n) x := by
  refine forall₂_iff_getElem?.mpr ⟨by rw [List.length_range, hx], fun k v a hv ha => ?_⟩
  obtain ⟨hk, rfl⟩ := List.getElem?_eq_some_iff.mp hv
  rwa [At, List.getElem_range]

/-- Lists related to one list, taken together. -/
theorem forall₂_zip {γ : Type} {R : α → β → Prop} {S : α → γ → Prop} {l : List α} {b : List β}
    {c : List γ} (hR : List.Forall₂ R l b) (hS : List.Forall₂ S l c) :
    List.Forall₂ (fun a p => R a p.1 ∧ S a p.2) l (b.zip c) := by
  induction hR generalizing c with
  | nil => exact .nil
  | cons hr _ ih =>
      cases hS with
      | cons hs hS => exact .cons ⟨hr, hs⟩ (ih hS)

/-- **A shuffler for another order.**  For two orders of a batch there is a bijection between the
shufflers, such that a shuffler and its image make the same of the two, and give each entry the
same reply. -/
theorem exists_relabel {x y : List α} (hx : x.length = n) (h : y.Perm x) :
    ∃ e : Shuffler n ≃ Shuffler n, ∀ s, (e s).shuffle y = s.shuffle x ∧
      ∀ z w w' : List β, z.length = n → s.unshuffle z = some w → (e s).unshuffle z = some w' →
        (y.zip w').Perm (x.zip w) := by
  -- `place` is where the entries of `y` are in `x`
  obtain ⟨place, hplace, hat⟩ : ∃ place, (List.range n).Perm place ∧
      List.Forall₂ (At x) place y := by
    have hcomp : Relation.Comp (List.Forall₂ (At x)) List.Perm (List.range n) y :=
      ⟨x, at_range hx, h.symm⟩
    rwa [List.forall₂_comp_perm_eq_perm_comp_forall₂] at hcomp
  have hlen : place.length = n := by rw [← hplace.length_eq, List.length_range]
  obtain ⟨e, he⟩ := exists_equiv (List.length_range (n := n)) List.nodup_range hplace.symm
  refine ⟨e, fun s => ?_⟩
  obtain ⟨q, hq, hperm⟩ := s.shuffle_spec (List.length_range (n := n))
  have hq' : (e s).shuffle place = some q := (he s).trans hq
  constructor
  · -- both make the list of the entries at the positions `q`
    have hx' := at_range hx
    rw [s.shuffle_eq List.length_range] at hq
    rw [(e s).shuffle_eq hlen] at hq'
    obtain ⟨a, ha, hqa⟩ := swaps?_forall₂ hx' hq
    obtain ⟨b, hb, hqb⟩ := swaps?_forall₂ hat hq'
    rw [s.shuffle_eq hx, (e s).shuffle_eq (h.length_eq.trans hx), ha, hb]
    exact congrArg some ((at_rightUnique x).forall₂ hqb hqa)
  · intro z w w' hz hw hw'
    -- the reply of each position of `x`
    let Reply (v : Nat) (c : β) : Prop := ∃ j : Nat, q[j]? = some v ∧ z[j]? = some c
    have hqlen : q.length = n := by rw [hperm.length_eq, List.length_range]
    have hreply : List.Forall₂ Reply q z :=
      forall₂_iff_getElem?.mpr ⟨hqlen.trans hz.symm, fun j v c hv hc => ⟨j, hv, hc⟩⟩
    have hunique : Relator.RightUnique Reply := by
      rintro v c c' ⟨j, hj, hc⟩ ⟨j', hj', hc'⟩
      have hnodup : q.Nodup := hperm.nodup_iff.mpr List.nodup_range
      have hlt := (List.getElem?_eq_some_iff.mp hj).1
      obtain rfl : j = j' := (List.getElem?_inj hlt hnodup).mp (hj.trans hj'.symm)
      exact Option.some.inj (hc.symm.trans hc')
    obtain ⟨u, hu, hback⟩ := s.unshuffle_spec List.length_range hq hreply
    obtain ⟨u', hu', hback'⟩ := (e s).unshuffle_spec hlen hq' hreply
    obtain rfl : u = w := Option.some.inj (hu.symm.trans hw)
    obtain rfl : u' = w' := Option.some.inj (hu'.symm.trans hw')
    refine List.rel_perm_imp ?_ (forall₂_zip hat hback') (forall₂_zip (at_range hx) hback)
      hplace.symm
    rintro v ⟨a, c⟩ ⟨a', c'⟩ ⟨ha, hc⟩ ⟨ha', hc'⟩
    exact Prod.ext (at_rightUnique x ha ha') (hunique hc hc')

/-- A shuffler put among others is the one for its length. -/
theorem update_shuffle (f : (n : Nat) → Shuffler n) {m : Nat} (h : m = n) (s : Shuffler n)
    (x : List α) : (Function.update f n s m).shuffle x = s.shuffle x := by
  subst h
  rw [Function.update_self]

end Shuffler

end Vuvuzela
