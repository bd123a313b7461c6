import Vuvuzela.Source.Server
import Mathlib.Data.List.Range
import Mathlib.Data.List.Basic

/-!
# Source — batches of a batch

`internal/span.go`: the ranges in which a batch travels.  `spans_eq` gives the list in closed
form.  A batch is far smaller than the largest `int`, and `spans` counts in the natural numbers;
`intSpans` is the function on any two `int`s.
-/

namespace Vuvuzela

structure Span where
  start : Nat
  count : Nat
  deriving DecidableEq

/-- The loop of `Spans`; `fuel` bounds its turns. -/
def spansLoop (total spanSize : Nat) : (fuel i : Nat) → List Span
  | 0, _ => []
  | fuel + 1, i =>
      if i < total then
        let c := if i + spanSize ≤ total then spanSize else total - i
        ⟨i, c⟩ :: spansLoop total spanSize fuel (i + c)
      else []

/-- `Spans`.  Each turn with a positive span size advances, so `total` turns are enough. -/
def spans (total spanSize : Nat) : List Span := spansLoop total spanSize total 0

/-- The number of spans. -/
def numSpans (total spanSize : Nat) : Nat := (total + spanSize - 1) / spanSize

/-- The `j`-th span. -/
def spanAt (total spanSize j : Nat) : Span := ⟨j * spanSize, min spanSize (total - j * spanSize)⟩

theorem lt_numSpans {total spanSize j : Nat} (h : 0 < spanSize) :
    j < numSpans total spanSize ↔ j * spanSize < total := by
  rw [numSpans, Nat.lt_div_iff_mul_lt h]
  omega

theorem spansLoop_eq (total : Nat) {spanSize : Nat} (hs : 0 < spanSize) :
    ∀ (fuel j : Nat), total ≤ fuel + j * spanSize → j ≤ numSpans total spanSize →
      spansLoop total spanSize fuel (j * spanSize) =
        (List.range' j (numSpans total spanSize - j)).map (spanAt total spanSize)
  | 0, j, hf, hj => by
      have : ¬ j < numSpans total spanSize := fun h => by
        have := (lt_numSpans hs).mp h; omega
      obtain rfl : j = numSpans total spanSize := by omega
      simp [spansLoop]
  | fuel + 1, j, hf, hj => by
      simp only [spansLoop]
      split
      · rename_i hlt
        have hj' := (lt_numSpans hs).mpr hlt
        have hr : numSpans total spanSize - j = (numSpans total spanSize - (j + 1)) + 1 := by omega
        rw [hr, List.range'_succ, List.map_cons]
        split
        · rename_i hle
          have ih := spansLoop_eq total hs fuel (j + 1)
            (by rw [Nat.succ_mul]; omega) (by omega)
          rw [Nat.succ_mul] at ih
          rw [ih]
          simp only [spanAt, List.cons.injEq, Span.mk.injEq, true_and, and_true]
          omega
        · rename_i hgt
          -- the last span: it ends at `total`, and no span starts after it
          have hn : numSpans total spanSize = j + 1 := by
            have : ¬ j + 1 < numSpans total spanSize := fun h => by
              have := (lt_numSpans hs).mp h
              rw [Nat.succ_mul] at this
              omega
            omega
          have hend :
              spansLoop total spanSize fuel (j * spanSize + (total - j * spanSize)) = [] := by
            cases fuel with
            | zero => rfl
            | succ f => rw [spansLoop, if_neg (by omega)]
          rw [hend, hn]
          simp only [spanAt, Nat.sub_self, List.range'_zero, List.map_nil, List.cons.injEq,
            Span.mk.injEq, true_and, and_true]
          omega
      · rename_i hge
        have : ¬ j < numSpans total spanSize := fun h => hge ((lt_numSpans hs).mp h)
        obtain rfl : j = numSpans total spanSize := by omega
        simp

/-- **The spans in closed form**: span `j` starts at `j * spanSize`, and all but the last are
full. -/
theorem spans_eq {total spanSize : Nat} (hs : 0 < spanSize) :
    spans total spanSize = (List.range (numSpans total spanSize)).map (spanAt total spanSize) := by
  have := spansLoop_eq total hs total 0 (by omega) (by omega)
  simpa [spans, List.range_eq_range'] using this

/-! ### With 64-bit integers -/

/-- A `Span` of `int`s. -/
structure IntSpan where
  start : Int
  count : Int
  deriving DecidableEq

/-- The loop of `Spans` in 64-bit arithmetic; no value when it takes `fuel` turns or more. -/
def intSpansLoop (total spanSize : Int) : (fuel : Nat) → (i : Int) → Option (List IntSpan)
  | 0, _ => none
  | fuel + 1, i =>
      if i < total then
        let c := if wrapInt (i + spanSize) ≤ total then spanSize else wrapInt (total - i)
        (intSpansLoop total spanSize fuel (wrapInt (i + c))).map (⟨i, c⟩ :: ·)
      else some []

/-- The capacity `Spans` asks for. -/
def spansCap (total spanSize : Int) : Int :=
  wrapInt ((wrapInt (wrapInt (total + spanSize) - 1)).tdiv spanSize)

/-- `Spans`: the capacity is computed and allocated first, 16 bytes for each span. -/
def intSpans (fuel : Nat) (total spanSize : Int) : Except Panic (Option (List IntSpan)) :=
  if spanSize = 0 then .error .divide
  else if 0 ≤ spansCap total spanSize ∧ 16 * spansCap total spanSize ≤ maxAlloc then
    .ok (intSpansLoop total spanSize fuel 0)
  else .error .make

/-! ### Positions -/

/-- Whether `i` is one of the `count` positions from `start` on. -/
def inSpan (start count i : Nat) : Prop := start ≤ i ∧ i < start + count

instance (start count i : Nat) : Decidable (inSpan start count i) :=
  inferInstanceAs (Decidable (_ ∧ _))

/-- The positions of a span. -/
theorem inSpan_spanAt {spanSize n j i : Nat} (hs : 0 < spanSize) (hi : i < n) :
    inSpan (spanAt n spanSize j).start (spanAt n spanSize j).count i ↔ i / spanSize = j := by
  simp only [inSpan, spanAt, Nat.div_eq_iff hs]
  omega

end Vuvuzela
