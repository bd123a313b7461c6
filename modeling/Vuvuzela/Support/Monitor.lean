import Vuvuzela.Support.System
import Mathlib.Logic.Function.Basic

/-!
# Support — operations under a mutex

Callers share a state behind a mutex.  A call waits for the mutex, works on the shared state turn
by turn, gives the mutex back and returns; the steps of the callers interleave in any order.

A contract says what holds of the shared state between two operations and within one, with the
operations that have ended so far.  It is about one operation at a time, and it holds in every
interleaving (`Contract.sound`).  The operations end in the order in which their callers got the
mutex, the calls and returns of a caller are its operations (`trail_of_run`), and a call that has
begun can always be brought to its return (`Contract.returns`).
-/

namespace Vuvuzela.Support

/-- An operation on a shared state.  A turn goes on or ends with a result; it has no value where
the code panics. -/
structure Operation (S A T R : Type) where
  enter : A → T
  turn : S → T → Option (S × (T ⊕ R))

namespace Monitor

variable {ι S A T R : Type}

/-- Where a caller is. -/
inductive Place (A T R : Type) where
  | idle
  | waiting (a : A)
  | inside (a : A) (t : T)
  | finished (r : R)
  | unlocked (r : R)

/-- The caller has the mutex. -/
def Place.Holds : Place A T R → Prop
  | .inside _ _ | .finished _ => True
  | _ => False

/-- The argument of a call whose operation has not ended. -/
@[simp] def Place.argument : Place A T R → List A
  | .waiting a | .inside a _ => [a]
  | _ => []

/-- The result of a call that has not returned. -/
@[simp] def Place.result : Place A T R → List R
  | .finished r | .unlocked r => [r]
  | _ => []

structure State (ι S A T R : Type) where
  shared : S
  holder : Option ι
  places : ι → Place A T R

inductive Event (ι A R : Type) where
  | called (i : ι) (a : A)
  | locked (i : ι)
  | turned (i : ι)
  | ended (i : ι) (a : A) (r : R)
  | unlocked (i : ι)
  | returned (i : ι) (r : R)

namespace Event

/-- The caller that takes the step. -/
def caller : Event ι A R → ι
  | .called i _ | .locked i | .turned i | .ended i _ _ | .unlocked i | .returned i _ => i

/-- The argument of a call. -/
def argument? : Event ι A R → Option A
  | .called _ a => some a
  | _ => none

/-- The argument and the result of an operation that ends. -/
def served? : Event ι A R → Option (A × R)
  | .ended _ a r => some (a, r)
  | _ => none

/-- The result that a call returns. -/
def result? : Event ι A R → Option R
  | .returned _ r => some r
  | _ => none

/-- The caller that gets the mutex. -/
def locker? : Event ι A R → Option ι
  | .locked i => some i
  | _ => none

/-- The caller whose operation ends. -/
def ender? : Event ι A R → Option ι
  | .ended i _ _ => some i
  | _ => none

end Event

/-! ### What a history says -/

section Histories

variable (h : List (Event ι A R)) (l : Event ι A R)

/-- The arguments of the calls. -/
def asked : List A := h.filterMap Event.argument?

/-- The arguments and the results of the operations that have ended. -/
def served : List (A × R) := h.filterMap Event.served?

/-- The results that have been returned. -/
def answered : List R := h.filterMap Event.result?

/-- The callers in the order in which they got the mutex. -/
def lockers : List ι := h.filterMap Event.locker?

/-- The callers in the order in which their operations ended. -/
def enders : List ι := h.filterMap Event.ender?

@[simp] theorem asked_concat : asked (h ++ [l]) = asked h ++ l.argument?.toList :=
  filterMap_concat ..

@[simp] theorem served_concat : served (h ++ [l]) = served h ++ l.served?.toList :=
  filterMap_concat ..

@[simp] theorem answered_concat : answered (h ++ [l]) = answered h ++ l.result?.toList :=
  filterMap_concat ..

@[simp] theorem lockers_concat : lockers (h ++ [l]) = lockers h ++ l.locker?.toList :=
  filterMap_concat ..

@[simp] theorem enders_concat : enders (h ++ [l]) = enders h ++ l.ender?.toList :=
  filterMap_concat ..

variable [DecidableEq ι] (i : ι)

/-- The steps of caller `i`. -/
def stepsOf : List (Event ι A R) := h.filter fun l => l.caller = i

theorem stepsOf_concat_self : stepsOf (h ++ [l]) l.caller = stepsOf h l.caller ++ [l] := by
  simp [stepsOf]

theorem stepsOf_concat_of_ne {h : List (Event ι A R)} {l : Event ι A R} {j : ι}
    (hj : j ≠ l.caller) : stepsOf (h ++ [l]) j = stepsOf h j := by
  simp [stepsOf, Ne.symm hj]

end Histories

variable [DecidableEq ι]

/-- Caller `i` goes on to `p`. -/
def State.put (s : State ι S A T R) (i : ι) (p : Place A T R) : State ι S A T R :=
  { s with places := Function.update s.places i p }

/-- One step of one caller. -/
inductive Step (op : Operation S A T R) :
    State ι S A T R → Event ι A R → State ι S A T R → Prop where
  | called {s : State ι S A T R} {i : ι} {a : A} (hplace : s.places i = .idle) :
      Step op s (.called i a) (s.put i (.waiting a))
  | locked {s : State ι S A T R} {i : ι} {a : A} (hplace : s.places i = .waiting a)
      (hfree : s.holder = none) :
      Step op s (.locked i) { s.put i (.inside a (op.enter a)) with holder := some i }
  | turned {s : State ι S A T R} {i : ι} {a : A} {t t' : T} {x : S}
      (hplace : s.places i = .inside a t) (hturn : op.turn s.shared t = some (x, .inl t')) :
      Step op s (.turned i) { s.put i (.inside a t') with shared := x }
  | ended {s : State ι S A T R} {i : ι} {a : A} {t : T} {r : R} {x : S}
      (hplace : s.places i = .inside a t) (hturn : op.turn s.shared t = some (x, .inr r)) :
      Step op s (.ended i a r) { s.put i (.finished r) with shared := x }
  | unlocked {s : State ι S A T R} {i : ι} {r : R} (hplace : s.places i = .finished r) :
      Step op s (.unlocked i) { s.put i (.unlocked r) with holder := none }
  | returned {s : State ι S A T R} {i : ι} {r : R} (hplace : s.places i = .unlocked r) :
      Step op s (.returned i r) (s.put i .idle)

/-- The callers of an operation on a shared state that starts as `start` says. -/
def system (op : Operation S A T R) (start : S → Prop) :
    System (State ι S A T R) (Event ι A R) where
  init s := start s.shared ∧ s.holder = none ∧ ∀ i, s.places i = .idle
  step := Step op

variable {op : Operation S A T R} {start : S → Prop} {s s' : State ι S A T R}
  {h : List (Event ι A R)} {i j : ι} {p : Place A T R}

@[simp] theorem State.put_shared : (s.put i p).shared = s.shared := rfl

@[simp] theorem State.put_self : (s.put i p).places i = p := Function.update_self ..

theorem State.put_of_ne (hj : j ≠ i) : (s.put i p).places j = s.places j :=
  Function.update_of_ne hj ..

theorem Step.places_of_ne {l : Event ι A R} (t : Step op s l s') (hj : j ≠ l.caller) :
    s'.places j = s.places j := by
  cases t <;> exact State.put_of_ne hj

/-! ### One caller at a time -/

/-- The only caller that has the mutex is the one that the mutex names. -/
def Exclusive (s : State ι S A T R) : Prop := ∀ i, (s.places i).Holds ↔ s.holder = some i

omit [DecidableEq ι] in
theorem Exclusive.eq (hex : Exclusive s) (hi : (s.places i).Holds) (hj : (s.places j).Holds) :
    j = i :=
  Option.some.inj (((hex j).mp hj).symm.trans ((hex i).mp hi))

theorem Exclusive.put {q : Place A T R} (hex : Exclusive s) (hplace : s.places i = q)
    (hp : p.Holds ↔ q.Holds) : Exclusive (s.put i p) := by
  intro j
  by_cases hj : j = i
  · subst hj
    rw [State.put_self, hp, ← hplace]
    exact hex j
  · rw [State.put_of_ne hj]
    exact hex j

theorem Exclusive.locked (hex : Exclusive s) (hfree : s.holder = none) (hp : p.Holds) :
    Exclusive { s.put i p with holder := some i } := by
  intro j
  by_cases hj : j = i
  · subst hj
    simpa using hp
  · have hnot : ¬ (s.places j).Holds := fun hholds => by simp [hfree, hex j] at hholds
    change ((s.put i p).places j).Holds ↔ some i = some j
    rw [State.put_of_ne hj, Option.some.injEq]
    exact iff_of_false hnot (Ne.symm hj)

theorem Exclusive.unlocked (hex : Exclusive s) (hi : (s.places i).Holds) (hp : ¬ p.Holds) :
    Exclusive { s.put i p with holder := none } := by
  intro j
  by_cases hj : j = i
  · subst hj
    simpa using hp
  · change ((s.put i p).places j).Holds ↔ none = some j
    rw [State.put_of_ne hj]
    exact iff_of_false (fun hholds => hj (hex.eq hi hholds)) nofun

theorem Exclusive.step (hex : Exclusive s) {l : Event ι A R} (t : Step op s l s') :
    Exclusive s' := by
  cases t with
  | called hplace => exact hex.put hplace Iff.rfl
  | locked hplace hfree => exact hex.locked hfree trivial
  | turned hplace hturn => exact hex.put hplace Iff.rfl
  | ended hplace hturn => exact hex.put hplace Iff.rfl
  | unlocked hplace => exact hex.unlocked (by rw [hplace]; trivial) id
  | returned hplace => exact hex.put hplace Iff.rfl

/-! ### The operations of one caller -/

/-- Caller `i` has asked for its operations that ended and for the one it is in, and has got
their results but for the one it is to return. -/
def Trail (h : List (Event ι A R)) (s : State ι S A T R) (i : ι) : Prop :=
  asked (stepsOf h i) = (served (stepsOf h i)).map Prod.fst ++ (s.places i).argument ∧
    (served (stepsOf h i)).map Prod.snd = answered (stepsOf h i) ++ (s.places i).result

theorem Trail.own_step {l : Event ι A R} (htrail : Trail h s l.caller) (t : Step op s l s') :
    Trail (h ++ [l]) s' l.caller := by
  rw [Trail] at htrail
  rw [Trail, stepsOf_concat_self]
  simp only [asked_concat, served_concat, answered_concat]
  cases t with
  | called hplace | unlocked hplace | returned hplace =>
      simpa [Event.caller, Event.argument?, Event.served?, Event.result?, hplace] using htrail
  | locked hplace _ | turned hplace _ | ended hplace _ =>
      simpa [Event.caller, Event.argument?, Event.served?, Event.result?, hplace] using htrail

theorem trail_of_run (run : (system op start).Run System.Any h s) (i : ι) : Trail h s i := by
  induction run with
  | init h₀ => simp [Trail, stepsOf, asked, served, answered, h₀.2.2 i]
  | @step h s s' l _ _ t ih =>
      by_cases hi : i = l.caller
      · subst hi
        exact ih.own_step t
      · rw [Trail, stepsOf_concat_of_ne hi, Step.places_of_ne t hi]
        exact ih

/-! ### Contracts -/

/-- What an operation keeps: `Between` two operations and `During` one of them, with the
operations that have ended.  A turn does not panic, and brings the operation nearer to its
end. -/
structure Contract (op : Operation S A T R) (start : S → Prop) where
  Between : List (A × R) → S → Prop
  During : List (A × R) → A → S → T → Prop
  rank : T → Nat
  between_start : ∀ {x}, start x → Between [] x
  during_enter : ∀ {done x} a, Between done x → During done a x (op.enter a)
  during_turn : ∀ {done a x x' t t'}, During done a x t → op.turn x t = some (x', .inl t') →
    During done a x' t' ∧ rank t' < rank t
  between_end : ∀ {done a x x' t r}, During done a x t → op.turn x t = some (x', .inr r) →
    Between (done ++ [(a, r)]) x'
  turns : ∀ {done a x t}, During done a x t → ∃ y, op.turn x t = some y

/-- No caller is in an operation. -/
def State.Free (s : State ι S A T R) : Prop := ∀ i a t, s.places i ≠ .inside a t

/-- Where the callers are, and what the contract says there. -/
structure Contract.Sound (c : Contract op start) (h : List (Event ι A R))
    (s : State ι S A T R) : Prop where
  exclusive : Exclusive s
  during : ∀ {i a t}, s.places i = .inside a t →
    lockers h = enders h ++ [i] ∧ c.During (served h) a s.shared t
  between : s.Free → lockers h = enders h ∧ c.Between (served h) s.shared

namespace Contract

variable {c : Contract op start} {l : Event ι A R}

theorem State.put_inside {q : Place A T R} (hplace : s.places i = q)
    (hq : ∀ a t, q ≠ .inside a t) (hp : ∀ a t, p ≠ .inside a t) (j : ι) (a : A) (t : T) :
    (s.put i p).places j = .inside a t ↔ s.places j = .inside a t := by
  by_cases hj : j = i
  · subst hj
    rw [State.put_self, hplace]
    exact iff_of_false (hp a t) (hq a t)
  · rw [State.put_of_ne hj]

omit [DecidableEq ι] in
theorem Sound.of_inside {a : A} {t : T} (hex : Exclusive s) (hplace : s.places i = .inside a t)
    (horder : lockers h = enders h ++ [i]) (hduring : c.During (served h) a s.shared t) :
    c.Sound h s := by
  refine ⟨hex, ?_, fun hfree => (hfree i a t hplace).elim⟩
  intro j a' t' hj
  obtain rfl : j = i := hex.eq (by rw [hplace]; trivial) (by rw [hj]; trivial)
  cases hplace.symm.trans hj
  exact ⟨horder, hduring⟩

omit [DecidableEq ι] in
/-- A step outside of the operations. -/
theorem Sound.outside (hs : c.Sound h s) (hex : Exclusive s') (hshared : s'.shared = s.shared)
    (hplaces : ∀ i a t, s'.places i = .inside a t ↔ s.places i = .inside a t)
    (hserved : l.served? = none) (hlocker : l.locker? = none) (hender : l.ender? = none) :
    c.Sound (h ++ [l]) s' := by
  refine ⟨hex, ?_, ?_⟩
  · intro i a t hplace
    simpa [hserved, hlocker, hender, hshared] using hs.during ((hplaces i a t).mp hplace)
  · intro hfree
    have hfree' : s.Free := fun i a t hplace => hfree i a t ((hplaces i a t).mpr hplace)
    simpa [hserved, hlocker, hender, hshared] using hs.between hfree'

theorem Sound.locked {a : A} (hs : c.Sound h s) (hfree : s.holder = none) :
    c.Sound (h ++ [.locked i]) { s.put i (.inside a (op.enter a)) with holder := some i } := by
  have hnone : s.Free := fun j a t hj => by
    have hholds := (hs.exclusive j).mp (by rw [hj]; trivial)
    simp [hfree] at hholds
  obtain ⟨horder, hbetween⟩ := hs.between hnone
  refine .of_inside (hs.exclusive.locked hfree trivial) State.put_self ?_ ?_
  · simpa [Event.locker?, Event.ender?] using horder
  · simpa [Event.served?] using c.during_enter a hbetween

theorem Sound.turned {a : A} {t t' : T} {x : S} (hs : c.Sound h s)
    (hplace : s.places i = .inside a t) (hturn : op.turn s.shared t = some (x, .inl t')) :
    c.Sound (h ++ [.turned i]) { s.put i (.inside a t') with shared := x } := by
  obtain ⟨horder, hduring⟩ := hs.during hplace
  refine .of_inside (hs.exclusive.put hplace Iff.rfl) State.put_self ?_ ?_
  · simpa [Event.locker?, Event.ender?] using horder
  · simpa [Event.served?] using (c.during_turn hduring hturn).1

theorem Sound.ended {a : A} {t : T} {r : R} {x : S} (hs : c.Sound h s)
    (hplace : s.places i = .inside a t) (hturn : op.turn s.shared t = some (x, .inr r)) :
    c.Sound (h ++ [.ended i a r]) { s.put i (.finished r) with shared := x } := by
  obtain ⟨horder, hduring⟩ := hs.during hplace
  have hex : Exclusive { s.put i (.finished r) with shared := x } :=
    hs.exclusive.put hplace Iff.rfl
  refine ⟨hex, ?_, fun _ => ?_⟩
  · intro j a' t' hj
    obtain rfl : i = j := hex.eq (by rw [hj]; trivial) (by rw [State.put_self]; trivial)
    cases State.put_self.symm.trans hj
  · simpa [Event.locker?, Event.ender?, Event.served?, horder] using c.between_end hduring hturn

theorem Sound.step (hs : c.Sound h s) (t : Step op s l s') : c.Sound (h ++ [l]) s' := by
  have hex := hs.exclusive.step t
  cases t with
  | called hplace | returned hplace =>
      exact hs.outside hex rfl (State.put_inside hplace nofun nofun) rfl rfl rfl
  | unlocked hplace => exact hs.outside hex rfl (State.put_inside hplace nofun nofun) rfl rfl rfl
  | locked hplace hfree => exact hs.locked hfree
  | turned hplace hturn => exact hs.turned hplace hturn
  | ended hplace hturn => exact hs.ended hplace hturn

/-- **A contract holds in every interleaving.** -/
theorem sound (c : Contract op start) (run : (system op start).Run System.Any h s) :
    c.Sound h s := by
  refine run.invariant (fun s h₀ => ?_) fun h s l s' hs _ t => hs.step t
  obtain ⟨hstart, hholder, hidle⟩ := h₀
  refine ⟨fun i => ?_, fun hplace => ?_, fun _ => ⟨rfl, c.between_start hstart⟩⟩
  · simp [hidle i, hholder, Place.Holds]
  · simp [hidle] at hplace

/-! ### Every call can return -/

/-- The run can go on so that caller `i` returns. -/
def Returns (op : Operation S A T R) (start : S → Prop) (h : List (Event ι A R)) (i : ι) : Prop :=
  ∃ h' s' r, (system op start).Run System.Any (h ++ h') s' ∧ .returned i r ∈ h'

theorem Returns.of_append {h' : List (Event ι A R)} (hreturns : Returns op start (h ++ h') i) :
    Returns op start h i := by
  obtain ⟨h'', s', r, run, hmem⟩ := hreturns
  exact ⟨h' ++ h'', s', r, List.append_assoc h h' h'' ▸ run, List.mem_append_right _ hmem⟩

theorem returns_of_unlocked {r : R} (run : (system op start).Run System.Any h s)
    (hplace : s.places i = .unlocked r) : Returns op start h i :=
  ⟨[.returned i r], _, r, run.step trivial (Step.returned hplace), List.mem_singleton_self _⟩

theorem returns_of_finished {r : R} (run : (system op start).Run System.Any h s)
    (hplace : s.places i = .finished r) : Returns op start h i :=
  (returns_of_unlocked (run.step trivial (Step.unlocked hplace)) State.put_self).of_append

/-- A caller that is in an operation ends it, and no other caller is in its way. -/
theorem finishes (c : Contract op start) {a : A} {t : T}
    (run : (system op start).Run System.Any h s) (hplace : s.places i = .inside a t) :
    ∃ h' s' r, (system op start).Run System.Any (h ++ h') s' ∧ s'.places i = .finished r ∧
      served (h ++ h') = served h ++ [(a, r)] ∧ ∀ j ≠ i, s'.places j = s.places j := by
  -- the rank of what is left to do goes down with every turn
  induction hn : c.rank t using Nat.strongRecOn generalizing h s t with
  | _ n ih =>
      obtain ⟨-, hduring⟩ := (c.sound run).during hplace
      obtain ⟨⟨x, t' | r⟩, hturn⟩ := c.turns hduring
      · obtain ⟨-, hlt⟩ := c.during_turn hduring hturn
        obtain ⟨h', s', r, run', hfinished, hserved, hothers⟩ := ih (c.rank t') (hn ▸ hlt)
          (run.step trivial (Step.turned hplace hturn)) State.put_self rfl
        rw [List.append_assoc] at run' hserved
        refine ⟨_, s', r, run', hfinished, ?_, fun j hj => ?_⟩
        · rw [hserved, served_concat]
          exact congrArg (· ++ [(a, r)]) (List.append_nil _)
        · exact (hothers j hj).trans (State.put_of_ne hj)
      · exact ⟨_, _, r, run.step trivial (Step.ended hplace hturn), State.put_self,
          served_concat _ _, fun j hj => State.put_of_ne hj⟩

theorem returns_of_inside (c : Contract op start) {a : A} {t : T}
    (run : (system op start).Run System.Any h s) (hplace : s.places i = .inside a t) :
    Returns op start h i := by
  obtain ⟨h', s', r, run', hfinished, -, -⟩ := c.finishes run hplace
  exact (returns_of_finished run' hfinished).of_append

theorem returns_of_waiting (c : Contract op start) {a : A}
    (run : (system op start).Run System.Any h s) (hplace : s.places i = .waiting a)
    (hfree : s.holder = none) : Returns op start h i :=
  (c.returns_of_inside (run.step trivial (Step.locked hplace hfree)) State.put_self).of_append

theorem releases_of_finished {r : R} (run : (system op start).Run System.Any h s)
    (hplace : s.places i = .finished r) :
    ∃ h' s', (system op start).Run System.Any (h ++ h') s' ∧ s'.holder = none ∧
      ∀ j ≠ i, s'.places j = s.places j :=
  ⟨_, _, run.step trivial (Step.unlocked hplace), rfl, fun _ hj => State.put_of_ne hj⟩

/-- The caller that has the mutex gives it back. -/
theorem releases (c : Contract op start) (run : (system op start).Run System.Any h s)
    (hholder : s.holder = some i) :
    ∃ h' s', (system op start).Run System.Any (h ++ h') s' ∧ s'.holder = none ∧
      ∀ j ≠ i, s'.places j = s.places j := by
  have hholds := ((c.sound run).exclusive i).mpr hholder
  cases hplace : s.places i with
  | idle | waiting | unlocked => rw [hplace] at hholds; exact hholds.elim
  | finished r => exact releases_of_finished run hplace
  | inside a t =>
      obtain ⟨h₁, s₁, r, run₁, hfinished, -, hothers₁⟩ := c.finishes run hplace
      obtain ⟨h₂, s₂, run₂, hfree, hothers₂⟩ := releases_of_finished run₁ hfinished
      exact ⟨h₁ ++ h₂, s₂, List.append_assoc h h₁ h₂ ▸ run₂, hfree,
        fun j hj => (hothers₂ j hj).trans (hothers₁ j hj)⟩

/-- **Every call can return**, whatever the callers have done so far. -/
theorem returns (c : Contract op start) (run : (system op start).Run System.Any h s)
    (hbusy : s.places i ≠ .idle) : Returns op start h i := by
  cases hplace : s.places i with
  | idle => exact (hbusy hplace).elim
  | inside a t => exact c.returns_of_inside run hplace
  | finished r => exact returns_of_finished run hplace
  | unlocked r => exact returns_of_unlocked run hplace
  | waiting a =>
      cases hholder : s.holder with
      | none => exact c.returns_of_waiting run hplace hholder
      | some j =>
          -- the holder is another caller, and goes first
          obtain ⟨h', s', run', hfree, hothers⟩ := c.releases run hholder
          have hj : i ≠ j := by
            rintro rfl
            have hholds := ((c.sound run).exclusive i).mpr hholder
            rw [hplace] at hholds
            exact hholds
          have hwaits : s'.places i = .waiting a := (hothers i hj).trans hplace
          exact (c.returns_of_waiting run' hwaits hfree).of_append

end Contract

end Monitor

end Vuvuzela.Support
