import Vuvuzela.Support.Programs
import Vuvuzela.Support.System
import Mathlib.Data.Finset.Max
import Mathlib.Data.Finset.Card

/-!
# Support — programs that go hand over hand

Jobs go along a row of nodes.  Each takes the locks of the nodes one after the other, and gives
the lock of a node back only once it has that of the next one (`Prog.Coupled`).  Between the locks
it acts on nodes, on a part of their state that no other job sees (`Own`).  The steps of the jobs
interleave in any way; a job that comes to a lock that is held waits.

A job that fails keeps the locks it has, and the others go on.  It may bring nodes down with it, any
of them and at any time.  A node that is down takes no steps, and while one is down any job may be
lost: which of them depend on the node is not looked at.

From this alone:

* a job goes on as it would by itself, until it is lost (`alone_of_run`), and nobody is lost before
  a job has failed as it does by itself (`failed_of_run`);
* no lock is held by two jobs (`Sound.exclusive`), and the jobs take the lock of every node in the
  order in which they took that of the first (`inOrder_of_run`);
* jobs that would return by themselves can always be brought to their end (`completes`): the one
  that is ahead of the others waits for nobody.
-/

namespace Vuvuzela.Support

variable {J ε N V α β : Type} {latch : Latch N} {view : J → N → V} {j : J} {len : Nat}

/-- An action reads and writes what `j` sees of a node, and neither the lock nor what others
see. -/
structure Own (latch : Latch N) (view : J → N → V) (j : J) (x : N → N) : Prop where
  view_eq : ∀ n m, view j n = view j m → view j (x n) = view j (x m)
  others : ∀ n, ∀ j' ≠ j, view j' (x n) = view j' n
  held_eq : ∀ n, latch.held (x n) = latch.held n

theorem Own.held_update {x : N → N} (hown : Own latch view j x) {node : Nat → N} {i i' : Nat} :
    latch.held (Function.update node i (x (node i)) i') = latch.held (node i') := by
  by_cases hi : i' = i
  · subst hi
    rw [Function.update_self, hown.held_eq]
  · rw [Function.update_of_ne hi]

/-- **Hand over hand**, along `len` nodes.  A pair says how many locks were given back, and how
many were taken: those of the nodes in between are held. -/
def Prog.Coupled (latch : Latch N) (view : J → N → V) (j : J) (len : Nat) :
    Prog ε N α → Nat × Nat → Nat × Nat → Prop
  | .ret _, s, t => s = t
  | .stop _, _, _ => True
  | .lock i _ p, s, t =>
      i = s.2 ∧ s.2 < len ∧ (s.2 = 0 ∨ s.1 < s.2) ∧ p.Coupled latch view j len (s.1, s.2 + 1) t
  | .unlock i _ p, s, t =>
      i = s.1 ∧ s.1 < s.2 ∧ (s.1 + 1 < s.2 ∨ s.2 = len) ∧
        p.Coupled latch view j len (s.1 + 1, s.2) t
  | .act _ x p, s, t =>
      Own latch view j x ∧ (∀ n m, view j n = view j m → p n = p m) ∧
        ∀ n, (p n).Coupled latch view j len s t

namespace Prog

theorem Coupled.bind {p : Prog ε N α} {f : α → Prog ε N β} {t u : Nat × Nat} :
    ∀ {s : Nat × Nat}, p.Coupled latch view j len s t →
      (∀ a, (f a).Coupled latch view j len t u) → (p >>= f).Coupled latch view j len s u := by
  change ∀ {s : Nat × Nat}, _ → _ → (p.bind f).Coupled latch view j len s u
  induction p with
  | ret a =>
      rintro s rfl hf
      exact hf a
  | stop e => exact fun _ _ => trivial
  | lock i e p ih => exact fun ⟨hi, hlen, hlo, hp⟩ hf => ⟨hi, hlen, hlo, ih hp hf⟩
  | unlock i e p ih => exact fun ⟨hi, hlt, hnext, hp⟩ hf => ⟨hi, hlt, hnext, ih hp hf⟩
  | act i x p ih =>
      exact fun ⟨hx, heq, hp⟩ hf => ⟨hx, fun n m h => congrArg (Prog.bind · f) (heq n m h),
        fun n => ih n (hp n) hf⟩

theorem Coupled.mapFault (f : ε → ε) {p : Prog ε N α} {t : Nat × Nat} :
    ∀ {s : Nat × Nat}, p.Coupled latch view j len s t →
      (p.mapFault f).Coupled latch view j len s t := by
  induction p with
  | ret a => exact fun h => h
  | stop e => exact fun _ => trivial
  | lock i e p ih => exact fun ⟨hi, hlen, hlo, hp⟩ => ⟨hi, hlen, hlo, ih hp⟩
  | unlock i e p ih => exact fun ⟨hi, hlt, hnext, hp⟩ => ⟨hi, hlt, hnext, ih hp⟩
  | act i x p ih =>
      exact fun ⟨hx, heq, hp⟩ => ⟨hx, fun n m h => congrArg (Prog.mapFault f) (heq n m h),
        fun n => ih n (hp n)⟩

end Prog

namespace Coupling

/-- The nodes, what is left of each job, and which nodes are down. -/
structure State (J ε N α : Type) where
  node : Nat → N
  task : J → Prog ε N α
  down : Nat → Bool

inductive Event (J : Type) where
  | locked (j : J) (i : Nat)
  | unlocked (j : J) (i : Nat)
  | slipped (j : J) (i : Nat)
  | acted (j : J) (i : Nat)
  /-- A job that has failed brought a node down. -/
  | crashed (j : J) (i : Nat)
  /-- A job was lost with a node that is down. -/
  | lost (j : J) (i : Nat)

/-- The job of a step. -/
def Event.job : Event J → J
  | .locked j _ => j
  | .unlocked j _ => j
  | .slipped j _ => j
  | .acted j _ => j
  | .crashed j _ => j
  | .lost j _ => j

/-- Whether a step is one that leaves the locks alone. -/
def Event.quiet : Event J → Bool
  | .locked .. | .unlocked .. => false
  | .slipped .. | .acted .. | .crashed .. | .lost .. => true

/-! ### What a history adds up to -/

/-- The jobs that have taken the lock of a node, in the order in which they did. -/
def acquired (i : Nat) (h : List (Event J)) : List J :=
  h.filterMap fun l => match l with | .locked j i' => if i' = i then some j else none | _ => none

/-- A job that has taken a step. -/
def Started (h : List (Event J)) (j : J) : Prop := ∃ l ∈ h, l.job = j

/-- A job that was lost. -/
def Lost (h : List (Event J)) (j : J) : Prop := ∃ i, .lost j i ∈ h

theorem lost_concat {h : List (Event J)} {l : Event J} (hl : ∀ j i, l ≠ .lost j i) {j : J} :
    Lost (h ++ [l]) j ↔ Lost h j := by
  refine exists_congr fun i => ?_
  rw [List.mem_append, List.mem_singleton]
  exact or_iff_left (hl j i).symm

section Acquired

variable (h : List (Event J)) (j : J) (i : Nat)

@[simp] theorem acquired_locked_self : acquired i (h ++ [.locked j i]) = acquired i h ++ [j] := by
  simp [acquired]

theorem acquired_locked_of_ne {i' : Nat} (hi : i ≠ i') :
    acquired i' (h ++ [.locked j i]) = acquired i' h := by
  simp [acquired, hi]

@[simp] theorem acquired_unlocked (i' : Nat) :
    acquired i' (h ++ [.unlocked j i]) = acquired i' h := by
  simp [acquired]

theorem acquired_quiet {l : Event J} (hl : l.quiet = true) :
    acquired i (h ++ [l]) = acquired i h := by
  cases l <;> simp_all [acquired, Event.quiet]

end Acquired

section System

variable [DecidableEq J]

/-- How many locks a job has taken. -/
def took (h : List (Event J)) (j : J) : Nat :=
  h.countP fun l => match l with | .locked j' _ => j' = j | _ => false

/-- How many locks a job has given back. -/
def gave (h : List (Event J)) (j : J) : Nat :=
  h.countP fun l => match l with | .unlocked j' _ => j' = j | _ => false

/-- The locks a job holds. -/
def Holds (h : List (Event J)) (j : J) (i : Nat) : Prop := gave h j ≤ i ∧ i < took h j

section Concat

variable (h : List (Event J)) (j : J) (i : Nat)

@[simp] theorem took_locked :
    took (h ++ [.locked j i]) = Function.update (took h) j (took h j + 1) := by
  funext j'
  by_cases hj : j' = j
  · subst hj; simp [took]
  · simp [took, hj, Ne.symm hj]

@[simp] theorem took_unlocked : took (h ++ [.unlocked j i]) = took h := by
  funext j'; simp [took]

theorem took_quiet {l : Event J} (hl : l.quiet = true) : took (h ++ [l]) = took h := by
  funext j'
  cases l <;> simp_all [took, Event.quiet]

@[simp] theorem gave_locked : gave (h ++ [.locked j i]) = gave h := by
  funext j'; simp [gave]

@[simp] theorem gave_unlocked :
    gave (h ++ [.unlocked j i]) = Function.update (gave h) j (gave h j + 1) := by
  funext j'
  by_cases hj : j' = j
  · subst hj; simp [gave]
  · simp [gave, hj, Ne.symm hj]

theorem gave_quiet {l : Event J} (hl : l.quiet = true) : gave (h ++ [l]) = gave h := by
  funext j'
  cases l <;> simp_all [gave, Event.quiet]

end Concat

section Holds

variable {h : List (Event J)} {j j' : J} {i : Nat}

theorem holds_locked (hle : gave h j ≤ took h j) :
    Holds (h ++ [.locked j (took h j)]) j' i ↔ Holds h j' i ∨ j' = j ∧ i = took h j := by
  by_cases hj : j' = j
  · subst hj
    simp only [Holds, gave_locked, took_locked, Function.update_self, true_and]
    omega
  · simp [Holds, hj]

theorem holds_unlocked :
    Holds (h ++ [.unlocked j (gave h j)]) j' i ↔ Holds h j' i ∧ ¬ (j' = j ∧ i = gave h j) := by
  by_cases hj : j' = j
  · subst hj
    simp only [Holds, took_unlocked, gave_unlocked, Function.update_self, true_and]
    omega
  · simp [Holds, hj]

theorem holds_quiet {l : Event J} (hl : l.quiet = true) : Holds (h ++ [l]) j i ↔ Holds h j i := by
  rw [Holds, Holds, took_quiet h hl, gave_quiet h hl]

end Holds

/-- A job that has taken a lock has taken a step. -/
theorem started_of_took {h : List (Event J)} {j : J} (ht : 0 < took h j) : Started h j := by
  obtain ⟨l, hl, hj⟩ := List.countP_pos_iff.mp ht
  refine ⟨l, hl, ?_⟩
  cases l <;> simp_all [Event.job]

/-! ### The steps of the jobs -/

/-- One step. -/
inductive Step (latch : Latch N) : State J ε N α → Event J → State J ε N α → Prop where
  | lock {s : State J ε N α} {j : J} {i : Nat} {e : ε} {p : Prog ε N α}
      (h : s.task j = .lock i e p) (hup : s.down i = false)
      (hfree : latch.held (s.node i) = false) :
      Step latch s (.locked j i)
        ⟨Function.update s.node i (latch.set true (s.node i)), Function.update s.task j p, s.down⟩
  | unlock {s : State J ε N α} {j : J} {i : Nat} {e : ε} {p : Prog ε N α}
      (h : s.task j = .unlock i e p) (hup : s.down i = false)
      (hheld : latch.held (s.node i) = true) :
      Step latch s (.unlocked j i)
        ⟨Function.update s.node i (latch.set false (s.node i)), Function.update s.task j p, s.down⟩
  | slip {s : State J ε N α} {j : J} {i : Nat} {e : ε} {p : Prog ε N α}
      (h : s.task j = .unlock i e p) (hup : s.down i = false)
      (hfree : latch.held (s.node i) = false) :
      Step latch s (.slipped j i) ⟨s.node, Function.update s.task j (.stop e), s.down⟩
  | act {s : State J ε N α} {j : J} {i : Nat} {x : N → N} {p : N → Prog ε N α}
      (h : s.task j = .act i x p) (hup : s.down i = false) :
      Step latch s (.acted j i)
        ⟨Function.update s.node i (x (s.node i)), Function.update s.task j (p (s.node i)), s.down⟩
  | crash {s : State J ε N α} {j : J} {i : Nat} {e : ε} (h : s.task j = .stop e) :
      Step latch s (.crashed j i) ⟨s.node, s.task, Function.update s.down i true⟩
  | lose {s : State J ε N α} {j : J} {i : Nat} {e : ε} (hdown : s.down i = true)
      (hret : ∀ a, s.task j ≠ .ret a) (hstop : ∀ e, s.task j ≠ .stop e) :
      Step latch s (.lost j i) ⟨s.node, Function.update s.task j (.stop e), s.down⟩

/-- The jobs `start` on the nodes `fresh`. -/
def system (latch : Latch N) (fresh : Nat → N) (start : J → Prog ε N α) :
    System (State J ε N α) (Event J) where
  init s := s = ⟨fresh, start, fun _ => false⟩
  step := Step latch

/-- The next step of a job, where it has one and does not wait. -/
def advance (latch : Latch N) (j : J) (s : State J ε N α) : Option (Event J × State J ε N α) :=
  match s.task j with
  | .lock i _ p =>
      if s.down i = false ∧ latch.held (s.node i) = false then
        some (.locked j i, ⟨Function.update s.node i (latch.set true (s.node i)),
          Function.update s.task j p, s.down⟩)
      else none
  | .unlock i _ p =>
      if s.down i = false ∧ latch.held (s.node i) = true then
        some (.unlocked j i, ⟨Function.update s.node i (latch.set false (s.node i)),
          Function.update s.task j p, s.down⟩)
      else none
  | .act i x p =>
      if s.down i = false then
        some (.acted j i, ⟨Function.update s.node i (x (s.node i)),
          Function.update s.task j (p (s.node i)), s.down⟩)
      else none
  | .ret _ | .stop _ => none

theorem step_of_advance {j : J} {s s' : State J ε N α} {l : Event J}
    (h : advance latch j s = some (l, s')) : Step latch s l s' ∧ l.job = j := by
  rw [advance] at h
  split at h
  · rename_i htask
    obtain ⟨⟨hup, hfree⟩, heq⟩ := Option.ite_none_right_eq_some.mp h
    cases heq
    exact ⟨.lock htask hup hfree, rfl⟩
  · rename_i htask
    obtain ⟨⟨hup, hheld⟩, heq⟩ := Option.ite_none_right_eq_some.mp h
    cases heq
    exact ⟨.unlock htask hup hheld, rfl⟩
  · rename_i htask
    obtain ⟨hup, heq⟩ := Option.ite_none_right_eq_some.mp h
    cases heq
    exact ⟨.act htask hup, rfl⟩
  · cases h
  · cases h

/-- A job that has returned. -/
def Finished (s : State J ε N α) (j : J) : Prop := ∃ a, s.task j = .ret a

/-! ### Jobs side by side, and each by itself -/

/-- What is left of a job would do the same on nodes of its own, which look to the job as the
nodes do and have the locks it holds. -/
def Alone (latch : Latch N) (view : J → N → V) (fresh : Nat → N) (p₀ : Prog ε N α)
    (h : List (Event J)) (s : State J ε N α) (j : J) : Prop :=
  ∃ t : Nat → N, p₀.run latch fresh = (s.task j).run latch t ∧
    (∀ i, view j (t i) = view j (s.node i)) ∧ ∀ i, latch.held (t i) = true ↔ Holds h j i

/-- What holds in every state reached, of jobs that go hand over hand. -/
structure Sound (latch : Latch N) (view : J → N → V) (len : Nat) (fresh : Nat → N)
    (start : J → Prog ε N α) (h : List (Event J)) (s : State J ε N α) : Prop where
  coupled : ∀ j, (s.task j).Coupled latch view j len (gave h j, took h j) (len, len)
  le : ∀ j, gave h j ≤ took h j ∧ took h j ≤ len
  held : ∀ i, latch.held (s.node i) = true ↔ ∃ j, Holds h j i
  exclusive : ∀ {i j j'}, Holds h j i → Holds h j' i → j = j'
  alone : ∀ j, ¬ Lost h j → Alone latch view fresh (start j) h s j

variable {fresh : Nat → N} {start : J → Prog ε N α} {h : List (Event J)} {s s' : State J ε N α}
  {l : Event J}

/-- How a step goes where the jobs go hand over hand. -/
inductive Moved (latch : Latch N) (view : J → N → V) (len : Nat) (h : List (Event J))
    (s : State J ε N α) : Event J → State J ε N α → Prop where
  | lock {j : J} {e : ε} {p : Prog ε N α} (htask : s.task j = .lock (took h j) e p)
      (hlen : took h j < len) (hlo : took h j = 0 ∨ gave h j < took h j)
      (hp : p.Coupled latch view j len (gave h j, took h j + 1) (len, len))
      (hfree : ∀ j', ¬ Holds h j' (took h j)) :
      Moved latch view len h s (.locked j (took h j))
        ⟨Function.update s.node (took h j) (latch.set true (s.node (took h j))),
          Function.update s.task j p, s.down⟩
  | unlock {j : J} {e : ε} {p : Prog ε N α} (htask : s.task j = .unlock (gave h j) e p)
      (hlt : gave h j < took h j) (hnext : gave h j + 1 < took h j ∨ took h j = len)
      (hp : p.Coupled latch view j len (gave h j + 1, took h j) (len, len)) :
      Moved latch view len h s (.unlocked j (gave h j))
        ⟨Function.update s.node (gave h j) (latch.set false (s.node (gave h j))),
          Function.update s.task j p, s.down⟩
  | act {j : J} {i : Nat} {x : N → N} {p : N → Prog ε N α} (htask : s.task j = .act i x p)
      (hown : Own latch view j x) (heq : ∀ n m, view j n = view j m → p n = p m)
      (hp : ∀ n, (p n).Coupled latch view j len (gave h j, took h j) (len, len)) :
      Moved latch view len h s (.acted j i)
        ⟨Function.update s.node i (x (s.node i)), Function.update s.task j (p (s.node i)), s.down⟩
  | crash {j : J} {i : Nat} :
      Moved latch view len h s (.crashed j i) ⟨s.node, s.task, Function.update s.down i true⟩
  | lose {j : J} {i : Nat} {e : ε} :
      Moved latch view len h s (.lost j i) ⟨s.node, Function.update s.task j (.stop e), s.down⟩

theorem Sound.free_iff (hs : Sound latch view len fresh start h s) {i : Nat} :
    latch.held (s.node i) = false ↔ ∀ j, ¬ Holds h j i := by
  rw [← not_exists, ← hs.held, Bool.not_eq_true]

/-- Nobody gives back a lock that is not held. -/
theorem Sound.moved (hs : Sound latch view len fresh start h s) (t : Step latch s l s') :
    Moved latch view len h s l s' := by
  cases t with
  | @lock j i e p htask _ hfree =>
      have hc := hs.coupled j
      rw [htask] at hc
      obtain ⟨rfl, hlen, hlo, hp⟩ := hc
      exact .lock htask hlen hlo hp (hs.free_iff.mp hfree)
  | @unlock j i e p htask =>
      have hc := hs.coupled j
      rw [htask] at hc
      obtain ⟨rfl, hlt, hnext, hp⟩ := hc
      exact .unlock htask hlt hnext hp
  | @slip j i e p htask _ hfree =>
      have hc := hs.coupled j
      rw [htask] at hc
      obtain ⟨rfl, hlt, -, -⟩ := hc
      exact absurd ⟨le_refl _, hlt⟩ (hs.free_iff.mp hfree j)
  | @act j i x p htask =>
      have hc := hs.coupled j
      rw [htask] at hc
      exact .act htask hc.1 hc.2.1 hc.2.2
  | crash => exact .crash
  | lose => exact .lose

/-! ### Every step -/

section Steps

variable (hset : ∀ j b n, view j (latch.set b n) = view j n)

omit [DecidableEq J] in
/-- A node that looks to a job as before. -/
theorem view_update {node : Nat → N} {i : Nat} {n : N} {j : J}
    (hn : view j n = view j (node i)) (i' : Nat) :
    view j (Function.update node i n i') = view j (node i') := by
  by_cases hi : i' = i
  · subst hi
    rw [Function.update_self, hn]
  · rw [Function.update_of_ne hi]

omit [DecidableEq J] in
theorem held_locked {node : Nat → N} {i i' : Nat} :
    latch.held (Function.update node i (latch.set true (node i)) i') = true ↔
      latch.held (node i') = true ∨ i' = i := by
  by_cases hi : i' = i
  · subst hi
    simp [latch.held_set]
  · simp [hi]

omit [DecidableEq J] in
theorem held_unlocked {node : Nat → N} {i i' : Nat} :
    latch.held (Function.update node i (latch.set false (node i)) i') = true ↔
      latch.held (node i') = true ∧ i' ≠ i := by
  by_cases hi : i' = i
  · subst hi
    simp [latch.held_set]
  · simp [hi]

/-- The step of another job. -/
theorem Alone.other {p₀ : Prog ε N α} {h' : List (Event J)} {j : J}
    (ha : Alone latch view fresh p₀ h s j) (htask : s'.task j = s.task j)
    (hview : ∀ i, view j (s'.node i) = view j (s.node i))
    (hholds : ∀ i, Holds h' j i ↔ Holds h j i) : Alone latch view fresh p₀ h' s' j := by
  obtain ⟨t, hrun, hv, hheld⟩ := ha
  refine ⟨t, by rw [htask, hrun], fun i => by rw [hv, hview], fun i => by rw [hheld, hholds]⟩

/-- The own step of a job: the nodes of its own change as the nodes do. -/
theorem Alone.own {p₀ p p' : Prog ε N α} {h' : List (Event J)} {j : J} {i : Nat} {x : N → N}
    {t : Nat → N} (hrun : p₀.run latch fresh = p.run latch t)
    (hstep : p.run latch t = p'.run latch (Function.update t i (x (t i))))
    (hv : ∀ i, view j (t i) = view j (s.node i)) (hx : view j (x (t i)) = view j (x (s.node i)))
    (hheld : ∀ i', latch.held (Function.update t i (x (t i)) i') = true ↔ Holds h' j i') :
    Alone latch view fresh p₀ h'
      ⟨Function.update s.node i (x (s.node i)), Function.update s.task j p', s.down⟩ j := by
  refine ⟨Function.update t i (x (t i)), ?_, fun i' => ?_, hheld⟩
  · simp only [Function.update_self]
    rw [hrun, hstep]
  · by_cases hi : i' = i
    · subst hi
      simpa only [Function.update_self] using hx
    · simpa only [Function.update_of_ne hi] using hv i'

variable (hs : Sound latch view len fresh start h s) {j : J}
include hs

include hset in
theorem Sound.lock_step {e : ε} {p : Prog ε N α} (htask : s.task j = .lock (took h j) e p)
    (hlen : took h j < len)
    (hp : p.Coupled latch view j len (gave h j, took h j + 1) (len, len))
    (hfree : ∀ j', ¬ Holds h j' (took h j)) :
    Sound latch view len fresh start (h ++ [.locked j (took h j)])
      ⟨Function.update s.node (took h j) (latch.set true (s.node (took h j))),
        Function.update s.task j p, s.down⟩ where
  coupled j' := by
    by_cases hj : j' = j
    · subst hj
      simpa using hp
    · simpa [hj] using hs.coupled j'
  le j' := by
    by_cases hj : j' = j
    · subst hj
      have := (hs.le j').1
      simp only [gave_locked, took_locked, Function.update_self]
      omega
    · simpa [hj] using hs.le j'
  held i := by
    simp only [held_locked, hs.held, holds_locked (hs.le j).1, exists_or, exists_eq_left]
  exclusive {i j₁ j₂} h₁ h₂ := by
    rw [holds_locked (hs.le j).1] at h₁ h₂
    rcases h₁ with h₁ | ⟨rfl, rfl⟩ <;> rcases h₂ with h₂ | ⟨rfl, h₂⟩
    · exact hs.exclusive h₁ h₂
    · exact absurd (h₂ ▸ h₁) (hfree _)
    · exact absurd h₂ (hfree _)
    · rfl
  alone j' hlost := by
    rw [lost_concat nofun] at hlost
    by_cases hj : j' = j
    · subst hj
      obtain ⟨t, hrun, hv, hheld⟩ := hs.alone j' hlost
      have hfree' : latch.held (t (took h j')) = false := by
        rw [← Bool.not_eq_true, hheld]
        exact hfree j'
      rw [htask] at hrun
      refine .own hrun ?_ hv (by rw [hset, hset, hv]) fun i => ?_
      · simp only [Prog.run, hfree']
        rfl
      · simp only [held_locked, hheld, holds_locked (hs.le j').1, true_and]
    · refine (hs.alone j' hlost).other (by simp [hj]) (view_update (hset ..)) fun i => ?_
      simp [holds_locked (hs.le j).1, hj]

include hset in
theorem Sound.unlock_step {e : ε} {p : Prog ε N α} (htask : s.task j = .unlock (gave h j) e p)
    (hlt : gave h j < took h j)
    (hp : p.Coupled latch view j len (gave h j + 1, took h j) (len, len)) :
    Sound latch view len fresh start (h ++ [.unlocked j (gave h j)])
      ⟨Function.update s.node (gave h j) (latch.set false (s.node (gave h j))),
        Function.update s.task j p, s.down⟩ where
  coupled j' := by
    by_cases hj : j' = j
    · subst hj
      simpa using hp
    · simpa [hj] using hs.coupled j'
  le j' := by
    by_cases hj : j' = j
    · subst hj
      have := (hs.le j').2
      simp only [gave_unlocked, took_unlocked, Function.update_self]
      omega
    · simpa [hj] using hs.le j'
  held i := by
    simp only [held_unlocked, hs.held, holds_unlocked]
    constructor
    · rintro ⟨⟨j', hj'⟩, hi⟩
      exact ⟨j', hj', fun e => hi e.2⟩
    · rintro ⟨j', hj', hne⟩
      refine ⟨⟨j', hj'⟩, ?_⟩
      rintro rfl
      -- nobody else held the lock that is given back
      exact hne ⟨hs.exclusive hj' ⟨le_refl _, hlt⟩, rfl⟩
  exclusive h₁ h₂ := hs.exclusive (holds_unlocked.mp h₁).1 (holds_unlocked.mp h₂).1
  alone j' hlost := by
    rw [lost_concat nofun] at hlost
    by_cases hj : j' = j
    · subst hj
      obtain ⟨t, hrun, hv, hheld⟩ := hs.alone j' hlost
      have hheld' : latch.held (t (gave h j')) = true := (hheld _).mpr ⟨le_refl _, hlt⟩
      rw [htask] at hrun
      refine .own hrun ?_ hv (by rw [hset, hset, hv]) fun i => ?_
      · simp only [Prog.run, hheld']
        rfl
      · simp only [held_unlocked, hheld, holds_unlocked, true_and]
    · refine (hs.alone j' hlost).other (by simp [hj]) (view_update (hset ..)) fun i => ?_
      simp [holds_unlocked, hj]

theorem Sound.act_step {i : Nat} {x : N → N} {p : N → Prog ε N α} (htask : s.task j = .act i x p)
    (hown : Own latch view j x) (heq : ∀ n m, view j n = view j m → p n = p m)
    (hp : ∀ n, (p n).Coupled latch view j len (gave h j, took h j) (len, len)) :
    Sound latch view len fresh start (h ++ [.acted j i])
      ⟨Function.update s.node i (x (s.node i)), Function.update s.task j (p (s.node i)),
        s.down⟩ where
  coupled j' := by
    rw [took_quiet h rfl, gave_quiet h rfl]
    by_cases hj : j' = j
    · subst hj
      simpa using hp _
    · simpa [hj] using hs.coupled j'
  le j' := by
    rw [took_quiet h rfl, gave_quiet h rfl]
    exact hs.le j'
  held i' := by
    simp only [holds_quiet (l := .acted j i) rfl, hown.held_update, hs.held]
  exclusive h₁ h₂ := hs.exclusive ((holds_quiet rfl).mp h₁) ((holds_quiet rfl).mp h₂)
  alone j' hlost := by
    rw [lost_concat nofun] at hlost
    by_cases hj : j' = j
    · subst hj
      obtain ⟨t, hrun, hv, hheld⟩ := hs.alone j' hlost
      rw [htask] at hrun
      refine .own hrun ?_ hv (hown.view_eq _ _ (hv i)) fun i' => ?_
      · simp only [Prog.run, heq _ _ (hv i)]
      · rw [holds_quiet rfl, hown.held_update, hheld]
    · exact (hs.alone j' hlost).other (by simp [hj]) (view_update (hown.others _ _ hj))
        fun _ => holds_quiet rfl

/-- A step that leaves the nodes alone, and every job that is not lost. -/
theorem Sound.quiet_step (hl : l.quiet = true) (hnode : s'.node = s.node)
    (htask : ∀ j, s'.task j = s.task j ∨ Lost (h ++ [l]) j ∧ ∃ e, s'.task j = .stop e) :
    Sound latch view len fresh start (h ++ [l]) s' where
  coupled j := by
    rw [took_quiet h hl, gave_quiet h hl]
    rcases htask j with hj | ⟨-, e, hj⟩
    · rw [hj]
      exact hs.coupled j
    · rw [hj]
      trivial
  le j := by
    rw [took_quiet h hl, gave_quiet h hl]
    exact hs.le j
  held i := by
    simp only [holds_quiet hl, hnode]
    exact hs.held i
  exclusive h₁ h₂ := hs.exclusive ((holds_quiet hl).mp h₁) ((holds_quiet hl).mp h₂)
  alone j hlost := by
    have hbefore : ¬ Lost h j := fun ⟨i, hi⟩ => hlost ⟨i, List.mem_append_left _ hi⟩
    refine (hs.alone j hbefore).other ((htask j).resolve_right fun hj => hlost hj.1)
      (fun i => by rw [hnode]) fun _ => holds_quiet hl

end Steps

/-! ### Every run -/

theorem Sound.initial (hfresh : ∀ i, latch.held (fresh i) = false)
    (hstart : ∀ j, (start j).Coupled latch view j len (0, 0) (len, len)) :
    Sound latch view len fresh start [] ⟨fresh, start, fun _ => false⟩ where
  coupled := hstart
  le _ := ⟨le_refl 0, Nat.zero_le len⟩
  held i := by simp [hfresh, Holds, took]
  exclusive h₁ := absurd h₁.2 (Nat.not_lt_zero _)
  alone j _ := ⟨fresh, rfl, fun _ => rfl, fun i => by simp [hfresh, Holds, took]⟩

theorem Sound.step (hset : ∀ j b n, view j (latch.set b n) = view j n)
    (hs : Sound latch view len fresh start h s) (t : Step latch s l s') :
    Sound latch view len fresh start (h ++ [l]) s' := by
  cases hs.moved t with
  | lock htask hlen _ hp hfree => exact hs.lock_step hset htask hlen hp hfree
  | unlock htask hlt _ hp => exact hs.unlock_step hset htask hlt hp
  | act htask hown heq hp => exact hs.act_step htask hown heq hp
  | crash => exact hs.quiet_step rfl rfl fun _ => .inl rfl
  | @lose j i e =>
      refine hs.quiet_step rfl rfl fun j' => ?_
      by_cases hj : j' = j
      · subst hj
        exact .inr ⟨⟨i, List.mem_append_right _ (List.mem_singleton_self _)⟩, e,
          Function.update_self ..⟩
      · exact .inl (Function.update_of_ne hj _ _)

/-- Who was lost has stopped, and a node was down; and no node is down unless a job has failed that
was not lost. -/
structure Blamed (h : List (Event J)) (s : State J ε N α) : Prop where
  stopped : ∀ j i, .lost j i ∈ h → (∃ e, s.task j = .stop e) ∧ s.down i = true
  blame : ∀ i, s.down i = true → ∃ j e, ¬ Lost h j ∧ s.task j = .stop e

/-- A job that has stopped takes no step. -/
theorem Step.task_of_stop (t : Step latch s l s') {j : J} {e : ε} (hj : s.task j = .stop e) :
    s'.task j = .stop e := by
  have hother : ∀ {j' : J} {p : Prog ε N α}, s.task j' ≠ .stop e →
      Function.update s.task j' p j = .stop e := by
    intro j' p hne
    have hjj : j ≠ j' := by
      rintro rfl
      exact hne hj
    rw [Function.update_of_ne hjj, hj]
  cases t with
  | lock h | unlock h | slip h | act h => exact hother (by rw [h]; nofun)
  | crash => exact hj
  | lose _ _ hstop => exact hother (hstop e)

theorem Step.down_of_down (t : Step latch s l s') {i : Nat} (hi : s.down i = true) :
    s'.down i = true := by
  cases t with
  | @crash j i' =>
      by_cases hne : i = i'
      · exact hne ▸ Function.update_self ..
      · exact (Function.update_of_ne hne _ _).trans hi
  | _ => exact hi

theorem Blamed.step (hb : Blamed h s) (t : Step latch s l s') : Blamed (h ++ [l]) s' := by
  -- what was blamed before is to blame now
  have hkept : ∀ {i : Nat}, s.down i = true → ∃ j e, ¬ Lost (h ++ [l]) j ∧ s'.task j = .stop e := by
    intro i hi
    obtain ⟨j, e, hlost, hj⟩ := hb.blame i hi
    refine ⟨j, e, fun ⟨i', hmem⟩ => ?_, t.task_of_stop hj⟩
    rcases List.mem_append.mp hmem with hmem | hmem
    · exact hlost ⟨i', hmem⟩
    · cases List.mem_singleton.mp hmem
      cases t with
      | lose _ _ hstop => exact hstop e hj
  have hstopped : ∀ j i, .lost j i ∈ h → (∃ e, s'.task j = .stop e) ∧ s'.down i = true := by
    intro j i hmem
    obtain ⟨⟨e, he⟩, hi⟩ := hb.stopped j i hmem
    exact ⟨⟨e, t.task_of_stop he⟩, t.down_of_down hi⟩
  -- the step is no loss
  have hquiet : (∀ j i, l ≠ .lost j i) → ∀ j i, .lost j i ∈ h ++ [l] →
      (∃ e, s'.task j = .stop e) ∧ s'.down i = true := by
    intro hl j i hmem
    rcases List.mem_append.mp hmem with hmem | hmem
    · exact hstopped j i hmem
    · exact absurd (List.mem_singleton.mp hmem).symm (hl j i)
  cases t with
  | lock | unlock | slip | act => exact ⟨hquiet nofun, fun i hi => hkept hi⟩
  | @crash j i e hj =>
      refine ⟨hquiet nofun, fun i' hi' => ?_⟩
      by_cases hlost : Lost h j
      · obtain ⟨i₀, hmem⟩ := hlost
        exact hkept (hb.stopped j i₀ hmem).2
      · exact ⟨j, e, by rwa [lost_concat nofun], hj⟩
  | @lose j i e hdown hret hstop =>
      refine ⟨fun j' i' hmem => ?_, fun i hi => hkept hi⟩
      rcases List.mem_append.mp hmem with hmem | hmem
      · exact hstopped j' i' hmem
      · cases List.mem_singleton.mp hmem
        exact ⟨⟨e, Function.update_self ..⟩, hdown⟩

theorem blamed_of_run {C : List (Event J) → State J ε N α → Event J → Prop}
    (run : (system latch fresh start).Run C h s) : Blamed h s := by
  induction run with
  | init h₀ =>
      cases h₀
      exact ⟨nofun, nofun⟩
  | step _ _ t ih => exact ih.step t

section Runs

variable (hset : ∀ j b n, view j (latch.set b n) = view j n)
  (hfresh : ∀ i, latch.held (fresh i) = false)
  (hstart : ∀ j, (start j).Coupled latch view j len (0, 0) (len, len))
  {C : List (Event J) → State J ε N α → Event J → Prop}
  (run : (system latch fresh start).Run C h s)

include hset hfresh hstart run

theorem sound_of_run : Sound latch view len fresh start h s := by
  induction run with
  | init h₀ =>
      cases h₀
      exact .initial hfresh hstart
  | step _ _ t ih => exact ih.step hset t

/-- **As by itself.**  A job that has returned returned what it returns by itself, and the nodes
look to it as they would then; a job that has stopped and was not lost stops by itself, with the
same fault. -/
theorem alone_of_run (j : J) :
    (∀ a, s.task j = .ret a → ∃ t, (start j).run latch fresh = .ok a t ∧
      ∀ i, view j (t i) = view j (s.node i)) ∧
    ∀ e, s.task j = .stop e → ¬ Lost h j → ∃ t, (start j).run latch fresh = .error e t := by
  have hs := sound_of_run hset hfresh hstart run
  constructor
  · intro a ha
    have hlost : ¬ Lost h j := fun ⟨i, hi⟩ => by
      obtain ⟨⟨e, he⟩, -⟩ := (blamed_of_run run).stopped j i hi
      cases ha.symm.trans he
    obtain ⟨t, hrun, hv, -⟩ := hs.alone j hlost
    rw [ha] at hrun
    exact ⟨t, hrun, hv⟩
  · intro e he hlost
    obtain ⟨t, hrun, -⟩ := hs.alone j hlost
    rw [he] at hrun
    exact ⟨t, hrun⟩

/-- Where a node is down, a job has failed as it fails by itself. -/
theorem failed_of_run {i : Nat} (hi : s.down i = true) :
    ∃ j e t, s.task j = .stop e ∧ (start j).run latch fresh = .error e t := by
  obtain ⟨j, e, hlost, hj⟩ := (blamed_of_run run).blame i hi
  obtain ⟨t, hrun⟩ := (alone_of_run hset hfresh hstart run j).2 e hj hlost
  exact ⟨j, e, t, hj, hrun⟩

end Runs

/-! ### One order at all nodes -/

/-- The locks are taken in one order: who has taken the lock of a node has taken that of the next
one, in the same order, but for the one who came last. -/
structure InOrder (len : Nat) (h : List (Event J)) : Prop where
  mem : ∀ i j, j ∈ acquired i h ↔ i < took h j
  nodup : ∀ i, (acquired i h).Nodup
  split : ∀ i, i + 1 < len → ∃ w, acquired i h = acquired (i + 1) h ++ w ∧ w.length ≤ 1 ∧
    ∀ j ∈ w, took h j = i + 1 ∧ gave h j ≤ i

omit [DecidableEq J] in
theorem eq_singleton_of_mem {w : List J} {j : J} (hlen : w.length ≤ 1) (hj : j ∈ w) : w = [j] := by
  match w, hlen with
  | [j'], _ => rw [List.mem_singleton.mp hj]

theorem InOrder.lock_step (ho : InOrder len h) {j : J} (hle : gave h j ≤ took h j)
    (hfree : ∀ j', ¬ Holds h j' (took h j)) :
    InOrder len (h ++ [.locked j (took h j)]) where
  mem i j' := by
    by_cases hi : took h j = i
    · subst hi
      by_cases hj : j' = j
      · subst hj; simp
      · simp [hj, ho.mem]
    · rw [acquired_locked_of_ne h j (took h j) hi, ho.mem, took_locked]
      by_cases hj : j' = j
      · subst hj
        rw [Function.update_self]
        omega
      · rw [Function.update_of_ne hj]
  nodup i := by
    by_cases hi : took h j = i
    · subst hi
      have hnew : j ∉ acquired (took h j) h := by simp [ho.mem]
      rw [acquired_locked_self, ← List.concat_eq_append]
      exact List.Nodup.concat hnew (ho.nodup _)
    · rw [acquired_locked_of_ne _ _ _ hi]
      exact ho.nodup i
  split i hi := by
    obtain ⟨w, hw, hlen, hmem⟩ := ho.split i hi
    by_cases hown : took h j = i
    · -- the lock of node `i` was free, so everybody before has gone on
      have hnil : w = [] := List.eq_nil_iff_forall_not_mem.mpr fun j' hj' =>
        hfree j' (by rw [hown]; exact ⟨(hmem j' hj').2, by have := (hmem j' hj').1; omega⟩)
      refine ⟨[j], ?_, le_refl _, fun j' hj' => ?_⟩
      · rw [← hown, acquired_locked_self, acquired_locked_of_ne _ _ _ (by omega), hown, hw, hnil,
          List.append_nil]
      · rw [List.mem_singleton.mp hj', took_locked, Function.update_self, gave_locked]
        omega
    · by_cases hnext : took h j = i + 1
      · -- the job is the one that waited to go on from node `i`
        have hj : j ∈ w := by
          have hin : j ∈ acquired i h := (ho.mem i j).mpr (by omega)
          rw [hw, List.mem_append] at hin
          exact hin.resolve_left fun hin => by
            have := (ho.mem (i + 1) j).mp hin
            omega
        refine ⟨[], ?_, Nat.zero_le _, by simp⟩
        rw [acquired_locked_of_ne _ _ _ hown, ← hnext, acquired_locked_self, List.append_nil, hw,
          eq_singleton_of_mem hlen hj, hnext]
      · refine ⟨w, ?_, hlen, fun j' hj' => ?_⟩
        · rw [acquired_locked_of_ne _ _ _ hown, acquired_locked_of_ne _ _ _ hnext, hw]
        · have hj : j' ≠ j := by
            rintro rfl
            exact hnext (hmem j' hj').1
          rw [took_locked, Function.update_of_ne hj, gave_locked]
          exact hmem j' hj'

theorem InOrder.unlock_step (ho : InOrder len h) {j : J}
    (hnext : gave h j + 1 < took h j ∨ took h j = len) :
    InOrder len (h ++ [.unlocked j (gave h j)]) where
  mem i j' := by simpa using ho.mem i j'
  nodup i := by simpa using ho.nodup i
  split i hi := by
    obtain ⟨w, hw, hlen, hmem⟩ := ho.split i hi
    refine ⟨w, by simpa using hw, hlen, fun j' hj' => ?_⟩
    obtain ⟨ht, hg⟩ := hmem j' hj'
    rw [took_unlocked, gave_unlocked]
    refine ⟨ht, ?_⟩
    by_cases hj : j' = j
    · subst hj
      rw [Function.update_self]
      omega
    · rwa [Function.update_of_ne hj]

theorem InOrder.quiet_step (ho : InOrder len h) (hl : l.quiet = true) :
    InOrder len (h ++ [l]) where
  mem i j := by
    rw [acquired_quiet h i hl, took_quiet h hl]
    exact ho.mem i j
  nodup i := by
    rw [acquired_quiet h i hl]
    exact ho.nodup i
  split i hi := by
    rw [acquired_quiet h i hl, acquired_quiet h (i + 1) hl, took_quiet h hl, gave_quiet h hl]
    exact ho.split i hi

theorem InOrder.step (ho : InOrder len h) (hs : Sound latch view len fresh start h s)
    (t : Step latch s l s') : InOrder len (h ++ [l]) := by
  cases hs.moved t with
  | lock _ _ _ _ hfree => exact ho.lock_step (hs.le _).1 hfree
  | unlock _ _ hnext _ => exact ho.unlock_step hnext
  | act => exact ho.quiet_step rfl
  | crash => exact ho.quiet_step rfl
  | lose => exact ho.quiet_step rfl

theorem InOrder.initial (len : Nat) : InOrder (J := J) len [] where
  mem i j := by simp [acquired, took]
  nodup i := by simp [acquired]
  split i _ := ⟨[], by simp [acquired], Nat.zero_le _, by simp⟩

/-- Who has come to a later node came to an earlier one, in the same order, and on each node in
between there is room for one more. -/
theorem InOrder.acquired_le (ho : InOrder len h) {i i' : Nat} (hi : i ≤ i') (hlen : i' < len) :
    acquired i' h <+: acquired i h ∧
      (acquired i h).length ≤ (acquired i' h).length + (i' - i) := by
  induction i', hi using Nat.le_induction with
  | base => exact ⟨⟨[], List.append_nil _⟩, by omega⟩
  | succ i' hi ih =>
      obtain ⟨hpre, hle⟩ := ih (by omega)
      obtain ⟨w, hw, hone, -⟩ := ho.split i' hlen
      refine ⟨List.IsPrefix.trans ⟨w, hw.symm⟩ hpre, ?_⟩
      rw [hw, List.length_append] at hle
      omega

/-! ### The job that is ahead -/

/-- Nobody is ahead of the job but those that have returned. -/
def Ahead (h : List (Event J)) (s : State J ε N α) (j : J) : Prop :=
  ∀ j', took h j < took h j' → Finished s j'

/-- The job can be brought to its end, and the others stay where they are. -/
def CanFinish (latch : Latch N) (fresh : Nat → N) (start : J → Prog ε N α) (h : List (Event J))
    (s : State J ε N α) (j : J) : Prop :=
  ∃ h' s', (system latch fresh start).Run System.Any (h ++ h') s' ∧
    (∀ l ∈ h', l.job = j) ∧ Finished s' j ∧ ∀ j', j' ≠ j → s'.task j' = s.task j'

theorem Ahead.step {j : J} {node : Nat → N} {p : Prog ε N α} (hahead : Ahead h s j)
    (htook : ∀ j', took (h ++ [l]) j < took (h ++ [l]) j' → took h j < took h j') :
    Ahead (h ++ [l]) ⟨node, Function.update s.task j p, s.down⟩ j := by
  intro j' hj'
  have hne : j' ≠ j := by
    rintro rfl
    exact absurd hj' (lt_irrefl _)
  obtain ⟨a, ha⟩ := hahead j' (htook j' hj')
  exact ⟨a, by simpa only [Function.update_of_ne hne] using ha⟩

theorem CanFinish.of_step {j : J} {node : Nat → N} {p : Prog ε N α} (hl : l.job = j)
    (hfinish : CanFinish latch fresh start (h ++ [l])
      ⟨node, Function.update s.task j p, s.down⟩ j) : CanFinish latch fresh start h s j := by
  obtain ⟨h', s', run, hjobs, hfin, hothers⟩ := hfinish
  refine ⟨l :: h', s', by simpa using run, ?_, hfin, fun j' hj' => ?_⟩
  · simpa [hl] using hjobs
  · rw [hothers j' hj']
    exact Function.update_of_ne hj' _ _

section Runs

variable (hset : ∀ j b n, view j (latch.set b n) = view j n)
  (hfresh : ∀ i, latch.held (fresh i) = false)
  (hstart : ∀ j, (start j).Coupled latch view j len (0, 0) (len, len))

include hset hfresh hstart

theorem inOrder_of_run {C : List (Event J) → State J ε N α → Event J → Prop}
    (run : (system latch fresh start).Run C h s) : InOrder len h := by
  induction run with
  | init => exact .initial len
  | step run _ t ih => exact ih.step (sound_of_run hset hfresh hstart run) t

/-! ### To the end -/

/-- No node goes down, where each job returns by itself. -/
theorem down_eq_false (hok : ∀ j, ∃ a t, (start j).run latch fresh = .ok a t)
    (run : (system latch fresh start).Run System.Any h s) (i : Nat) : s.down i = false := by
  rw [← Bool.not_eq_true]
  intro hi
  obtain ⟨j, e, t, -, hstop⟩ := failed_of_run hset hfresh hstart run hi
  obtain ⟨a, t', hreturn⟩ := hok j
  cases hstop.symm.trans hreturn

/-- No job stops, where each returns by itself. -/
theorem task_ne_stop (hok : ∀ j, ∃ a t, (start j).run latch fresh = .ok a t)
    (run : (system latch fresh start).Run System.Any h s) (j : J) (e : ε) : s.task j ≠ .stop e := by
  intro he
  have hlost : ¬ Lost h j := fun ⟨i, hi⟩ => by
    have hdown := ((blamed_of_run run).stopped j i hi).2
    rw [down_eq_false hset hfresh hstart hok run] at hdown
    cases hdown
  obtain ⟨t, hstop⟩ := (alone_of_run hset hfresh hstart run j).2 e he hlost
  obtain ⟨a, t', hreturn⟩ := hok j
  cases hstop.symm.trans hreturn

/-- A job that waits for a lock is behind the one that holds it. -/
theorem next_free (run : (system latch fresh start).Run System.Any h s) {j : J}
    (hahead : Ahead h s j) : latch.held (s.node (took h j)) = false := by
  have hs := sound_of_run hset hfresh hstart run
  refine hs.free_iff.mpr fun j' hj' => ?_
  obtain ⟨a, ha⟩ := hahead j' hj'.2
  have hc := hs.coupled j'
  rw [ha] at hc
  obtain ⟨hgave, htook⟩ := Prod.mk.inj hc
  obtain ⟨hlo, hhi⟩ := hj'
  omega

/-- A job that is ahead of all that have not returned is brought to its end. -/
theorem front_completes (hok : ∀ j, ∃ a t, (start j).run latch fresh = .ok a t) (j : J)
    (p : Prog ε N α) : ∀ {h : List (Event J)} {s : State J ε N α},
      (system latch fresh start).Run System.Any h s → s.task j = p → Ahead h s j →
      CanFinish latch fresh start h s j := by
  -- one step of the job after the other
  induction p with
  | ret a =>
      intro h s run htask _
      exact ⟨[], s, by simpa using run, by simp, ⟨a, htask⟩, fun _ _ => rfl⟩
  | stop e =>
      intro h s run htask _
      exact absurd htask (task_ne_stop hset hfresh hstart hok run j e)
  | lock i e p ih =>
      intro h s run htask hahead
      have hc := (sound_of_run hset hfresh hstart run).coupled j
      rw [htask] at hc
      obtain ⟨rfl, -, -, -⟩ := hc
      have run' := run.step trivial (.lock htask (down_eq_false hset hfresh hstart hok run _)
        (next_free hset hfresh hstart run hahead))
      refine .of_step rfl (ih run' (Function.update_self ..) (hahead.step fun j' hj' => ?_))
      by_cases hj : j' = j
      · subst hj; exact absurd hj' (lt_irrefl _)
      · rw [took_locked, Function.update_self, Function.update_of_ne hj] at hj'
        omega
  | unlock i e p ih =>
      intro h s run htask hahead
      have hs := sound_of_run hset hfresh hstart run
      have hc := hs.coupled j
      rw [htask] at hc
      obtain ⟨rfl, hlt, -, -⟩ := hc
      have run' := run.step trivial (.unlock htask (down_eq_false hset hfresh hstart hok run _)
        ((hs.held _).mpr ⟨j, le_refl _, hlt⟩))
      refine .of_step rfl (ih run' (Function.update_self ..) (hahead.step fun j' hj' => ?_))
      rwa [took_unlocked] at hj'
  | act i x p ih =>
      intro h s run htask hahead
      have run' := run.step trivial (.act htask (down_eq_false hset hfresh hstart hok run _))
      refine .of_step rfl (ih _ run' (Function.update_self ..) (hahead.step fun j' hj' => ?_))
      rwa [took_quiet h rfl] at hj'

/-- **To the end.**  Where each job returns by itself, those that have started can be brought to
their end, whatever has happened so far, and without a step of another job. -/
theorem completes (hok : ∀ j, ∃ a t, (start j).run latch fresh = .ok a t)
    (run : (system latch fresh start).Run System.Any h s) :
    ∃ h' s', (system latch fresh start).Run System.Any (h ++ h') s' ∧
      (∀ l ∈ h', Started h l.job) ∧ ∀ j, Started h j → Finished s' j := by
  classical
  have hmem : ∀ (h : List (Event J)) (s : State J ε N α) (j : J),
      j ∈ (h.map Event.job).toFinset.filter (fun j => ¬ Finished s j) ↔
        Started h j ∧ ¬ Finished s j := by
    intro h s j
    simp [Started]
  -- by induction on the number of jobs that have started and not returned
  induction hn : ((h.map Event.job).toFinset.filter fun j => ¬ Finished s j).card
    using Nat.strong_induction_on generalizing h s with
  | _ n ih =>
      by_cases hopen : ((h.map Event.job).toFinset.filter fun j => ¬ Finished s j).Nonempty
      · obtain ⟨j, hj, hmax⟩ := Finset.exists_max_image _ (took h) hopen
        obtain ⟨hstarted, hnot⟩ := (hmem h s j).mp hj
        obtain ⟨h₁, s₁, run₁, hjobs, hfin, hothers⟩ :=
          front_completes hset hfresh hstart hok j (s.task j) run rfl fun j' hj' => by
            by_contra hnot'
            have := hmax j' ((hmem h s j').mpr ⟨started_of_took (by omega), hnot'⟩)
            omega
        have hsame : ∀ j', Started (h ++ h₁) j' ↔ Started h j' := by
          intro j'
          constructor
          · rintro ⟨l, hl, rfl⟩
            rcases List.mem_append.mp hl with hl | hl
            · exact ⟨l, hl, rfl⟩
            · rwa [hjobs l hl]
          · rintro ⟨l, hl, rfl⟩
            exact ⟨l, List.mem_append_left _ hl, rfl⟩
        -- one job fewer
        have hlt :
            (((h ++ h₁).map Event.job).toFinset.filter fun j => ¬ Finished s₁ j).card < n := by
          rw [← hn]
          refine Finset.card_lt_card ⟨fun j' hj' => ?_, fun hsub => ?_⟩
          · have hj₁ := (hmem (h ++ h₁) s₁ j').mp hj'
            have hne : j' ≠ j := fun e => hj₁.2 (e ▸ hfin)
            refine (hmem h s j').mpr ⟨(hsame j').mp hj₁.1, fun hf => hj₁.2 ?_⟩
            rwa [Finished, hothers j' hne]
          · exact (Finset.mem_filter.mp (hsub hj)).2 hfin
        obtain ⟨h₂, s₂, run₂, hjobs₂, hfin₂⟩ := ih _ hlt run₁ rfl
        refine ⟨h₁ ++ h₂, s₂, by simpa using run₂, fun l hl => ?_, fun j' hj' =>
          hfin₂ j' ((hsame j').mpr hj')⟩
        rcases List.mem_append.mp hl with hl | hl
        · rwa [hjobs l hl]
        · exact (hsame _).mp (hjobs₂ l hl)
      · refine ⟨[], s, by simpa using run, by simp, fun j hj => ?_⟩
        by_contra hnot
        exact hopen ⟨j, (hmem h s j).mpr ⟨hj, hnot⟩⟩

end Runs

end System

end Coupling

end Vuvuzela.Support
