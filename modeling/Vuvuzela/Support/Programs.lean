import Vuvuzela.Support.Relational
import Mathlib.Logic.Function.Basic

/-!
# Support — programs on a row of nodes

A program works on nodes that are numbered and have a state and a lock each.  It is a tree: it
takes the lock of a node, gives it back, or acts on a node and goes on with what it found there.
A step of the tree is what other programs cannot come in between of.

`Prog.run` is the program by itself, from its first step to its last.  It is a map of monads to
the programs of `EStateM` (`run_bind`, `run_mapFault`), so that what is put together from parts
runs as its parts do.
-/

namespace Vuvuzela.Support

variable {ε N α β γ : Type}

/-- The lock in the state of a node. -/
structure Latch (N : Type) where
  held : N → Bool
  set : Bool → N → N
  held_set : ∀ b n, held (set b n) = b

/-- A program on nodes with states `N`.  The fault of `lock` and `unlock` is what comes of a lock
that is held, or not held, when the program runs by itself. -/
inductive Prog (ε N α : Type) where
  | ret (a : α)
  | stop (e : ε)
  | lock (i : Nat) (e : ε) (p : Prog ε N α)
  | unlock (i : Nat) (e : ε) (p : Prog ε N α)
  | act (i : Nat) (x : N → N) (p : N → Prog ε N α)

/-- The state a program ends in. -/
def endState : EStateM.Result ε N α → N
  | .ok _ n => n
  | .error _ n => n

/-- `x` on the `i`-th node. -/
def onNode (i : Nat) (x : EStateM ε N α) : EStateM ε (Nat → N) α := fun s =>
  match x (s i) with
  | .ok a n => .ok a (Function.update s i n)
  | .error e n => .error e (Function.update s i n)

namespace Prog

protected def bind : Prog ε N α → (α → Prog ε N β) → Prog ε N β
  | .ret a, f => f a
  | .stop e, _ => .stop e
  | .lock i e p, f => .lock i e (p.bind f)
  | .unlock i e p, f => .unlock i e (p.bind f)
  | .act i x p, f => .act i x fun n => (p n).bind f

instance : Monad (Prog ε N) where
  pure := .ret
  bind := Prog.bind

/-- The program with its faults translated. -/
def mapFault (f : ε → ε) : Prog ε N α → Prog ε N α
  | .ret a => .ret a
  | .stop e => .stop (f e)
  | .lock i e p => .lock i (f e) (p.mapFault f)
  | .unlock i e p => .unlock i (f e) (p.mapFault f)
  | .act i x p => .act i x fun n => (p n).mapFault f

/-- How a program goes on after a result. -/
def after : EStateM.Result ε N α → Prog ε N α
  | .ok a _ => .ret a
  | .error e _ => .stop e

/-- `x` on the `i`-th node, in one step. -/
def exec (i : Nat) (x : EStateM ε N α) : Prog ε N α :=
  .act i (fun n => endState (x n)) fun n => after (x n)

/-! ### A program by itself -/

def run (latch : Latch N) : Prog ε N α → EStateM ε (Nat → N) α
  | .ret a => pure a
  | .stop e => throw e
  | .lock i e p => fun s =>
      if latch.held (s i) then .error e s
      else p.run latch (Function.update s i (latch.set true (s i)))
  | .unlock i e p => fun s =>
      if latch.held (s i) then p.run latch (Function.update s i (latch.set false (s i)))
      else .error e s
  | .act i x p => fun s => (p (s i)).run latch (Function.update s i (x (s i)))

variable {latch : Latch N}

theorem run_bind (p : Prog ε N α) (f : α → Prog ε N β) :
    (p >>= f).run latch = p.run latch >>= fun a => (f a).run latch := by
  change (p.bind f).run latch = _
  induction p with
  | ret a => rfl
  | stop e => rfl
  | lock i e p ih =>
      funext s
      simp only [Prog.bind, run, ih, bind, EStateM.bind]
      split <;> rfl
  | unlock i e p ih =>
      funext s
      simp only [Prog.bind, run, ih, bind, EStateM.bind]
      split <;> rfl
  | act i x p ih =>
      funext s
      simp only [Prog.bind, run, ih, bind, EStateM.bind]

theorem run_mapFault (f : ε → ε) (p : Prog ε N α) :
    (p.mapFault f).run latch = Support.mapFault f (p.run latch) := by
  induction p with
  | ret a => rfl
  | stop e => rfl
  | lock i e p ih =>
      funext s
      simp only [mapFault, run, ih, Support.mapFault]
      split <;> rfl
  | unlock i e p ih =>
      funext s
      simp only [mapFault, run, ih, Support.mapFault]
      split <;> rfl
  | act i x p ih =>
      funext s
      simp only [mapFault, run, ih, Support.mapFault]

theorem run_exec (i : Nat) (x : EStateM ε N α) : (exec i x).run latch = onNode i x := by
  funext s
  simp only [exec, run, onNode]
  cases x (s i) <;> rfl

end Prog

/-! ### Results that are alike -/

section Alike

variable {τ : Type} {R : N → τ → Prop}

theorem Alike.endState_rel {x : EStateM.Result ε N α} {y : EStateM.Result ε τ α}
    (h : Alike R x y) : R (endState x) (endState y) := by
  cases h with
  | ok h => exact h
  | error h => exact h

theorem Alike.after_eq {R : N → N → Prop} {x y : EStateM.Result ε N α} (h : Alike R x y) :
    Prog.after x = Prog.after y := by
  cases h <;> rfl

end Alike

end Vuvuzela.Support
