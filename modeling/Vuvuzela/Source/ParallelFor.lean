import Vuvuzela.Source.Server
import Vuvuzela.Support.System

/-!
# Source — `ParallelFor`

`internal/parallelfor.go`: the workers of a parallel loop share a counter and take ranges of
indices from it.  A call of `P.Next` touches the counter once, with an atomic add, so a call is
one step, and any interleaving of the calls is a run.  The counters are `int64`s and wrap around.
-/

namespace Vuvuzela.ParallelFor
open Support

/-- `GP`, the part the workers share. -/
structure GP where
  max : Int
  current : Int
  step : Int
  deriving DecidableEq

/-- `P`, the range a worker has taken. -/
structure P where
  max : Int
  current : Int
  deriving DecidableEq

/-- `GP.Next`: the start of a range, or no value for `false`. -/
def GP.next (gp : GP) : Option Int × GP :=
  let current := wrapInt (gp.current + gp.step)
  let base := wrapInt (current - gp.step)
  (if gp.max ≤ base then none else some base, { gp with current := current })

/-- `P.Next`. -/
def P.next (p : P) (gp : GP) : Option Int × P × GP :=
  if p.max ≤ p.current then
    match gp.next with
    | (none, gp) => (none, p, gp)
    | (some r, gp) =>
        let max := wrapInt (r + gp.step)
        (some r, ⟨if gp.max < max then gp.max else max, wrapInt (r + 1)⟩, gp)
  else (some p.current, { p with current := wrapInt (p.current + 1) }, gp)

/-- The step of `ParallelFor`. -/
def stepSize (n numCPU : Int) : Int :=
  let step := (n.tdiv numCPU).tdiv 100
  if step < 10 then 10 else step

/-- The loop, with `k` workers. -/
structure State (k : Nat) where
  gp : GP
  workers : Fin k → P

/-- `ParallelFor` of `n` indices, before the first call of `Next`. -/
def start (n : Int) (k : Nat) : State k := ⟨⟨n, 0, stepSize n k⟩, fun _ => ⟨0, 0⟩⟩

/-- What a call of `Next` by worker `w` returns, and the state after it. -/
def State.next {k : Nat} (s : State k) (w : Fin k) : Option Int × State k :=
  let call := (s.workers w).next s.gp
  (call.1, ⟨call.2.2, Function.update s.workers w call.2.1⟩)

/-- The calls of `Next`: the worker, and what it got. -/
def system (n : Int) (k : Nat) : System (State k) (Fin k × Option Int) where
  init s := s = start n k
  step s l s' := s.next l.1 = (l.2, s')

end Vuvuzela.ParallelFor
