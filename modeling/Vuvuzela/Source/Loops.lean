import Vuvuzela.Source.ParallelFor
import Vuvuzela.Source.Convo

/-!
# Source — the loops that `ParallelFor` runs

The workers of a `ParallelFor` whose body is

    for i, ok := p.Next(); ok; i, ok = p.Next() { … }

and sets positions of a slice they share.  A worker is before a call of `Next`, somewhere in the
body of an index, or at the end, where it has called `wg.Done`.  A call and a write are one step
each, and the steps of the workers interleave in any way.  `ParallelFor` returns when every worker
is at the end.
-/

namespace Vuvuzela.ParallelFor
open Support

variable {α : Type} {k : Nat}

/-- Where a worker is. -/
inductive Phase (α : Type) where
  | next
  /-- In the body, with the writes it will still make. -/
  | body (left : List (Int × α))
  | done

/-- The writes a worker will still make in the body it is in. -/
def Phase.left : Phase α → List (Int × α)
  | .body left => left
  | .next => []
  | .done => []

/-- Where a worker goes from a call of `Next`. -/
def Phase.called (body : Int → List (Int × α)) : Option Int → Phase α
  | some i => .body (body i)
  | none => .done

/-- The loop, with `k` workers and the slice that they fill. -/
structure Loop (k : Nat) (α : Type) where
  calls : State k
  phase : Fin k → Phase α
  dest : List α

inductive LoopEvent (k : Nat) (α : Type) where
  | next (w : Fin k) (r : Option Int)
  | write (w : Fin k) (p : Int) (a : α)
  /-- A body ends, and its worker is before a call of `Next` again. -/
  | again (w : Fin k)

/-- The steps of the workers.  There is none for a write out of range, where Go panics. -/
inductive LoopStep (body : Int → List (Int × α)) : Loop k α → LoopEvent k α → Loop k α → Prop where
  | next {s : Loop k α} {w : Fin k} {r : Option Int} {calls : State k}
      (hphase : s.phase w = .next) (hnext : s.calls.next w = (r, calls)) :
      LoopStep body s (.next w r)
        { s with calls := calls, phase := Function.update s.phase w (.called body r) }
  | write {s : Loop k α} {w : Fin k} {p : Int} {a : α} {left : List (Int × α)} {dest : List α}
      (hphase : s.phase w = .body ((p, a) :: left)) (hset : setAt? s.dest p a = some dest) :
      LoopStep body s (.write w p a)
        { s with phase := Function.update s.phase w (.body left), dest := dest }
  | again {s : Loop k α} {w : Fin k} (hphase : s.phase w = .body []) :
      LoopStep body s (.again w) { s with phase := Function.update s.phase w .next }

/-- `ParallelFor(n, f)`, with `k` processors, where the body of index `i` makes the writes
`body i` to `dest`. -/
def loop (n : Int) (k : Nat) (body : Int → List (Int × α)) (dest : List α) :
    System (Loop k α) (LoopEvent k α) where
  init s := s = ⟨start n k, fun _ => .next, dest⟩
  step := LoopStep body

/-- `ParallelFor` returns. -/
def Loop.Returned (s : Loop k α) : Prop := ∀ w, s.phase w = .done

/-- The loop without workers. -/
def sequential (n : Nat) (body : Int → List (Int × α)) (dest : List α) : List α :=
  (List.range n).foldl (fun dest i =>
    (body (i : Nat)).foldl (fun dest p => dest.set p.1.toNat p.2) dest) dest

/-! ### The bodies -/

section Bodies

variable (box : NaclBox) (nonce : Nonce) (nextKeys : List BoxKey)

/-- A body that sets `dest[i]`. -/
def setOne (f : Nat → α) (i : Int) : List (Int × α) := [(i, f i.toNat)]

/-- The body of `FillWithFakeSingles`. -/
def fakeSingle (coins : Nat → FakeCoins) : Int → List (Int × Bytes) :=
  setOne fun i => fakeOnion box nonce nextKeys (singleExchange (coins i)) (coins i)

/-- The body of `FillWithFakeDoubles`. -/
def fakeDouble (coins : Nat → FakeCoins × FakeCoins) (i : Int) : List (Int × Bytes) :=
  let exchanges := doubleExchanges (coins i.toNat)
  [(i * 2, fakeOnion box nonce nextKeys exchanges.1 (coins i.toNat).1),
    (i * 2 + 1, fakeOnion box nonce nextKeys exchanges.2 (coins i.toNat).2)]

/-- The body of `FillWithFakeIntroductions`. -/
def fakeIntroduction (noiseCounts : List Nat) (coins : Nat → FakeCoins) :
    Int → List (Int × Bytes) :=
  setOne fun i => fakeOnion box nonce nextKeys
    (introExchange ((noiseBuckets noiseCounts).getD i 0) (coins i)) (coins i)

/-- The first loop of `Close` on the last server. -/
def readExchange (incoming : List Bytes) : Int → List (Int × ConvoExchange) :=
  setOne fun i => (ConvoExchange.unmarshal (incoming.getD i [])).getD .zero

/-- Its last loop. -/
def readDrop (exchanges : List ConvoExchange) : Int → List (Int × Bytes) :=
  setOne fun i => dropReply exchanges (dropTable exchanges) (exchanges.getD i .zero) i

end Bodies

/-- `round.noise`, as `NewRound` makes it. -/
def madeNoise (coins : ConvoCoins) : List Bytes :=
  List.replicate (coins.singles + coins.numFakeDoubles) []

end Vuvuzela.ParallelFor
