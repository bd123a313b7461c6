import Vuvuzela.Support.System
import Mathlib.Logic.Function.Basic

/-!
# Source — `CallMany` and its goroutines

`Client.CallMany` of `vrpc/client.go` as the system of its goroutines: the one that dispatches
the calls, one worker for each rpc client, and the loop that collects the results.  A call is
known by its place in the list; there are `n` calls and `k` rpc clients.  `State.Can` says when a
step can be taken and `State.after` what it does, one step for each operation on a channel.

`net/rpc` is seen from outside: `rc.Go` makes a call pending, and a pending call completes once,
with an error or without, at any time.  A completion is put on `results` without waiting for
room, as `rpc.Call` does with its `Done` channel: one that finds the channel full is dropped, and
one that finds it closed panics.
-/

namespace Vuvuzela.CallMany
open Support

variable {n k : Nat} {ε : Type}

/-- The dispatching goroutine: at its `select` for call `i`, or past its loop, with `callChan`
closed. -/
inductive Dispatcher where
  | selecting (i : Nat)
  | finished
  deriving DecidableEq

/-- A worker: at its receive, with a call it has received, or past its loop. -/
inductive Worker where
  | receiving
  | holding (i : Nat)
  | exited
  deriving DecidableEq

/-- The collecting loop: at its receive, before `close(results)`, before `close(done)`, and
returned. -/
inductive Collector (ε : Type) where
  | receiving
  | full
  | leaving (err : Option ε)
  | returned (err : Option ε)
  deriving DecidableEq

structure State (k : Nat) (ε : Type) where
  dispatcher : Dispatcher
  callChan : List Nat
  workers : Fin k → Worker
  /-- Issued by `rc.Go` and not completed. -/
  pending : List Nat
  results : List (Nat × Option ε)
  resultsClosed : Bool
  received : Nat
  collector : Collector ε
  done : Bool
  crashed : Bool

/-- What can happen. -/
inductive Event (k : Nat) (ε : Type) where
  /-- `case callChan <- c`. -/
  | dispatched (i : Nat)
  /-- `case <-done`. -/
  | skipped (i : Nat)
  /-- `close(callChan)`. -/
  | closedCalls
  /-- A worker receives a call. -/
  | taken (w : Fin k) (i : Nat)
  /-- A worker finds `callChan` closed. -/
  | exited (w : Fin k)
  /-- `rc.Go`. -/
  | issued (w : Fin k) (i : Nat)
  /-- A call completes, and is put on `results`. -/
  | completed (i : Nat) (err : Option ε)
  /-- A call completes, and finds `results` full. -/
  | discarded (i : Nat) (err : Option ε)
  /-- A call completes, and finds `results` closed. -/
  | panicked (i : Nat) (err : Option ε)
  /-- The loop receives a completed call. -/
  | collected (i : Nat) (err : Option ε)
  /-- `close(results)`. -/
  | closedResults
  /-- `close(done)` and `return err`. -/
  | returned (err : Option ε)
  deriving DecidableEq

/-- The start of a `CallMany` of `n` calls.  With none it returns at once, and starts no
goroutine. -/
def start (n k : Nat) (ε : Type) : State k ε where
  dispatcher := if n = 0 then .finished else .selecting 0
  callChan := []
  workers _ := if n = 0 then .exited else .receiving
  pending := []
  results := []
  resultsClosed := false
  received := 0
  collector := if n = 0 then .leaving none else .receiving
  done := false
  crashed := false

/-- When a step can be taken.  `callChan` has room for 4 calls, `results` for all of them. -/
def State.Can (n : Nat) (s : State k ε) : Event k ε → Prop
  | .dispatched i => s.dispatcher = .selecting i ∧ i < n ∧ s.callChan.length < 4
  | .skipped i => s.dispatcher = .selecting i ∧ i < n ∧ s.done = true
  | .closedCalls => s.dispatcher = .selecting n
  | .taken w i => s.workers w = .receiving ∧ s.callChan.head? = some i
  | .exited w => s.workers w = .receiving ∧ s.callChan = [] ∧ s.dispatcher = .finished
  | .issued w i => s.workers w = .holding i
  | .completed i _ => i ∈ s.pending ∧ s.resultsClosed = false ∧ s.results.length < n
  | .discarded i _ => i ∈ s.pending ∧ s.resultsClosed = false ∧ n ≤ s.results.length
  | .panicked i _ => i ∈ s.pending ∧ s.resultsClosed = true
  | .collected i err => s.collector = .receiving ∧ s.results.head? = some (i, err)
  | .closedResults => s.collector = .full
  | .returned err => s.collector = .leaving err

/-- What a step does. -/
def State.after (n : Nat) (s : State k ε) : Event k ε → State k ε
  | .dispatched i => { s with callChan := s.callChan ++ [i], dispatcher := .selecting (i + 1) }
  -- the `break` leaves the `select`, and the loop goes on with the next call
  | .skipped i => { s with dispatcher := .selecting (i + 1) }
  | .closedCalls => { s with dispatcher := .finished }
  | .taken w i =>
      { s with callChan := s.callChan.tail, workers := Function.update s.workers w (.holding i) }
  | .exited w => { s with workers := Function.update s.workers w .exited }
  | .issued w i =>
      { s with workers := Function.update s.workers w .receiving, pending := s.pending ++ [i] }
  | .completed i err =>
      { s with pending := s.pending.erase i, results := s.results ++ [(i, err)] }
  | .discarded i _ => { s with pending := s.pending.erase i }
  | .panicked i _ => { s with pending := s.pending.erase i, crashed := true }
  | .collected _ err =>
      -- only this loop closes `results`, and leaves at once, so its `range` never ends by itself
      { s with
        results := s.results.tail
        received := if err.isSome then s.received else s.received + 1
        collector :=
          match err with
          | some e => .leaving (some e)
          | none => if s.received + 1 = n then .full else .receiving }
  | .closedResults => { s with resultsClosed := true, collector := .leaving none }
  | .returned err => { s with done := true, collector := .returned err }

/-- The steps of a `CallMany` of `n` calls on `k` rpc clients, in any interleaving. -/
def system (n k : Nat) (ε : Type) : System (State k ε) (Event k ε) where
  init s := s = start n k ε
  step s ev s' := s.crashed = false ∧ s.Can n ev ∧ s' = s.after n ev

instance [DecidableEq ε] (s : State k ε) : (ev : Event k ε) → Decidable (s.Can n ev)
  | .dispatched _ => inferInstanceAs (Decidable (_ ∧ _ ∧ _))
  | .skipped _ => inferInstanceAs (Decidable (_ ∧ _ ∧ _))
  | .closedCalls => inferInstanceAs (Decidable (_ = _))
  | .taken .. => inferInstanceAs (Decidable (_ ∧ _))
  | .exited _ => inferInstanceAs (Decidable (_ ∧ _ ∧ _))
  | .issued .. => inferInstanceAs (Decidable (_ = _))
  | .completed .. => inferInstanceAs (Decidable (_ ∧ _ ∧ _))
  | .discarded .. => inferInstanceAs (Decidable (_ ∧ _ ∧ _))
  | .panicked .. => inferInstanceAs (Decidable (_ ∧ _))
  | .collected .. => inferInstanceAs (Decidable (_ ∧ _))
  | .closedResults => inferInstanceAs (Decidable (_ = _))
  | .returned _ => inferInstanceAs (Decidable (_ = _))

/-- One step, computed. -/
def State.take [DecidableEq ε] (n : Nat) (ev : Event k ε) (s : State k ε) :
    Option (Event k ε × State k ε) :=
  if s.crashed = false ∧ s.Can n ev then some (ev, s.after n ev) else none

theorem State.take_eq_some [DecidableEq ε] {ev ev' : Event k ε} {s s' : State k ε}
    (h : s.take n ev = some (ev', s')) : (system n k ε).step s ev' s' ∧ ev' = ev := by
  rw [State.take] at h
  split at h
  · rename_i hcan
    cases h
    exact ⟨⟨hcan.1, hcan.2, rfl⟩, rfl⟩
  · cases h

/-- Steps that can be taken one after the other from the start make a run. -/
theorem run_of_replay [DecidableEq ε] {C : List (Event k ε) → State k ε → Event k ε → Prop}
    {check : List (Event k ε) → State k ε → Event k ε → Bool}
    (hcheck : ∀ h s ev, check h s ev = true → C h s ev) {evs : List (Event k ε)}
    (h : (System.replay (State.take n) check evs [] (start n k ε)).isSome = true) :
    ∃ s, (system n k ε).Run C evs s := by
  obtain ⟨⟨h', s⟩, hreplay⟩ := Option.isSome_iff_exists.mp h
  have htake : ∀ (ev : Event k ε) s ev' s', State.take n ev s = some (ev', s') →
      (system n k ε).step s ev' s' ∧ id ev' = ev := fun _ _ _ _ => State.take_eq_some
  obtain ⟨run, hmap⟩ := System.Run.replay htake hcheck (.init rfl) hreplay
  simp only [List.map_id, List.nil_append] at hmap
  exact ⟨s, hmap ▸ run⟩

end Vuvuzela.CallMany
