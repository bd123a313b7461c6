import Vuvuzela.Source.Dial
import Vuvuzela.Source.Span

/-!
# Source — driving a round on a server

`vrpc/client.go` and the functions of `convo.go` and `dial.go` that run a round on a remote
server.  A `Client` is a connection to a server: the handlers that can be called on it, over the
server's state, and the order in which the server gets to the calls that `CallMany` issues
together.

`callMany_eq` gives the end of calls that all succeed, whatever the order: each reply is at its
own place.
-/

namespace Vuvuzela
open Support

/-- The order in which a server gets to `n` calls issued together. -/
abbrev Schedule := (n : Nat) → { order : List Nat // order.Perm (List.range n) }

/-- A connection to a server with state `σ`. -/
structure Client (σ : Type) where
  convoNewRound : UInt32 → Rpc σ Unit
  convoOpen : ConvoOpenArgs → Rpc σ Unit
  convoAdd : ConvoAddArgs → Rpc σ Unit
  convoClose : UInt32 → Rpc σ Unit
  convoGet : ConvoGetArgs → Rpc σ (List Bytes)
  convoDelete : UInt32 → Rpc σ Unit
  dialNewRound : UInt32 → Rpc σ Unit
  dialAdd : DialAddArgs → Rpc σ Unit
  dialClose : UInt32 → Rpc σ Unit
  addOrder : Schedule
  getOrder : Schedule

/-- The `i`-th call is made, and its reply stored at its own place. -/
def callOne {σ α : Type} [Inhabited α] (calls : List (Rpc σ α)) (replies : List α) (i : Nat) :
    Rpc σ (List α) := do
  let reply ← calls.getD i (pure default)
  return replies.set i reply

/-- `CallMany`: every call is made once, in the order of the schedule.  The first fault ends
it. -/
def callMany {σ α : Type} [Inhabited α] (schedule : Schedule) (calls : List (Rpc σ α)) :
    Rpc σ (List α) :=
  (schedule calls.length).1.foldlM (callOne calls) (List.replicate calls.length default)

theorem set_map_range {α : Type} (f : Nat → α) (n i : Nat) (a : α) :
    ((List.range n).map f).set i a = (List.range n).map (Function.update f i a) := by
  refine List.ext_getElem? fun k => ?_
  rw [List.getElem?_set]
  by_cases hk : i = k
  · subst hk
    by_cases hn : i < n <;> simp [hn]
  · by_cases hn : k < n <;> simp [hk, hn, Function.update_of_ne (Ne.symm hk)]

/-- **Calls that all succeed.**  `after done` is the state once the calls `done` were made: where
each call takes it to the next, every reply is at its own place. -/
theorem callMany_eq {σ α : Type} [Inhabited α] (schedule : Schedule) (calls : List (Rpc σ α))
    (reply : Nat → α) (after : List Nat → σ)
    (hcall : ∀ (done : List Nat) (j : Nat) (call : Rpc σ α), calls[j]? = some call →
      call (after done) = .ok (reply j) (after (done ++ [j]))) :
    callMany schedule calls (after []) =
      .ok ((List.range calls.length).map reply) (after (schedule calls.length).1) := by
  obtain ⟨order, hord⟩ : ∃ order, (schedule calls.length).1 = order := ⟨_, rfl⟩
  have horder : order.Perm (List.range calls.length) := hord ▸ (schedule calls.length).2
  -- the replies once the calls `done` were made
  have key : ∀ (rest done : List Nat), (∀ j ∈ rest, j < calls.length) →
      rest.foldlM (callOne calls)
        ((List.range calls.length).map fun i => if i ∈ done then reply i else default)
        (after done) =
      .ok ((List.range calls.length).map fun i => if i ∈ done ++ rest then reply i else default)
        (after (done ++ rest)) := by
    intro rest
    induction rest with
    | nil => intro done _; simp
    | cons j rest ih =>
        intro done hlt
        have hj := hlt j List.mem_cons_self
        have hget : calls.getD j (pure default) = calls[j] := by simp [hj]
        have hc := hcall done j calls[j] (List.getElem?_eq_getElem hj)
        have hset : (((List.range calls.length).map fun i =>
            if i ∈ done then reply i else default).set j (reply j)) =
            (List.range calls.length).map fun i =>
              if i ∈ done ++ [j] then reply i else default := by
          rw [set_map_range]
          refine List.map_congr_left fun i _ => ?_
          by_cases hij : i = j
          · subst hij; simp
          · simp [hij]
        have hone : callOne calls ((List.range calls.length).map fun i =>
            if i ∈ done then reply i else default) j (after done) =
            .ok ((List.range calls.length).map fun i =>
              if i ∈ done ++ [j] then reply i else default) (after (done ++ [j])) := by
          rw [callOne, hget, bind_of_ok hc, hset]
          rfl
        rw [List.foldlM_cons, bind_of_ok hone]
        have := ih (done ++ [j]) fun i hi => hlt i (List.mem_cons_of_mem _ hi)
        simpa using this
  have h := key order [] fun j hj => by simpa using horder.mem_iff.mp hj
  have hstart : (List.replicate calls.length (default : α)) =
      (List.range calls.length).map fun i => if i ∈ ([] : List Nat) then reply i else default := by
    simp
  have hend : ((List.range calls.length).map fun i =>
      if i ∈ [] ++ order then reply i else default) = (List.range calls.length).map reply := by
    refine List.map_congr_left fun i hi => ?_
    rw [List.nil_append, if_pos (horder.mem_iff.mpr hi)]
  rw [hend, List.nil_append] at h
  rw [callMany, hord, hstart]
  exact h

/-- The same for one call for each span of a batch. -/
theorem callMany_spans {σ α : Type} [Inhabited α] (schedule : Schedule) {n spanSize : Nat}
    (hs : 0 < spanSize) (call : Span → Rpc σ α) (reply : Nat → α) (after : List Nat → σ)
    (hcall : ∀ (done : List Nat) (j : Nat), j < numSpans n spanSize →
      call (spanAt n spanSize j) (after done) = .ok (reply j) (after (done ++ [j]))) :
    ∃ order : List Nat, order.Perm (List.range (numSpans n spanSize)) ∧
      callMany schedule ((spans n spanSize).map call) (after []) =
        .ok ((List.range (numSpans n spanSize)).map reply) (after order) := by
  rw [spans_eq hs, List.map_map]
  have hlen : ((List.range (numSpans n spanSize)).map (call ∘ spanAt n spanSize)).length =
      numSpans n spanSize := by simp
  have h := callMany_eq schedule ((List.range (numSpans n spanSize)).map (call ∘ spanAt n spanSize))
    reply after ?_
  · rw [hlen] at h
    exact ⟨_, (schedule _).2, h⟩
  · intro done j c hc
    obtain ⟨i, hi, rfl⟩ := Option.map_eq_some_iff.mp ((List.getElem?_map ..).symm.trans hc)
    obtain ⟨hj, rfl⟩ := List.getElem?_eq_some_iff.mp hi
    rw [List.length_range] at hj
    simpa using hcall done j hj

/-- `copy(x[start:], y)`. -/
def copyAt {α : Type} (x : List α) (start : Nat) (y : List α) : List α :=
  x.take start ++ y.take (x.length - start) ++ x.drop (start + y.length)

variable {σ : Type}

/-- A call whose error is returned with the name of the call. -/
def named {α : Type} (call : String) (x : Rpc σ α) : Rpc σ α := mapFault (Fault.context call) x

theorem named_of_ok {α : Type} {call : String} {x : Rpc σ α} {s s' : σ} {a : α}
    (h : x s = .ok a s') : named call x s = .ok a s' := mapFault_eq_ok.mpr h

theorem named_of_error {α : Type} {call : String} {x : Rpc σ α} {s s' : σ} {f : Fault}
    (h : x s = .error f s') : named call x s = .error (f.context call) s' := mapFault_of_error h

def newConvoRound (client : Client σ) (round : UInt32) : Rpc σ Unit := client.convoNewRound round

/-- `RunConvoRound`, with the span size as an argument. -/
def runConvoRoundIn (spanSize : Nat) (client : Client σ) (round : UInt32) (onions : List Bytes) :
    Rpc σ (List Bytes) := do
  named "Open" (client.convoOpen ⟨round, onions.length⟩)
  let spans := spans onions.length spanSize
  let _ ← named "Add" (callMany client.addOrder (spans.map fun span =>
    client.convoAdd ⟨round, span.start, (onions.drop span.start).take span.count⟩))
  named "Close" (client.convoClose round)
  let results ← named "Get" (callMany client.getOrder (spans.map fun span =>
    client.convoGet ⟨round, span.start, span.count⟩))
  let replies := (spans.zip results).foldl
    (fun replies p => copyAt replies p.1.start (p.2.take p.1.count))
    (List.replicate onions.length [])
  named "Delete" (client.convoDelete round)
  return replies

/-- `RunConvoRound`. -/
def runConvoRound (client : Client σ) (round : UInt32) (onions : List Bytes) :
    Rpc σ (List Bytes) :=
  runConvoRoundIn 4000 client round onions

def newDialRound (client : Client σ) (round : UInt32) : Rpc σ Unit := client.dialNewRound round

/-- `RunDialRound`. -/
def runDialRound (client : Client σ) (round : UInt32) (onions : List Bytes) : Rpc σ Unit := do
  let spans := spans onions.length 4000
  let _ ← named "Add" (callMany client.addOrder (spans.map fun span =>
    client.dialAdd ⟨round, (onions.drop span.start).take span.count⟩))
  named "Close" (client.dialClose round)

end Vuvuzela
