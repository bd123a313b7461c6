import Vuvuzela.Source.Entry
import Vuvuzela.Support.System

/-!
# Entry — the entry server as it runs

Each service of the entry server as a transition system, and the two side by side.  The handlers
of requests, the round loop and the goroutines that run the batches interleave in any way: what is
done under the service's mutex is one step, and so is each message sent.  `NewRound` at the first
server may fail any number of times.  A batch may end at any time, before or after later ones, with
whatever the servers return or with an error; its answers are then sent in any order.
-/

namespace Vuvuzela
open Support

/-- Messages that goroutines are to send: those sent, and those not yet sent. -/
structure Sends where
  done : List (EntryReq × ClientMsg)
  todo : List (EntryReq × ClientMsg)

/-- How the calls of the servers for a batch ended: `RunConvoRound` at the first server, or
`Buckets` at the last. -/
inductive RoundEnd where
  | convoFailed
  | convoReplied (replies : List Bytes)
  | dialFailed
  | dialBuckets (buckets : List Bucket)

/-- A round that has ended: what the servers returned, and what the goroutine that ran the batch
sends for it. -/
structure Ended where
  result : RoundEnd
  sends : Sends

/-- A batch that was cut. -/
structure Batch where
  round : UInt32
  requests : List EntryReq
  ended : Option Ended

/-- Where a round loop is: before the first server took the round, or waiting for requests. -/
inductive Loop where
  | calling
  | receiving
  deriving DecidableEq

/-- One service of the entry server. -/
structure EntryState where
  intake : Intake
  loop : Loop
  batches : List Batch
  errors : Sends
  tickets : Nat

inductive EntryEvent where
  /-- A request was handled, while `current` was the round. -/
  | handled (r : EntryReq) (current : UInt32)
  | failed (round : UInt32)
  | announced (round : UInt32)
  | cut (round : UInt32)
  /-- The round of batch `k` ended, and the servers returned `result`. -/
  | ended (k : Nat) (round : UInt32) (result : RoundEnd)
  | panicked (round : UInt32)
  | sent (r : EntryReq) (msg : ClientMsg)

/-- What the calls of the servers for a batch can return. -/
inductive Returned (round : UInt32) (requests : List EntryReq) : Service → RoundEnd → Prop where
  | convoFailed : Returned round requests .convo .convoFailed
  | convoReplied {σ : Type} {first : NextServer σ} {t t' : σ} {replies : List Bytes}
      (h : first.runConvoRound round (requests.map EntryReq.onion) t = .ok replies t') :
      Returned round requests .convo (.convoReplied replies)
  | dialFailed : Returned round requests .dial .dialFailed
  | dialBuckets {cfg : Config} {last last' : Server} {buckets : List Bucket}
      (hcfg : cfg.dialBuckets = entryBuckets)
      (h : DialService.buckets cfg round last = .ok buckets last') :
      Returned round requests .dial (.dialBuckets buckets)

/-- What `runConvoRound` or `runDialRound` then sends.  `none` is a panic. -/
def RoundEnd.answers (publicKey : Nat → BoxKey) (round : UInt32) (requests : List EntryReq) :
    RoundEnd → Option (List (EntryReq × ClientMsg))
  | .convoFailed => some (runConvoRoundFailed round requests)
  | .convoReplied replies => some (runConvoRoundReplied round requests replies)
  | .dialFailed => some (runDialRoundFailed round requests)
  | .dialBuckets buckets => runDialRoundBuckets publicKey round requests buckets

/-- One step of a service. -/
inductive EntryStep (publicKey : Nat → BoxKey) (service : Service) :
    EntryState → EntryEvent → EntryState → Prop where
  | accept {s : EntryState} {r : EntryReq} {intake : Intake} (hticket : r.ticket = s.tickets)
      (h : s.intake.handleRequest service r = .ok intake) :
      EntryStep publicKey service s (.handled r s.intake.round)
        { s with intake := intake, tickets := s.tickets + 1 }
  | refuse {s : EntryState} {r : EntryReq} {msg : ClientMsg} (hticket : r.ticket = s.tickets)
      (h : s.intake.handleRequest service r = .error msg) :
      EntryStep publicKey service s (.handled r s.intake.round)
        { s with errors := ⟨s.errors.done, s.errors.todo ++ [(r, msg)]⟩, tickets := s.tickets + 1 }
  | retry {s : EntryState} (hloop : s.loop = .calling) :
      EntryStep publicKey service s (.failed s.intake.round) s
  | announce {s : EntryState} (hloop : s.loop = .calling) :
      EntryStep publicKey service s (.announced s.intake.round) { s with loop := .receiving }
  | cut {s : EntryState} (hloop : s.loop = .receiving) :
      EntryStep publicKey service s (.cut s.intake.round)
        { s with
          intake := s.intake.cut.2
          loop := .calling
          batches := s.batches ++ [⟨s.intake.cut.1.1, s.intake.cut.1.2, none⟩] }
  | finish {s : EntryState} {k : Nat} {b : Batch} (hb : s.batches[k]? = some b)
      (hrun : b.ended = none) {result : RoundEnd}
      (h : Returned b.round b.requests service result) {answers : List (EntryReq × ClientMsg)}
      (hans : result.answers publicKey b.round b.requests = some answers) :
      EntryStep publicKey service s (.ended k b.round result)
        { s with batches := s.batches.set k { b with ended := some ⟨result, ⟨[], answers⟩⟩ } }
  | panic {s : EntryState} {k : Nat} {b : Batch} (hb : s.batches[k]? = some b)
      (hrun : b.ended = none) {result : RoundEnd}
      (h : Returned b.round b.requests service result)
      (hans : result.answers publicKey b.round b.requests = none) :
      EntryStep publicKey service s (.panicked b.round) s
  | send {s : EntryState} {k : Nat} {b : Batch} (hb : s.batches[k]? = some b) {result : RoundEnd}
      {done before after : List (EntryReq × ClientMsg)} {x : EntryReq × ClientMsg}
      (hended : b.ended = some ⟨result, ⟨done, before ++ x :: after⟩⟩) :
      EntryStep publicKey service s (.sent x.1 x.2)
        { s with
          batches := s.batches.set k
            { b with ended := some ⟨result, ⟨done ++ [x], before ++ after⟩⟩ } }
  | sendError {s : EntryState} {before after : List (EntryReq × ClientMsg)}
      {x : EntryReq × ClientMsg} (htodo : s.errors.todo = before ++ x :: after) :
      EntryStep publicKey service s (.sent x.1 x.2)
        { s with errors := ⟨s.errors.done ++ [x], before ++ after⟩ }

/-- A service before its first round. -/
def EntryState.start : EntryState := ⟨⟨0, []⟩, .calling, [], ⟨[], []⟩, 0⟩

/-- One service of the entry server, from its start. -/
def serviceSystem (publicKey : Nat → BoxKey) (service : Service) :
    System EntryState EntryEvent where
  init s := s = .start
  step := EntryStep publicKey service

/-- The entry server: its two services. -/
def entrySystem (publicKey : Nat → BoxKey) :
    System (Service → EntryState) (Service × EntryEvent) :=
  System.family (serviceSystem publicKey)

end Vuvuzela
