import Vuvuzela.Source.Dial
import Vuvuzela.Source.Chain

/-!
# Source — the entry server

`vuvuzela-entry-server`: the two request handlers, the step of the two round loops that cuts a
batch, and what `runConvoRound` and `runDialRound` send to whom.  The two services have the same
code over different fields; `Intake` is the pair of fields of one of them, under its mutex.

A connection is a number.  The registry of connections, of which only the broadcast of
announcements makes use, is in `Entry/Connections`.
-/

namespace Vuvuzela

/-- What the entry server sends to a client in answer to a request. -/
inductive ClientMsg where
  | convoError (round : UInt32) (err : String)
  | convoResponse (round : UInt32) (onion : Bytes)
  | dialError (round : UInt32) (err : String)
  | dialBucket (round : UInt32) (intros : Bucket)
  deriving DecidableEq

/-- `ConvoError` or `DialError`. -/
def Service.error : Service → UInt32 → String → ClientMsg
  | .convo => .convoError
  | .dial => .dialError

/-- A request of a client, with the connection it came on.  The `ticket` tells two requests
apart, as the address of a `convoReq` does. -/
structure EntryReq where
  ticket : Nat
  conn : Nat
  round : UInt32
  onion : Bytes
  deriving DecidableEq

/-- `convoRound` and `convoRequests`, or `dialRound` and `dialRequests`. -/
structure Intake where
  round : UInt32
  requests : List EntryReq

/-- A handler under the mutex: the request is appended, or an error comes out to be sent. -/
def Intake.handleRequest (service : Service) (r : EntryReq) (intake : Intake) :
    Except ClientMsg Intake :=
  let currRound := intake.round
  if r.round ≠ currRound then
    .error (service.error r.round s!"wrong round (currently {currRound})")
  else .ok { intake with requests := intake.requests ++ [r] }

def handleConvoRequest : EntryReq → Intake → Except ClientMsg Intake := Intake.handleRequest .convo

def handleDialRequest : EntryReq → Intake → Except ClientMsg Intake := Intake.handleRequest .dial

/-- The end of an iteration of a round loop, under the mutex: what the round is run with, and the
next round. -/
def Intake.cut (intake : Intake) : (UInt32 × List EntryReq) × Intake :=
  ((intake.round, intake.requests), ⟨intake.round + 1, []⟩)

/-- `broadcast` to the connections of a batch. -/
def broadcast (requests : List EntryReq) (msg : ClientMsg) : List (EntryReq × ClientMsg) :=
  requests.map fun r => (r, msg)

/-- What `runConvoRound` sends when the round failed. -/
def runConvoRoundFailed (round : UInt32) (requests : List EntryReq) :
    List (EntryReq × ClientMsg) :=
  broadcast requests (Service.convo.error round "server error")

/-- What `runConvoRound` sends when the replies are there: the reply of each position to the
connection of the position. -/
def runConvoRoundReplied (round : UInt32) (requests : List EntryReq) (replies : List Bytes) :
    List (EntryReq × ClientMsg) :=
  requests.zipWith (fun r reply => (r, .convoResponse round reply)) replies

/-- What `runDialRound` sends when the round, or the call of `Buckets`, failed. -/
def runDialRoundFailed (round : UInt32) (requests : List EntryReq) :
    List (EntryReq × ClientMsg) :=
  broadcast requests (Service.dial.error round "server error")

/-- The buckets of a round: `TotalDialBuckets`. -/
def entryBuckets : UInt32 := UInt32.ofNat totalDialBuckets

/-- The bucket of a key among `total`; no value where Go would divide by zero or index out of
range. -/
def bucketOf (total : UInt32) (key : BoxKey) (buckets : List Bucket) : Option Bucket := do
  let bi ← keyDialBucket key total
  buckets[bi.toNat]?

/-- The bucket of a connection. -/
def connBucket (publicKey : Nat → BoxKey) (buckets : List Bucket) (conn : Nat) : Option Bucket :=
  bucketOf entryBuckets (publicKey conn) buckets

/-- What `runDialRound` sends when the buckets are there. -/
def runDialRoundBuckets (publicKey : Nat → BoxKey) (round : UInt32) (requests : List EntryReq)
    (buckets : List Bucket) : Option (List (EntryReq × ClientMsg)) :=
  requests.mapM fun r => do
    let intros ← connBucket publicKey buckets r.conn
    return (r, .dialBucket round intros)

end Vuvuzela
