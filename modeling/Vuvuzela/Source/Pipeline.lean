import Vuvuzela.Source.Chain
import Vuvuzela.Support.Programs

/-!
# Source — a round, step by step

Rounds of both services are under way on the chain at the same time.  Here the functions of
`convo.go` and `dial.go` that drive a round are programs with steps, and other rounds come in
between the steps: `Idle.Lock()`, `Idle.Unlock()`, a handler that calls nobody, and what `Close`
does between the calls of the next server.  The servers of the chain are numbered, and a program
says which of them a step is on.

A handler that calls nobody is the one of `Source/Convo` and `Source/Dial`, in one step: it works
on its own round, under a lock of the service where it looks the round up.
-/

namespace Vuvuzela
open Support

/-- A part of a round, on the servers of a chain. -/
abbrev RoundProg := Prog Fault Server

/-- `Idle` of a server. -/
def idleLatch : Latch Server where
  held := Server.idle
  set b srv := { srv with idle := b }
  held_set _ _ := rfl

/-- `Idle.Lock()` on server `k`. -/
def idleLock (k : Nat) : RoundProg Unit := .lock k .blocked (.ret ())

/-- `Idle.Unlock()` on server `k`. -/
def idleUnlock (k : Nat) : RoundProg Unit := .unlock k (.panic .unlock) (.ret ())

/-- The next server. -/
structure NextSteps where
  newConvoRound : UInt32 → RoundProg Unit
  runConvoRound : UInt32 → List Bytes → RoundProg (List Bytes)
  newDialRound : UInt32 → RoundProg Unit
  runDialRound : UInt32 → List Bytes → RoundProg Unit

/-- A call of a remote server whose error is returned with the name of the call. -/
def callingSteps {α : Type} (call : String) (p : RoundProg α) : RoundProg α :=
  p.mapFault fun f => f.remote.context call

/-- A call whose error is returned with the name of the call. -/
def namedSteps {α : Type} (call : String) (p : RoundProg α) : RoundProg α :=
  p.mapFault (Fault.context call)

/-! ### The conversation service -/

/-- `NewRound` after `Idle.Lock()`. -/
def ConvoService.create (box : NaclBox) (cfg : Config) (coins : ConvoCoins) (Round : UInt32) :
    Rpc Server Unit := do
  let srv ← getThe Server
  if (srv.convoRounds Round).isSome then throw (.err (.alreadyExists Round))
  else putConvo Round (coins.newRound box cfg Round)

def ConvoService.newRoundSteps (box : NaclBox) (cfg : Config) (coins : ConvoCoins) (k : Nat)
    (Round : UInt32) : RoundProg Unit := do
  idleLock k
  .exec k (ConvoService.create box cfg coins Round)

def ConvoService.closeLastSteps (k : Nat) (Round : UInt32) (round : ConvoRound)
    (messages : List Bytes) : RoundProg Unit := do
  let exchanges := readExchanges messages
  let round := { round with replies := dropReplies exchanges }
  idleUnlock k
  .exec k (modify fun srv =>
    { srv with accessCounts := offer srv.accessCounts (accessCount exchanges) })
  .exec k (putConvo Round { round with status := .roundClosed })

def ConvoService.closeForwardSteps (next : NextSteps) (shuffler : (n : Nat) → Shuffler n) (k : Nat)
    (Round : UInt32) (round : ConvoRound) (capacity : Nat) (messages : List Bytes) :
    RoundProg Unit := do
  let outgoing := messages ++ round.noise
  match (shuffler outgoing.length).shuffle outgoing with
  | none => .stop (.panic .index)
  | some shuffled =>
      let round := { round with
        incoming := (aliasedIncoming capacity messages outgoing shuffled).map some
        noise := [] }
      .exec k (putConvo Round round)
      callingSteps "NewConvoRound" (next.newConvoRound Round)
      idleUnlock k
      let replies ← callingSteps "RunConvoRound" (next.runConvoRound Round shuffled)
      match (shuffler outgoing.length).unshuffle replies with
      | none => .stop (.panic .index)
      | some replies =>
          if (replies.length : Int) < round.numIncoming then .stop (.panic .slice)
          else .exec k (putConvo Round { round with
            replies := replies.take round.numIncoming.toNat
            status := .roundClosed })

def ConvoService.closeSteps (cfg : Config) (next : NextSteps)
    (shuffler : (n : Nat) → Shuffler n) (k : Nat) (Round : UInt32) : RoundProg Unit := do
  let round ← Prog.exec k (ConvoService.getRound Round .roundOpen)
  match ConvoService.filterIncoming round.incoming with
  | none => .stop (.panic .slice)
  | some (messages, incomingIndex) =>
      let capacity := round.incoming.length
      let round := { round with
        incoming := messages.map some
        incomingIndex := incomingIndex }
      if cfg.lastServer then ConvoService.closeLastSteps k Round round messages
      else ConvoService.closeForwardSteps next shuffler k Round round capacity messages

/-! ### The dialing service -/

/-- `NewRound` after `Idle.Lock()`. -/
def DialService.create (box : NaclBox) (cfg : Config) (coins : DialCoins) (Round : UInt32) :
    Rpc Server Unit := do
  let srv ← getThe Server
  if (srv.dialRounds Round).isSome then throw (.err (.alreadyExists Round))
  else putDial Round ⟨.roundOpen, [], coins.noise box cfg Round⟩

def DialService.newRoundSteps (box : NaclBox) (cfg : Config) (coins : DialCoins) (k : Nat)
    (Round : UInt32) : RoundProg Unit := do
  idleLock k
  .exec k (DialService.create box cfg coins Round)

def DialService.closeSteps (cfg : Config) (next : NextSteps)
    (shuffler : (n : Nat) → Shuffler n) (k : Nat) (Round : UInt32) : RoundProg Unit := do
  let round ← Prog.exec k (DialService.getRound Round .roundOpen)
  match DialService.filterIncoming round.incoming with
  | none => .stop (.panic .slice)
  | some messages =>
      let incoming := messages ++ round.noise
      match (shuffler incoming.length).shuffle incoming with
      | none => .stop (.panic .index)
      | some shuffled =>
          .exec k (putDial Round { round with incoming := shuffled })
          if cfg.lastServer then do
            idleUnlock k
            .exec k (putDial Round { round with
              incoming := shuffled, noise := [], status := .roundClosed })
          else do
            callingSteps "NewDialRound" (next.newDialRound Round)
            idleUnlock k
            callingSteps "RunDialRound" (next.runDialRound Round shuffled)
            .exec k (putDial Round { round with
              incoming := [], noise := [], status := .roundClosed })

/-! ### Driving a round on a server -/

/-- A connection to a server. -/
structure ClientSteps where
  convoNewRound : UInt32 → RoundProg Unit
  convoOpen : ConvoOpenArgs → RoundProg Unit
  convoAdd : ConvoAddArgs → RoundProg Unit
  convoClose : UInt32 → RoundProg Unit
  convoGet : ConvoGetArgs → RoundProg (List Bytes)
  convoDelete : UInt32 → RoundProg Unit
  dialNewRound : UInt32 → RoundProg Unit
  dialAdd : DialAddArgs → RoundProg Unit
  dialClose : UInt32 → RoundProg Unit
  addOrder : Schedule
  getOrder : Schedule

def callOneSteps {α : Type} [Inhabited α] (calls : List (RoundProg α)) (replies : List α)
    (i : Nat) : RoundProg (List α) := do
  let reply ← calls.getD i (pure default)
  return replies.set i reply

/-- `CallMany`. -/
def callManySteps {α : Type} [Inhabited α] (schedule : Schedule) (calls : List (RoundProg α)) :
    RoundProg (List α) :=
  (schedule calls.length).1.foldlM (callOneSteps calls) (List.replicate calls.length default)

/-- `RunConvoRound`. -/
def runConvoRoundSteps (client : ClientSteps) (round : UInt32) (onions : List Bytes) :
    RoundProg (List Bytes) := do
  namedSteps "Open" (client.convoOpen ⟨round, onions.length⟩)
  let spans := spans onions.length 4000
  let _ ← namedSteps "Add" (callManySteps client.addOrder (spans.map fun span =>
    client.convoAdd ⟨round, span.start, (onions.drop span.start).take span.count⟩))
  namedSteps "Close" (client.convoClose round)
  let results ← namedSteps "Get" (callManySteps client.getOrder (spans.map fun span =>
    client.convoGet ⟨round, span.start, span.count⟩))
  let replies := (spans.zip results).foldl
    (fun replies p => copyAt replies p.1.start (p.2.take p.1.count))
    (List.replicate onions.length [])
  namedSteps "Delete" (client.convoDelete round)
  return replies

/-- `RunDialRound`. -/
def runDialRoundSteps (client : ClientSteps) (round : UInt32) (onions : List Bytes) :
    RoundProg Unit := do
  let spans := spans onions.length 4000
  let _ ← namedSteps "Add" (callManySteps client.addOrder (spans.map fun span =>
    client.dialAdd ⟨round, (onions.drop span.start).take span.count⟩))
  namedSteps "Close" (client.dialClose round)

/-! ### The chain -/

/-- The next server of the server that holds the connection. -/
def ClientSteps.next (client : ClientSteps) : NextSteps where
  newConvoRound := client.convoNewRound
  runConvoRound := runConvoRoundSteps client
  newDialRound := client.dialNewRound
  runDialRound := runDialRoundSteps client

/-- A connection to server `k`, whose next server is `next`. -/
def serverSteps (box : NaclBox) (st : Station) (k : Nat) (next : NextSteps) : ClientSteps where
  convoNewRound := ConvoService.newRoundSteps box st.cfg st.convoCoins k
  convoOpen := fun args => .exec k (ConvoService.open args)
  convoAdd := fun args => .exec k (ConvoService.add box st.cfg args)
  convoClose := ConvoService.closeSteps st.cfg next st.shuffler k
  convoGet := fun args => .exec k (ConvoService.get box st.cfg st.filler args)
  convoDelete := fun round => .exec k (ConvoService.delete round)
  dialNewRound := DialService.newRoundSteps box st.cfg st.dialCoins k
  dialAdd := fun args => .exec k (DialService.add box st.cfg args)
  dialClose := DialService.closeSteps st.cfg next st.shuffler k
  addOrder := st.addOrder
  getOrder := st.getOrder

/-- The last server holds no connection. -/
def noServerSteps : NextSteps where
  newConvoRound := fun _ => .stop (.panic .nil)
  runConvoRound := fun _ _ => .stop (.panic .nil)
  newDialRound := fun _ => .stop (.panic .nil)
  runDialRound := fun _ _ => .stop (.panic .nil)

/-- The servers of a list, from number `k` on. -/
def chainSteps (box : NaclBox) : List Station → Nat → NextSteps
  | [], _ => noServerSteps
  | st :: stations, k => (serverSteps box st k (chainSteps box stations (k + 1))).next

/-- A whole round of conversations. -/
def convoRoundSteps (next : NextSteps) (round : UInt32) (onions : List Bytes) :
    RoundProg (List Bytes) := do
  next.newConvoRound round
  next.runConvoRound round onions

/-- A whole round of dialing. -/
def dialRoundSteps (next : NextSteps) (round : UInt32) (onions : List Bytes) :
    RoundProg Unit := do
  next.newDialRound round
  next.runDialRound round onions

/-- A round the entry server runs on the chain: the onions it was cut with, and the draws the
servers make in it. -/
structure RoundJob where
  service : Service
  round : UInt32
  onions : List Bytes
  stations : List Station

/-- What tells two rounds of the chain apart. -/
def RoundJob.key (job : RoundJob) : Service × UInt32 := (job.service, job.round)

/-- The round, from its `NewRound` on; a round of dialing returns no replies. -/
def RoundJob.steps (box : NaclBox) (job : RoundJob) : RoundProg (List Bytes) :=
  match job.service with
  | .convo => convoRoundSteps (chainSteps box job.stations 0) job.round job.onions
  | .dial => do
      dialRoundSteps (chainSteps box job.stations 0) job.round job.onions
      return []

/-- The same round, with nothing in between. -/
def RoundJob.atOnce (box : NaclBox) (job : RoundJob) :
    Rpc (Servers job.stations) (List Bytes) :=
  match job.service with
  | .convo => convoRound (chain box job.stations) job.round job.onions
  | .dial => do
      dialRound (chain box job.stations) job.round job.onions
      return []

end Vuvuzela
