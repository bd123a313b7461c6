import Vuvuzela.Source.Api
import Vuvuzela.Entry.Steps

/-!
# Entry — the connections of the entry server

What `vuvuzela-entry-server` does with its connections: `register`, `allConnections`, `Close`,
`Send`, `readLoop`, and the broadcast of a round's announcement.  These run as goroutines next to
each other, and next to the two services of `Entry/Steps`: one `readLoop` for each connection, one
goroutine for each request that was read, and any number of `Send`s.  A step is what is done under
one lock, one read or write of a socket, or one call of `ws.Close`.

A connection is a number.  A socket is up until it is closed or a write on it fails; while it is
up a write may succeed or fail, and from then on it fails.
-/

namespace Vuvuzela
open Support

/-! ### Messages -/

/-- `AnnounceConvoRound` or `AnnounceDialRound`. -/
def Service.announcement : Service → UInt32 → Message
  | .convo, round => .announceConvoRound ⟨round⟩
  | .dial, round => .announceDialRound ⟨round, entryBuckets⟩

/-- `ConvoRequest` or `DialRequest`. -/
def Service.request : Service → UInt32 → Bytes → Message
  | .convo, round, onion => .convoRequest ⟨round, onion⟩
  | .dial, round, onion => .dialRequest ⟨round, onion⟩

/-- A value that is handed to `Send`, with the request it answers. -/
inductive Outgoing where
  | announce (service : Service) (round : UInt32)
  | answer (service : Service) (r : EntryReq) (msg : ClientMsg)
  | badRequest (err : String)
  deriving DecidableEq

def Outgoing.message : Outgoing → Message
  | .announce service round => service.announcement round
  | .answer _ _ msg => msg.message
  | .badRequest err => .badRequestError ⟨err⟩

/-! ### The state -/

/-- Where the `readLoop` of a connection is: in the loop, before `ws.Close`, before `delete`, or
at its end. -/
inductive Reader where
  | reading
  | closing
  | deleting
  | ended
  deriving DecidableEq

/-- Where a `Send` is: before the write, or in the `Close` after a write that failed. -/
inductive Sending where
  | sending (v : Outgoing)
  | closing
  | deleting
  deriving DecidableEq

/-- A connection, and what was written on it. -/
structure Conn where
  up : Bool
  reader : Reader
  written : List Outgoing

/-- The entry server with its connections.  The `Send`s of the broadcast of a service are those of
`some service`; the others, which no loop waits for, are those of `none`. -/
structure Hub where
  entry : Service → EntryState
  connections : List Nat
  conns : Nat → Option Conn
  handlers : List (Nat × Message)
  broadcasting : Service → Bool
  sends : Option Service → List (Nat × Sending)

namespace Hub

variable (s : Hub)

def register (c : Nat) : Hub :=
  { s with
    connections := s.connections.insert c
    conns := Function.update s.conns c (some ⟨true, .reading, []⟩) }

/-- The connections, in the order of the registry; the order Go gives them in is any. -/
def allConnections : List Nat := s.connections

def modify (c : Nat) (f : Conn → Conn) : Hub :=
  { s with conns := Function.update s.conns c ((s.conns c).map f) }

/-- `c.ws.Close()`, or a write that fails. -/
def wsClose (c : Nat) : Hub := s.modify c fun k => { k with up := false }

/-- `delete(c.srv.connections, c)`. -/
def delete (c : Nat) : Hub := { s with connections := s.connections.erase c }

def write (c : Nat) (v : Outgoing) : Hub :=
  s.modify c fun k => { k with written := k.written ++ [v] }

def setReader (c : Nat) (reader : Reader) : Hub := s.modify c fun k => { k with reader := reader }

def setEntry (service : Service) (e : EntryState) : Hub :=
  { s with entry := Function.update s.entry service e }

def setSends (p : Option Service) (l : List (Nat × Sending)) : Hub :=
  { s with sends := Function.update s.sends p l }

def setBroadcasting (service : Service) (b : Bool) : Hub :=
  { s with broadcasting := Function.update s.broadcasting service b }

/-- `go c.Send(v)`, or the `Send` of a goroutine that answers a batch. -/
def spawn (c : Nat) (v : Outgoing) : Hub := s.setSends none (s.sends none ++ [(c, .sending v)])

/-- `broadcast(conns, …)` from its start, by the loop of a service. -/
def broadcast (service : Service) (conns : List Nat) (round : UInt32) : Hub :=
  (s.setBroadcasting service true).setSends (some service)
    (conns.map fun c => (c, .sending (.announce service round)))

end Hub

/-! ### The steps -/

inductive HubEvent where
  /-- A step of a service. -/
  | entry (service : Service) (ev : EntryEvent)
  | accepted (c : Nat)
  /-- `readLoop` read a message. -/
  | read (c : Nat) (v : Message)
  /-- `readLoop` read an envelope that does not open. -/
  | misread (c : Nat)
  /-- `handleRequest` was called with a value that is no request. -/
  | ignored (c : Nat)
  | readFailed (c : Nat)
  | closed (c : Nat)
  | deleted (c : Nat)
  /-- The first server took the round, and the registry was read. -/
  | snapshot (service : Service) (round : UInt32)
  | wrote (c : Nat) (v : Outgoing)
  | writeFailed (c : Nat) (v : Outgoing)
  /-- `Envelop` failed. -/
  | unsent (c : Nat) (v : Outgoing)

/-- The steps of a service that do not touch the connections. -/
def EntryEvent.inner : EntryEvent → Bool
  | .cut _ | .ended .. | .panicked _ => true
  | .handled .. | .failed _ | .announced _ | .sent .. => false

/-- One step of the entry server. -/
inductive HubStep (json : Json) (publicKey : Nat → BoxKey) : Hub → HubEvent → Hub → Prop where
  | accept {s : Hub} {c : Nat} (hnew : s.conns c = none) :
      HubStep json publicKey s (.accepted c) (s.register c)
  | read {s : Hub} {c : Nat} {k : Conn} {e : Envelope} {v : Message} (hk : s.conns c = some k)
      (hreader : k.reader = .reading) (hopen : e.open json = .ok v) :
      HubStep json publicKey s (.read c v) { s with handlers := s.handlers ++ [(c, v)] }
  | misread {s : Hub} {c : Nat} {k : Conn} {e : Envelope} {err : String}
      (hk : s.conns c = some k) (hreader : k.reader = .reading) (hopen : e.open json = .error err) :
      HubStep json publicKey s (.misread c)
        (s.spawn c (.badRequest s!"error parsing request: {err}"))
  | readFail {s : Hub} {c : Nat} {k : Conn} (hk : s.conns c = some k)
      (hreader : k.reader = .reading) :
      HubStep json publicKey s (.readFailed c) (s.setReader c .closing)
  | readerClose {s : Hub} {c : Nat} {k : Conn} (hk : s.conns c = some k)
      (hreader : k.reader = .closing) :
      HubStep json publicKey s (.closed c) ((s.wsClose c).setReader c .deleting)
  | readerDelete {s : Hub} {c : Nat} {k : Conn} (hk : s.conns c = some k)
      (hreader : k.reader = .deleting) :
      HubStep json publicKey s (.deleted c) ((s.delete c).setReader c .ended)
  | ignore {s : Hub} {c : Nat} {v : Message} {before after : List (Nat × Message)}
      (hh : s.handlers = before ++ (c, v) :: after)
      (hv : ∀ (service : Service) round onion, v ≠ service.request round onion) :
      HubStep json publicKey s (.ignored c) { s with handlers := before ++ after }
  | handle {s : Hub} {service : Service} {r : EntryReq} {current : UInt32} {e : EntryState}
      {before after : List (Nat × Message)}
      (hh : s.handlers = before ++ (r.conn, service.request r.round r.onion) :: after)
      (t : EntryStep publicKey service (s.entry service) (.handled r current) e) :
      HubStep json publicKey s (.entry service (.handled r current))
        { s.setEntry service e with handlers := before ++ after }
  | inner {s : Hub} {service : Service} {ev : EntryEvent} {e : EntryState}
      (hev : ev.inner = true) (t : EntryStep publicKey service (s.entry service) ev e) :
      HubStep json publicKey s (.entry service ev) (s.setEntry service e)
  | sent {s : Hub} {service : Service} {r : EntryReq} {msg : ClientMsg} {e : EntryState}
      (t : EntryStep publicKey service (s.entry service) (.sent r msg) e) :
      HubStep json publicKey s (.entry service (.sent r msg))
        ((s.setEntry service e).spawn r.conn (.answer service r msg))
  -- the loop is in one call at a time: `NewRound` is not tried again during a broadcast
  | retry {s : Hub} {service : Service} {round : UInt32} {e : EntryState}
      (hb : s.broadcasting service = false)
      (t : EntryStep publicKey service (s.entry service) (.failed round) e) :
      HubStep json publicKey s (.entry service (.failed round)) (s.setEntry service e)
  | snapshot {s : Hub} {service : Service} {conns : List Nat}
      (hloop : (s.entry service).loop = .calling) (hb : s.broadcasting service = false)
      (hconns : conns.Perm s.allConnections) :
      HubStep json publicKey s (.snapshot service (s.entry service).intake.round)
        (s.broadcast service conns (s.entry service).intake.round)
  | announce {s : Hub} {service : Service} {round : UInt32} {e : EntryState}
      (hb : s.broadcasting service = true) (hdone : s.sends (some service) = [])
      (t : EntryStep publicKey service (s.entry service) (.announced round) e) :
      HubStep json publicKey s (.entry service (.announced round))
        ((s.setEntry service e).setBroadcasting service false)
  | unsent {s : Hub} {p : Option Service} {c : Nat} {v : Outgoing} {err : String}
      {before after : List (Nat × Sending)} (hp : s.sends p = before ++ (c, .sending v) :: after)
      (henv : envelop json v.message = .error err) :
      HubStep json publicKey s (.unsent c v) (s.setSends p (before ++ after))
  | write {s : Hub} {p : Option Service} {c : Nat} {k : Conn} {v : Outgoing} {e : Envelope}
      {before after : List (Nat × Sending)} (hp : s.sends p = before ++ (c, .sending v) :: after)
      (henv : envelop json v.message = .ok e) (hk : s.conns c = some k) (hup : k.up = true) :
      HubStep json publicKey s (.wrote c v) ((s.setSends p (before ++ after)).write c v)
  | writeFail {s : Hub} {p : Option Service} {c : Nat} {v : Outgoing} {e : Envelope}
      {before after : List (Nat × Sending)} (hp : s.sends p = before ++ (c, .sending v) :: after)
      (henv : envelop json v.message = .ok e) :
      HubStep json publicKey s (.writeFailed c v)
        ((s.setSends p (before ++ (c, .closing) :: after)).wsClose c)
  | sendClose {s : Hub} {p : Option Service} {c : Nat} {before after : List (Nat × Sending)}
      (hp : s.sends p = before ++ (c, .closing) :: after) :
      HubStep json publicKey s (.closed c)
        ((s.setSends p (before ++ (c, .deleting) :: after)).wsClose c)
  | sendDelete {s : Hub} {p : Option Service} {c : Nat} {before after : List (Nat × Sending)}
      (hp : s.sends p = before ++ (c, .deleting) :: after) :
      HubStep json publicKey s (.deleted c) ((s.setSends p (before ++ after)).delete c)

/-- The entry server before the first connection. -/
def Hub.start : Hub := ⟨fun _ => .start, [], fun _ => none, [], fun _ => false, fun _ => []⟩

/-- The entry server with its connections, from its start. -/
def hubSystem (json : Json) (publicKey : Nat → BoxKey) : System Hub HubEvent where
  init s := s = .start
  step := HubStep json publicKey

end Vuvuzela
