import Vuvuzela.Source.Client
import Vuvuzela.Support.System

/-!
# Client — a client and the messages it gets

The client as a transition system.  The entry server, which need not be honest, announces any
rounds and sends any responses, in any order and as often as it likes; the user queues texts and
switches conversations at any time.  Every message is handled by a goroutine of its own.  What a
goroutine does under the client's mutex is one step, and so is each call on a conversation.  Calls
on one conversation that overlap are taken one after the other.

The client with its user, its screen and its connection runs as this one (`client_of_gui`).
-/

namespace Vuvuzela
open Support

/-- Where the handling of a message is. -/
inductive Goroutine where
  /-- `nextConvoRequest`, out of the mutex and before the call on the handler. -/
  | announced (round : UInt32)
  /-- The request was made, and waits to be sent. -/
  | requested (convo : Nat) (request : ConvoRequest)
  /-- `deliverConvoResponse`, out of the mutex and before the call on the handler it found. -/
  | delivering (convo : Nat) (response : ConvoResponse)
  | done

/-- The round a goroutine is about. -/
def Goroutine.round? : Goroutine → Option UInt32
  | .announced round => some round
  | .requested _ request => some request.round
  | .delivering _ response => some response.round
  | .done => none

structure ClientState where
  client : UserClient
  convos : Nat → Conversation
  pool : Nat → Goroutine
  up : Bool

/-- A step, as an observer sees it. -/
inductive ClientEvent where
  | switched (convo : Nat)
  | queued (convo : Nat) (msg : Bytes)
  | announced (round : UInt32)
  | requested (convo : Nat) (round : UInt32) (call : SealCall)
  | sent (convo : Nat) (request : ConvoRequest)
  | unknown (response : ConvoResponse)
  | found (convo : Nat) (response : ConvoResponse)
  | handled (convo : Nat) (response : ConvoResponse) (text : Option Bytes)
  | crashed (convo : Nat) (response : ConvoResponse) (p : Panic)
  deriving DecidableEq

/-- One step of the client. -/
inductive ClientStep (box : NaclBox) (hmac : Hmac) :
    ClientState → ClientEvent → ClientState → Prop where
  | switch {s : ClientState} (convo : Nat) :
      ClientStep box hmac s (.switched convo)
        { s with client := s.client.setConvoHandler convo }
  | queue {s : ClientState} {convo : Nat} {msg : Bytes} {c : Conversation}
      (h : (s.convos convo).queueTextMessage msg = some c) :
      ClientStep box hmac s (.queued convo msg)
        { s with convos := Function.update s.convos convo c }
  | announce {s : ClientState} {i : Nat} (h : s.pool i = .done) (round : UInt32) :
      ClientStep box hmac s (.announced round)
        { s with
          client := s.client.enterRound round
          pool := Function.update s.pool i (.announced round) }
  | request {s : ClientState} {i : Nat} {round : UInt32} (h : s.pool i = .announced round)
      {convo : Nat} (hconvo : s.client.convoHandler = convo) (coins : RequestCoins) (now : Time) :
      ClientStep box hmac s (.requested convo round ((s.convos convo).nextSeal now round))
        { s with
          convos := Function.update s.convos convo
            ((s.convos convo).nextConvoRequest box hmac coins now round).2
          pool := Function.update s.pool i
            (.requested convo ((s.convos convo).nextConvoRequest box hmac coins now round).1) }
  | send {s : ClientState} {i convo : Nat} {request : ConvoRequest}
      (h : s.pool i = .requested convo request) :
      ClientStep box hmac s (.sent convo request)
        { s with pool := Function.update s.pool i .done }
  | miss {s : ClientState} {response : ConvoResponse}
      (h : (s.client.leaveRound response.round).1 = none) :
      ClientStep box hmac s (.unknown response)
        { s with client := (s.client.leaveRound response.round).2 }
  | find {s : ClientState} {i : Nat} (h : s.pool i = .done) {response : ConvoResponse}
      {convo : Nat} (hfound : (s.client.leaveRound response.round).1 = some convo) :
      ClientStep box hmac s (.found convo response)
        { s with
          client := (s.client.leaveRound response.round).2
          pool := Function.update s.pool i (.delivering convo response) }
  | handle {s : ClientState} {i convo : Nat} {response : ConvoResponse}
      (h : s.pool i = .delivering convo response) (now : Time) {text : Option Bytes}
      {c : Conversation}
      (hres : (s.convos convo).handleConvoResponse box now response = .ok (text, c)) :
      ClientStep box hmac s (.handled convo response text)
        { s with
          convos := Function.update s.convos convo c
          pool := Function.update s.pool i .done }
  | crash {s : ClientState} {i convo : Nat} {response : ConvoResponse}
      (h : s.pool i = .delivering convo response) (now : Time) {p : Panic}
      (hres : (s.convos convo).handleConvoResponse box now response = .error p) :
      ClientStep box hmac s (.crashed convo response p) { s with up := false }

/-- Conversations before the first round. -/
def Conversation.Fresh (c : Conversation) : Prop :=
  c.outQueue = [] ∧ ∀ round, c.pendingRounds round = none

/-- The client, from its start. -/
def clientSystem (box : NaclBox) (hmac : Hmac) : System ClientState ClientEvent where
  init s := (∃ convo, s.client = UserClient.new convo) ∧ (∀ convo, (s.convos convo).Fresh) ∧
    (∀ i, s.pool i = .done) ∧ s.up = true
  step s ev s' := s.up = true ∧ ClientStep box hmac s ev s'

/-! ### What a call on a conversation changes -/

namespace Conversation

variable {box : NaclBox} {hmac : Hmac} {coins : RequestCoins} {now : Time} {round : UInt32}
  {c c' : Conversation}

/-- The keys of a conversation, and with them its role, do not change. -/
def SameKeys (c c' : Conversation) : Prop :=
  c'.myPublicKey = c.myPublicKey ∧ c'.peerPublicKey = c.peerPublicKey

theorem SameKeys.myRole (h : SameKeys c c') : c'.myRole = c.myRole := by
  rw [Conversation.myRole, Conversation.myRole, h.1, h.2]

theorem nextBody_frame (now : Time) (c : Conversation) :
    SameKeys c (c.nextBody now).2 ∧ (c.nextBody now).2.pendingRounds = c.pendingRounds := by
  rw [nextBody]
  split <;> exact ⟨⟨rfl, rfl⟩, rfl⟩

theorem sameKeys_nextConvoRequest :
    SameKeys c (c.nextConvoRequest box hmac coins now round).2 :=
  (nextBody_frame now c).1

/-- A request puts an entry for its round, and leaves the others. -/
theorem pendingRounds_nextConvoRequest :
    ((c.nextConvoRequest box hmac coins now round).2.pendingRounds round).isSome ∧
      ∀ r ≠ round, (c.nextConvoRequest box hmac coins now round).2.pendingRounds r =
        c.pendingRounds r := by
  refine ⟨?_, fun r hr => ?_⟩
  · simp [nextConvoRequest]
  · simp [nextConvoRequest, Function.update_of_ne hr, (nextBody_frame now c).2]

theorem sameKeys_queueTextMessage {msg : Bytes} (h : c.queueTextMessage msg = some c') :
    SameKeys c c' ∧ c'.pendingRounds = c.pendingRounds := by
  rw [queueTextMessage] at h
  split at h
  · cases h; exact ⟨⟨rfl, rfl⟩, rfl⟩
  · cases h

/-- A message that came changes neither the keys nor the pending rounds. -/
theorem receive_frame (c : Conversation) (msg : ConvoMessage) :
    SameKeys c (c.receive now msg).2 ∧ (c.receive now msg).2.pendingRounds = c.pendingRounds := by
  cases msg <;> exact ⟨⟨rfl, rfl⟩, rfl⟩

/-- The conversation without the entry of a round. -/
def taken (c : Conversation) (round : UInt32) : Conversation :=
  { c with pendingRounds := Function.update c.pendingRounds round none }

/-- What a response holds for the conversation, out of the layers of the servers. -/
def ciphertext (box : NaclBox) (c : Conversation) (r : ConvoResponse) : Option Bytes :=
  (c.pendingRounds r.round).bind fun pr =>
    Onionbox.open box (backwardNonce r.round) pr.onionSharedKeys r.onion

/-- What `HandleConvoResponse` hands to `Unmarshal`, if it comes so far: the message that was
sent does not, unless the peer is the client itself. -/
def plaintext (box : NaclBox) (c : Conversation) (r : ConvoResponse) : Option Bytes := do
  let pr ← c.pendingRounds r.round
  let encmsg ← Onionbox.open box (backwardNonce r.round) pr.onionSharedKeys r.onion
  if encmsg = pr.sentMessage.1 ∧ ¬ c.solo then none
  else c.open box encmsg r.round c.theirRole

/-- The entry is deleted first, so that every way out below has it deleted; the panic has none. -/
theorem handleConvoResponse_eq (now : Time) (r : ConvoResponse) (c : Conversation) :
    c.handleConvoResponse box now r =
      match c.plaintext box r with
      | none => .ok (none, { c.taken r.round with lastPeerResponding := false })
      | some msgdata =>
          match ConvoMessage.unmarshal msgdata with
          | .error p => .error p
          | .ok none => .ok (none, { c.taken r.round with lastPeerResponding := false })
          | .ok (some msg) => .ok ((c.taken r.round).receive now msg) := by
  rw [handleConvoResponse, plaintext]
  cases hpr : c.pendingRounds r.round with
  | none => rfl
  | some pr =>
      simp only [Option.bind_eq_bind, Option.bind_some]
      cases Onionbox.open box (backwardNonce r.round) pr.onionSharedKeys r.onion with
      | none => rfl
      | some encmsg =>
          by_cases hown : encmsg = pr.sentMessage.1 ∧ ¬ c.solo
          · simp only [Option.bind_some, if_pos hown]
            exact if_pos hown
          · simp only [Option.bind_some, if_neg hown]
            exact if_neg hown

/-- The message was taken out of the response and opened in the peer's role. -/
theorem ciphertext_of_plaintext {r : ConvoResponse} {msgdata : Bytes}
    (h : c.plaintext box r = some msgdata) :
    ∃ ctxt, c.ciphertext box r = some ctxt ∧
      c.open box ctxt r.round c.theirRole = some msgdata := by
  obtain ⟨pr, hpr, h⟩ := Option.bind_eq_some_iff.mp h
  obtain ⟨ctxt, hctxt, h⟩ := Option.bind_eq_some_iff.mp h
  refine ⟨ctxt, Option.bind_eq_some_iff.mpr ⟨pr, hpr, hctxt⟩, ?_⟩
  split at h
  · cases h
  · exact h

/-- How `HandleConvoResponse` returns: without a message of the peer, or with one that it took out
of the response and opened in the peer's role. -/
inductive Handled (box : NaclBox) (now : Time) (r : ConvoResponse) (c : Conversation) :
    Option Bytes → Conversation → Prop where
  | ignored : Handled box now r c none { c.taken r.round with lastPeerResponding := false }
  | received {ctxt msgdata : Bytes} {msg : ConvoMessage} (hctxt : c.ciphertext box r = some ctxt)
      (hopen : c.open box ctxt r.round c.theirRole = some msgdata)
      (hmsg : ConvoMessage.unmarshal msgdata = .ok (some msg)) :
      Handled box now r c ((c.taken r.round).receive now msg).1
        ((c.taken r.round).receive now msg).2

theorem handled_of_ok {r : ConvoResponse} {text : Option Bytes}
    (h : c.handleConvoResponse box now r = .ok (text, c')) : Handled box now r c text c' := by
  rw [handleConvoResponse_eq] at h
  split at h
  · cases h
    exact .ignored
  · rename_i msgdata hplain
    split at h
    · cases h
    · cases h
      exact .ignored
    · rename_i msg hmsg
      obtain ⟨rfl, rfl⟩ := Prod.mk.inj (Except.ok.inj h)
      obtain ⟨ctxt, hctxt, hopen⟩ := ciphertext_of_plaintext hplain
      exact .received hctxt hopen hmsg

/-- A response to a pending round that opens, and is not the message sent unless the peer is the
client itself. -/
theorem handleConvoResponse_of_open {r : ConvoResponse} {pr : PendingRound} {ctxt msgdata : Bytes}
    {msg : ConvoMessage} (hpr : c.pendingRounds r.round = some pr)
    (hctxt : Onionbox.open box (backwardNonce r.round) pr.onionSharedKeys r.onion = some ctxt)
    (hown : ¬ (ctxt = pr.sentMessage.1 ∧ ¬ c.solo))
    (hopen : c.open box ctxt r.round c.theirRole = some msgdata)
    (hmsg : ConvoMessage.unmarshal msgdata = .ok (some msg)) :
    c.handleConvoResponse box now r = .ok ((c.taken r.round).receive now msg) := by
  have hplain : c.plaintext box r = some msgdata := by
    simp only [plaintext, hpr, hctxt, Option.bind_eq_bind, Option.bind_some, if_neg hown, hopen]
  simp only [handleConvoResponse_eq, hplain, hmsg]

/-- A response that brings back the message sent. -/
theorem handleConvoResponse_of_own {r : ConvoResponse} {pr : PendingRound}
    (hpr : c.pendingRounds r.round = some pr)
    (hctxt : Onionbox.open box (backwardNonce r.round) pr.onionSharedKeys r.onion =
      some pr.sentMessage.1) (hsolo : ¬ c.solo) :
    c.handleConvoResponse box now r =
      .ok (none, { c.taken r.round with lastPeerResponding := false }) := by
  have hplain : c.plaintext box r = none := by simp [plaintext, hpr, hctxt, hsolo]
  simp only [handleConvoResponse_eq, hplain]

/-- A response takes the entry of its round, and leaves the others. -/
theorem handleConvoResponse_frame {r : ConvoResponse} {text : Option Bytes}
    (h : c.handleConvoResponse box now r = .ok (text, c')) :
    SameKeys c c' ∧ c'.pendingRounds = Function.update c.pendingRounds r.round none := by
  cases handled_of_ok h with
  | ignored => exact ⟨⟨rfl, rfl⟩, rfl⟩
  | @received _ _ msg => exact receive_frame (c.taken r.round) msg

end Conversation

end Vuvuzela
