import Vuvuzela.Source.Pki
import Vuvuzela.Source.Server
import Mathlib.Data.List.DropRight

/-!
# Source — a conversation

`conversation.go`: what a client sends to a peer in a round, and what it makes of the reply.  The
log, the flushing of the screen and the name under which a text is shown are left out; a text
shown is a result of `handleConvoResponse`.

The keyed hash is a parameter, as the boxes are: the program only hands it on.
-/

namespace Vuvuzela

/-! ### Variable-length integers -/

/-- `binary.PutUvarint`, in at most `k + 1` bytes. -/
def putUvarint : Nat → Nat → Bytes
  | 0, x => [UInt8.ofNat x]
  | k + 1, x =>
      if x < 128 then [UInt8.ofNat x] else UInt8.ofNat (x % 128 + 128) :: putUvarint k (x / 128)

/-- `binary.PutVarint` of an `int64`: the sign goes to the lowest bit. -/
def putVarint (x : Int) : Bytes := putUvarint 9 (if x < 0 then -2 * x - 1 else 2 * x).toNat

/-- The loop of `binary.Uvarint` from byte `i` on; `0` where the buffer ends or 64 bits are not
enough. -/
def uvarint : Nat → Nat → Bytes → Nat
  | _, _, [] => 0
  | i, x, b :: buf =>
      if b.toNat < 128 then
        if 9 < i ∨ i = 9 ∧ 1 < b.toNat then 0 else x + b.toNat * 2 ^ (7 * i)
      else uvarint (i + 1) (x + (b.toNat - 128) * 2 ^ (7 * i)) buf

/-- `binary.Varint`. -/
def varint (buf : Bytes) : Int :=
  let ux := uvarint 0 0 buf
  if ux % 2 = 1 then -((ux / 2 : Nat) : Int) - 1 else ((ux / 2 : Nat) : Int)

/-! ### Messages -/

/-- A time, in nanoseconds since the Unix epoch. -/
abbrev Time := Int

namespace Time

/-- The seconds from the year 1, from which a `time.Time` counts, to the Unix epoch. -/
def unixToInternal : Int := 62135596800

/-- `time.Unix(sec, nsec)`, for `nsec` within a second.  A `time.Time` has its seconds in an
`int64`, so that late times wrap to early ones. -/
def ofUnix (sec nsec : Int) : Time :=
  (wrapInt (sec + unixToInternal) - unixToInternal) * 10 ^ 9 + nsec

/-- `t.Unix()`. -/
def unix (t : Time) : Int := wrapInt (t / 10 ^ 9)

/-- `t.Sub(u)`: the nanoseconds from `u` to `t`, or the bound of a `Duration` on that side, where
they do not fit into one. -/
def sub (t u : Time) : Int := max (-2 ^ 63) (min (t - u) (2 ^ 63 - 1))

theorem ofUnix_of_isInt {sec : Int} (h : IsInt (sec + unixToInternal)) (nsec : Int) :
    ofUnix sec nsec = sec * 10 ^ 9 + nsec := by
  rw [ofUnix, wrapInt_of_isInt h, add_sub_cancel_right]

theorem sub_of_isInt {t u : Time} (h : IsInt (t - u)) : t.sub u = t - u := by
  obtain ⟨hlo, hhi⟩ := h
  rw [sub, min_eq_left (by omega), max_eq_right hlo]

-- the last second of an `int64` is long ago
example : sub 0 (ofUnix (2 ^ 63 - 1) 0) = 2 ^ 63 - 1 := by decide

end Time

/-- `ConvoMessage`, by its body: a `TimestampMessage`, of which only the seconds are sent, or a
`TextMessage`. -/
inductive ConvoMessage where
  | timestamp (unix : Int)
  | text (message : Bytes)
  deriving DecidableEq

def ConvoMessage.marshal : ConvoMessage → Block sizeMessage
  | .timestamp unix => Block.copy sizeMessage (0 :: putVarint unix)
  | .text message => Block.copy sizeMessage (1 :: message)

/-- `Unmarshal`: no message for a type it does not know, a panic for no bytes at all. -/
def ConvoMessage.unmarshal : Bytes → Except Panic (Option ConvoMessage)
  | [] => .error .index
  | 0 :: msg => .ok (some (.timestamp (varint msg)))
  | 1 :: msg => .ok (some (.text msg))
  | _ => .ok none

/-- `Unmarshal` on a `ConvoMessage` that may have a `Body`: the error, and the `Body` after it. -/
def ConvoMessage.unmarshalInto (body : Option ConvoMessage) :
    Bytes → Except Panic (Option String × Option ConvoMessage)
  | [] => .error .index
  | 0 :: msg => .ok (none, some (.timestamp (varint msg)))
  | 1 :: msg => .ok (none, some (.text msg))
  | t :: _ => .ok (some s!"unexpected message type: {t}", body)

/-- `unmarshal` is what a new `ConvoMessage` holds where there is no error. -/
theorem ConvoMessage.unmarshal_eq (body : Option ConvoMessage) (msg : Bytes) :
    unmarshal msg =
      (unmarshalInto body msg).map fun r => if r.1.isSome then none else r.2 := by
  fun_cases unmarshal msg
  · rfl
  · rfl
  · rfl
  · rename_i hnil hzero hone
    rw [unmarshalInto.eq_def]
    split
    · exact absurd rfl hnil
    · exact absurd rfl (hzero _)
    · exact absurd rfl (hone _)
    · rfl

/-! ### Conversations -/

structure PendingRound where
  onionSharedKeys : List BoxKey
  sentMessage : Block sizeEncryptedMessage
  deriving DecidableEq

structure Conversation where
  pki : PKI
  peerPublicKey : BoxKey
  myPublicKey : BoxKey
  myPrivateKey : BoxKey
  outQueue : List Bytes
  pendingRounds : UInt32 → Option PendingRound
  lastPeerResponding : Bool
  lastLatency : Int
  lastRound : UInt32

structure ConvoRequest where
  round : UInt32
  onion : Bytes
  deriving DecidableEq

structure ConvoResponse where
  round : UInt32
  onion : Bytes
  deriving DecidableEq

/-- HMAC with SHA-256: a key and a message. -/
abbrev Hmac := Bytes → Bytes → Block 32

/-- The random draws of a request: the keys of the onion's layers, and the dead drop of a
conversation with oneself. -/
structure RequestCoins where
  keys : Nat → BoxKey
  drop : Nat → UInt8

namespace Conversation

/-- `Init`, after the fields of the composite literal were set. -/
def init (pki : PKI) (peerPublicKey myPublicKey myPrivateKey : BoxKey) : Conversation where
  pki := pki
  peerPublicKey := peerPublicKey
  myPublicKey := myPublicKey
  myPrivateKey := myPrivateKey
  outQueue := []
  pendingRounds := fun _ => none
  lastPeerResponding := false
  lastLatency := 0
  lastRound := 0

/-- `QueueTextMessage`; no value while the queue is full and the caller waits. -/
def queueTextMessage (msg : Bytes) (c : Conversation) : Option Conversation :=
  if c.outQueue.length < 64 then some { c with outQueue := c.outQueue ++ [msg] } else none

def solo (c : Conversation) : Bool := compareBytes c.myPublicKey.1 c.peerPublicKey.1 = 0

def myRole (c : Conversation) : UInt8 :=
  if compareBytes c.myPublicKey.1 c.peerPublicKey.1 < 0 then 0 else 1

def theirRole (c : Conversation) : UInt8 :=
  if compareBytes c.peerPublicKey.1 c.myPublicKey.1 < 0 then 0 else 1

end Conversation

/-- The nonce of a message between peers: the round, and in the last byte who sent it. -/
def convoNonce (round : UInt32) (role : UInt8) : Nonce :=
  ⟨putUint32 round ++ (List.replicate 19 0 ++ [role]), by simp⟩

/-- The arguments of a call of `box.Seal`. -/
structure SealCall where
  message : Bytes
  nonce : Nonce
  peersPublicKey : BoxKey
  privateKey : BoxKey
  deriving DecidableEq

/-- The call. -/
def SealCall.run (box : NaclBox) (s : SealCall) : Bytes :=
  box.seal s.message s.nonce s.peersPublicKey s.privateKey

/-- The call of `box.Seal` that `Seal` makes. -/
def Conversation.sealCall (c : Conversation) (message : Bytes) (round : UInt32) (role : UInt8) :
    SealCall :=
  ⟨message, convoNonce round role, c.peerPublicKey, c.myPrivateKey⟩

def Conversation.seal (box : NaclBox) (c : Conversation) (message : Bytes) (round : UInt32)
    (role : UInt8) : Bytes :=
  (c.sealCall message round role).run box

def Conversation.open (box : NaclBox) (c : Conversation) (ctxt : Bytes) (round : UInt32)
    (role : UInt8) : Option Bytes :=
  box.open ctxt (convoNonce round role) c.peerPublicKey c.myPrivateKey

namespace Conversation

def deadDrop (box : NaclBox) (hmac : Hmac) (drop : Nat → UInt8) (c : Conversation)
    (round : UInt32) : DeadDrop :=
  if c.solo then Block.copy 16 (randRead drop 16)
  else Block.copy 16
    (hmac (box.precompute c.peerPublicKey c.myPrivateKey).1 (putUint32 round)).1

/-- The `select` of `NextConvoRequest`: the text that waits longest, or the time. -/
def nextBody (now : Time) (c : Conversation) : ConvoMessage × Conversation :=
  match c.outQueue with
  | m :: outQueue => (.text m, { c with outQueue := outQueue })
  | [] => (.timestamp now.unix, c)

/-- The call of `box.Seal` that `NextConvoRequest` makes, through `Seal`. -/
def nextSeal (now : Time) (round : UInt32) (c : Conversation) : SealCall :=
  c.sealCall (c.nextBody now).1.marshal.1 round c.myRole

def nextConvoRequest (box : NaclBox) (hmac : Hmac) (coins : RequestCoins) (now : Time)
    (round : UInt32) (c : Conversation) : ConvoRequest × Conversation :=
  let msgdata := (c.nextBody now).1.marshal
  let encmsg := Block.copy sizeEncryptedMessage (c.seal box msgdata.1 round c.myRole)
  let exchange : ConvoExchange := ⟨c.deadDrop box hmac coins.drop round, encmsg⟩
  let sealed :=
    Onionbox.seal box exchange.marshal (forwardNonce round) c.pki.serverKeys coins.keys
  let c := (c.nextBody now).2
  (⟨round, sealed.1⟩,
    { c with
      lastRound := round
      pendingRounds := Function.update c.pendingRounds round (some ⟨sealed.2, encmsg⟩) })

/-- What `HandleConvoResponse` makes of the message of a reply: the text to show, if any, and the
conversation. -/
def receive (now : Time) (c : Conversation) : ConvoMessage → Option Bytes × Conversation
  | .text message => (some (message.rdropWhile (· = 0)), { c with lastPeerResponding := true })
  | .timestamp unix =>
      (none, { c with
        lastLatency := now.sub (.ofUnix unix 0)
        lastPeerResponding := true })

def handleConvoResponse (box : NaclBox) (now : Time) (r : ConvoResponse) (c : Conversation) :
    Except Panic (Option Bytes × Conversation) :=
  let pr := c.pendingRounds r.round
  let c := { c with pendingRounds := Function.update c.pendingRounds r.round none }
  let ignored : Option Bytes × Conversation := (none, { c with lastPeerResponding := false })
  match pr with
  | none => .ok ignored
  | some pr =>
      match Onionbox.open box (backwardNonce r.round) pr.onionSharedKeys r.onion with
      | none => .ok ignored
      | some encmsg =>
          if encmsg = pr.sentMessage.1 ∧ ¬ c.solo then .ok ignored
          else
            match c.open box encmsg r.round c.theirRole with
            | none => .ok ignored
            | some msgdata =>
                match ConvoMessage.unmarshal msgdata with
                | .error p => .error p
                | .ok none => .ok ignored
                | .ok (some msg) => .ok (c.receive now msg)

end Conversation

end Vuvuzela
