import Vuvuzela.Source.Conversation
import Vuvuzela.Source.Dialer
import Vuvuzela.Source.Entry

/-!
# Source — messages between the clients and the entry server

`entry_api.go`.  Every message travels in an `Envelope`, as a tag and JSON: `Envelop` chooses the
tag by the type of the value, `Open` the type by the tag, each with a `switch` of its own.

`encoding/json` is a parameter, one codec for each type of message.
-/

namespace Vuvuzela

/-! ### Tags -/

/-- `MsgType`. -/
abbrev MsgType := UInt8

@[match_pattern] def msgConvoRequest : MsgType := 0
@[match_pattern] def msgDialRequest : MsgType := 1
@[match_pattern] def msgBadRequestError : MsgType := 2
@[match_pattern] def msgConvoError : MsgType := 3
@[match_pattern] def msgConvoResponse : MsgType := 4
@[match_pattern] def msgDialError : MsgType := 5
@[match_pattern] def msgDialBucket : MsgType := 6
@[match_pattern] def msgAnnounceConvoRound : MsgType := 7
@[match_pattern] def msgAnnounceDialRound : MsgType := 8

structure Envelope where
  type : MsgType
  message : Bytes
  deriving DecidableEq

/-! ### Messages -/

structure BadRequestError where
  err : String

structure ConvoError where
  round : UInt32
  err : String

structure DialError where
  round : UInt32
  err : String

structure AnnounceConvoRound where
  round : UInt32

structure AnnounceDialRound where
  round : UInt32
  buckets : UInt32

/-- What may be handed to `Envelop`: a pointer to one of the nine messages, or a value of another
type, of which only the name `%T` prints matters. -/
inductive Message where
  | convoRequest (v : ConvoRequest)
  | dialRequest (v : DialRequest)
  | badRequestError (v : BadRequestError)
  | convoError (v : ConvoError)
  | convoResponse (v : ConvoResponse)
  | dialError (v : DialError)
  | dialBucket (v : DialBucket)
  | announceConvoRound (v : AnnounceConvoRound)
  | announceDialRound (v : AnnounceDialRound)
  | other (typeName : String)

/-- The message is a `*DialError`. -/
def Message.isDialError : Message → Bool
  | .dialError _ => true
  | _ => false

/-- An answer of the entry server, as the value it hands to `Send`. -/
def ClientMsg.message : ClientMsg → Message
  | .convoError round err => .convoError ⟨round, err⟩
  | .convoResponse round onion => .convoResponse ⟨round, onion⟩
  | .dialError round err => .dialError ⟨round, err⟩
  | .dialBucket round intros => .dialBucket ⟨round, intros⟩

/-! ### Encoding -/

/-- `json.Marshal` and `json.Unmarshal` at one type. -/
structure JsonCodec (α : Type) where
  marshal : α → Except String Bytes
  unmarshal : Bytes → Except String α

/-- Unmarshalling what was marshalled gives it back. -/
def JsonCodec.RoundTrips {α : Type} (codec : JsonCodec α) : Prop :=
  ∀ v, (codec.marshal v >>= codec.unmarshal) = .ok v

/-- `encoding/json`, at the types of the messages. -/
structure Json where
  convoRequest : JsonCodec ConvoRequest
  dialRequest : JsonCodec DialRequest
  badRequestError : JsonCodec BadRequestError
  convoError : JsonCodec ConvoError
  convoResponse : JsonCodec ConvoResponse
  dialError : JsonCodec DialError
  dialBucket : JsonCodec DialBucket
  announceConvoRound : JsonCodec AnnounceConvoRound
  announceDialRound : JsonCodec AnnounceDialRound

structure Json.RoundTrips (json : Json) : Prop where
  convoRequest : json.convoRequest.RoundTrips
  dialRequest : json.dialRequest.RoundTrips
  badRequestError : json.badRequestError.RoundTrips
  convoError : json.convoError.RoundTrips
  convoResponse : json.convoResponse.RoundTrips
  dialError : json.dialError.RoundTrips
  dialBucket : json.dialBucket.RoundTrips
  announceConvoRound : json.announceConvoRound.RoundTrips
  announceDialRound : json.announceDialRound.RoundTrips

/-- An error with the name of the call that failed before it. -/
def failing {α : Type} (call : String) : Except String α → Except String α :=
  Except.mapError fun err => s!"{call}: {err}"

section Codec

variable {α : Type} (codec : JsonCodec α)

/-- The end of `Open`, for a message of one type. -/
def openAs (mk : α → Message) (data : Bytes) : Except String Message := do
  let v ← failing "json.Unmarshal" (codec.unmarshal data)
  return mk v

/-- The end of `Envelop`, for a message of one type. -/
def envelopAs (t : MsgType) (v : α) : Except String Envelope := do
  let data ← failing "json.Marshal" (codec.marshal v)
  return ⟨t, data⟩

end Codec

def Envelope.open (json : Json) (e : Envelope) : Except String Message :=
  match e.type with
  | msgConvoRequest => openAs json.convoRequest .convoRequest e.message
  | msgDialRequest => openAs json.dialRequest .dialRequest e.message
  | msgBadRequestError => openAs json.badRequestError .badRequestError e.message
  | msgConvoError => openAs json.convoError .convoError e.message
  | msgConvoResponse => openAs json.convoResponse .convoResponse e.message
  -- there is no case for `MsgDialError`
  | msgDialBucket => openAs json.dialBucket .dialBucket e.message
  | msgAnnounceConvoRound => openAs json.announceConvoRound .announceConvoRound e.message
  | msgAnnounceDialRound => openAs json.announceDialRound .announceDialRound e.message
  | t => .error s!"unknown message type: {t}"

def envelop (json : Json) : Message → Except String Envelope
  | .convoRequest v => envelopAs json.convoRequest msgConvoRequest v
  | .dialRequest v => envelopAs json.dialRequest msgDialRequest v
  | .badRequestError v => envelopAs json.badRequestError msgBadRequestError v
  | .convoError v => envelopAs json.convoError msgConvoError v
  | .convoResponse v => envelopAs json.convoResponse msgConvoResponse v
  | .dialError v => envelopAs json.dialError msgDialError v
  | .dialBucket v => envelopAs json.dialBucket msgDialBucket v
  | .announceConvoRound v => envelopAs json.announceConvoRound msgAnnounceConvoRound v
  | .announceDialRound v => envelopAs json.announceDialRound msgAnnounceDialRound v
  | .other typeName => .error s!"unsupported message type: {typeName}"

end Vuvuzela
