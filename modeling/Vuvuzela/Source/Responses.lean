import Vuvuzela.Source.Client
import Vuvuzela.Source.Api

/-!
# Source — what a client does with a message

`readLoop` and `handleResponse` of `client.go`, for one message of the entry server, with all that
the handlers of the client hold.  A panic in the goroutine of a message ends the client.

The arrays of the source have their length in their type here, so a slice such as `b[0:32]` of an
introduction is always in range; what is left to panic is `msg[0]` and the division of
`KeyDialBucket`.
-/

namespace Vuvuzela

/-- A `Client` and its handlers. -/
structure ClientApp where
  client : UserClient
  convos : Nat → Conversation
  dialer : Dialer

/-- What a handler draws at random, reads off the clock, or meets in the order of a map. -/
structure HandlerInput where
  convo : RequestCoins
  dial : DialRequestCoins
  now : Time
  people : Nat → List (String × BoxKey)

/-- What comes of a message: the request that is sent, the text and the lines that are shown. -/
structure Handling where
  sent : Option Message
  text : Option Bytes
  warnings : List IntroWarning

/-- Nothing is sent or shown. -/
def Handling.none : Handling := ⟨.none, .none, []⟩

namespace ClientApp

variable (box : NaclBox) (hmac : Hmac) (input : HandlerInput)

def nextConvoRequest (round : UInt32) (app : ClientApp) : ConvoRequest × ClientApp :=
  let client := app.client.enterRound round
  let convo := client.convoHandler
  let next := (app.convos convo).nextConvoRequest box hmac input.convo input.now round
  (next.1, { app with client := client, convos := Function.update app.convos convo next.2 })

def deliverConvoResponse (r : ConvoResponse) (app : ClientApp) :
    Except Panic (Handling × ClientApp) :=
  let left := app.client.leaveRound r.round
  let app := { app with client := left.2 }
  match left.1 with
  | none => .ok (.none, app)
  | some convo => do
      let (text, c) ← (app.convos convo).handleConvoResponse box input.now r
      return ({ Handling.none with text := text },
        { app with convos := Function.update app.convos convo c })

/-- `handleResponse`.  There is no case for the two errors of a round. -/
def handleResponse (v : Message) (app : ClientApp) : Except Panic (Handling × ClientApp) :=
  match v with
  | .announceConvoRound v =>
      let next := app.nextConvoRequest box hmac input v.round
      .ok ({ Handling.none with sent := some (.convoRequest next.1) }, next.2)
  | .announceDialRound v =>
      match app.dialer.nextDialRequest box input.dial v.round v.buckets with
      | none => .error .divide
      | some (request, dialer) =>
          .ok ({ Handling.none with sent := some (.dialRequest request) },
            { app with dialer := dialer })
  | .convoResponse v => app.deliverConvoResponse box input v
  | .dialBucket v =>
      .ok ({ Handling.none with warnings := app.dialer.handleDialBucket box input.people v }, app)
  -- a `BadRequestError` is only logged
  | _ => .ok (.none, app)

/-- One turn of `readLoop`, with the goroutine it starts. -/
def handleEnvelope (json : Json) (e : Envelope) (app : ClientApp) :
    Except Panic (Handling × ClientApp) :=
  match e.open json with
  | .error _ => .ok (.none, app)
  | .ok v => app.handleResponse box hmac input v

end ClientApp

/-- Whether the tables of the rounds are read or written for a message. -/
def Message.isConvo : Message → Bool
  | .announceConvoRound _ => true
  | .convoResponse _ => true
  | _ => false

/-- The other messages leave the client and the conversations as they are. -/
theorem ClientApp.handleResponse_of_not_isConvo {box : NaclBox} {hmac : Hmac} {input : HandlerInput}
    {v : Message} {app app' : ClientApp} {out : Handling} (hv : v.isConvo = false)
    (h : app.handleResponse box hmac input v = .ok (out, app')) :
    app'.client = app.client ∧ app'.convos = app.convos := by
  cases v with
  | announceConvoRound v => cases hv
  | convoResponse v => cases hv
  | announceDialRound v =>
      rw [handleResponse] at h
      split at h
      · cases h
      · cases h
        exact ⟨rfl, rfl⟩
  | _ =>
      cases h
      exact ⟨rfl, rfl⟩

end Vuvuzela
