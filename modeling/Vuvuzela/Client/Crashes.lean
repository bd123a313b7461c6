import Vuvuzela.Source.Responses
import Vuvuzela.Client.Authentic
import Vuvuzela.Entry.Envelopes

/-!
# Client — messages that end the client

The client handles what the entry server sends without a check of its own.  Two of its messages
can end the client: an announcement of a round of dialing with no buckets, while a dial request
waits, and a response with an empty message that was sealed for the conversation.
`handleEnvelope_returns_iff` says that there are no others, for any state of the client and any
envelope; `handleEnvelope_panics` has one of each.
-/

namespace Vuvuzela

variable {box : NaclBox} {hmac : Hmac} {input : HandlerInput}

/-! ### The two panics -/

theorem ConvoMessage.unmarshal_eq_error_iff {msg : Bytes} {p : Panic} :
    unmarshal msg = .error p ↔ msg = [] ∧ p = .index := by
  constructor
  · intro h
    rw [unmarshal.eq_def] at h
    split at h
    · cases h
      exact ⟨rfl, rfl⟩
    · cases h
    · cases h
    · cases h
  · rintro ⟨rfl, rfl⟩
    rfl

/-- A conversation handles every response but one with an empty message. -/
theorem Conversation.handleConvoResponse_eq_error_iff {now : Time} {r : ConvoResponse}
    {c : Conversation} {p : Panic} :
    c.handleConvoResponse box now r = .error p ↔ c.plaintext box r = some [] ∧ p = .index := by
  rw [handleConvoResponse_eq]
  cases c.plaintext box r with
  | none => simp
  | some msgdata =>
      simp only [Option.some_inj, ← ConvoMessage.unmarshal_eq_error_iff]
      cases ConvoMessage.unmarshal msgdata with
      | error q => simp only [Except.error.injEq]
      | ok body =>
          cases body with
          | none => exact iff_of_false nofun nofun
          | some msg => exact iff_of_false nofun nofun

/-- A dialer makes every request but one for no buckets with a key that waits. -/
theorem Dialer.nextDialRequest_eq_none_iff (coins : DialRequestCoins) {round buckets : UInt32}
    {d : Dialer} :
    d.nextDialRequest box coins round buckets = none ↔
      buckets = 0 ∧ d.userDialRequests ≠ [] := by
  rw [nextDialRequest, nextExchange]
  cases d.userDialRequests with
  | nil => simp
  | cons pk userDialRequests =>
      by_cases h : buckets = 0
      · simp [keyDialBucket, h]
      · simp [keyDialBucket, h]

/-! ### One message -/

namespace ClientApp

variable {app : ClientApp}

theorem deliverConvoResponse_eq_error_iff {r : ConvoResponse} {p : Panic} :
    app.deliverConvoResponse box input r = .error p ↔
      (∃ convo, app.client.roundHandlers r.round = some convo ∧
        (app.convos convo).plaintext box r = some []) ∧ p = .index := by
  rw [deliverConvoResponse, UserClient.leaveRound]
  cases app.client.roundHandlers r.round with
  | none => simp
  | some convo =>
      have h : (app.convos convo).handleConvoResponse box input.now r = .error p ↔ _ :=
        Conversation.handleConvoResponse_eq_error_iff
      simp only [Option.some_inj, exists_eq_left', ← h]
      cases (app.convos convo).handleConvoResponse box input.now r with
      | error q => simp [bind, Except.bind]
      | ok res => exact iff_of_false nofun nofun

theorem handleResponse_announceDialRound_eq_error_iff {a : AnnounceDialRound} {p : Panic} :
    app.handleResponse box hmac input (.announceDialRound a) = .error p ↔
      (a.buckets = 0 ∧ app.dialer.userDialRequests ≠ []) ∧ p = .divide := by
  rw [handleResponse, ← Dialer.nextDialRequest_eq_none_iff input.dial]
  cases app.dialer.nextDialRequest box input.dial a.round a.buckets with
  | none => simp [eq_comm]
  | some next => simp

/-- **The messages a client survives.**  Whatever its state, and whatever the envelope, handling
it ends in no panic exactly when it is no announcement of a round of dialing without buckets while
a dial request waits, and no response in which an empty message is sealed for the conversation. -/
theorem handleEnvelope_returns_iff (box : NaclBox) (hmac : Hmac) (input : HandlerInput)
    (json : Json) (e : Envelope) (app : ClientApp) :
    (∀ p, app.handleEnvelope box hmac input json e ≠ .error p) ↔
      (∀ a, e.open json = .ok (.announceDialRound a) →
        a.buckets ≠ 0 ∨ app.dialer.userDialRequests = []) ∧
      ∀ r convo, e.open json = .ok (.convoResponse r) →
        app.client.roundHandlers r.round = some convo →
        (app.convos convo).plaintext box r ≠ some [] := by
  rw [handleEnvelope]
  cases e.open json with
  | error err => simp
  | ok v =>
      cases v with
      | announceDialRound a =>
          constructor
          · intro h
            refine ⟨fun a' ha => ?_, fun r convo hr => nomatch hr⟩
            cases ha
            by_contra hno
            obtain ⟨hzero, hwaits⟩ := not_or.mp hno
            exact h .divide (handleResponse_announceDialRound_eq_error_iff.mpr
              ⟨⟨not_not.mp hzero, hwaits⟩, rfl⟩)
          · rintro ⟨hdial, -⟩ p hp
            obtain ⟨⟨hzero, hwaits⟩, -⟩ := handleResponse_announceDialRound_eq_error_iff.mp hp
            exact (hdial a rfl).elim (absurd hzero) fun hnone => hwaits hnone
      | convoResponse r =>
          constructor
          · intro h
            refine ⟨fun a ha => (nomatch ha), fun r' convo hr hfound hempty => ?_⟩
            cases hr
            have hp : app.deliverConvoResponse box input r = .error .index :=
              deliverConvoResponse_eq_error_iff.mpr ⟨⟨convo, hfound, hempty⟩, rfl⟩
            exact h .index hp
          · rintro ⟨-, hresponse⟩ p hp
            obtain ⟨⟨convo, hfound, hempty⟩, -⟩ := deliverConvoResponse_eq_error_iff.mp hp
            exact hresponse r convo rfl hfound hempty
      | _ => simp [handleResponse]

end ClientApp

/-! ### One of each -/

/-- What the peer of a sample conversation seals in round 5 to send nothing at all. -/
def sampleEmpty : Bytes := tagBox.seal [] (convoNonce 5 1) (sampleKey 1) (sampleKey 2)

/-- A client that waits for the response to its request of round 5, and is about to dial. -/
def sampleApp : ClientApp where
  client := (sampleClient 1 2).client.enterRound 5
  convos := Function.update (sampleClient 1 2).convos 2 sampleWaiting
  dialer := ⟨samplePki, sampleKey 1, sampleKey 1, [sampleKey 2]⟩

theorem sampleApp_empty : (sampleApp.convos 2).plaintext tagBox (sampleReply sampleEmpty) =
    some [] := by
  decide +kernel

theorem sampleJson_convoResponse (r : ConvoResponse) :
    Envelope.open sampleJson ⟨msgConvoResponse, putUint32 r.round ++ r.onion⟩ =
      .ok (.convoResponse r) := by
  have hun : sampleJson.convoResponse.unmarshal (putUint32 r.round ++ r.onion) = .ok r :=
    sampleJson_roundTrips.convoResponse r
  change openAs _ _ _ = _
  rw [openAs, hun]
  rfl

/-- The entry server announces a round of dialing without buckets; the last server answers with an
empty message of the peer.  Whatever the handlers draw, each ends the client. -/
theorem handleEnvelope_panics :
    tagBox.Ideal ∧ sampleJson.RoundTrips ∧ ∀ input,
      (∃ e, e.open sampleJson = .ok (.announceDialRound ⟨7, 0⟩) ∧
        sampleApp.handleEnvelope tagBox sampleHmac input sampleJson e = .error .divide) ∧
      ∃ e, e.open sampleJson = .ok (.convoResponse (sampleReply sampleEmpty)) ∧
        sampleApp.handleEnvelope tagBox sampleHmac input sampleJson e = .error .index := by
  refine ⟨tagBox_ideal, sampleJson_roundTrips, fun input => ⟨?_, ?_⟩⟩
  · exact ⟨⟨msgAnnounceDialRound, putUint32 7 ++ putUint32 0⟩, rfl, rfl⟩
  · have hopen := sampleJson_convoResponse (sampleReply sampleEmpty)
    have hpanic : sampleApp.deliverConvoResponse tagBox input (sampleReply sampleEmpty) =
        .error .index :=
      ClientApp.deliverConvoResponse_eq_error_iff.mpr ⟨⟨2, rfl, sampleApp_empty⟩, rfl⟩
    refine ⟨_, hopen, ?_⟩
    rw [ClientApp.handleEnvelope, hopen]
    exact hpanic

end Vuvuzela
