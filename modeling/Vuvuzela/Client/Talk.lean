import Vuvuzela.Client.Peers
import Vuvuzela.Convo.Meeting
import Vuvuzela.Support.System

/-!
# Client — two peers and the chain between them

Two clients talk to each other over many rounds.  In a round they ask in, their onions go through
the chain with whatever else is in the batch; the responses are on their way for as long as they
like, and are handled in any order while later rounds go on.  A round may find only one of the two,
or be lost.

In a round that is met or found alone, the onions of the two are kept by all servers, and no other
request of the batch and no noise of a server is at their dead drop (`honly`, `hundrawn`); a third
request there is not looked at.  And a round number is not used again by an end while an answer of
that round is under way to it (`hfree`).

What is typed at one end is sent in the order in which it was typed (`typed_eq`), and each response
shows, once, what the other end sent in its round, or nothing where the other end was not there
(`TalkInv.told`).
-/

namespace Vuvuzela
open Support

variable {box : NaclBox} {hmac : Hmac} {c c' peer peer' : Conversation} {round : UInt32}

/-! ### Messages and requests -/

/-- The text of a message. -/
def ConvoMessage.text? : ConvoMessage → Option Bytes
  | .text message => some message
  | .timestamp _ => none

/-- What a client shows of a message: its text, cut to the size of a message and without the zeroes
at its end. -/
def ConvoMessage.shown (body : ConvoMessage) : Option Bytes :=
  body.text?.map fun message => (message.take (sizeMessage - 1)).rdropWhile (· = 0)

/-- A message that was sealed can be read, and shows what it should. -/
theorem ConvoMessage.unmarshal_shown (body : ConvoMessage) :
    ∃ msg, ConvoMessage.unmarshal body.marshal.1 = .ok (some msg) ∧
      ∀ (now : Time) (c : Conversation), (c.receive now msg).1 = body.shown ∧
        (c.receive now msg).2.lastPeerResponding = true := by
  cases body with
  | text text =>
      refine ⟨_, unmarshal_text text, fun now c => ⟨?_, rfl⟩⟩
      rw [Conversation.receive, rdropWhile_copy]
      rfl
  | timestamp unix =>
      refine ⟨.timestamp (varint (Block.copy 239 (putVarint unix)).1), ?_, fun _ _ => ⟨rfl, rfl⟩⟩
      rw [ConvoMessage.unmarshal_eq none, unmarshalInto_timestamp]
      rfl

namespace Conversation

/-- The exchange that a request carries. -/
def exchange (box : NaclBox) (hmac : Hmac) (coins : RequestCoins) (now : Time) (round : UInt32)
    (c : Conversation) : ConvoExchange :=
  ⟨c.deadDrop box hmac coins.drop round, c.encryptedMessage box (c.nextBody now).1 round⟩

theorem onion_nextConvoRequest (coins : RequestCoins) (now : Time) :
    (c.nextConvoRequest box hmac coins now round).1.onion =
      (Onionbox.seal box (c.exchange box hmac coins now round).marshal (forwardNonce round)
        c.pki.serverKeys coins.keys).1 := rfl

theorem pending_nextConvoRequest (coins : RequestCoins) (now : Time) :
    (c.nextConvoRequest box hmac coins now round).2.pendingRounds round =
      some ⟨(Onionbox.seal box (c.exchange box hmac coins now round).marshal (forwardNonce round)
        c.pki.serverKeys coins.keys).2, c.encryptedMessage box (c.nextBody now).1 round⟩ :=
  Function.update_self ..

theorem identity_nextConvoRequest (coins : RequestCoins) (now : Time) :
    (c.nextConvoRequest box hmac coins now round).2.identity = c.identity := by
  simp only [nextConvoRequest, nextBody]
  split <;> rfl

theorem identity_queueTextMessage {msg : Bytes} (h : c.queueTextMessage msg = some c') :
    c'.identity = c.identity := by
  rw [queueTextMessage, Option.ite_none_right_eq_some] at h
  obtain ⟨-, h⟩ := h
  cases h
  rfl

/-- What is asked with is taken from the front of the queue. -/
theorem outQueue_nextConvoRequest (coins : RequestCoins) (now : Time) :
    (c.nextBody now).1.text?.toList ++
      (c.nextConvoRequest box hmac coins now round).2.outQueue = c.outQueue := by
  simp only [nextConvoRequest, nextBody]
  cases hqueue : c.outQueue with
  | nil => exact hqueue
  | cons => rfl

theorem outQueue_queueTextMessage {msg : Bytes} (h : c.queueTextMessage msg = some c') :
    c'.outQueue = c.outQueue ++ [msg] := by
  rw [queueTextMessage, Option.ite_none_right_eq_some] at h
  obtain ⟨-, h⟩ := h
  cases h
  rfl

theorem Handled.outQueue {now : Time} {r : ConvoResponse} {text : Option Bytes}
    (h : Handled box now r c text c') : c'.outQueue = c.outQueue := by
  cases h with
  | ignored => rfl
  | @received _ _ msg => cases msg <;> rfl

end Conversation

theorem Peers.of_identity (h : Peers box c peer) (hc : c'.identity = c.identity)
    (hpeer : peer'.identity = peer.identity) : Peers box c' peer' := by
  simp only [Conversation.identity, Prod.mk.injEq] at hc hpeer
  obtain ⟨hc₁, hc₂, hc₃⟩ := hc
  obtain ⟨hp₁, hp₂, hp₃⟩ := hpeer
  obtain ⟨h₁, h₂, h₃, h₄⟩ := h
  constructor
  · rw [hc₁, hc₃, h₁]
  · rw [hp₁, hp₃, h₂]
  · rw [hc₂, hp₁, h₃]
  · rw [hp₂, hc₁, h₄]

/-! ### Responses under way -/

/-- A response under way, and the message of the peer it brings; none where it brings the own
message back. -/
structure Flight where
  reply : Bytes
  body : Option ConvoMessage

/-- What shows of it. -/
def Flight.shown (f : Flight) : Option Bytes := f.body.bind ConvoMessage.shown

/-- `c` waits for the response of a round, and it is what it should be. -/
def Underway (box : NaclBox) (c peer : Conversation) (round : UInt32) (f : Flight) : Prop :=
  ∃ (pr : PendingRound) (own : ConvoMessage), c.pendingRounds round = some pr ∧
    pr.sentMessage = c.encryptedMessage box own round ∧
    c.ciphertext box ⟨round, f.reply⟩ = some
      (f.body.elim pr.sentMessage fun body => peer.encryptedMessage box body round).1

namespace Underway

/-- It stays so as long as the keys and the entry of the round do. -/
theorem keep {f : Flight} (h : Underway box c peer round f) (hc : c'.identity = c.identity)
    (hpeer : peer'.identity = peer.identity)
    (hpending : c'.pendingRounds round = c.pendingRounds round) :
    Underway box c' peer' round f := by
  obtain ⟨pr, own, hpr, hsent, hcarries⟩ := h
  refine ⟨pr, own, hpending.trans hpr, ?_, ?_⟩
  · rw [hsent, Conversation.encryptedMessage_of_identity hc]
  · simp only [Conversation.encryptedMessage_of_identity hpeer]
    rw [Conversation.ciphertext, hpending]
    exact hcarries

/-- The response of a request that was just made. -/
theorem of_asked {coins : RequestCoins} {now : Time} {reply : Bytes} {body : Option ConvoMessage}
    (hopen : Onionbox.open box (backwardNonce round)
      (Onionbox.seal box (c.exchange box hmac coins now round).marshal (forwardNonce round)
        c.pki.serverKeys coins.keys).2 reply = some
      (body.elim (c.encryptedMessage box (c.nextBody now).1 round)
        fun body => peer.encryptedMessage box body round).1)
    (hpeer : peer'.identity = peer.identity) :
    Underway box (c.nextConvoRequest box hmac coins now round).2 peer' round ⟨reply, body⟩ := by
  refine ⟨_, (c.nextBody now).1, Conversation.pending_nextConvoRequest coins now, ?_, ?_⟩
  · exact (Conversation.encryptedMessage_of_identity
      (Conversation.identity_nextConvoRequest coins now) _).symm
  · simp only [Conversation.encryptedMessage_of_identity hpeer]
    rw [Conversation.ciphertext, Conversation.pending_nextConvoRequest]
    exact hopen

/-- **It is handled without a panic**, shows the peer's text if there is one, and the peer counts
as responding when it was there. -/
theorem handle (hbox : box.Ideal) (hroles : box.TellsRoles) (hpeers : Peers box peer c)
    (hne : peer.myPublicKey ≠ c.myPublicKey) {f : Flight} (h : Underway box c peer round f)
    (now : Time) :
    ∃ c', c.handleConvoResponse box now ⟨round, f.reply⟩ = .ok (f.shown, c') ∧
      c'.lastPeerResponding = f.body.isSome := by
  obtain ⟨reply, body⟩ := f
  obtain ⟨pr, own, hpr, hsent, hcarries⟩ := h
  have hsolo : ¬ c.solo := fun hs => hne (hpeers.solo_iff.mp hs)
  cases body with
  | none =>
      obtain ⟨pr', hpr', hctxt⟩ := Conversation.pending_of_ciphertext hcarries
      cases hpr.symm.trans hpr'
      exact ⟨_, Conversation.handleConvoResponse_of_own hpr hctxt hsolo, rfl⟩
  | some body =>
      obtain ⟨msg, hmsg, hshown⟩ := body.unmarshal_shown
      have hown : ¬ ((peer.encryptedMessage box body round).1 = pr.sentMessage.1 ∧ ¬ c.solo) := by
        rw [hsent]
        exact fun hown => hpeers.encryptedMessage_ne hbox hroles hne round body own hown.1
      have hhandle := hpeers.handle hbox hmsg (r := ⟨round, reply⟩) hpr hcarries hown now
      obtain ⟨htext, hresponding⟩ := hshown now (c.taken round)
      refine ⟨_, hhandle.trans (congrArg Except.ok (Prod.ext htext rfl)), hresponding⟩

end Underway

/-! ### The two and the chain -/

/-- The two ends. -/
inductive Side where
  | left
  | right
  deriving DecidableEq

def Side.other : Side → Side
  | .left => .right
  | .right => .left

/-- One thing for each end. -/
def Side.pick {α : Type} (left right : α) : Side → α
  | .left => left
  | .right => right

theorem Side.eq_or_other (side side' : Side) : side' = side ∨ side' = side.other := by
  cases side <;> cases side' <;> simp [Side.other]

/-- The conversations of the two, and the responses under way, by round and receiver. -/
structure Talk where
  convo : Side → Conversation
  flights : UInt32 → Side → Option Flight

/-- What happens: a text is typed; the two ask in one round, or one of them does, alone at the dead
drop or in a round that is lost; a response is handled and a text may show. -/
inductive TalkEvent where
  | typed (side : Side) (msg : Bytes)
  | met (round : UInt32) (bodies : Side → ConvoMessage)
  | alone (side : Side) (round : UInt32) (body : ConvoMessage)
  | lost (side : Side) (round : UInt32) (body : ConvoMessage)
  | answered (side : Side) (round : UInt32) (text : Option Bytes)

namespace TalkEvent

/-- The text a step takes from an end. -/
def typedAt (side : Side) : TalkEvent → Option Bytes
  | .typed s msg => if s = side then some msg else none
  | _ => none

/-- The message an end sends in a step. -/
def sentBy (side : Side) : TalkEvent → Option ConvoMessage
  | .met _ bodies => some (bodies side)
  | .alone s _ body | .lost s _ body => if s = side then some body else none
  | _ => none

/-- What a step sends to an end as the response of a round: the message of the other end, if it was
there. -/
def broughtTo (side : Side) (round : UInt32) : TalkEvent → Option (Option ConvoMessage)
  | .met r bodies => if r = round then some (some (bodies side.other)) else none
  | .alone s r _ => if s = side ∧ r = round then some none else none
  | _ => none

/-- What an end shows of the response of a round. -/
def answeredAt (side : Side) (round : UInt32) : TalkEvent → Option (Option Bytes)
  | .answered s r text => if s = side ∧ r = round then some text else none
  | _ => none

end TalkEvent

/-- One step.  The batch of a round holds whatever else it holds, and the servers draw what they
draw; a round number is not used again while a response of it is under way. -/
inductive TalkStep (box : NaclBox) (hmac : Hmac) (s : Talk) : TalkEvent → Talk → Prop where
  | type {side : Side} {msg : Bytes} {c : Conversation}
      (h : (s.convo side).queueTextMessage msg = some c) :
      TalkStep box hmac s (.typed side msg) ⟨Function.update s.convo side c, s.flights⟩
  | meet {d : Deployment box} {t t' : Servers d.stations} {round : UInt32}
      {onions replies : List Bytes} {place : Side → Nat} {coins : Side → RequestCoins}
      {now : Side → Time} {reply : Side → Bytes}
      (hfree : ∀ side, s.flights round side = none)
      (hpki : ∀ side, (s.convo side).pki = d.pki)
      (honion : ∀ side, onions[place side]? = some
        ((s.convo side).nextConvoRequest box hmac (coins side) (now side) round).1.onion)
      (hkept : ∀ side, place side ∈ (accepted box round d.stations onions).map Prod.fst)
      (hplace : place .left ≠ place .right)
      (honly : ∀ p ∈ accepted box round d.stations onions, ∀ side,
        p.2.deadDrop = (s.convo side).deadDrop box hmac (coins side).drop round →
          ∃ side', p.1 = place side')
      (hundrawn : ∀ side,
        Undrawn d ((s.convo side).deadDrop box hmac (coins side).drop round))
      (hrun : convoRound (chain box d.stations) round onions t = .ok replies t')
      (hreply : ∀ side, replies[place side]? = some (reply side)) :
      TalkStep box hmac s (.met round fun side => ((s.convo side).nextBody (now side)).1)
        ⟨fun side =>
            ((s.convo side).nextConvoRequest box hmac (coins side) (now side) round).2,
          Function.update s.flights round fun side => some
            ⟨reply side, some ((s.convo side.other).nextBody (now side.other)).1⟩⟩
  | alone {d : Deployment box} {t t' : Servers d.stations} {side : Side} {round : UInt32}
      {onions replies : List Bytes} {i : Nat} {coins : RequestCoins} {now : Time} {reply : Bytes}
      (hfree : s.flights round side = none)
      (hpki : (s.convo side).pki = d.pki)
      (honion : onions[i]? = some
        ((s.convo side).nextConvoRequest box hmac coins now round).1.onion)
      (hkept : i ∈ (accepted box round d.stations onions).map Prod.fst)
      (honly : ∀ p ∈ accepted box round d.stations onions,
        p.2.deadDrop = (s.convo side).deadDrop box hmac coins.drop round → p.1 = i)
      (hundrawn : Undrawn d ((s.convo side).deadDrop box hmac coins.drop round))
      (hrun : convoRound (chain box d.stations) round onions t = .ok replies t')
      (hreply : replies[i]? = some reply) :
      TalkStep box hmac s (.alone side round ((s.convo side).nextBody now).1)
        ⟨Function.update s.convo side
            ((s.convo side).nextConvoRequest box hmac coins now round).2,
          Function.update s.flights round
            (Function.update (s.flights round) side (some ⟨reply, none⟩))⟩
  | lose {side : Side} {round : UInt32} {coins : RequestCoins} {now : Time}
      (hfree : s.flights round side = none) :
      TalkStep box hmac s (.lost side round ((s.convo side).nextBody now).1)
        ⟨Function.update s.convo side
          ((s.convo side).nextConvoRequest box hmac coins now round).2, s.flights⟩
  | answer {side : Side} {round : UInt32} {f : Flight} {now : Time} {text : Option Bytes}
      {c : Conversation} (hflight : s.flights round side = some f)
      (h : (s.convo side).handleConvoResponse box now ⟨round, f.reply⟩ = .ok (text, c)) :
      TalkStep box hmac s (.answered side round text)
        ⟨Function.update s.convo side c,
          Function.update s.flights round (Function.update (s.flights round) side none)⟩

/-- Two peers with different keys, who have not typed or asked yet. -/
structure TalkStart (box : NaclBox) (s : Talk) : Prop where
  peers : Peers box (s.convo .left) (s.convo .right)
  keys : (s.convo .left).myPublicKey ≠ (s.convo .right).myPublicKey
  queue : ∀ side, (s.convo side).outQueue = []
  flights : ∀ round side, s.flights round side = none

/-- The two peers and the chain. -/
def talk (box : NaclBox) (hmac : Hmac) : System Talk TalkEvent where
  init := TalkStart box
  step := TalkStep box hmac

/-! ### One step -/

section Step

variable {s s' : Talk} {ev : TalkEvent}

/-- The keys stay what they are. -/
theorem TalkStep.identity (h : TalkStep box hmac s ev s') (side : Side) :
    (s'.convo side).identity = (s.convo side).identity := by
  have update : ∀ {side' : Side} {c : Conversation}, c.identity = (s.convo side').identity →
      (Function.update s.convo side' c side).identity = (s.convo side).identity := by
    intro side' c hc
    by_cases hside : side = side'
    · rw [hside, Function.update_self, hc]
    · rw [Function.update_of_ne hside]
  cases h with
  | type h => exact update (Conversation.identity_queueTextMessage h)
  | meet => exact Conversation.identity_nextConvoRequest _ _
  | alone | lose => exact update (Conversation.identity_nextConvoRequest _ _)
  | answer _ h => exact update (Conversation.handled_of_ok h).identity

/-- What is typed goes to the end of the queue, and what is sent is taken from its front. -/
theorem TalkStep.outQueue (h : TalkStep box hmac s ev s') (side : Side) :
    (s.convo side).outQueue ++ (ev.typedAt side).toList =
      ((ev.sentBy side).bind ConvoMessage.text?).toList ++ (s'.convo side).outQueue := by
  cases h with
  | @type side' msg c h =>
      by_cases hside : side = side'
      · subst hside
        simp [TalkEvent.typedAt, TalkEvent.sentBy, Conversation.outQueue_queueTextMessage h]
      · simp [TalkEvent.typedAt, TalkEvent.sentBy, hside, Ne.symm hside]
  | meet =>
      simp only [TalkEvent.typedAt, TalkEvent.sentBy, Option.toList_none, List.append_nil,
        Option.bind_some, Conversation.outQueue_nextConvoRequest]
  | @alone _ _ _ side' | @lose side' =>
      by_cases hside : side = side'
      · subst hside
        simp [TalkEvent.typedAt, TalkEvent.sentBy, Conversation.outQueue_nextConvoRequest]
      · simp [TalkEvent.typedAt, TalkEvent.sentBy, hside, Ne.symm hside]
  | @answer side' _ _ _ _ _ _ h =>
      by_cases hside : side = side'
      · subst hside
        simp [TalkEvent.typedAt, TalkEvent.sentBy, (Conversation.handled_of_ok h).outQueue]
      · simp [TalkEvent.typedAt, TalkEvent.sentBy, hside]

/-- Each of the two is the peer of the other. -/
def Facing (box : NaclBox) (s : Talk) : Prop :=
  ∀ side, Peers box (s.convo side.other) (s.convo side) ∧
    (s.convo side.other).myPublicKey ≠ (s.convo side).myPublicKey

theorem Facing.step (hs : Facing box s) (h : TalkStep box hmac s ev s') : Facing box s' := by
  intro side
  obtain ⟨hpeers, hne⟩ := hs side
  have hkey : ∀ side, (s'.convo side).myPublicKey = (s.convo side).myPublicKey :=
    fun side => congrArg Prod.fst (h.identity side)
  refine ⟨hpeers.of_identity (h.identity _) (h.identity _), ?_⟩
  rw [hkey, hkey]
  exact hne

/-- The responses under way are what they should be. -/
def InFlight (box : NaclBox) (s : Talk) : Prop :=
  ∀ round side f, s.flights round side = some f →
    Underway box (s.convo side) (s.convo side.other) round f

/-- The onions of the two meet at the dead drop they have in common. -/
theorem Facing.meeting (hbox : box.Ideal) (hs : Facing box s) {d : Deployment box}
    {onions : List Bytes} {place : Side → Nat} {coins : Side → RequestCoins} {now : Side → Time}
    (hpki : ∀ side, (s.convo side).pki = d.pki)
    (honion : ∀ side, onions[place side]? = some
      ((s.convo side).nextConvoRequest box hmac (coins side) (now side) round).1.onion)
    (hkept : ∀ side, place side ∈ (accepted box round d.stations onions).map Prod.fst)
    (hplace : place .left ≠ place .right)
    (honly : ∀ p ∈ accepted box round d.stations onions, ∀ side,
      p.2.deadDrop = (s.convo side).deadDrop box hmac (coins side).drop round →
        ∃ side', p.1 = place side')
    (hundrawn : ∀ side, Undrawn d ((s.convo side).deadDrop box hmac (coins side).drop round))
    (side : Side) :
    Meeting d round onions (place side) (place side.other)
      ((s.convo side).exchange box hmac (coins side) (now side) round)
      ((s.convo side.other).exchange box hmac (coins side.other) (now side.other) round)
      (coins side).keys (coins side.other).keys := by
  have harrives : ∀ side, Arrives d round onions (place side)
      ((s.convo side).exchange box hmac (coins side) (now side) round) (coins side).keys := by
    intro side
    refine ⟨?_, hkept side⟩
    rw [honion side, Conversation.onion_nextConvoRequest, hpki]
  obtain ⟨hpeers, hne⟩ := hs side
  refine ⟨harrives side, harrives side.other, ?_, ?_, fun p hp hd => ?_, hundrawn side⟩
  · cases side with
    | left => exact hplace
    | right => exact hplace.symm
  · exact (hpeers.deadDrop_eq hbox hne _ _).symm
  · obtain ⟨side', hp'⟩ := honly p hp side hd
    rcases side.eq_or_other side' with rfl | rfl
    · exact .inl hp'
    · exact .inr hp'

/-- A step leaves the responses under way what they should be, and puts only such ones there. -/
theorem InFlight.step (hbox : box.Ideal) (hfacing : Facing box s) (hs : InFlight box s)
    (h : TalkStep box hmac s ev s') : InFlight box s' := by
  intro r side f hf
  -- a response that was under way before: the step leaves the entry of its round
  have keep : s.flights r side = some f →
      (s'.convo side).pendingRounds r = (s.convo side).pendingRounds r →
        Underway box (s'.convo side) (s'.convo side.other) r f := fun hold hpending =>
    (hs r side f hold).keep (h.identity side) (h.identity side.other) hpending
  have pending : ∀ {side' : Side} {c : Conversation},
      (side = side' → c.pendingRounds r = (s.convo side').pendingRounds r) →
        (Function.update s.convo side' c side).pendingRounds r =
          (s.convo side).pendingRounds r := by
    intro side' c hc
    by_cases hside : side = side'
    · rw [hside, Function.update_self, hc hside]
    · rw [Function.update_of_ne hside]
  have hid := h.identity side.other
  cases h with
  | type h =>
      exact keep hf (pending fun _ => congrFun (Conversation.sameKeys_queueTextMessage h).2 r)
  | @meet d t t' round onions replies place coins now reply _ hpki honion hkept hplace honly
      hundrawn hrun hreply =>
      by_cases hr : r = round
      · subst hr
        simp only [Function.update_self, Option.some.injEq] at hf
        subst hf
        have hmeet := hfacing.meeting hbox hpki honion hkept hplace honly hundrawn side
        have hopen := hmeet.opens hbox hrun (hreply side)
        rw [← hpki side] at hopen
        exact Underway.of_asked hopen hid
      · simp only [Function.update_of_ne hr] at hf
        exact keep hf (Conversation.pendingRounds_nextConvoRequest.2 r hr)
  | @alone d t t' side' round onions replies i coins now reply hfree hpki honion hkept honly
      hundrawn hrun hreply =>
      by_cases hr : r = round
      · subst hr
        simp only [Function.update_self] at hf
        by_cases hside : side = side'
        · subst hside
          simp only [Function.update_self, Option.some.injEq] at hf
          subst hf
          have harrives : Arrives d r onions i ((s.convo side).exchange box hmac coins now r)
              coins.keys :=
            ⟨by rw [honion, Conversation.onion_nextConvoRequest, hpki], hkept⟩
          have hopen := harrives.opens_alone hbox hundrawn honly hrun hreply
          rw [← hpki] at hopen
          simp only [Function.update_self]
          exact Underway.of_asked hopen hid
        · rw [Function.update_of_ne hside] at hf
          exact keep hf (pending fun e => absurd e hside)
      · simp only [Function.update_of_ne hr] at hf
        exact keep hf (pending fun _ => Conversation.pendingRounds_nextConvoRequest.2 r hr)
  | @lose side' round coins now hfree =>
      refine keep hf (pending fun e => Conversation.pendingRounds_nextConvoRequest.2 r fun hr => ?_)
      subst e hr
      exact absurd (hfree.symm.trans hf) (by simp)
  | @answer side' round f' now text c hflight h =>
      have hpending := congrFun (Conversation.handleConvoResponse_frame h).2 r
      by_cases hr : r = round
      · subst hr
        simp only [Function.update_self] at hf
        by_cases hside : side = side'
        · subst hside
          simp only [Function.update_self] at hf
          cases hf
        · rw [Function.update_of_ne hside] at hf
          exact keep hf (pending fun e => absurd e hside)
      · simp only [Function.update_of_ne hr] at hf
        exact keep hf (pending fun _ => hpending.trans (Function.update_of_ne hr _ _))

/-- A response is put under way once and handled once, and shows what it brings. -/
theorem InFlight.told (hbox : box.Ideal) (hroles : box.TellsRoles) (hfacing : Facing box s)
    (hs : InFlight box s) (h : TalkStep box hmac s ev s') (side : Side) (round : UInt32) :
    (ev.answeredAt side round).toList ++ ((s'.flights round side).map Flight.shown).toList =
      ((s.flights round side).map Flight.shown).toList ++
        ((ev.broughtTo side round).map fun body => body.bind ConvoMessage.shown).toList := by
  cases h with
  | type | lose => simp [TalkEvent.answeredAt, TalkEvent.broughtTo]
  | @meet _ _ _ r _ _ _ _ _ _ hfree =>
      by_cases hr : round = r
      · subst hr
        simp [TalkEvent.answeredAt, TalkEvent.broughtTo, hfree, Flight.shown]
      · simp [TalkEvent.answeredAt, TalkEvent.broughtTo, hr, Ne.symm hr]
  | @alone _ _ _ side' r _ _ _ _ _ _ hfree =>
      by_cases hr : round = r
      · subst hr
        by_cases hside : side = side'
        · subst hside
          simp [TalkEvent.answeredAt, TalkEvent.broughtTo, hfree, Flight.shown]
        · simp [TalkEvent.answeredAt, TalkEvent.broughtTo, hside, Ne.symm hside]
      · simp [TalkEvent.answeredAt, TalkEvent.broughtTo, hr, Ne.symm hr]
  | @answer side' r f now text c hflight h =>
      by_cases hr : round = r
      · subst hr
        by_cases hside : side = side'
        · subst hside
          obtain ⟨hpeers, hne⟩ := hfacing side
          obtain ⟨c', hhandle, -⟩ := (hs round side f hflight).handle hbox hroles hpeers hne now
          obtain rfl : text = f.shown :=
            congrArg Prod.fst (Except.ok.inj (h.symm.trans hhandle))
          simp [TalkEvent.answeredAt, TalkEvent.broughtTo, hflight]
        · simp [TalkEvent.answeredAt, TalkEvent.broughtTo, hside, Ne.symm hside]
      · simp [TalkEvent.answeredAt, TalkEvent.broughtTo, hr, Ne.symm hr]

end Step

/-! ### Every run -/

section Run

variable {h : List TalkEvent} {s : Talk}

theorem talk_sound (hbox : box.Ideal) (run : (talk box hmac).Run System.Any h s) :
    Facing box s ∧ InFlight box s := by
  refine run.invariant (I := fun _ s => Facing box s ∧ InFlight box s) (fun s hs => ⟨?_, ?_⟩)
    fun h s l s' hs _ ht => ⟨hs.1.step ht, hs.2.step hbox hs.1 ht⟩
  · rintro (_ | _)
    · exact ⟨hs.peers.symm, hs.keys.symm⟩
    · exact ⟨hs.peers, hs.keys⟩
  · intro round side f hf
    rw [hs.flights] at hf
    cases hf

/-- **Two peers talk through the chain.**  The texts that were typed at an end are those it sent, in
order, and then those that wait.  Of every round an end has shown what it was brought, once: the
text of the other end, cut to its size, where the other end asked in the same round and sent one;
what is not shown yet is under way.  And a response under way can be handled at any time, without a
panic, and tells whether the other end was there. -/
theorem talk_delivers (hbox : box.Ideal) (hroles : box.TellsRoles)
    (run : (talk box hmac).Run System.Any h s) (side : Side) :
    h.filterMap (TalkEvent.typedAt side) =
      h.filterMap (fun ev => (ev.sentBy side).bind ConvoMessage.text?) ++
        (s.convo side).outQueue ∧
    ∀ round : UInt32,
      (h.filterMap (TalkEvent.broughtTo side round)).map
          (fun body => body.bind ConvoMessage.shown) =
        h.filterMap (TalkEvent.answeredAt side round) ++
          ((s.flights round side).map Flight.shown).toList ∧
      ∀ f, s.flights round side = some f → ∀ now : Time,
        ∃ c', (s.convo side).handleConvoResponse box now ⟨round, f.reply⟩ = .ok (f.shown, c') ∧
          c'.lastPeerResponding = f.body.isSome := by
  refine ⟨?_, fun round => ⟨?_, fun f hf now => ?_⟩⟩
  · refine run.queue (q := fun s => (s.convo side).outQueue)
      (fun s hs => TalkStart.queue hs side) fun _ _ _ _ _ _ ht => ?_
    exact TalkStep.outQueue ht side
  · rw [List.map_filterMap]
    refine run.queue (q := fun s => ((s.flights round side).map Flight.shown).toList)
      (fun s hs => by rw [hs.flights]; rfl) fun _ s _ _ r _ ht => ?_
    obtain ⟨hfacing, hflight⟩ := talk_sound hbox r
    exact (hflight.told hbox hroles hfacing ht side round).symm
  · obtain ⟨hfacing, hflight⟩ := talk_sound hbox run
    obtain ⟨hpeers, hne⟩ := hfacing side
    exact (hflight round side f hf).handle hbox hroles hpeers hne now

end Run

/-! ### A text that arrives -/

/-- The sample chain, with boxes that tell the roles. -/
def roleDeployment : Deployment roleBox :=
  { sampleDeployment with key := sampleDeployment.key }

/-- Two peers, and nothing under way. -/
def sampleTalkers : Talk where
  convo := Side.pick (sampleTalk 1 2) (sampleTalk 2 1)
  flights := fun _ _ => none

/-- A text as long as a message. -/
def sampleText : Bytes := List.replicate 239 7

theorem sampleTalkers_start : TalkStart roleBox sampleTalkers where
  peers := ⟨rfl, rfl, rfl, rfl⟩
  keys := by decide
  queue := by rintro (_ | _) <;> rfl
  flights := fun _ _ => rfl

/-- The left one has typed. -/
def sampleTyped : Talk :=
  ⟨Function.update sampleTalkers.convo .left { sampleTalk 1 2 with outQueue := [sampleText] },
    sampleTalkers.flights⟩

/-- The onions of the two in round 5. -/
def sampleOnions : List Bytes :=
  [((sampleTyped.convo .left).nextConvoRequest roleBox sampleHmac sampleRequest 0 5).1.onion,
    ((sampleTyped.convo .right).nextConvoRequest roleBox sampleHmac sampleRequest 0 5).1.onion]

/-- They go through the chain. -/
theorem sampleOnions_replies : ∃ (left right : Bytes) (t' : Servers roleDeployment.stations),
    convoRound (chain roleBox roleDeployment.stations) 5 sampleOnions sampleServers =
      .ok [left, right] t' := by
  obtain ⟨replies, t', hrun⟩ := endsOk_iff.mp (show endsOk (convoRound
    (chain roleBox roleDeployment.stations) 5 sampleOnions sampleServers) = true by decide +kernel)
  have hlen : (requests sampleOnions).length = replies.length :=
    (replies_open roleBox_ideal _ roleDeployment.line roleDeployment.nonempty
      (nodup_numbers_requests sampleOnions) (by rw [map_snd_requests]; exact hrun)).length_eq
  obtain ⟨left, right, rfl⟩ := List.length_eq_two.mp (hlen.symm.trans rfl)
  exact ⟨left, right, t', hrun⟩

/-- The two have asked in round 5, and the responses are under way. -/
theorem sampleTalk_met : ∃ (s : Talk) (bodies : Side → ConvoMessage),
    (talk roleBox sampleHmac).Run System.Any [.typed .left sampleText, .met 5 bodies] s ∧
    bodies .left = .text sampleText ∧ ∃ f, s.flights 5 .right = some f := by
  have typed : (talk roleBox sampleHmac).Run System.Any [.typed .left sampleText] sampleTyped :=
    .step (.init sampleTalkers_start) trivial (.type rfl)
  obtain ⟨left, right, t', hrun⟩ := sampleOnions_replies
  let place : Side → Nat := Side.pick 0 1
  have honion : ∀ side, sampleOnions[place side]? = some
      ((sampleTyped.convo side).nextConvoRequest roleBox sampleHmac sampleRequest 0 5).1.onion := by
    rintro (_ | _) <;> rfl
  have hkept : ∀ side, place side ∈
      (accepted roleBox 5 roleDeployment.stations sampleOnions).map Prod.fst := by
    rintro (_ | _) <;> decide +kernel
  have hreply : ∀ side, [left, right][place side]? = some (Side.pick left right side) := by
    rintro (_ | _) <;> rfl
  have honly : ∀ p ∈ accepted roleBox 5 roleDeployment.stations sampleOnions,
      ∃ side, p.1 = place side := by
    have hall : ∀ p ∈ accepted roleBox 5 roleDeployment.stations sampleOnions,
        p.1 = place .left ∨ p.1 = place .right := by decide +kernel
    intro p hp
    rcases hall p hp with hp | hp
    · exact ⟨.left, hp⟩
    · exact ⟨.right, hp⟩
  have hundrawn : ∀ side, Undrawn roleDeployment
      ((sampleTyped.convo side).deadDrop roleBox sampleHmac sampleRequest.drop 5) := by
    rintro (_ | _) <;> unfold Undrawn <;> decide +kernel
  have met : TalkStep roleBox sampleHmac sampleTyped _ _ :=
    .meet (fun _ => rfl) (by rintro (_ | _) <;> rfl) honion hkept (by decide)
      (fun p hp _ _ => honly p hp) hundrawn hrun hreply
  exact ⟨_, _, typed.step trivial met, rfl, _, rfl⟩

/-- What the left one typed shows at the right one. -/
theorem talk_delivers_sample : ∃ (h : List TalkEvent) (s : Talk),
    (talk roleBox sampleHmac).Run System.Any h s ∧
    h.filterMap (TalkEvent.typedAt .left) = [sampleText] ∧
    h.filterMap (TalkEvent.answeredAt .right 5) = [some sampleText] := by
  obtain ⟨s, bodies, run, hbody, f, hf⟩ := sampleTalk_met
  obtain ⟨-, hround⟩ := talk_delivers roleBox_ideal roleBox_tellsRoles run .right
  obtain ⟨hbrought, hhandle⟩ := hround 5
  obtain ⟨c', hok, -⟩ := hhandle f hf 0
  have hshown : some f.shown = some (some sampleText) := by
    have hfirst := congrArg List.head? hbrought
    rw [hf] at hfirst
    simp only [TalkEvent.broughtTo, TalkEvent.answeredAt, Side.other, hbody, List.filterMap_cons,
      List.filterMap_nil, List.map_cons, List.map_nil, Option.map_some, Option.toList_some,
      List.nil_append, List.head?_cons, if_pos] at hfirst
    rw [← hfirst]
    decide +kernel
  exact ⟨_, _, run.step trivial (.answer hf hok), rfl, congrArg ([·]) (Option.some.inj hshown)⟩

end Vuvuzela
