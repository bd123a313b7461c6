import Vuvuzela.Client.Authentic
import Vuvuzela.Chain.Layers

/-!
# Client — two honest peers

Two conversations with each other's public keys compute the same from their own ends: the dead
drop of a round, the key of their messages, and who of them has which role (`peers_agree`).  So a
response that brings the peer's message of the round shows the peer's text, and one that brings
the own message shows nothing, unless the peer is the client itself.

The text of a message has 239 bytes, and the zeroes at its end do not show.  A longer text, or one
that ends in a zero, is not shown whole (`long_text_cut`).
-/

namespace Vuvuzela

variable {box : NaclBox} {hmac : Hmac} {a b c : Conversation} {round : UInt32}

/-- What one role sealed is not what another sealed, for the same round and under the same key. -/
def NaclBox.TellsRoles (box : NaclBox) : Prop :=
  ∀ (m m' : Bytes) (round : UInt32) (role role' : UInt8) (k : BoxKey),
    box.sealAfterPrecomputation m (convoNonce round role) k =
      box.sealAfterPrecomputation m' (convoNonce round role') k → role = role'

/-- Conversations with key pairs, each with the other's public key. -/
structure Peers (box : NaclBox) (a b : Conversation) : Prop where
  left : a.myPublicKey = box.publicKey a.myPrivateKey
  right : b.myPublicKey = box.publicKey b.myPrivateKey
  left_peer : a.peerPublicKey = b.myPublicKey
  right_peer : b.peerPublicKey = a.myPublicKey

namespace Conversation

/-- The encrypted message of an exchange with a body. -/
def encryptedMessage (box : NaclBox) (c : Conversation) (body : ConvoMessage) (round : UInt32) :
    Block sizeEncryptedMessage :=
  Block.copy sizeEncryptedMessage (c.seal box body.marshal.1 round c.myRole)

/-- It depends on the keys of the conversation only. -/
theorem encryptedMessage_of_identity {c' : Conversation} (h : c'.identity = c.identity)
    (body : ConvoMessage) :
    c'.encryptedMessage box body round = c.encryptedMessage box body round := by
  have hrole := myRole_of_identity h
  simp only [identity, Prod.mk.injEq] at h
  simp only [encryptedMessage, Conversation.seal, sealCall, hrole, h.2.1, h.2.2]

/-- It is what `NextConvoRequest` notes as sent. -/
theorem sentMessage_nextConvoRequest (box : NaclBox) (hmac : Hmac) (c : Conversation)
    (round : UInt32) (coins : RequestCoins) (now : Time) :
    ((c.nextConvoRequest box hmac coins now round).2.pendingRounds round).map
        PendingRound.sentMessage =
      some (c.encryptedMessage box (c.nextBody now).1 round) := by
  simp [nextConvoRequest, encryptedMessage]

/-- A sealed message fills its block. -/
theorem encryptedMessage_eq (hbox : box.Ideal) (c : Conversation) (body : ConvoMessage)
    (round : UInt32) :
    (c.encryptedMessage box body round).1 = c.seal box body.marshal.1 round c.myRole := by
  have hlen : (c.seal box body.marshal.1 round c.myRole).length = sizeEncryptedMessage := by
    rw [Conversation.seal, SealCall.run, NaclBox.seal, hbox.seal_length]
    exact congrArg (· + boxOverhead) body.marshal.2
  rw [encryptedMessage, Block.copy_eq, List.take_of_length_le hlen.le, hlen, Nat.sub_self,
    List.replicate_zero, List.append_nil]

theorem solo_iff : c.solo = true ↔ c.myPublicKey = c.peerPublicKey := by
  rw [solo, decide_eq_true_eq, compareBytes_eq_zero]
  exact ⟨Subtype.ext, congrArg Subtype.val⟩

/-- A response that carries a ciphertext is to a round that is pending. -/
theorem pending_of_ciphertext {r : ConvoResponse} {ctxt : Bytes}
    (h : c.ciphertext box r = some ctxt) :
    ∃ pr, c.pendingRounds r.round = some pr ∧
      Onionbox.open box (backwardNonce r.round) pr.onionSharedKeys r.onion = some ctxt :=
  Option.bind_eq_some_iff.mp h

end Conversation

/-! ### From opposite ends -/

namespace Peers

theorem symm (h : Peers box a b) : Peers box b a :=
  ⟨h.right, h.left, h.right_peer, h.left_peer⟩

theorem solo_iff (h : Peers box a b) : b.solo = true ↔ a.myPublicKey = b.myPublicKey := by
  rw [Conversation.solo_iff, h.right_peer]
  exact eq_comm

/-- The two compute one shared key. -/
theorem precompute_eq (hbox : box.Ideal) (h : Peers box a b) :
    box.precompute a.peerPublicKey a.myPrivateKey =
      box.precompute b.peerPublicKey b.myPrivateKey := by
  rw [h.left_peer, h.right_peer, h.left, h.right]
  exact hbox.precompute_comm b.myPrivateKey a.myPrivateKey

/-- The role one has is the role the other expects. -/
theorem theirRole_eq (h : Peers box a b) : b.theirRole = a.myRole := by
  rw [Conversation.theirRole, Conversation.myRole, h.right_peer, h.left_peer]

theorem deadDrop_eq (hbox : box.Ideal) (h : Peers box a b) (hne : a.myPublicKey ≠ b.myPublicKey)
    (drop drop' : Nat → UInt8) :
    a.deadDrop box hmac drop round = b.deadDrop box hmac drop' round := by
  have ha : ¬ a.solo := fun hs => hne (h.symm.solo_iff.mp hs).symm
  have hb : ¬ b.solo := fun hs => hne (h.solo_iff.mp hs)
  rw [Conversation.deadDrop, Conversation.deadDrop, if_neg ha, if_neg hb, h.precompute_eq hbox]

/-- What one seals the other opens. -/
theorem open_seal (hbox : box.Ideal) (h : Peers box a b) (m : Bytes) :
    b.open box (a.seal box m round a.myRole) round b.theirRole = some m := by
  rw [Conversation.open, NaclBox.open, h.theirRole_eq, ← h.precompute_eq hbox]
  exact hbox.open_seal m _ _

/-- The messages of two peers in a round are different ciphertexts. -/
theorem encryptedMessage_ne (hbox : box.Ideal) (hroles : box.TellsRoles) (h : Peers box a b)
    (hne : a.myPublicKey ≠ b.myPublicKey) (round : UInt32) (body own : ConvoMessage) :
    (a.encryptedMessage box body round).1 ≠ (b.encryptedMessage box own round).1 := by
  intro heq
  rw [Conversation.encryptedMessage_eq hbox, Conversation.encryptedMessage_eq hbox] at heq
  have hsealed : box.sealAfterPrecomputation body.marshal.1 (convoNonce round a.myRole)
        (box.precompute b.peerPublicKey b.myPrivateKey) =
      box.sealAfterPrecomputation own.marshal.1 (convoNonce round b.myRole)
        (box.precompute b.peerPublicKey b.myPrivateKey) :=
    (congrArg (box.sealAfterPrecomputation _ _) (h.precompute_eq hbox)).symm.trans heq
  exact myRole_ne (h.left_peer ▸ hne) h.left_peer.symm h.right_peer (hroles _ _ _ _ _ _ hsealed)

/-- The peer's message of the round arrives. -/
theorem handle (hbox : box.Ideal) (h : Peers box a b) {body msg : ConvoMessage}
    (hmsg : ConvoMessage.unmarshal body.marshal.1 = .ok (some msg)) {r : ConvoResponse}
    {pr : PendingRound} (hpr : b.pendingRounds r.round = some pr)
    (hcarries : b.ciphertext box r = some (a.encryptedMessage box body r.round).1)
    (hown : ¬ ((a.encryptedMessage box body r.round).1 = pr.sentMessage.1 ∧ ¬ b.solo))
    (now : Time) :
    b.handleConvoResponse box now r = .ok ((b.taken r.round).receive now msg) := by
  obtain ⟨pr', hpr', hctxt⟩ := Conversation.pending_of_ciphertext hcarries
  cases hpr.symm.trans hpr'
  refine Conversation.handleConvoResponse_of_open hpr hctxt hown ?_ hmsg
  rw [Conversation.encryptedMessage_eq hbox]
  exact h.open_seal hbox _

end Peers

/-- What `HandleConvoResponse` does with the body of a message: a text shows, cut to the size of a
message and without the zeroes at its end, and a time gives the latency: the nanoseconds since,
where a `time.Time` can hold the time and a `Duration` what has passed. -/
def Received (c : Conversation) (box : NaclBox) (now : Time) (r : ConvoResponse) :
    ConvoMessage → Prop
  | .text text => ∃ c', c.handleConvoResponse box now r =
      .ok (some ((text.take (sizeMessage - 1)).rdropWhile (· = 0)), c') ∧
        c'.lastPeerResponding = true
  | .timestamp unix => IsInt unix → ∃ c', c.handleConvoResponse box now r = .ok (none, c') ∧
      c'.lastLatency = now.sub (.ofUnix unix 0) ∧
      (IsInt (unix + Time.unixToInternal) → IsInt (now - unix * 10 ^ 9) →
        c'.lastLatency = now - unix * 10 ^ 9) ∧
      c'.lastPeerResponding = true

/-- The body of a message arrives. -/
theorem Peers.received (hbox : box.Ideal) (h : Peers box a b) (body : ConvoMessage)
    {r : ConvoResponse} {pr : PendingRound} (hpr : b.pendingRounds r.round = some pr)
    (hcarries : b.ciphertext box r = some (a.encryptedMessage box body r.round).1)
    (hown : ¬ ((a.encryptedMessage box body r.round).1 = pr.sentMessage.1 ∧ ¬ b.solo))
    (now : Time) : Received b box now r body := by
  cases body with
  | text text =>
      refine ⟨{ b.taken r.round with lastPeerResponding := true },
        (h.handle hbox (unmarshal_text text) hpr hcarries hown now).trans ?_, rfl⟩
      rw [Conversation.receive, rdropWhile_copy]
      rfl
  | timestamp unix =>
      intro hunix
      refine ⟨_, h.handle hbox (unmarshal_timestamp hunix) hpr hcarries hown now, rfl,
        fun hheld hfits => ?_, rfl⟩
      have htime : Time.ofUnix unix 0 = unix * 10 ^ 9 := by
        rw [Time.ofUnix_of_isInt hheld, add_zero]
      change now.sub (.ofUnix unix 0) = _
      rw [htime]
      exact Time.sub_of_isInt hfits

/-- **Two honest peers agree**, and a conversation with oneself gets its own messages back. -/
theorem peers_agree (hbox : box.Ideal) (hroles : box.TellsRoles) :
    (∀ a b : Conversation, Peers box a b → a.myPublicKey ≠ b.myPublicKey → ∀ round : UInt32,
      (∀ (hmac : Hmac) (drop drop' : Nat → UInt8),
        a.deadDrop box hmac drop round = b.deadDrop box hmac drop' round) ∧
      (∀ m : Bytes, b.open box (a.seal box m round a.myRole) round b.theirRole = some m ∧
        a.open box (b.seal box m round b.myRole) round a.theirRole = some m) ∧
      ∀ (body own : ConvoMessage) (now : Time) (r : ConvoResponse) (pr : PendingRound),
        r.round = round → b.pendingRounds round = some pr →
        pr.sentMessage = b.encryptedMessage box own round →
        (b.ciphertext box r = some (a.encryptedMessage box body round).1 →
          Received b box now r body) ∧
        (b.ciphertext box r = some (b.encryptedMessage box own round).1 →
          ∃ b', b.handleConvoResponse box now r = .ok (none, b') ∧
            b'.lastPeerResponding = false ∧ b'.lastLatency = b.lastLatency)) ∧
    (∀ c : Conversation, Peers box c c → ∀ (body : ConvoMessage) (now : Time) (r : ConvoResponse),
      c.ciphertext box r = some (c.encryptedMessage box body r.round).1 →
        Received c box now r body) ∧
    ∀ text : Bytes, (text.take (sizeMessage - 1)).rdropWhile (· = 0) = text ↔
      text.length ≤ sizeMessage - 1 ∧ text.getLast? ≠ some 0 := by
  refine ⟨fun a b h hne round => ⟨?_, ?_, ?_⟩, ?_, fun text => shown_eq_text_iff⟩
  · exact fun hmac drop drop' => h.deadDrop_eq hbox hne drop drop'
  · exact fun m => ⟨h.open_seal hbox m, h.symm.open_seal hbox m⟩
  · rintro body own now r pr rfl hpr hsent
    have hsolo : ¬ b.solo := fun hs => hne (h.solo_iff.mp hs)
    constructor
    · intro hcarries
      refine h.received hbox body hpr hcarries (fun hown => ?_) now
      rw [hsent] at hown
      exact h.encryptedMessage_ne hbox hroles hne r.round body own hown.1
    · intro hcarries
      obtain ⟨pr', hpr', hctxt⟩ := Conversation.pending_of_ciphertext hcarries
      cases hpr.symm.trans hpr'
      rw [← hsent] at hctxt
      exact ⟨_, Conversation.handleConvoResponse_of_own hpr hctxt hsolo, rfl, rfl⟩
  · intro c h body now r hcarries
    obtain ⟨pr, hpr, -⟩ := Conversation.pending_of_ciphertext hcarries
    exact h.received hbox body hpr hcarries (fun hown => hown.2 (h.solo_iff.mpr rfl)) now

/-! ### Texts on the way -/

/-- A response to a pending round that carries a ciphertext, wrapped by the servers. -/
theorem ciphertext_wrapReply (hbox : box.Ideal) {pr : PendingRound}
    (hpr : c.pendingRounds round = some pr) (ctxt : Bytes) :
    c.ciphertext box
        ⟨round, wrapReply box (backwardNonce round) pr.onionSharedKeys ctxt⟩ = some ctxt := by
  rw [Conversation.ciphertext, hpr]
  exact open_wrapReply hbox (backwardNonce round) ctxt pr.onionSharedKeys

/-- A tag that ends in the last byte of the nonce. -/
def roleTag (n : Nonce) (k : BoxKey) : Bytes := (boxTag n k).take 15 ++ n.1.drop 23

/-- `tagBox` with the role in the tag. -/
def roleBox : NaclBox where
  publicKey := tagBox.publicKey
  precompute := tagBox.precompute
  sealAfterPrecomputation := fun m n k => roleTag n k ++ m
  openAfterPrecomputation := fun c n k => if c.take 16 = roleTag n k then some (c.drop 16) else none

theorem length_roleTag (n : Nonce) (k : BoxKey) : (roleTag n k).length = boxOverhead := by
  simp [roleTag, n.2, boxOverhead]

theorem roleBox_ideal : roleBox.Ideal :=
  .of_tag length_roleTag (fun _ _ _ => rfl) (fun _ _ _ => rfl) tagBox_ideal.precompute_comm

theorem roleBox_tellsRoles : roleBox.TellsRoles := by
  intro m m' round role role' k h
  have hdrop : ∀ role : UInt8, (convoNonce round role).1.drop 23 = [role] := fun role => by
    simp [convoNonce, List.drop_append]
  have htags := (List.append_inj h ((length_roleTag _ k).trans (length_roleTag _ k).symm)).1
  have hroles := (List.append_inj' htags (by rw [hdrop, hdrop]; rfl)).2
  rw [hdrop, hdrop] at hroles
  exact List.singleton_inj.mp hroles

/-- A conversation, by the first bytes of the two keys. -/
def sampleTalk (me peer : UInt8) : Conversation :=
  .init samplePki (sampleKey peer) (sampleKey me) (sampleKey me)

/-- The conversation after its request of round 5, which sends the time. -/
def sampleAsked (me peer : UInt8) : Conversation :=
  ((sampleTalk me peer).nextConvoRequest roleBox sampleHmac sampleRequest 0 5).2

theorem samplePeers (me peer : UInt8) : Peers roleBox (sampleTalk peer me) (sampleAsked me peer) :=
  ⟨rfl, rfl, rfl, rfl⟩

/-- The servers bring it a ciphertext for that round. -/
theorem sampleAsked_carries (me peer : UInt8) (ctxt : Bytes) :
    ∃ (r : ConvoResponse) (pr : PendingRound), r.round = 5 ∧
      (sampleAsked me peer).pendingRounds r.round = some pr ∧
      pr.sentMessage = (sampleAsked me peer).encryptedMessage roleBox (.timestamp 0) r.round ∧
      (sampleAsked me peer).ciphertext roleBox r = some ctxt := by
  obtain ⟨pr, hpr, hsent⟩ := Option.map_eq_some_iff.mp
    (Conversation.sentMessage_nextConvoRequest roleBox sampleHmac (sampleTalk me peer) 5
      sampleRequest 0)
  have hbody : ((sampleTalk me peer).nextBody 0).1 = .timestamp 0 := rfl
  have hkeys : (sampleAsked me peer).identity = (sampleTalk me peer).identity := rfl
  rw [hbody, ← Conversation.encryptedMessage_of_identity hkeys] at hsent
  exact ⟨⟨5, wrapReply roleBox (backwardNonce 5) pr.onionSharedKeys ctxt⟩, pr, rfl, hpr, hsent,
    ciphertext_wrapReply roleBox_ideal hpr ctxt⟩

/-- A text of the peer arrives whole. -/
theorem peers_agree_sample :
    ∃ r c', (sampleAsked 1 2).handleConvoResponse roleBox 0 r = .ok (some [104, 105], c') ∧
      c'.lastPeerResponding = true := by
  obtain ⟨r, pr, hround, hpr, hsent, hcarries⟩ := sampleAsked_carries 1 2
    ((sampleTalk 2 1).encryptedMessage roleBox (.text [104, 105]) 5).1
  obtain ⟨hpeers, -, hshown⟩ := peers_agree roleBox_ideal roleBox_tellsRoles
  obtain ⟨-, -, hreceived⟩ := hpeers _ _ (samplePeers 1 2) (by decide) r.round
  obtain ⟨c', hhandle, hresponding⟩ := (hreceived (.text [104, 105]) (.timestamp 0) 0 r pr rfl
    hpr hsent).1 (by rw [hround]; exact hcarries)
  rw [(hshown [104, 105]).mpr ⟨by decide, by decide⟩] at hhandle
  exact ⟨r, c', hhandle, hresponding⟩

/-- A text of 240 bytes arrives without its last byte. -/
theorem long_text_cut :
    ∃ (a b : Conversation) (pr : PendingRound) (r : ConvoResponse) (text shown : Bytes)
      (b' : Conversation), Peers roleBox a b ∧ a.myPublicKey ≠ b.myPublicKey ∧
      b.pendingRounds r.round = some pr ∧
      pr.sentMessage = b.encryptedMessage roleBox (.timestamp 0) r.round ∧
      b.ciphertext roleBox r = some (a.encryptedMessage roleBox (.text text) r.round).1 ∧
      b.handleConvoResponse roleBox 0 r = .ok (some shown, b') ∧ shown ≠ text := by
  obtain ⟨text, hlong⟩ : ∃ text : Bytes, text.length = 240 :=
    ⟨List.replicate 240 1, List.length_replicate⟩
  obtain ⟨r, pr, hround, hpr, hsent, hcarries⟩ := sampleAsked_carries 1 2
    ((sampleTalk 2 1).encryptedMessage roleBox (.text text) 5).1
  rw [← hround] at hcarries
  have hne : (sampleTalk 2 1).myPublicKey ≠ (sampleAsked 1 2).myPublicKey := by decide
  have hother := (samplePeers 1 2).encryptedMessage_ne roleBox_ideal roleBox_tellsRoles
    hne r.round (.text text) (.timestamp 0)
  obtain ⟨b', hhandle, -⟩ := (samplePeers 1 2).received roleBox_ideal (.text text) hpr hcarries
    (fun hown => hother (hsent ▸ hown.1)) 0
  refine ⟨_, _, pr, r, text, _, b', samplePeers 1 2, hne, hpr, hsent, hcarries, hhandle,
    fun hcut => ?_⟩
  have hlen := (shown_eq_text_iff.mp hcut).1
  rw [hlong] at hlen
  exact absurd hlen (by decide)

end Vuvuzela
