import Vuvuzela.Client.Delivery
import Vuvuzela.Client.Messages

/-!
# Client — what a client shows as its peer's

Clients side by side, and an adversary between them that is every server of the system: it
announces any rounds and answers with any bytes, among them whatever the clients sent.  It cannot
make a box (`Unforged`): what opens under a key pair and a nonce was sealed under them, by one of
the clients.  This is the assumption on `nacl/box`, and the only one on the adversary.

A text that is shown in a round was sealed for that round by the peer, in the peer's role, and a
peer counts as responding only when it sealed the message of the round (`shown_authentic`).  The
own messages of a client have its own role in their nonces, so none of them opens as the peer's.
-/

namespace Vuvuzela
open Support

variable {box : NaclBox} {hmac : Hmac}

/-! ### Who a conversation is between -/

/-- The keys of a conversation: its own public one, the peer's, and its private one. -/
def Conversation.identity (c : Conversation) : BoxKey × BoxKey × BoxKey :=
  (c.myPublicKey, c.peerPublicKey, c.myPrivateKey)

namespace Conversation

variable {c c' : Conversation}

theorem Handled.identity {now : Time} {r : ConvoResponse} {text : Option Bytes}
    (h : Handled box now r c text c') : c'.identity = c.identity := by
  cases h with
  | ignored => rfl
  | @received _ _ msg => cases msg <;> rfl

theorem myRole_of_identity (h : c'.identity = c.identity) : c'.myRole = c.myRole := by
  simp only [identity, Prod.mk.injEq] at h
  rw [myRole, myRole, h.1, h.2.1]

theorem theirRole_ne (hkeys : c.myPublicKey ≠ c.peerPublicKey) : c.theirRole ≠ c.myRole := by
  let mirror : Conversation :=
    { c with myPublicKey := c.peerPublicKey, peerPublicKey := c.myPublicKey }
  have hmirror : c.myRole ≠ mirror.myRole := myRole_ne hkeys rfl rfl
  exact fun e => hmirror e.symm

end Conversation

/-- What a step does to the conversations: nothing, a call on one of them that leaves its keys and
the note that the peer responds, or the handling of a response. -/
inductive Called (box : NaclBox) (s : ClientState) : ClientEvent → (Nat → Conversation) → Prop where
  | same {ev : ClientEvent} (hev : ∀ convo r text, ev ≠ .handled convo r text) :
      Called box s ev s.convos
  | kept {ev : ClientEvent} {k : Nat} {c : Conversation}
      (hev : ∀ convo r text, ev ≠ .handled convo r text)
      (hid : c.identity = (s.convos k).identity)
      (hresponding : c.lastPeerResponding = (s.convos k).lastPeerResponding) :
      Called box s ev (Function.update s.convos k c)
  | handled {k : Nat} {now : Time} {r : ConvoResponse} {text : Option Bytes} {c : Conversation}
      (h : Conversation.Handled box now r (s.convos k) text c) :
      Called box s (.handled k r text) (Function.update s.convos k c)

theorem ClientStep.called {s s' : ClientState} {ev : ClientEvent}
    (hstep : ClientStep box hmac s ev s') : Called box s ev s'.convos := by
  cases hstep with
  | queue hq =>
      rw [Conversation.queueTextMessage] at hq
      split at hq
      · cases hq
        exact .kept (by rintro _ _ _ ⟨⟩) rfl rfl
      · cases hq
  | @request i round hi convo hconvo coins now =>
      refine .kept (by rintro _ _ _ ⟨⟩) ?_ ?_ <;>
        simp only [Conversation.nextConvoRequest, Conversation.nextBody] <;> split <;> rfl
  | handle _ _ hres => exact .handled (Conversation.handled_of_ok hres)
  | _ => exact .same (by rintro _ _ _ ⟨⟩)

/-- No step changes the keys of a conversation. -/
theorem Called.identity {s : ClientState} {ev : ClientEvent} {convos : Nat → Conversation}
    (h : Called box s ev convos) (j : Nat) : (convos j).identity = (s.convos j).identity := by
  have hupd : ∀ {k : Nat} {c : Conversation}, c.identity = (s.convos k).identity →
      (Function.update s.convos k c j).identity = (s.convos j).identity := by
    intro k c hc
    by_cases hj : j = k
    · subst hj
      rw [Function.update_self, hc]
    · rw [Function.update_of_ne hj]
  cases h with
  | same => rfl
  | kept _ hid => exact hupd hid
  | handled hh => exact hupd hh.identity

/-- The peer is noted as responding because it was before, or because a message of it was just
opened. -/
theorem Called.responding {s : ClientState} {ev : ClientEvent} {convos : Nat → Conversation}
    (h : Called box s ev convos) {convo : Nat}
    (hafter : (convos convo).lastPeerResponding = true) :
    ((s.convos convo).lastPeerResponding = true ∧
        ∀ response text, ev ≠ .handled convo response text) ∨
      ∃ response text ctxt msgdata, ev = .handled convo response text ∧
        (s.convos convo).ciphertext box response = some ctxt ∧
        (s.convos convo).open box ctxt response.round (s.convos convo).theirRole =
          some msgdata := by
  cases h with
  | same hev => exact .inl ⟨hafter, hev convo⟩
  | @kept _ k c hev _ hresponding =>
      refine .inl ⟨?_, hev convo⟩
      by_cases hk : convo = k
      · subst hk
        rw [Function.update_self] at hafter
        exact hresponding ▸ hafter
      · rwa [Function.update_of_ne hk] at hafter
  | @handled k now response text c hh =>
      by_cases hk : convo = k
      · subst hk
        rw [Function.update_self] at hafter
        cases hh with
        | ignored => cases hafter
        | @received ctxt msgdata msg hctxt hopen =>
            exact .inr ⟨response, _, ctxt, msgdata, rfl, hctxt, hopen⟩
      · rw [Function.update_of_ne hk] at hafter
        refine .inl ⟨hafter, fun _ _ e => ?_⟩
        cases e
        exact hk rfl

/-- A text is shown out of a message that was just opened. -/
theorem Called.shown {s : ClientState} {convos : Nat → Conversation} {convo : Nat}
    {response : ConvoResponse} {text : Bytes}
    (h : Called box s (.handled convo response (some text)) convos) :
    ∃ ctxt msgdata m, (s.convos convo).ciphertext box response = some ctxt ∧
      (s.convos convo).open box ctxt response.round (s.convos convo).theirRole = some msgdata ∧
      ConvoMessage.unmarshal msgdata = .ok (some (.text m)) ∧ text = m.rdropWhile (· = 0) := by
  cases h with
  | same hev | kept hev => exact absurd rfl (hev _ _ _)
  | @handled _ _ _ _ c hh =>
      generalize hshown : some text = shown at hh
      cases hh with
      | ignored => cases hshown
      | @received ctxt msgdata msg hctxt hopen hmsg =>
          cases msg with
          | timestamp => cases hshown
          | text m => exact ⟨ctxt, msgdata, m, hctxt, hopen, hmsg, Option.some.inj hshown⟩

/-- Every call of `box.Seal` is that of a request, by a conversation with the keys it has now. -/
theorem nextSeal_of_requested {C : List ClientEvent → ClientState → ClientEvent → Prop}
    {h : List ClientEvent} {s : ClientState} (run : (clientSystem box hmac).Run C h s) :
    ∀ convo round call, .requested convo round call ∈ h →
      ∃ c now, Conversation.identity c = (s.convos convo).identity ∧
        call = c.nextSeal now round := by
  refine run.invariant (I := fun h s => ∀ convo round call, .requested convo round call ∈ h →
    ∃ c now, Conversation.identity c = (s.convos convo).identity ∧ call = c.nextSeal now round)
    nofun ?_
  rintro h s ev s' ih - ⟨-, hstep⟩ convo round call hmem
  rw [hstep.called.identity]
  rcases List.mem_append.mp hmem with hold | hnew
  · exact ih convo round call hold
  · obtain rfl := List.mem_singleton.mp hnew
    cases hstep with
    | @request _ _ _ _ _ coins now => exact ⟨s.convos convo, now, rfl, rfl⟩

/-! ### The adversary -/

section Clients

variable {ι : Type} [DecidableEq ι]

/-- The clients, side by side. -/
def clients (ι : Type) [DecidableEq ι] (box : NaclBox) (hmac : Hmac) :
    System (ι → ClientState) (ι × ClientEvent) :=
  System.family fun _ => clientSystem box hmac

/-- A call of `box.Seal` under the key pair with which a conversation opens, from either side. -/
def SealCall.Between (box : NaclBox) (call : SealCall) (c : Conversation) : Prop :=
  box.publicKey call.privateKey = c.peerPublicKey ∧
      call.peersPublicKey = box.publicKey c.myPrivateKey ∨
    box.publicKey call.privateKey = box.publicKey c.myPrivateKey ∧
      call.peersPublicKey = c.peerPublicKey

/-- **The assumption on `nacl/box`.**  What a conversation opens was made by a call of `box.Seal`
with the same key pair and the same nonce, in one of the clients. -/
def Unforged (box : NaclBox) (h : List (ι × ClientEvent)) (s : ι → ClientState)
    (l : ι × ClientEvent) : Prop :=
  ∀ convo response ctxt msgdata, l.2.delivered? = some (convo, response) →
    ((s l.1).convos convo).ciphertext box response = some ctxt →
    ((s l.1).convos convo).open box ctxt response.round ((s l.1).convos convo).theirRole =
      some msgdata →
    ∃ j convo' round call, (j, .requested convo' round call) ∈ h ∧ call.run box = ctxt ∧
      call.nonce = convoNonce response.round ((s l.1).convos convo).theirRole ∧
      call.Between box ((s l.1).convos convo)

/-- Public keys belong to the private ones. -/
def KeyPairs (box : NaclBox) (s : ι → ClientState) : Prop :=
  ∀ j convo, ((s j).convos convo).myPublicKey = box.publicKey ((s j).convos convo).myPrivateKey

/-- The peer of a conversation made the ciphertext, by a call for the round and in its own
role. -/
structure FromPeer (box : NaclBox) (h : List (ι × ClientEvent)) (s : ι → ClientState)
    (c : Conversation) (round : UInt32) (ctxt : Bytes) (call : SealCall) : Prop where
  peer : ∃ j convo, (j, .requested convo round call) ∈ h ∧
    ((s j).convos convo).myPublicKey = c.peerPublicKey ∧
    ((s j).convos convo).peerPublicKey = c.myPublicKey ∧
    call.nonce = convoNonce round ((s j).convos convo).myRole
  sealed : call.run box = ctxt
  not_own : call.privateKey ≠ c.myPrivateKey

section Runs

variable {C : List (ι × ClientEvent) → (ι → ClientState) → ι × ClientEvent → Prop}
  {h : List (ι × ClientEvent)} {s s' : ι → ClientState} {l : ι × ClientEvent}

theorem clients_nextSeal (run : (clients ι box hmac).Run C h s) {j : ι} {convo : Nat}
    {round : UInt32} {call : SealCall} (hmem : (j, .requested convo round call) ∈ h) :
    ∃ c now, Conversation.identity c = ((s j).convos convo).identity ∧
      call = c.nextSeal now round := by
  have hany : (clients ι box hmac).Run System.Any h s := run.mono fun _ _ _ _ => trivial
  exact nextSeal_of_requested (hany.only j) convo round call (System.mem_only.mpr hmem)

/-- No step changes a key. -/
theorem KeyPairs.step (hpairs : KeyPairs box s) (hstep : (clients ι box hmac).step s l s') :
    KeyPairs box s' := by
  intro j convo
  by_cases hj : j = l.1
  · subst hj
    have hid := hstep.1.2.called.identity convo
    simp only [Conversation.identity, Prod.mk.injEq] at hid
    rw [hid.1, hid.2.2]
    exact hpairs l.1 convo
  · rw [hstep.2 j hj]
    exact hpairs j convo

/-- A step that handles no response needs no assumption. -/
theorem quiet_step {t : ClientState} (i : ι) (ev : ClientEvent)
    (r : (clients ι box hmac).Run (Unforged box) h s ∧ KeyPairs box s)
    (hquiet : ev.delivered? = none) (hstep : (clientSystem box hmac).step (s i) ev t) :
    (clients ι box hmac).Run (Unforged box) (h ++ [(i, ev)]) (Function.update s i t) ∧
      KeyPairs box (Function.update s i t) := by
  have hfamily : (clients ι box hmac).step s (i, ev) (Function.update s i t) :=
    System.family_step hstep
  refine ⟨r.1.step ?_ hfamily, r.2.step hfamily⟩
  intro convo response ctxt msgdata hev
  cases hquiet.symm.trans hev

/-- **What opens in the peer's role is the peer's**: a call between the two that has the nonce of
the peer's role was made by the peer, and its message is what comes out. -/
theorem fromPeer_of_open (hbox : box.Ideal) (run : (clients ι box hmac).Run C h s)
    (hpairs : KeyPairs box s) (hnext : Unforged box h s l) {convo : Nat}
    (hother : ((s l.1).convos convo).myPublicKey ≠ ((s l.1).convos convo).peerPublicKey)
    {response : ConvoResponse} (hev : l.2.delivered? = some (convo, response))
    {ctxt msgdata : Bytes}
    (hctxt : ((s l.1).convos convo).ciphertext box response = some ctxt)
    (hopen : ((s l.1).convos convo).open box ctxt response.round
      ((s l.1).convos convo).theirRole = some msgdata) :
    ∃ call body, FromPeer box h s ((s l.1).convos convo) response.round ctxt call ∧
      call.message = msgdata ∧ msgdata = (ConvoMessage.marshal body).1 := by
  obtain ⟨j, convo', round, call, hmem, hrun, hnonce, hbetween⟩ :=
    hnext convo response ctxt msgdata hev hctxt hopen
  obtain ⟨c', now, hid, rfl⟩ := clients_nextSeal run hmem
  have hmine := hpairs l.1 convo
  generalize hc : (s l.1).convos convo = c at *
  have htheirs := hpairs j convo'
  have hrole := Conversation.myRole_of_identity hid
  simp only [Conversation.identity, Prod.mk.injEq] at hid
  obtain ⟨hmy, hpeer, hpriv⟩ := hid
  -- the nonce has the round of the response, and the role of the conversation that sealed
  obtain ⟨rfl, hrole'⟩ := convoNonce_inj hnonce
  have hpublic : ((s j).convos convo').myPublicKey = box.publicKey c'.myPrivateKey := by
    rw [htheirs, hpriv]
  rcases hbetween with ⟨hfrom, hto⟩ | ⟨hfrom, hto⟩
  · have hmirror : ((s j).convos convo').peerPublicKey = c.myPublicKey := by
      rw [← hpeer, hmine]
      exact hto
    have hkey : box.precompute c'.peerPublicKey c'.myPrivateKey =
        box.precompute c.peerPublicKey c.myPrivateKey := by
      have hcomm := hbox.precompute_comm c.myPrivateKey c'.myPrivateKey
      have hto' : c'.peerPublicKey = box.publicKey c.myPrivateKey := hto
      have hfrom' : box.publicKey c'.myPrivateKey = c.peerPublicKey := hfrom
      rw [hto', ← hfrom', hcomm]
    have hmessage : (c'.nextSeal now response.round).message = msgdata := by
      have hround := hbox.open_seal (c'.nextSeal now response.round).message
        (c'.nextSeal now response.round).nonce (box.precompute c.peerPublicKey c.myPrivateKey)
      have hsame : box.sealAfterPrecomputation (c'.nextSeal now response.round).message
          (c'.nextSeal now response.round).nonce
          (box.precompute c.peerPublicKey c.myPrivateKey) = ctxt := by
        rw [← hkey]
        exact hrun
      rw [hsame, hnonce] at hround
      exact Option.some.inj (hround.symm.trans hopen)
    refine ⟨_, (c'.nextBody now).1, ⟨⟨j, convo', hmem, hpublic.trans hfrom, hmirror, ?_⟩, hrun, ?_⟩,
      hmessage, hmessage.symm⟩
    · rw [← hrole]
      rfl
    · intro hown
      refine hother ?_
      rw [hmine, ← hown]
      exact hfrom
  · -- from the own side the role would be the own one
    refine absurd ?_ (Conversation.theirRole_ne hother)
    have hown : c'.myRole = c.myRole := by
      have hmy' : c'.myPublicKey = c.myPublicKey := by
        rw [hmy, hpublic, hmine]
        exact hfrom
      have hpeer' : c'.peerPublicKey = c.peerPublicKey := hto
      rw [Conversation.myRole, Conversation.myRole, hmy', hpeer']
    exact hrole'.symm.trans hown

/-- **Only the peer's texts are shown**, whatever the servers do.  A text shown for a round is
that of a message the peer sealed for the round in its own role, which no call of the conversation
itself has the nonce of; and the peer is noted as responding only on such a message. -/
theorem shown_authentic (hbox : box.Ideal) (run : (clients ι box hmac).Run (Unforged box) h s)
    (hpairs : KeyPairs box s) (hnext : Unforged box h s l)
    (hstep : (clients ι box hmac).step s l s') (convo : Nat)
    (hother : ((s l.1).convos convo).myPublicKey ≠ ((s l.1).convos convo).peerPublicKey) :
    (∀ response text, l.2 = .handled convo response (some text) →
      ∃ ctxt call sent, ((s l.1).convos convo).ciphertext box response = some ctxt ∧
        FromPeer box h s ((s l.1).convos convo) response.round ctxt call ∧
        call.message = (ConvoMessage.text sent).marshal.1 ∧
        text = (sent.take 239).rdropWhile (· = 0) ∧
        ∀ round own, (l.1, .requested convo round own) ∈ h → own.nonce ≠ call.nonce) ∧
    (((s' l.1).convos convo).lastPeerResponding = true →
      (((s l.1).convos convo).lastPeerResponding = true ∧
        ∀ response text, l.2 ≠ .handled convo response text) ∨
      ∃ response text ctxt call, l.2 = .handled convo response text ∧
        ((s l.1).convos convo).ciphertext box response = some ctxt ∧
        FromPeer box h s ((s l.1).convos convo) response.round ctxt call) := by
  have hclient : ClientStep box hmac (s l.1) l.2 (s' l.1) := hstep.1.2
  refine ⟨fun response text hev => ?_, fun hafter => ?_⟩
  · rw [hev] at hclient
    obtain ⟨ctxt, msgdata, m, hctxt, hopen, hmsg, rfl⟩ := hclient.called.shown
    obtain ⟨call, body, hfrom, hmessage, rfl⟩ :=
      fromPeer_of_open hbox run hpairs hnext hother (by rw [hev]; rfl) hctxt hopen
    obtain ⟨sent, rfl, htext⟩ := text_of_unmarshal hmsg
    refine ⟨ctxt, call, sent, hctxt, hfrom, hmessage, htext, fun round own hmem hsame => ?_⟩
    -- the peer's call has the peer's role in its nonce
    obtain ⟨c', now', hid, rfl⟩ := clients_nextSeal run hmem
    obtain ⟨j, convo', -, hmy, hpeer, hnonce⟩ := hfrom.peer
    have hroles := (convoNonce_inj (hsame.trans hnonce)).2
    rw [Conversation.myRole_of_identity hid] at hroles
    exact myRole_ne hother hmy hpeer hroles
  · rcases hclient.called.responding hafter with
      hold | ⟨response, text, ctxt, msgdata, hev, hctxt, hopen⟩
    · exact .inl hold
    · obtain ⟨call, body, hfrom, -⟩ :=
        fromPeer_of_open hbox run hpairs hnext hother (by rw [hev]; rfl) hctxt hopen
      exact .inr ⟨response, text, ctxt, call, hev, hctxt, hfrom⟩

end Runs

end Clients

/-! ### A text that arrives -/

/-- The two clients of a conversation; the first is the one that gets the text. -/
def sampleClients : Bool → ClientState
  | false => sampleClient 1 2
  | true => sampleClient 2 1

/-- The call of `box.Seal` with which the peer sends a text in round 5. -/
def samplePeerSeal : SealCall :=
  ⟨(ConvoMessage.text [104, 105]).marshal.1, convoNonce 5 1, sampleKey 1, sampleKey 2⟩

/-- The response to a sample request of round 5 that brings a ciphertext. -/
def sampleReply (ctxt : Bytes) : ConvoResponse :=
  ⟨5, samplePki.serverKeys.foldr (fun publicKey onion =>
    tagBox.sealAfterPrecomputation onion (backwardNonce 5)
      (tagBox.precompute publicKey (sampleKey 9))) ctxt⟩

/-- The conversation that waits for round 5, after it sent the time. -/
def sampleWaiting : Conversation :=
  ((sampleClient 1 2).convos 2 |>.nextConvoRequest tagBox sampleHmac sampleRequest 0 5).2

/-- What the pending entry of round 5 holds. -/
def samplePending : PendingRound :=
  ⟨(Onionbox.seal tagBox [] (forwardNonce 5) samplePki.serverKeys sampleRequest.keys).2,
    Block.copy sizeEncryptedMessage ((sampleSeal 5 (.timestamp 0)).run tagBox)⟩

theorem sampleWaiting_pending : sampleWaiting.pendingRounds 5 = some samplePending := by
  decide +kernel

theorem sampleReply_opens : Onionbox.open tagBox (backwardNonce 5) samplePending.onionSharedKeys
    (sampleReply (samplePeerSeal.run tagBox)).onion = some (samplePeerSeal.run tagBox) := by
  decide +kernel

/-- The first client's conversation with the peer, while it waits for round 5. -/
structure SampleWaits (c : Conversation) : Prop where
  identity : c.identity = (sampleKey 1, sampleKey 2, sampleKey 1)
  pending : c.pendingRounds 5 = some samplePending

theorem sampleWaiting_waits : SampleWaits sampleWaiting := ⟨rfl, sampleWaiting_pending⟩

namespace SampleWaits

variable {c : Conversation}

theorem theirRole (hc : SampleWaits c) : c.theirRole = 1 := by
  have hid := hc.identity
  simp only [Conversation.identity, Prod.mk.injEq] at hid
  rw [Conversation.theirRole, hid.1, hid.2.1]
  decide

theorem ciphertext (hc : SampleWaits c) :
    c.ciphertext tagBox (sampleReply (samplePeerSeal.run tagBox)) =
      some (samplePeerSeal.run tagBox) := by
  have hpending : c.pendingRounds (sampleReply (samplePeerSeal.run tagBox)).round =
      some samplePending := hc.pending
  rw [Conversation.ciphertext, hpending]
  exact sampleReply_opens

/-- The text arrives. -/
theorem handle (hc : SampleWaits c) :
    c.handleConvoResponse tagBox 0 (sampleReply (samplePeerSeal.run tagBox)) =
      .ok (some [104, 105], { c.taken 5 with lastPeerResponding := true }) := by
  have hid := hc.identity
  simp only [Conversation.identity, Prod.mk.injEq] at hid
  obtain ⟨-, hpeer, hpriv⟩ := hid
  have hopen : c.open tagBox (samplePeerSeal.run tagBox) 5 c.theirRole =
      some samplePeerSeal.message := by
    rw [Conversation.open, hc.theirRole, hpeer, hpriv]
    decide +kernel
  have hmsg : ConvoMessage.unmarshal samplePeerSeal.message =
      .ok (some (.text (Block.copy 239 [104, 105]).1)) := by decide +kernel
  have hown : samplePeerSeal.run tagBox ≠ samplePending.sentMessage.1 := by decide +kernel
  refine (Conversation.handleConvoResponse_of_open
    (r := sampleReply (samplePeerSeal.run tagBox)) hc.pending sampleReply_opens
    (fun h => hown h.1) hopen hmsg).trans ?_
  rw [Conversation.receive, rdropWhile_copy]
  rfl

end SampleWaits

/-- The peer sends a text, and the servers bring it. -/
theorem shown_authentic_sample :
    ∃ h s s', (clients Bool tagBox sampleHmac).Run (Unforged tagBox) h s ∧
      (clients Bool tagBox sampleHmac).step s
        (false, .handled 2 (sampleReply (samplePeerSeal.run tagBox)) (some [104, 105])) s' ∧
      ∃ ctxt call sent, FromPeer tagBox h s ((s false).convos 2) 5 ctxt call ∧
        call.message = (ConvoMessage.text sent).marshal.1 ∧
        [104, 105] = (sent.take 239).rdropWhile (· = 0) := by
  have r₀ : (clients Bool tagBox sampleHmac).Run (Unforged tagBox) [] sampleClients ∧
      KeyPairs tagBox sampleClients :=
    ⟨.init fun i => by cases i <;> exact sampleClient_init _ _, fun i _ => by cases i <;> rfl⟩
  have r₁ := quiet_step true (.queued 1 [104, 105]) r₀ rfl ⟨rfl, .queue rfl⟩
  have r₂ := quiet_step true (.announced 5) r₁ rfl ⟨rfl, .announce (i := 0) rfl 5⟩
  have r₃ := quiet_step true (.requested 1 5 samplePeerSeal) r₂ rfl
    ⟨rfl, .request (i := 0) rfl rfl sampleRequest 0⟩
  have r₄ := quiet_step false (.announced 5) r₃ rfl ⟨rfl, .announce (i := 0) rfl 5⟩
  have r₅ := quiet_step false (.requested 2 5 (sampleSeal 5 (.timestamp 0))) r₄ rfl
    ⟨rfl, .request (i := 0) rfl rfl sampleRequest 0⟩
  have r₆ := quiet_step false (.sent 2 (sampleConvoRequest 2 5)) r₅ rfl
    ⟨rfl, .send (i := 0) rfl⟩
  have r₇ := quiet_step false (.found 2 (sampleReply (samplePeerSeal.run tagBox))) r₆ rfl
    ⟨rfl, .find (i := 0) rfl rfl⟩
  have hlast := fun {s' : Bool → ClientState}
    (last : (clients Bool tagBox sampleHmac).step _ (false, .handled 2
      (sampleReply (samplePeerSeal.run tagBox)) (some [104, 105])) s') =>
    And.intro last ((shown_authentic tagBox_ideal r₇.1 r₇.2
      (fun convo response ctxt msgdata hev hctxt _ => by
        cases hev
        have hsame := Option.some.inj (sampleWaiting_waits.ciphertext.symm.trans hctxt)
        exact ⟨true, 1, 5, samplePeerSeal, by simp, hsame, rfl, .inl ⟨rfl, rfl⟩⟩)
      last 2 (by decide)).1 _ _ rfl)
  obtain ⟨hstep, ctxt, call, sent, -, hfrom, hmessage, htext, -⟩ :=
    hlast (System.family_step ⟨rfl, .handle (i := 0) rfl 0 sampleWaiting_waits.handle⟩)
  exact ⟨_, _, _, r₇.1, hstep, ctxt, call, sent, hfrom, hmessage, htext⟩

end Vuvuzela
