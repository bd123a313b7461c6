import Vuvuzela.Client.Authentic

/-!
# Client — how often a text is shown

A response takes the pending entry of its round, and a text is shown only out of a round that is
pending.  So a conversation shows a second text for a round only if it made another request for
it after the first.  In every run in which it does not (`NotAgain`), each ciphertext is shown at
most once (`shown_once`).

The client takes part in a round as often as the entry server announces it.  An entry server that
announces a round again, and answers with the ciphertext of the first time, has the text shown
again (`shown_twice`).
-/

namespace Vuvuzela
open Support

variable {box : NaclBox} {hmac : Hmac}

/-- The conversation shows what it takes out of a response, and this is what the call sealed: it
opens under the nonce of the call. -/
def Displays (box : NaclBox) (convo : Nat) (call : SealCall) (l : ClientState × ClientEvent) :
    Prop :=
  ∃ response text, l.2 = .handled convo response (some text) ∧
    (l.1.convos convo).ciphertext box response = some (call.run box) ∧
    call.nonce = convoNonce response.round (l.1.convos convo).theirRole

/-- A conversation makes no request for a round of which it has shown a text. -/
def NotAgain (h : List (ClientState × ClientEvent)) (_ : ClientState)
    (l : ClientState × ClientEvent) : Prop :=
  ∀ convo round call, l.2 = .requested convo round call →
    ∀ t response text, (t, .handled convo response (some text)) ∈ h → response.round ≠ round

/-- The two steps show texts of different rounds, if both show one in the conversation. -/
def OtherRounds (convo : Nat) (l l' : ClientState × ClientEvent) : Prop :=
  ∀ response text response' text', l.2 = .handled convo response (some text) →
    l'.2 = .handled convo response' (some text') → response.round ≠ response'.round

/-- A round of which a text was shown is not pending any more, and no round has two texts. -/
structure ShownOnce (h : List (ClientState × ClientEvent)) (s : ClientState) : Prop where
  taken : ∀ convo t response text, (t, .handled convo response (some text)) ∈ h →
    (s.convos convo).pendingRounds response.round = none
  rounds : ∀ convo, h.Pairwise (OtherRounds convo)

/-! ### One step -/

/-- A step makes a round pending only by a request for it. -/
theorem ClientStep.pending_none {s s' : ClientState} {ev : ClientEvent}
    (hstep : ClientStep box hmac s ev s') {convo : Nat} {round : UInt32}
    (hno : ∀ call, ev ≠ .requested convo round call)
    (hnone : (s.convos convo).pendingRounds round = none) :
    (s'.convos convo).pendingRounds round = none := by
  have hupd : ∀ {k : Nat} {c : Conversation}, (convo = k → c.pendingRounds round = none) →
      (Function.update s.convos k c convo).pendingRounds round = none := by
    intro k c hc
    by_cases hk : convo = k
    · subst hk
      rw [Function.update_self]
      exact hc rfl
    · rwa [Function.update_of_ne hk]
  cases hstep with
  | queue hq =>
      refine hupd fun e => ?_
      subst e
      rw [(Conversation.sameKeys_queueTextMessage hq).2]
      exact hnone
  | @request i r hi k hk coins now =>
      refine hupd fun e => ?_
      subst e
      have hne : round ≠ r := fun e => hno _ (by rw [e])
      rw [Conversation.pendingRounds_nextConvoRequest.2 round hne]
      exact hnone
  | @handle i k response hi now text c hres =>
      refine hupd fun e => ?_
      subst e
      rw [(Conversation.handleConvoResponse_frame hres).2]
      by_cases hr : round = response.round
      · rw [hr, Function.update_self]
      · rwa [Function.update_of_ne hr]
  | _ => exact hnone

/-- A text is shown out of a pending round, which is not pending afterwards. -/
theorem ClientStep.shown_pending {s s' : ClientState} {convo : Nat} {response : ConvoResponse}
    {text : Bytes} (hstep : ClientStep box hmac s (.handled convo response (some text)) s') :
    (s.convos convo).pendingRounds response.round ≠ none ∧
      (s'.convos convo).pendingRounds response.round = none := by
  constructor
  · obtain ⟨ctxt, msgdata, m, hctxt, -⟩ := hstep.called.shown
    intro hnone
    rw [Conversation.ciphertext, hnone] at hctxt
    cases hctxt
  · cases hstep with
    | handle _ _ hres =>
        simp only [Function.update_self]
        rw [(Conversation.handleConvoResponse_frame hres).2, Function.update_self]

/-- **One step.**  Where no round is asked for again after its text was shown, no text of the round
is shown again. -/
theorem ShownOnce.step {h : List (ClientState × ClientEvent)} {s s' : ClientState}
    {ev : ClientEvent} (hI : ShownOnce h s) (hc : NotAgain h s (s, ev))
    (hstep : ClientStep box hmac s ev s') : ShownOnce (h ++ [(s, ev)]) s' := by
  refine ⟨fun convo t response text hmem => ?_, fun convo => ?_⟩
  · rcases List.mem_append.mp hmem with hold | hnew
    · refine hstep.pending_none (fun call e => ?_) (hI.taken convo t response text hold)
      exact hc convo response.round call e t response text hold rfl
    · cases List.mem_singleton.mp hnew
      exact hstep.shown_pending.2
  · refine List.pairwise_append.mpr ⟨hI.rounds convo, List.pairwise_singleton _ _, ?_⟩
    intro l hl l' hl'
    obtain rfl := List.mem_singleton.mp hl'
    intro response text response' text' hev hev' hround
    obtain ⟨t, ev₀⟩ := l
    obtain rfl : ev₀ = _ := hev
    obtain rfl : ev = _ := hev'
    -- the earlier text took the entry, and the later one needs it
    have hnone := hI.taken convo t response text hl
    rw [hround] at hnone
    exact hstep.shown_pending.1 hnone

theorem shownOnce_of_run {h : List (ClientState × ClientEvent)} {s : ClientState}
    (run : (clientSystem box hmac).traced.Run NotAgain h s) : ShownOnce h s := by
  refine run.invariant (fun s _ => ⟨fun _ _ _ _ => nofun, fun _ => .nil⟩) ?_
  rintro h s ⟨t, ev⟩ s' hI hc ⟨rfl, -, hstep⟩
  exact hI.step hc hstep

/-! ### Every run -/

/-- **A message is shown at most once**, in every run in which no conversation asks for a round
again after it has shown a text of it: a conversation shows one text at most for each round, and
what a call of `box.Seal` made is shown by one step at most. -/
theorem shown_once {h : List (ClientState × ClientEvent)} {s : ClientState}
    (run : (clientSystem box hmac).traced.Run NotAgain h s) (convo : Nat) :
    h.Pairwise (OtherRounds convo) ∧
    ∀ call, h.Pairwise fun l l' => ¬ (Displays box convo call l ∧ Displays box convo call l') := by
  have hrounds := (shownOnce_of_run run).rounds convo
  refine ⟨hrounds, fun call => hrounds.imp ?_⟩
  rintro l l' hother ⟨⟨response, text, hev, -, hnonce⟩, ⟨response', text', hev', -, hnonce'⟩⟩
  exact hother response text response' text' hev hev'
    (convoNonce_inj (hnonce.symm.trans hnonce')).1

/-! ### A round announced again -/

/-- The first client between two rounds, in the conversation with the peer and with nothing to
send. -/
structure SampleIdle (s : ClientState) : Prop where
  up : s.up = true
  done : s.pool 0 = .done
  handler : s.client.convoHandler = 2
  pki : (s.convos 2).pki = samplePki
  identity : (s.convos 2).identity = (sampleKey 1, sampleKey 2, sampleKey 1)
  queue : (s.convos 2).outQueue = []

theorem sampleClient_idle : SampleIdle (sampleClient 1 2) := ⟨rfl, rfl, rfl, rfl, rfl, rfl⟩

/-- The request of round 5 sends the time, and leaves the conversation waiting. -/
theorem SampleIdle.waits {s : ClientState} (hs : SampleIdle s) :
    SampleWaits ((s.convos 2).nextConvoRequest tagBox sampleHmac sampleRequest 0 5).2 := by
  have hid := hs.identity
  have hpki := hs.pki
  have hqueue := hs.queue
  generalize s.convos 2 = c at hid hpki hqueue
  have hseal : c.seal tagBox (c.nextBody 0).1.marshal.1 5 c.myRole =
      (sampleSeal 5 (.timestamp 0)).run tagBox := by
    simp only [Conversation.identity, Prod.mk.injEq] at hid
    obtain ⟨hmy, hpeer, hpriv⟩ := hid
    have hbody : (c.nextBody 0).1 = .timestamp 0 := by
      rw [Conversation.nextBody, hqueue]
      rfl
    rw [Conversation.seal, Conversation.sealCall, Conversation.myRole, hbody, hmy, hpeer, hpriv]
    rfl
  refine ⟨?_, ?_⟩
  · simp only [Conversation.nextConvoRequest, Conversation.nextBody, hqueue]
    exact hid
  · simp only [Conversation.nextConvoRequest, Function.update_self, hpki, hseal]
    rw [samplePending, Onionbox.seal_keys]

/-- The request leaves the servers' keys and the empty queue. -/
theorem SampleIdle.kept {s : ClientState} (hs : SampleIdle s) :
    ((s.convos 2).nextConvoRequest tagBox sampleHmac sampleRequest 0 5).2.pki = samplePki ∧
      ((s.convos 2).nextConvoRequest tagBox sampleHmac sampleRequest 0 5).2.outQueue = [] := by
  simp only [Conversation.nextConvoRequest, Conversation.nextBody, hs.queue]
  exact ⟨hs.pki, trivial⟩

/-- **One round.**  From any state between two rounds, the entry server announces round 5 and
brings the peer's ciphertext, and the text is shown. -/
theorem SampleIdle.round
    {C : List (ClientState × ClientEvent) → ClientState → ClientState × ClientEvent → Prop}
    {h : List (ClientState × ClientEvent)} {s : ClientState}
    (run : (clientSystem tagBox sampleHmac).traced.Run C h s) (hs : SampleIdle s)
    (hC : ∀ h' t ev, (∀ l ∈ h', l ∈ h ∨ l.2.delivered? = none) → C h' t (t, ev)) :
    ∃ h' s', (clientSystem tagBox sampleHmac).traced.Run C (h ++ h') s' ∧ SampleIdle s' ∧
      ∃ l ∈ h', Displays tagBox 2 samplePeerSeal l := by
  -- up to the response the history has nothing new that shows a text
  let Quiet (h' : List (ClientState × ClientEvent)) : Prop :=
    ∀ l ∈ h', l ∈ h ∨ l.2.delivered? = none
  have go : ∀ {h' : List (ClientState × ClientEvent)} {t t' : ClientState} (ev : ClientEvent),
      (clientSystem tagBox sampleHmac).traced.Run C h' t ∧ Quiet h' → ev.delivered? = none →
      (clientSystem tagBox sampleHmac).step t ev t' →
      (clientSystem tagBox sampleHmac).traced.Run C (h' ++ [(t, ev)]) t' ∧
        Quiet (h' ++ [(t, ev)]) := by
    intro h' t t' ev r hev hstep
    refine ⟨r.1.step (hC h' t ev r.2) ⟨rfl, hstep⟩, fun l hl => ?_⟩
    rcases List.mem_append.mp hl with hmem | hmem
    · exact r.2 l hmem
    · cases List.mem_singleton.mp hmem
      exact .inr hev
  have r₁ := go (.announced 5) ⟨run, fun _ => .inl⟩ rfl ⟨hs.up, .announce (i := 0) hs.done 5⟩
  have r₂ := go (.requested 2 5 _) r₁ rfl
    ⟨hs.up, .request (i := 0) rfl (by exact hs.handler) sampleRequest 0⟩
  have r₃ := go (.sent 2 _) r₂ rfl ⟨hs.up, .send (i := 0) rfl⟩
  have r₄ := go (.found 2 (sampleReply (samplePeerSeal.run tagBox))) r₃ rfl
    ⟨hs.up, .find (i := 0) rfl (by exact congrArg some hs.handler)⟩
  have hwaits : ∀ {c : Conversation}, c = ((s.convos 2).nextConvoRequest tagBox sampleHmac
      sampleRequest 0 5).2 → SampleWaits c := fun e => e ▸ hs.waits
  have r₅ := r₄.1.step (hC _ _ _ r₄.2) ⟨rfl, hs.up, .handle (i := 0) rfl 0 (hwaits rfl).handle⟩
  simp only [List.append_assoc] at r₅
  obtain ⟨hpki, hqueue⟩ := hs.kept
  refine ⟨_, _, r₅, ⟨hs.up, rfl, hs.handler, hpki, hs.waits.identity, hqueue⟩, _,
    List.mem_append_right _ (List.mem_append_right _ (List.mem_append_right _
      (List.mem_append_right _ List.mem_cons_self))),
    sampleReply (samplePeerSeal.run tagBox), [104, 105], rfl, hs.waits.ciphertext, ?_⟩
  exact congrArg (convoNonce 5) hs.waits.theirRole.symm

/-- A text is shown once. -/
theorem shown_once_sample :
    ∃ h s, (clientSystem tagBox sampleHmac).traced.Run NotAgain h s ∧
      (∃ l ∈ h, Displays tagBox 2 samplePeerSeal l) ∧
      h.Pairwise fun l l' =>
        ¬ (Displays tagBox 2 samplePeerSeal l ∧ Displays tagBox 2 samplePeerSeal l') := by
  have hfresh : ∀ (h' : List (ClientState × ClientEvent)) (t : ClientState) (ev : ClientEvent),
      (∀ l ∈ h', l ∈ [] ∨ l.2.delivered? = none) → NotAgain h' t (t, ev) := by
    intro h' t ev hquiet convo round call _ t' response text hmem
    rcases hquiet _ hmem with hold | hnone
    · cases hold
    · cases hnone
  obtain ⟨h, s, run, -, hshown⟩ :=
    sampleClient_idle.round (.init (sampleClient_init 1 2)) hfresh
  exact ⟨_, s, run, hshown, (shown_once run 2).2 samplePeerSeal⟩

/-- The entry server announces round 5, brings the peer's ciphertext, announces round 5 again and
brings the same ciphertext: the text is shown by two steps. -/
theorem shown_twice :
    ∃ h₁ h₂ s, (clientSystem tagBox sampleHmac).traced.Run System.Any (h₁ ++ h₂) s ∧
      (∃ l ∈ h₁, Displays tagBox 2 samplePeerSeal l) ∧
      ∃ l ∈ h₂, Displays tagBox 2 samplePeerSeal l := by
  obtain ⟨h₁, s₁, run₁, hidle, hshown₁⟩ := sampleClient_idle.round
    (.init (sampleClient_init 1 2)) (C := System.Any) fun _ _ _ _ => trivial
  obtain ⟨h₂, s₂, run₂, -, hshown₂⟩ := hidle.round run₁ fun _ _ _ _ => trivial
  exact ⟨_, h₂, s₂, run₂, hshown₁, hshown₂⟩

end Vuvuzela
