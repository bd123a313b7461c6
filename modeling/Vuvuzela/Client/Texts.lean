import Vuvuzela.Client.Gui

/-!
# Client — texts and whom they are for

Whatever the user types and whenever they switch, the texts typed while talking to someone are
sealed, in order and each at most once, for the key the PKI has for that name, and nothing else is
(`texts_to_peer`).
-/

namespace Vuvuzela
open Support

variable {box : NaclBox} {hmac : Hmac} {json : Json}

/-! ### Texts -/

/-- Whom the user talks to after an event, and the texts they typed for `p`. -/
def userStep (pki : PKI) (p : String) (st : String × List Bytes) : GuiEvent → String × List Bytes
  | .typed line =>
      match GuiLine.parse line with
      | .talk peer => if (pki.people.lookup peer).isSome then (peer, st.2) else st
      | .text msg => (st.1, if st.1 = p then st.2 ++ [msg] else st.2)
      | .quit | .dial _ => st
  | _ => st

/-- Whom the user talks to, and the texts they typed for `p`: at first they talk to themselves. -/
def userTexts (pki : PKI) (myName p : String) (h : List GuiEvent) : String × List Bytes :=
  h.foldl (userStep pki p) (myName, [])

theorem userTexts_concat (pki : PKI) (myName p : String) (h : List GuiEvent) (ev : GuiEvent) :
    userTexts pki myName p (h ++ [ev]) = userStep pki p (userTexts pki myName p h) ev := by
  rw [userTexts, List.foldl_append]
  rfl

/-- The text that is sealed for `p` in a step. -/
def GuiEvent.sealedFor (p : String) : GuiEvent → Option Bytes
  | .requested peer _ body _ => if peer = p then body.text? else none
  | _ => none

/-- The texts that wait to be sent to `p`. -/
def GuiClient.waitingFor (gc : GuiClient) (p : String) : List Bytes :=
  (gc.conversations p).elim [] fun convo => (gc.convos convo).outQueue

/-- The text that is typed for `p` in a step: `p` is the name of the conversation selected. -/
def GuiClient.typedFor (gc : GuiClient) (p : String) : GuiEvent → Option Bytes
  | .typed line =>
      match GuiLine.parse line with
      | .text msg => if gc.selectedConvo.map gc.peerName = some p then some msg else none
      | .quit | .talk _ | .dial _ => none
  | _ => none

namespace GuiClient

variable {gc gc' : GuiClient} {convo : Nat} {peer p : String}

theorem Sane.conversations_iff (h : gc.Sane) (hconvo : convo < gc.made) :
    gc.conversations p = some convo ↔ gc.peerName convo = p :=
  ⟨fun hp => (h.named p convo hp).2, fun hp => hp ▸ h.listed convo hconvo⟩

/-- A call on a conversation changes what waits for its peer. -/
theorem Sane.waitingFor_call (h : gc.Sane) (hconvo : convo < gc.made) (c : Conversation) :
    waitingFor { gc with convos := Function.update gc.convos convo c } p =
      if gc.peerName convo = p then c.outQueue else gc.waitingFor p := by
  simp only [waitingFor]
  split
  · rename_i hp
    rw [(h.conversations_iff hconvo).mpr hp]
    simp
  · rename_i hp
    cases hk : gc.conversations p with
    | none => rfl
    | some k =>
        have hne : k ≠ convo := fun e => hp ((h.named p k hk).2 ▸ congrArg gc.peerName e.symm)
        simp [hne]

/-- Nothing waits in a conversation that was just made. -/
theorem Switched.waitingFor (hs : gc.Sane) (h : Switched gc peer convo gc') :
    gc'.waitingFor p = gc.waitingFor p := by
  cases h with
  | found => rfl
  | @made key hnone hkey =>
      simp only [GuiClient.waitingFor]
      by_cases hp : p = peer
      · subst hp
        rw [hnone]
        simp [Conversation.init]
      · rw [Function.update_of_ne hp]
        cases hk : gc.conversations p with
        | none => rfl
        | some k => simp [(hs.named p k hk).1.ne]

theorem Sane.switch_isSome_iff (hs : gc.Sane) :
    (gc.switchConversation peer).isSome ↔ (gc.pki.people.lookup peer).isSome := by
  rw [switchConversation]
  cases hc : gc.conversations peer with
  | some convo =>
      obtain ⟨hlt, hname⟩ := hs.named peer convo hc
      obtain ⟨key, hkey, -⟩ := hs.keys convo hlt
      rw [hname] at hkey
      simp [hkey]
  | none =>
      simp only [person]
      cases gc.pki.people.lookup peer <;> simp

end GuiClient

section Step

variable {s s' : GuiState} {ev : GuiEvent}

/-- What is typed for a peer goes to the end of what waits for them, and what is sealed for them is
taken from its front. -/
theorem GuiStep.waitingFor (hs : s.gc.Sane) (hw : s.Within s.gc.made)
    (h : GuiStep box hmac json s ev s') (p : String) :
    s.gc.waitingFor p ++ (s.gc.typedFor p ev).toList =
      (ev.sealedFor p).toList ++ s'.gc.waitingFor p := by
  -- what waits for the peer of a conversation
  have mine : ∀ {convo : Nat}, convo < s.gc.made → s.gc.peerName convo = p →
      s.gc.waitingFor p = (s.gc.convos convo).outQueue := fun hlt hp => by
    rw [GuiClient.waitingFor, (hs.conversations_iff hlt).mpr hp]
    rfl
  -- a call that leaves the queue
  have same : ∀ {convo : Nat} {c : Conversation}, convo < s.gc.made →
      c.outQueue = (s.gc.convos convo).outQueue → s.gc.waitingFor p ++ [] =
        GuiClient.waitingFor { s.gc with convos := Function.update s.gc.convos convo c } p := by
    intro convo c hlt hc
    rw [hs.waitingFor_call hlt, List.append_nil]
    split
    · rename_i hp
      rw [mine hlt hp, hc]
    · rfl
  cases h with
  | @text line msg convo c _ hline _ hselected h =>
      have hlt := hw.selected convo hselected
      rw [hs.waitingFor_call hlt, Conversation.outQueue_queueTextMessage h]
      by_cases hp : s.gc.peerName convo = p
      · simp [GuiClient.typedFor, hline, GuiEvent.sealedFor, hselected, hp, mine hlt hp]
      · simp [GuiClient.typedFor, hline, GuiEvent.sealedFor, hselected, hp]
  | quit hline | talkUnknown hline | dial hline | dialUnknown hline =>
      simp only [GuiClient.typedFor, hline]
      exact List.append_nil _
  | talk hline _ h =>
      simp only [GuiClient.typedFor, hline, GuiEvent.sealedFor, Option.toList_none, List.append_nil,
        List.nil_append, (GuiClient.switched_of_some h).waitingFor hs]
  | reset hmain => exact same (hw.main _ (by rw [hmain]; rfl)) rfl
  | resetConnect hconnect => exact same (hw.connect _ (by rw [hconnect]; rfl)) rfl
  | @ask _ _ round client convo _ hclient hconvo coins now =>
      have hlt : convo < s.gc.made := hconvo ▸ hw.handler client hclient
      rw [hs.waitingFor_call hlt]
      by_cases hp : s.gc.peerName convo = p
      · simp only [GuiClient.typedFor, GuiEvent.sealedFor, if_pos hp, mine hlt hp,
          Option.toList_none, List.append_nil]
        exact (Conversation.outQueue_nextConvoRequest coins now).symm
      · simp [GuiClient.typedFor, GuiEvent.sealedFor, hp]
  | handle hpool h => exact same (hw.task hpool rfl) (Conversation.handled_of_ok h).outQueue
  | _ => exact List.append_nil _

/-- The user and the PKI stay who they are. -/
theorem GuiStep.user (h : GuiStep box hmac json s ev s') :
    s'.gc.pki = s.gc.pki ∧ s'.gc.myPublicKey = s.gc.myPublicKey ∧
      s'.gc.myPrivateKey = s.gc.myPrivateKey := by
  cases h with
  | talk _ _ h => cases GuiClient.switched_of_some h <;> exact ⟨rfl, rfl, rfl⟩
  | _ => exact ⟨rfl, rfl, rfl⟩

/-- The conversation selected has the name the user gave last. -/
theorem GuiStep.talking (hs : s.gc.Sane) (h : GuiStep box hmac json s ev s') {p : String}
    {st : String × List Bytes}
    (hst : ∀ convo, s.gc.selectedConvo = some convo → s.gc.peerName convo = st.1) (convo : Nat)
    (hconvo : s'.gc.selectedConvo = some convo) :
    s'.gc.peerName convo = (userStep s.gc.pki p st ev).1 := by
  cases h with
  | @talk line peer convo' gc hline _ h =>
      have hswitch := GuiClient.switched_of_some h
      have hknown := hs.switch_isSome_iff.mp (by rw [h]; rfl)
      cases hswitch.selected.symm.trans hconvo
      simp only [userStep, hline, if_pos hknown]
      exact ((hswitch.sane hs).named peer convo hswitch.conversations).2
  | @talkUnknown line peer hline _ h =>
      have hunknown : ¬ (s.gc.pki.people.lookup peer).isSome :=
        fun hk => absurd (hs.switch_isSome_iff.mpr hk) (by rw [h]; simp)
      simp only [userStep, hline, if_neg hunknown]
      exact hst convo hconvo
  | quit hline | dial hline | dialUnknown hline | text _ hline =>
      simp only [userStep, hline]
      exact hst convo hconvo
  | _ => exact hst convo hconvo

/-- A text is typed for the one the user talks to. -/
theorem GuiStep.typed (h : GuiStep box hmac json s ev s') {p : String} {st : String × List Bytes}
    (hst : ∀ convo, s.gc.selectedConvo = some convo → s.gc.peerName convo = st.1) :
    (userStep s.gc.pki p st ev).2 = st.2 ++ (s.gc.typedFor p ev).toList := by
  cases h with
  | @text line msg convo c _ hline _ hselected _ =>
      by_cases hp : st.1 = p
      · simp [userStep, GuiClient.typedFor, hline, hselected, hst convo hselected, hp]
      · simp [userStep, GuiClient.typedFor, hline, hselected, hst convo hselected, hp]
  | talk hline | talkUnknown hline =>
      simp only [userStep, GuiClient.typedFor, hline, Option.toList_none, List.append_nil]
      split <;> rfl
  | quit hline | dial hline | dialUnknown hline =>
      simp only [userStep, GuiClient.typedFor, hline, Option.toList_none, List.append_nil]
  | _ => exact (List.append_nil _).symm

/-- A request is sealed for the key of its peer. -/
theorem GuiStep.call (hs : s.gc.Sane) (hw : s.Within s.gc.made)
    (h : GuiStep box hmac json s ev s') {peer : String} {round : UInt32} {body : ConvoMessage}
    {call : SealCall} (hev : ev = .requested peer round body call) :
    ∃ key role, s.gc.pki.people.lookup peer = some key ∧
      call = ⟨body.marshal.1, convoNonce round role, key, s.gc.myPrivateKey⟩ := by
  cases h with
  | @ask _ _ _ client convo _ hclient hconvo coins now =>
      cases hev
      obtain ⟨key, hkey, hid⟩ := hs.keys convo (hconvo ▸ hw.handler client hclient)
      simp only [Conversation.identity, Prod.mk.injEq] at hid
      refine ⟨key, (s.gc.convos convo).myRole, hkey, ?_⟩
      rw [Conversation.nextSeal, Conversation.sealCall, hid.2.1, hid.2.2]
  | _ => cases hev

end Step

/-! ### Every run -/

section Run

variable {pki : PKI} {myName : String} {myPublicKey myPrivateKey : BoxKey} {h : List GuiEvent}
  {s : GuiState}

/-- The client after the lines typed so far. -/
structure GuiState.Serves (pki : PKI) (myName : String) (myPublicKey myPrivateKey : BoxKey)
    (h : List GuiEvent) (s : GuiState) : Prop where
  user : s.gc.pki = pki ∧ s.gc.myPublicKey = myPublicKey ∧ s.gc.myPrivateKey = myPrivateKey
  sane : s.gc.Sane
  within : s.Within s.gc.made
  talking : ∀ p convo, s.gc.selectedConvo = some convo →
    s.gc.peerName convo = (userTexts pki myName p h).1
  texts : ∀ p, (userTexts pki myName p h).2 =
    h.filterMap (GuiEvent.sealedFor p) ++ s.gc.waitingFor p
  calls : ∀ peer round body call, .requested peer round body call ∈ h →
    ∃ key role, pki.people.lookup peer = some key ∧
      call = ⟨body.marshal.1, convoNonce round role, key, myPrivateKey⟩

theorem GuiState.serves_start :
    (GuiState.start pki myName myPublicKey myPrivateKey).Serves pki myName myPublicKey
      myPrivateKey [] := by
  have hnew := GuiClient.sane_new pki myName myPublicKey myPrivateKey
  rw [GuiState.start, GuiClient.run]
  split
  · exact ⟨⟨rfl, rfl, rfl⟩, hnew, ⟨by rintro _ ⟨⟩, by rintro _ ⟨⟩, by rintro _ _ _ ⟨⟩,
      by rintro _ ⟨⟩, by rintro _ ⟨⟩, by rintro _ ⟨⟩⟩, by rintro _ _ ⟨⟩, fun _ => rfl,
      by rintro _ _ _ _ ⟨⟩⟩
  · rename_i convo gc h
    have hswitch := GuiClient.switched_of_some h
    have hsane := hswitch.sane hnew
    have habsent : gc.client = .absent := hswitch.client
    obtain ⟨hlt, hname⟩ := hsane.named _ _ hswitch.conversations
    refine ⟨?_, hsane, ⟨fun k hk => ?_, fun u hu => ?_, fun u _ _ hu => ?_, by rintro _ ⟨⟩,
      by rintro _ ⟨⟩, by rintro _ ⟨⟩⟩, fun p k hk => ?_, fun p => ?_, by rintro _ _ _ _ ⟨⟩⟩
    · cases hswitch <;> exact ⟨rfl, rfl, rfl⟩
    · cases hswitch.selected.symm.trans hk
      exact hlt
    · cases habsent.symm.trans hu
    · cases habsent.symm.trans hu
    · cases hswitch.selected.symm.trans hk
      exact hname
    · exact (hswitch.waitingFor hnew).symm

theorem GuiState.serves_of_run
    (run : (guiSystem box hmac json pki myName myPublicKey myPrivateKey).Run System.Any h s) :
    s.Serves pki myName myPublicKey myPrivateKey h := by
  refine run.invariant (I := fun h s => s.Serves pki myName myPublicKey myPrivateKey h)
    (fun s hs => hs ▸ serves_start) fun h s ev s' hI _ ht => ?_
  obtain ⟨-, hstep⟩ := ht
  obtain ⟨⟨rfl, rfl, rfl⟩, hsane, hwithin, htalking, htexts, hcalls⟩ := hI
  refine ⟨hstep.user, hstep.sane hsane hwithin, hstep.within hsane hwithin, fun p convo => ?_,
    fun p => ?_, fun peer round body call hmem => ?_⟩
  · rw [userTexts_concat]
    exact hstep.talking hsane (htalking p) convo
  · rw [userTexts_concat, hstep.typed (htalking p), htexts p, filterMap_concat, List.append_assoc,
      List.append_assoc, hstep.waitingFor hsane hwithin p]
  · rcases List.mem_append.mp hmem with hold | hnew
    · exact hcalls peer round body call hold
    · exact hstep.call hsane hwithin (List.mem_singleton.mp hnew).symm

end Run

/-! ### The texts -/

section Run

variable {pki : PKI} {myName : String} {myPublicKey myPrivateKey : BoxKey} {h : List GuiEvent}
  {s : GuiState}

/-- **Texts go to whom they were typed for.**  The texts the user typed while talking to `p` are
those sealed for `p`, in order, and then those that wait.  All that is sealed for someone is sealed
under the key the PKI has for the name, and the user's own. -/
theorem texts_to_peer
    (run : (guiSystem box hmac json pki myName myPublicKey myPrivateKey).Run System.Any h s) :
    (∀ p, (userTexts pki myName p h).2 =
      h.filterMap (GuiEvent.sealedFor p) ++ s.gc.waitingFor p) ∧
    ∀ peer round body call, .requested peer round body call ∈ h →
      ∃ key role, pki.people.lookup peer = some key ∧
        call = ⟨body.marshal.1, convoNonce round role, key, myPrivateKey⟩ :=
  have hserves := GuiState.serves_of_run run
  ⟨hserves.texts, hserves.calls⟩

theorem texts_to_peer_sample : ∃ (h : List GuiEvent) (s : GuiState) (call : SealCall)
    (role : UInt8),
    sampleGui.Run System.Any h s ∧
    (userTexts peoplePki "alice" "bob" h).2 = [[104, 105]] ∧ s.gc.waitingFor "bob" = [] ∧
    .requested "bob" 5 (.text [104, 105]) call ∈ h ∧
    call = ⟨(ConvoMessage.text [104, 105]).marshal.1, convoNonce 5 role, sampleKey 2,
      sampleKey 1⟩ := by
  obtain ⟨h, s, call, v, run, hh⟩ := sampleGui_asks
  obtain ⟨htexts, hcalls⟩ := texts_to_peer run
  have hmem : .requested "bob" 5 (.text [104, 105]) call ∈ h := by simp [hh]
  obtain ⟨key, role, hkey, hcall⟩ := hcalls _ _ _ _ hmem
  obtain rfl : sampleKey 2 = key := Option.some.inj hkey
  have htyped : (userTexts peoplePki "alice" "bob" h).2 = [[104, 105]] := by
    rw [hh]
    simp only [userTexts, List.foldl_cons, List.foldl_nil, userStep, parse_sampleTalkLine,
      parse_sampleTextLine]
    rfl
  have hsealed : h.filterMap (GuiEvent.sealedFor "bob") = [[104, 105]] := by rw [hh]; rfl
  have hwaiting := htexts "bob"
  rw [htyped, hsealed] at hwaiting
  exact ⟨h, s, call, role, run, htyped, List.self_eq_append_right.mp hwaiting, hmem, hcall⟩

end Run

end Vuvuzela
