import Vuvuzela.Client.Nonces

/-!
# Client — which conversation gets a response

`nextConvoRequest` notes the handler of a round under the mutex, and asks the handler for the
request after it has left the mutex.  Where the two are the same conversation, and the handlings
of the messages about one round do not overlap (`Undisturbed`), a response goes to the
conversation that made the last request sent for its round, and that conversation still waits for
it (`response_delivered`).

When the user switches conversations in between, the note names the old conversation and the
request is the new one's (`response_misdelivered`).
-/

namespace Vuvuzela
open Support

variable {box : NaclBox} {hmac : Hmac}

/-- The conversation whose request for `round` was sent last. -/
def lastSent (round : UInt32) (h : List ClientEvent) : Option Nat :=
  h.foldl (fun last ev =>
    match ev with
    | .sent convo request => if request.round = round then some convo else last
    | _ => last) none

theorem lastSent_sent (h : List ClientEvent) (convo : Nat) (request : ConvoRequest) :
    lastSent request.round (h ++ [.sent convo request]) = some convo := by
  rw [lastSent, List.foldl_append]
  exact if_pos rfl

theorem lastSent_of_ne {round : UInt32} (h : List ClientEvent) (convo : Nat)
    {request : ConvoRequest} (hne : request.round ≠ round) :
    lastSent round (h ++ [.sent convo request]) = lastSent round h := by
  rw [lastSent, List.foldl_append]
  exact if_neg hne

theorem lastSent_quiet {round : UInt32} (h : List ClientEvent) {ev : ClientEvent}
    (hev : ∀ convo request, ev ≠ .sent convo request) :
    lastSent round (h ++ [ev]) = lastSent round h := by
  rw [lastSent, List.foldl_append]
  cases ev with
  | sent convo request => exact absurd rfl (hev convo request)
  | _ => rfl

/-- The user does not switch conversations between the two reads of the handler in a
`nextConvoRequest`; an announcement or a response for a round is not handled while another message
about the round is. -/
def Undisturbed (_ : List ClientEvent) (s : ClientState) (ev : ClientEvent) : Prop :=
  match ev with
  | .switched _ => ∀ i round, s.pool i ≠ .announced round
  | .announced round => ∀ i, (s.pool i).round? ≠ some round
  | .found _ response => ∀ i, (s.pool i).round? ≠ some response.round
  | _ => True

/-! ### The life of a round -/

/-- The conversation made the last request that was sent for the round, and waits for the
response. -/
def Expects (h : List ClientEvent) (s : ClientState) (round : UInt32) (convo : Nat) : Prop :=
  lastSent round h = some convo ∧ ((s.convos convo).pendingRounds round).isSome

/-- Where a round is: no goroutine is about it, or one is. -/
inductive Routed (h : List ClientEvent) (s : ClientState) (round : UInt32) : Prop where
  | idle (hnone : ∀ i, (s.pool i).round? ≠ some round)
      (hnoted : ∀ convo, s.client.roundHandlers round = some convo → Expects h s round convo)
  | announced (i : Nat) (hi : s.pool i = .announced round)
      (hone : ∀ j, (s.pool j).round? = some round → j = i)
      (hnoted : s.client.roundHandlers round = some s.client.convoHandler)
  | requested (i convo : Nat) (request : ConvoRequest) (hi : s.pool i = .requested convo request)
      (hround : request.round = round) (hone : ∀ j, (s.pool j).round? = some round → j = i)
      (hnoted : s.client.roundHandlers round = some convo)
      (hpending : ((s.convos convo).pendingRounds round).isSome)
  | delivering (i convo : Nat) (response : ConvoResponse)
      (hi : s.pool i = .delivering convo response) (hround : response.round = round)
      (hone : ∀ j, (s.pool j).round? = some round → j = i)
      (hnoted : s.client.roundHandlers round = none) (hexpects : Expects h s round convo)

/-- What a step leaves as it was for a round it is not about. -/
structure Untouched (h : List ClientEvent) (s : ClientState) (ev : ClientEvent) (s' : ClientState)
    (round : UInt32) : Prop where
  pool : ∀ i, s'.pool i = s.pool i ∨
    (s.pool i).round? ≠ some round ∧ (s'.pool i).round? ≠ some round
  noted : s'.client.roundHandlers round = s.client.roundHandlers round
  handler : s'.client.convoHandler = s.client.convoHandler ∨ ∀ i r, s.pool i ≠ .announced r
  pending : ∀ convo,
    (s'.convos convo).pendingRounds round = (s.convos convo).pendingRounds round
  sent : lastSent round (h ++ [ev]) = lastSent round h

namespace Untouched

variable {h : List ClientEvent} {s s' : ClientState} {ev : ClientEvent} {round : UInt32}

theorem goroutine (hu : Untouched h s ev s' round) {i : Nat} {g : Goroutine} (hi : s.pool i = g)
    (hg : g.round? = some round) : s'.pool i = g := by
  rcases hu.pool i with e | ⟨hne, -⟩
  · exact e.trans hi
  · exact absurd (hi ▸ hg) hne

theorem round?_of (hu : Untouched h s ev s' round) {j : Nat}
    (hj : (s'.pool j).round? = some round) : (s.pool j).round? = some round := by
  rcases hu.pool j with e | ⟨-, hne⟩
  · exact e ▸ hj
  · exact absurd hj hne

theorem expects (hu : Untouched h s ev s' round) {convo : Nat} (he : Expects h s round convo) :
    Expects (h ++ [ev]) s' round convo := by
  rw [Expects, hu.sent, hu.pending]
  exact he

/-- The round is where it was. -/
theorem routed (hr : Routed h s round) (hu : Untouched h s ev s' round) :
    Routed (h ++ [ev]) s' round := by
  cases hr with
  | idle hnone hnoted =>
      refine .idle (fun i hi => hnone i (hu.round?_of hi)) fun convo hc => ?_
      rw [hu.noted] at hc
      exact hu.expects (hnoted convo hc)
  | announced i hi hone hnoted =>
      refine .announced i (hu.goroutine hi rfl) (fun j hj => hone j (hu.round?_of hj)) ?_
      rcases hu.handler with e | hno
      · rw [hu.noted, e, hnoted]
      · exact absurd hi (hno i round)
  | requested i convo request hi hround hone hnoted hpending =>
      exact .requested i convo request (hu.goroutine hi (congrArg some hround)) hround
        (fun j hj => hone j (hu.round?_of hj)) (hu.noted.trans hnoted)
        (by rw [hu.pending]; exact hpending)
  | delivering i convo response hi hround hone hnoted hexpects =>
      exact .delivering i convo response (hu.goroutine hi (congrArg some hround)) hround
        (fun j hj => hone j (hu.round?_of hj)) (hu.noted.trans hnoted) (hu.expects hexpects)

end Untouched

/-! ### One step -/

section Step

variable {h : List ClientEvent} {s s' : ClientState} {ev : ClientEvent} {round : UInt32}

/-- A goroutine that moves is not about the other rounds. -/
theorem update_untouched {i : Nat} {g : Goroutine} (hold : (s.pool i).round? ≠ some round)
    (hnew : g.round? ≠ some round) (j : Nat) :
    Function.update s.pool i g j = s.pool j ∨
      (s.pool j).round? ≠ some round ∧ (Function.update s.pool i g j).round? ≠ some round := by
  by_cases hj : j = i
  · subst hj
    rw [Function.update_self]
    exact .inr ⟨hold, hnew⟩
  · exact .inl (Function.update_of_ne hj ..)

/-- The one goroutine about a round, after it moved. -/
theorem update_one {i : Nat} {g : Goroutine}
    (hone : ∀ j, (s.pool j).round? = some round → j = i) (j : Nat)
    (hj : (Function.update s.pool i g j).round? = some round) : j = i := by
  by_contra hji
  rw [Function.update_of_ne hji] at hj
  exact hji (hone j hj)

/-- No goroutine is about a round, after the one that was is done. -/
theorem update_none {i : Nat} (hone : ∀ j, (s.pool j).round? = some round → j = i) (j : Nat) :
    (Function.update s.pool i .done j).round? ≠ some round := by
  intro hj
  obtain rfl := update_one hone j hj
  rw [Function.update_self] at hj
  cases hj

theorem Routed.at_announced {i : Nat} (hr : Routed h s round) (hi : s.pool i = .announced round) :
    (∀ j, (s.pool j).round? = some round → j = i) ∧
      s.client.roundHandlers round = some s.client.convoHandler := by
  have hround : (s.pool i).round? = some round := by rw [hi]; rfl
  cases hr with
  | idle hnone => exact absurd hround (hnone i)
  | announced i' _ hone hnoted =>
      obtain rfl := hone i hround
      exact ⟨hone, hnoted⟩
  | requested i' _ _ hi' _ hone | delivering i' _ _ hi' _ hone =>
      obtain rfl := hone i hround
      cases hi.symm.trans hi'

theorem Routed.at_requested {i convo : Nat} {request : ConvoRequest}
    (hr : Routed h s request.round) (hi : s.pool i = .requested convo request) :
    (∀ j, (s.pool j).round? = some request.round → j = i) ∧
      s.client.roundHandlers request.round = some convo ∧
      ((s.convos convo).pendingRounds request.round).isSome := by
  have hround : (s.pool i).round? = some request.round := by rw [hi]; rfl
  cases hr with
  | idle hnone => exact absurd hround (hnone i)
  | requested i' _ _ hi' _ hone hnoted hpending =>
      obtain rfl := hone i hround
      cases hi.symm.trans hi'
      exact ⟨hone, hnoted, hpending⟩
  | announced i' hi' hone | delivering i' _ _ hi' _ hone =>
      obtain rfl := hone i hround
      cases hi.symm.trans hi'

theorem Routed.at_delivering {i convo : Nat} {response : ConvoResponse}
    (hr : Routed h s response.round) (hi : s.pool i = .delivering convo response) :
    (∀ j, (s.pool j).round? = some response.round → j = i) ∧
      s.client.roundHandlers response.round = none ∧ Expects h s response.round convo := by
  have hround : (s.pool i).round? = some response.round := by rw [hi]; rfl
  cases hr with
  | idle hnone => exact absurd hround (hnone i)
  | delivering i' _ _ hi' _ hone hnoted hexpects =>
      obtain rfl := hone i hround
      cases hi.symm.trans hi'
      exact ⟨hone, hnoted, hexpects⟩
  | announced i' hi' hone | requested i' _ _ hi' _ hone =>
      obtain rfl := hone i hround
      cases hi.symm.trans hi'

theorem Routed.at_idle (hr : Routed h s round) (hnone : ∀ i, (s.pool i).round? ≠ some round)
    {convo : Nat} (hnoted : s.client.roundHandlers round = some convo) :
    Expects h s round convo := by
  cases hr with
  | idle _ hexpects => exact hexpects convo hnoted
  | announced i hi => exact absurd (by rw [hi]; rfl) (hnone i)
  | requested i _ _ hi hround | delivering i _ _ hi hround =>
      exact absurd (by rw [hi]; exact congrArg some hround) (hnone i)

/-- A call on one conversation that leaves the entries of the round. -/
theorem update_pending {convo : Nat} {c : Conversation}
    (hc : c.pendingRounds round = (s.convos convo).pendingRounds round) (convo' : Nat) :
    (Function.update s.convos convo c convo').pendingRounds round =
      (s.convos convo').pendingRounds round := by
  by_cases hj : convo' = convo
  · subst hj
    rw [Function.update_self, hc]
  · rw [Function.update_of_ne hj]

/-- **One step.**  A step that is not disturbed takes its round on, and leaves the others. -/
theorem Routed.step (hI : ∀ round, Routed h s round) (hc : Undisturbed h s ev)
    (hstep : ClientStep box hmac s ev s') (round : UInt32) : Routed (h ++ [ev]) s' round := by
  -- A step is about one round at most: for that round it takes the goroutine to the next
  -- constructor, for every other round `Untouched.routed` applies.
  cases hstep with
  | switch convo =>
      exact Untouched.routed (hI round) ⟨fun _ => .inl rfl, rfl, .inr hc, fun _ => rfl,
        lastSent_quiet h fun _ _ => nofun⟩
  | queue hq =>
      have hpending := (Conversation.sameKeys_queueTextMessage hq).2
      exact Untouched.routed (hI round) ⟨fun _ => .inl rfl, rfl, .inl rfl,
        update_pending (congrFun hpending round), lastSent_quiet h fun _ _ => nofun⟩
  | @announce i hi r =>
      by_cases hr : round = r
      · -- no other goroutine is about the round: this is what `Undisturbed` asks here
        subst hr
        refine .announced i (Function.update_self ..) (update_one fun j hj => absurd hj (hc j)) ?_
        exact Function.update_self ..
      · refine Untouched.routed (hI round) ⟨update_untouched (by rw [hi]; exact nofun) ?_,
          Function.update_of_ne hr .., .inl rfl, fun _ => rfl,
          lastSent_quiet h fun _ _ => nofun⟩
        exact fun e => hr (Option.some.inj e).symm
  | @request i r hi convo hconvo coins now =>
      by_cases hr : round = r
      · subst hr
        obtain ⟨hone, hnoted⟩ := (hI round).at_announced hi
        refine .requested i convo _ (Function.update_self ..) rfl (update_one hone)
          (hconvo ▸ hnoted) ?_
        simp only [Function.update_self]
        exact Conversation.pendingRounds_nextConvoRequest.1
      · have hne : some r ≠ some round := fun e => hr (Option.some.inj e).symm
        exact Untouched.routed (hI round) ⟨update_untouched (by rw [hi]; exact hne) hne, rfl,
          .inl rfl, update_pending (Conversation.pendingRounds_nextConvoRequest.2 round hr),
          lastSent_quiet h fun _ _ => nofun⟩
  | @send i convo request hi =>
      by_cases hr : request.round = round
      · subst hr
        obtain ⟨hone, hnoted, hpending⟩ := (hI request.round).at_requested hi
        refine .idle (update_none hone) fun convo' hc' => ?_
        cases hnoted.symm.trans hc'
        exact ⟨lastSent_sent h convo request, hpending⟩
      · have hne : some request.round ≠ some round := fun e => hr (Option.some.inj e)
        exact Untouched.routed (hI round) ⟨update_untouched (by rw [hi]; exact hne) nofun, rfl,
          .inl rfl, fun _ => rfl, lastSent_of_ne h convo hr⟩
  | @miss response hmiss =>
      -- the entry is deleted although there was none, which changes nothing
      refine Untouched.routed (hI round) ⟨fun _ => .inl rfl, ?_, .inl rfl, fun _ => rfl,
        lastSent_quiet h fun _ _ => nofun⟩
      by_cases hr : round = response.round
      · subst hr
        exact (Function.update_self ..).trans hmiss.symm
      · exact Function.update_of_ne hr ..
  | @find i hi response convo hfound =>
      by_cases hr : round = response.round
      · subst hr
        refine .delivering i convo response (Function.update_self ..) rfl
          (update_one fun j hj => absurd hj (hc j)) (Function.update_self ..) ?_
        obtain ⟨hsent, hpending⟩ := (hI response.round).at_idle hc hfound
        have hquiet : lastSent response.round (h ++ [.found convo response]) =
            lastSent response.round h := lastSent_quiet h fun _ _ => nofun
        exact ⟨hquiet.trans hsent, hpending⟩
      · refine Untouched.routed (hI round) ⟨update_untouched (by rw [hi]; exact nofun) ?_,
          Function.update_of_ne hr .., .inl rfl, fun _ => rfl,
          lastSent_quiet h fun _ _ => nofun⟩
        exact fun e => hr (Option.some.inj e).symm
  | @handle i convo response hi now text c hres =>
      have hpending := (Conversation.handleConvoResponse_frame hres).2
      by_cases hr : round = response.round
      · subst hr
        obtain ⟨hone, hnoted, -⟩ := (hI response.round).at_delivering hi
        -- the handler was taken out when it was found, so nothing is owed for the round
        refine .idle (update_none hone) fun convo' hc' => ?_
        cases hnoted.symm.trans hc'
      · refine Untouched.routed (hI round) ⟨update_untouched (by
          rw [hi]; exact fun e => hr (Option.some.inj e).symm) nofun, rfl, .inl rfl,
          update_pending ?_, lastSent_quiet h fun _ _ => nofun⟩
        rw [hpending, Function.update_of_ne hr]
  | crash =>
      exact Untouched.routed (hI round) ⟨fun _ => .inl rfl, rfl, .inl rfl, fun _ => rfl,
        lastSent_quiet h fun _ _ => nofun⟩

end Step

theorem routed_of_run {h : List ClientEvent} {s : ClientState}
    (run : (clientSystem box hmac).Run Undisturbed h s) : ∀ round, Routed h s round := by
  refine run.invariant (I := fun h s => ∀ round, Routed h s round) ?_ ?_
  · rintro s ⟨⟨convo, hclient⟩, -, hpool, -⟩ round
    refine .idle (fun i => by rw [hpool]; exact nofun) fun convo' hnoted => ?_
    rw [hclient] at hnoted
    cases hnoted
  · rintro h s ev s' hI hc ⟨-, hstep⟩
    exact Routed.step hI hc hstep

/-! ### Deliveries -/

/-- The call on a conversation that a step makes with a response. -/
def ClientEvent.delivered? : ClientEvent → Option (Nat × ConvoResponse)
  | .handled convo response _ => some (convo, response)
  | .crashed convo response _ => some (convo, response)
  | _ => none

/-- **A response reaches the conversation that sent the request**, in every run that is not
disturbed: the conversation made the last request that was sent for the round, and has the
pending entry of the round. -/
theorem response_delivered {h : List ClientEvent} {s s' : ClientState} {ev : ClientEvent}
    (run : (clientSystem box hmac).Run Undisturbed h s)
    (hstep : (clientSystem box hmac).step s ev s') {convo : Nat} {response : ConvoResponse}
    (hev : ev.delivered? = some (convo, response)) :
    lastSent response.round h = some convo ∧
      ((s.convos convo).pendingRounds response.round).isSome := by
  have hexpects : ∀ {i : Nat}, s.pool i = .delivering convo response →
      Expects h s response.round convo := fun hi =>
    ((routed_of_run run response.round).at_delivering hi).2.2
  obtain ⟨-, hstep⟩ := hstep
  cases hstep with
  | handle hi | crash hi =>
      cases hev
      exact hexpects hi
  | _ => cases hev

/-! ### A response for each of two conversations -/

/-- The request of a sample round, by the conversation with the peer. -/
def sampleConvoRequest (peer : UInt8) (round : UInt32) : ConvoRequest :=
  ((Conversation.init samplePki (sampleKey peer) (sampleKey 1) (sampleKey 1)).nextConvoRequest
    tagBox sampleHmac sampleRequest 0 round).1

/-- A response that does not open. -/
def sampleResponse (round : UInt32) : ConvoResponse := ⟨round, []⟩

/-- The user switches after the request was sent; the response still goes to the conversation that
sent it. -/
theorem response_delivered_sample :
    ∃ h s s', (clientSystem tagBox sampleHmac).Run Undisturbed h s ∧
      (clientSystem tagBox sampleHmac).step s (.handled 2 (sampleResponse 5) none) s' ∧
      lastSent 5 h = some 2 ∧ ((s.convos 2).pendingRounds 5).isSome := by
  have r₀ : (clientSystem tagBox sampleHmac).Run Undisturbed [] _ := .init (sampleClient_init 1 2)
  have r₁ := r₀.step (l := ClientEvent.announced 5) (fun _ => nofun)
    ⟨rfl, .announce (i := 0) rfl 5⟩
  have r₂ := r₁.step (l := ClientEvent.requested 2 5 (sampleSeal 5 (.timestamp 0))) trivial
    ⟨rfl, .request (i := 0) rfl rfl sampleRequest 0⟩
  have r₃ := r₂.step (l := ClientEvent.sent 2 (sampleConvoRequest 2 5)) trivial
    ⟨rfl, .send (i := 0) rfl⟩
  have hdone : ∀ (g g' : Goroutine) (i : Nat), Function.update (Function.update
      (Function.update (sampleClient 1 2).pool 0 g) 0 g') 0 .done i = .done := by
    intro g g' i
    by_cases hi : i = 0
    · rw [hi, Function.update_self]
    · rw [Function.update_of_ne hi, Function.update_of_ne hi, Function.update_of_ne hi]
      rfl
  have r₄ := r₃.step (l := ClientEvent.switched 3)
    (fun i round hi => by cases (hdone ..).symm.trans hi) ⟨rfl, .switch 3⟩
  have r₅ := r₄.step (l := ClientEvent.found 2 (sampleResponse 5))
    (fun i hi => by cases (congrArg Goroutine.round? (hdone ..)).symm.trans hi)
    ⟨rfl, .find (i := 0) rfl rfl⟩
  have hlast := fun {s' : ClientState}
    (last : (clientSystem tagBox sampleHmac).step _ (.handled 2 (sampleResponse 5) none) s') =>
      And.intro last (response_delivered r₅ last rfl)
  exact ⟨_, _, _, r₅, hlast ⟨rfl, .handle (i := 0) rfl 0 rfl⟩⟩

/-- The user switches between the two reads of the handler.  The request is the new
conversation's, and the response goes to the old one, which knows nothing of the round. -/
theorem response_misdelivered :
    ∃ h s s', (clientSystem tagBox sampleHmac).Run System.Any h s ∧
      (clientSystem tagBox sampleHmac).step s (.handled 2 (sampleResponse 5) none) s' ∧
      lastSent 5 h = some 3 ∧ (s.convos 2).pendingRounds 5 = none := by
  have r₀ : (clientSystem tagBox sampleHmac).Run System.Any [] _ := .init (sampleClient_init 1 2)
  have r₁ := r₀.step (l := ClientEvent.announced 5) trivial ⟨rfl, .announce (i := 0) rfl 5⟩
  have r₂ := r₁.step (l := ClientEvent.switched 3) trivial ⟨rfl, .switch 3⟩
  have r₃ := r₂.step trivial ⟨rfl, .request (i := 0) rfl rfl sampleRequest 0⟩
  have r₄ := r₃.step (l := ClientEvent.sent 3 (sampleConvoRequest 3 5)) trivial
    ⟨rfl, .send (i := 0) rfl⟩
  have r₅ := r₄.step (l := ClientEvent.found 2 (sampleResponse 5)) trivial
    ⟨rfl, .find (i := 0) rfl rfl⟩
  exact ⟨_, _, _, r₅, ⟨rfl, .handle (i := 0) rfl 0 rfl⟩, rfl, rfl⟩

end Vuvuzela
