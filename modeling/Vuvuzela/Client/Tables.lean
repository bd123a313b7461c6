import Vuvuzela.Source.Responses
import Vuvuzela.Client.Delivery

/-!
# Client — the tables of the rounds

Two tables are keyed by rounds: `roundHandlers` of the client and `pendingRounds` of the handler.
An announcement puts its round in both and a `ConvoResponse` takes it out of both, each in two
steps with the goroutine of the message in between.  A `ConvoError` is the other final answer to
a request, and `handleResponse` has no case for it.

When the messages about a round are handled one after the other, and none is being handled, both
tables hold the rounds that were announced and got no `ConvoResponse` (`tables_of_run`).  So they
hold exactly the unanswered rounds if and only if no announced round got a `ConvoError`
(`tables_hold_unanswered_iff`).
-/

namespace Vuvuzela
open Support

variable {box : NaclBox} {hmac : Hmac}

/-! ### Messages that pass the tables by -/

/-- A step of the client, or a message whose handling neither reads nor writes the tables. -/
inductive TableEvent where
  | client (ev : ClientEvent)
  | passed (v : Message)

/-- One step of the client, the messages that pass by included. -/
inductive TableStep (box : NaclBox) (hmac : Hmac) :
    ClientState → TableEvent → ClientState → Prop where
  | client {s s' : ClientState} {ev : ClientEvent} (h : (clientSystem box hmac).step s ev s') :
      TableStep box hmac s (.client ev) s'
  | passed {s : ClientState} {v : Message} (hup : s.up = true) (hv : v.isConvo = false) :
      TableStep box hmac s (.passed v) s

def tableSystem (box : NaclBox) (hmac : Hmac) : System ClientState TableEvent where
  init := (clientSystem box hmac).init
  step := TableStep box hmac

/-! ### The status of a round -/

/-- What the entry server has sent about a round. -/
inductive RoundStatus where
  | unannounced
  | waiting
  | answered
  | failed
  deriving DecidableEq

/-- The status after one more message.  Answers before the announcement are answers to nothing. -/
def RoundStatus.after (round : UInt32) (status : RoundStatus) : Message → RoundStatus
  | .announceConvoRound v => if v.round = round then .waiting else status
  | .convoResponse v => if v.round = round ∧ status = .waiting then .answered else status
  | .convoError v => if v.round = round ∧ status = .waiting then .failed else status
  | _ => status

def roundStatus (round : UInt32) (sent : List Message) : RoundStatus :=
  sent.foldl (RoundStatus.after round) .unannounced

/-- The round was announced, and has got no final answer. -/
def Unanswered (sent : List Message) (round : UInt32) : Prop := roundStatus round sent = .waiting

/-- A round is announced once, and then gets at most one final answer. -/
def ProperNext (sent : List Message) : Message → Prop
  | .announceConvoRound v => roundStatus v.round sent = .unannounced
  | .convoResponse ⟨round, _⟩ | .convoError ⟨round, _⟩ =>
      roundStatus round sent = .unannounced ∨ roundStatus round sent = .waiting
  | _ => True

/-- The message whose handling starts with a step. -/
def TableEvent.message? : TableEvent → Option Message
  | .client (.announced round) => some (.announceConvoRound ⟨round⟩)
  | .client (.found _ response) | .client (.unknown response) => some (.convoResponse response)
  | .client _ => none
  | .passed v => some v

/-- The messages of the entry server, in the order in which their handling starts. -/
def messages (h : List TableEvent) : List Message := h.filterMap TableEvent.message?

/-- The messages are proper, and the handler stays. -/
def ProperStep (h : List TableEvent) (_ : ClientState) (l : TableEvent) : Prop :=
  (∀ convo, l ≠ .client (.switched convo)) ∧ ∀ v ∈ l.message?, ProperNext (messages h) v

/-- The messages about one round are also handled one after the other. -/
def InTurn (h : List TableEvent) (s : ClientState) (l : TableEvent) : Prop :=
  ProperStep h s l ∧ ∀ ev, l = .client ev → Undisturbed [] s ev

/-- A step of the client in its turn. -/
theorem run_client {h : List TableEvent} {s s' : ClientState} {ev : ClientEvent}
    (run : (tableSystem box hmac).Run InTurn h s) (hstep : (clientSystem box hmac).step s ev s')
    (hstays : ∀ convo, ev ≠ .switched convo)
    (hnext : ∀ v, (TableEvent.client ev).message? = some v → ProperNext (messages h) v)
    (hturn : Undisturbed [] s ev) :
    (tableSystem box hmac).Run InTurn (h ++ [.client ev]) s' := by
  refine run.step ⟨⟨fun convo heq => ?_, hnext⟩, fun ev' heq => ?_⟩ (.client hstep)
  · cases heq
    exact hstays convo rfl
  · cases heq
    exact hturn

section Concat

variable {h : List TableEvent} {l : TableEvent}

theorem messages_concat_none (hl : l.message? = none) : messages (h ++ [l]) = messages h := by
  simp [messages, hl]

theorem messages_concat_some {v : Message} (hl : l.message? = some v) :
    messages (h ++ [l]) = messages h ++ [v] := by
  simp [messages, hl]

theorem roundStatus_concat {round : UInt32} {v : Message} (hl : l.message? = some v) :
    roundStatus round (messages (h ++ [l])) = (roundStatus round (messages h)).after round v := by
  rw [messages_concat_some hl, roundStatus, List.foldl_append]
  rfl

end Concat

/-! ### What the tables hold -/

/-- Announced, and without a `ConvoResponse`. -/
def RoundStatus.Kept (status : RoundStatus) : Prop := status = .waiting ∨ status = .failed

/-- The tables, with the goroutines that are between two steps. -/
structure Tables (h : List TableEvent) (s : ClientState) : Prop where
  noted : ∀ round, (s.client.roundHandlers round).isSome ↔ (roundStatus round (messages h)).Kept
  handler : ∀ round convo, s.client.roundHandlers round = some convo →
    convo = s.client.convoHandler
  pending : ∀ round convo, ((s.convos convo).pendingRounds round).isSome →
    s.client.roundHandlers round = some convo ∨
      ∃ i response, s.pool i = .delivering convo response ∧ response.round = round

section Step

variable {h : List TableEvent} {s s' : ClientState} {l : TableEvent}

/-- A round in the table waits when it gets a response: a round that failed gets no second
answer. -/
theorem Tables.waiting_of_found (hI : Tables h s) {response : ConvoResponse} {convo : Nat}
    (hfound : s.client.roundHandlers response.round = some convo)
    (hnext : ProperNext (messages h) (.convoResponse response)) :
    roundStatus response.round (messages h) = .waiting := by
  rcases (hI.noted response.round).mp (by rw [hfound]; rfl) with hwaits | hfailed
  · exact hwaits
  · rcases hnext with hnew | hwaits
    · cases hfailed.symm.trans hnew
    · exact hwaits

theorem Tables.noted_step (hI : Tables h s) (hc : ProperStep h s l)
    (hstep : TableStep box hmac s l s') (round : UInt32) :
    (s'.client.roundHandlers round).isSome ↔ (roundStatus round (messages (h ++ [l]))).Kept := by
  have hbefore := hI.noted round
  cases hstep with
  | @passed v hup hv =>
      rw [roundStatus_concat rfl, hbefore]
      cases v with
      | convoError v =>
          simp only [RoundStatus.after]
          split
          · -- the round failed, and is kept as it was while it waited
            rename_i hwaits
            rw [hwaits.2]
            exact iff_of_true (.inl rfl) (.inr rfl)
          · exact Iff.rfl
      | announceConvoRound v | convoResponse v => cases hv
      | _ => exact Iff.rfl
  | client hstep =>
      obtain ⟨-, hstep⟩ := hstep
      cases hstep with
      | announce hi r =>
          rw [roundStatus_concat rfl]
          by_cases hr : r = round
          · subst hr
            simp [UserClient.enterRound, RoundStatus.after, RoundStatus.Kept]
          · simp only [UserClient.enterRound, RoundStatus.after, if_neg hr,
              Function.update_of_ne (Ne.symm hr)]
            exact hbefore
      | @miss response hmiss =>
          rw [roundStatus_concat rfl]
          by_cases hr : response.round = round
          · subst hr
            have hnone : s.client.roundHandlers response.round = none := hmiss
            rw [hnone] at hbefore
            have hkept : ¬ (roundStatus response.round (messages h)).Kept :=
              fun hk => nomatch hbefore.mpr hk
            have hnot : roundStatus response.round (messages h) ≠ .waiting :=
              fun hw => hkept (.inl hw)
            simp [UserClient.leaveRound, RoundStatus.after, hnot, hkept]
          · simp only [UserClient.leaveRound, RoundStatus.after, hr, false_and, if_false,
              Function.update_of_ne (Ne.symm hr)]
            exact hbefore
      | @find i hi response convo hfound =>
          rw [roundStatus_concat rfl]
          by_cases hr : response.round = round
          · subst hr
            have hwaits := hI.waiting_of_found hfound (hc.2 _ rfl)
            simp [UserClient.leaveRound, RoundStatus.after, hwaits, RoundStatus.Kept]
          · simp only [UserClient.leaveRound, RoundStatus.after, hr, false_and, if_false,
              Function.update_of_ne (Ne.symm hr)]
            exact hbefore
      | _ =>
          rw [messages_concat_none rfl]
          exact hbefore

theorem Tables.handler_step (hI : Tables h s) (hc : ProperStep h s l)
    (hstep : TableStep box hmac s l s') (round : UInt32) (convo : Nat)
    (hnoted : s'.client.roundHandlers round = some convo) : convo = s'.client.convoHandler := by
  cases hstep with
  | passed => exact hI.handler round convo hnoted
  | client hstep =>
      obtain ⟨-, hstep⟩ := hstep
      cases hstep with
      | switch convo => exact absurd rfl (hc.1 convo)
      | announce hi r =>
          by_cases hr : round = r
          · subst hr
            simp only [UserClient.enterRound, Function.update_self] at hnoted
            exact (Option.some.inj hnoted).symm
          · simp only [UserClient.enterRound, Function.update_of_ne hr] at hnoted
            exact hI.handler round convo hnoted
      | @miss response | @find _ _ response =>
          by_cases hr : round = response.round
          · subst hr
            simp only [UserClient.leaveRound, Function.update_self] at hnoted
            cases hnoted
          · simp only [UserClient.leaveRound, Function.update_of_ne hr] at hnoted
            exact hI.handler round convo hnoted
      | _ => exact hI.handler round convo hnoted

/-- A goroutine with a response for the round goes on while another one moves. -/
theorem delivering_update {i : Nat} {round : UInt32} {convo : Nat} {g g' : Goroutine}
    (hi : s.pool i = g) (hg : ∀ response, g = .delivering convo response → response.round ≠ round)
    (h : ∃ j response, s.pool j = .delivering convo response ∧ response.round = round) :
    ∃ j response, Function.update s.pool i g' j = .delivering convo response ∧
      response.round = round := by
  obtain ⟨j, response, hj, hround⟩ := h
  have hne : j ≠ i := by
    rintro rfl
    exact hg response (hi.symm.trans hj) hround
  exact ⟨j, response, (Function.update_of_ne hne ..).trans hj, hround⟩

/-- A pending entry has its round in the other table, or in a goroutine that is about to take it
out. -/
theorem Tables.pending_step (hI : Tables h s) {h' : List ClientEvent}
    (hR : ∀ round, Routed h' s round) (hc : ProperStep h s l) (hstep : TableStep box hmac s l s')
    (round : UInt32) (convo : Nat)
    (hpending : ((s'.convos convo).pendingRounds round).isSome) :
    s'.client.roundHandlers round = some convo ∨
      ∃ i response, s'.pool i = .delivering convo response ∧ response.round = round := by
  cases hstep with
  | passed => exact hI.pending round convo hpending
  | client hstep =>
      obtain ⟨-, hstep⟩ := hstep
      cases hstep with
      | switch convo => exact absurd rfl (hc.1 convo)
      | queue hq =>
          have hsame := congrFun (Conversation.sameKeys_queueTextMessage hq).2 round
          simp only [update_pending hsame] at hpending
          exact hI.pending round convo hpending
      | announce hi r =>
          refine (hI.pending round convo hpending).imp (fun hnoted => ?_)
            (delivering_update hi nofun)
          -- a round that is announced now was in no table
          have hr : round ≠ r := by
            rintro rfl
            have hkept := (hI.noted round).mp (by rw [hnoted]; rfl)
            have hnew : roundStatus round (messages h) = .unannounced := hc.2 _ rfl
            rw [hnew] at hkept
            rcases hkept with hk | hk <;> cases hk
          exact (Function.update_of_ne hr ..).trans hnoted
      | @request i r hi convo' hconvo coins now =>
          by_cases hnew : convo = convo' ∧ round = r
          · obtain ⟨rfl, rfl⟩ := hnew
            left
            rw [← hconvo]
            exact ((hR round).at_announced hi).2
          · have hold : ((s.convos convo).pendingRounds round).isSome := by
              rcases not_and_or.mp hnew with hne | hr
              · simpa only [Function.update_of_ne hne] using hpending
              · simpa only [update_pending
                  (Conversation.pendingRounds_nextConvoRequest.2 round hr)] using hpending
            exact (hI.pending round convo hold).imp id (delivering_update hi nofun)
      | send hi => exact (hI.pending round convo hpending).imp id (delivering_update hi nofun)
      | @miss response hmiss =>
          refine (hI.pending round convo hpending).imp (fun hnoted => ?_) id
          have hr : round ≠ response.round := by
            rintro rfl
            cases hnoted.symm.trans hmiss
          exact (Function.update_of_ne hr ..).trans hnoted
      | @find i hi response convo' hfound =>
          by_cases hr : round = response.round
          · -- the entry of the round goes to the goroutine that found its handler
            subst hr
            rcases hI.pending response.round convo hpending with hnoted | hother
            · cases hnoted.symm.trans hfound
              exact .inr ⟨i, response, Function.update_self .., rfl⟩
            · exact .inr (delivering_update hi nofun hother)
          · exact (hI.pending round convo hpending).imp (Function.update_of_ne hr ..).trans
              (delivering_update hi nofun)
      | @handle i convo' response hi now text c hres =>
          have htaken := (Conversation.handleConvoResponse_frame hres).2
          have hother : ¬ (convo = convo' ∧ round = response.round) := by
            rintro ⟨rfl, rfl⟩
            simp only [Function.update_self, htaken] at hpending
            cases hpending
          have hold : ((s.convos convo).pendingRounds round).isSome := by
            rcases not_and_or.mp hother with hne | hr
            · simpa only [Function.update_of_ne hne] using hpending
            · have hsame : c.pendingRounds round = (s.convos convo').pendingRounds round := by
                rw [htaken, Function.update_of_ne hr]
              simpa only [update_pending hsame] using hpending
          refine (hI.pending round convo hold).imp id (delivering_update hi ?_)
          rintro response' ⟨⟩ hround
          exact hother ⟨rfl, hround.symm⟩
      | crash => exact hI.pending round convo hpending

theorem Tables.step (hI : Tables h s) {h' : List ClientEvent} (hR : ∀ round, Routed h' s round)
    (hc : ProperStep h s l) (hstep : TableStep box hmac s l s') : Tables (h ++ [l]) s' :=
  ⟨hI.noted_step hc hstep, hI.handler_step hc hstep, hI.pending_step hR hc hstep⟩

end Step

/-! ### Runs -/

/-- The steps of the client in a history. -/
def clientSteps (h : List TableEvent) : List ClientEvent :=
  h.filterMap fun l =>
    match l with
    | .client ev => some ev
    | .passed _ => none

theorem clientRun_of_run {h : List TableEvent} {s : ClientState}
    (run : (tableSystem box hmac).Run InTurn h s) :
    (clientSystem box hmac).Run Undisturbed (clientSteps h) s := by
  induction run with
  | init h₀ => exact .init h₀
  | @step h s s' l _ c t ih =>
      rw [clientSteps, List.filterMap_append]
      cases t with
      | client t => exact ih.step (c.2 _ rfl) t
      | passed => simpa [clientSteps] using ih

theorem tables_of_run {h : List TableEvent} {s : ClientState}
    (run : (tableSystem box hmac).Run InTurn h s) : Tables h s := by
  induction run with
  | @init s h₀ =>
      obtain ⟨⟨convo, hclient⟩, hfresh, -, -⟩ := h₀
      have hempty : ∀ round, s.client.roundHandlers round = none := by
        intro round
        rw [hclient]
        rfl
      refine ⟨fun round => ?_, fun round convo hnoted => ?_, fun round convo hpending => ?_⟩
      · rw [hempty]
        exact iff_of_false nofun (by rintro (h | h) <;> cases h)
      · cases (hempty round).symm.trans hnoted
      · rw [(hfresh convo).2] at hpending
        cases hpending
  | step run c t ih => exact ih.step (routed_of_run (clientRun_of_run run)) c.1 t

theorem idle_round {pool : Nat → Goroutine} (hdone : ∀ i, pool i = .done) (round : UInt32)
    (i : Nat) : (pool i).round? ≠ some round := by
  rw [hdone]
  exact nofun

theorem idle_update {pool : Nat → Goroutine} (hdone : ∀ i, pool i = .done) :
    Function.update pool 0 .done = pool := by
  rw [← hdone 0, Function.update_eq_self]

/-- **The tables and the unanswered rounds.**  When every message has been handled, the two tables
hold exactly the unanswered rounds if and only if no announced round was answered by a
`ConvoError`. -/
theorem tables_hold_unanswered_iff {h : List TableEvent} {s : ClientState}
    (run : (tableSystem box hmac).Run InTurn h s) (hdone : ∀ i, s.pool i = .done) :
    ((∀ round, (s.client.roundHandlers round).isSome ↔ Unanswered (messages h) round) ∧
      ∀ round, ((s.convos s.client.convoHandler).pendingRounds round).isSome ↔
        Unanswered (messages h) round) ↔
      ∀ round, roundStatus round (messages h) ≠ .failed := by
  have htables := tables_of_run run
  have hpending : ∀ round, ((s.convos s.client.convoHandler).pendingRounds round).isSome ↔
      (roundStatus round (messages h)).Kept := by
    intro round
    rw [← htables.noted round]
    constructor
    · intro hp
      rcases htables.pending round _ hp with hnoted | ⟨i, response, hi, -⟩
      · rw [hnoted]
        rfl
      · cases (hdone i).symm.trans hi
    · intro hnoted
      obtain ⟨convo, hnoted⟩ := Option.isSome_iff_exists.mp hnoted
      obtain rfl := htables.handler round convo hnoted
      exact ((routed_of_run (clientRun_of_run run) round).at_idle (idle_round hdone round)
        hnoted).2
  constructor
  · rintro ⟨hnoted, -⟩ round hfailed
    have hwaits : roundStatus round (messages h) = .waiting :=
      (hnoted round).mp ((htables.noted round).mpr (.inr hfailed))
    cases hwaits.symm.trans hfailed
  · intro hnone
    have hkept : ∀ round, (roundStatus round (messages h)).Kept ↔ Unanswered (messages h) round :=
      fun round => or_iff_left (hnone round)
    exact ⟨fun round => (htables.noted round).trans (hkept round),
      fun round => (hpending round).trans (hkept round)⟩

/-! ### Messages one at a time -/

section Turn

variable (input : HandlerInput) {dialer : Dialer} {h : List TableEvent} {client : UserClient}
  {convos : Nat → Conversation} {pool : Nat → Goroutine} {out : Handling} {app : ClientApp}

/-- The message `v` is handled while no other is, and leaves the client as in `app`. -/
def TakesTo (box : NaclBox) (hmac : Hmac) (h : List TableEvent) (pool : Nat → Goroutine)
    (v : Message) (app : ClientApp) : Prop :=
  ∃ h', (tableSystem box hmac).Run InTurn h' ⟨app.client, app.convos, pool, true⟩ ∧
    messages h' = messages h ++ [v]

theorem announce_turn (run : (tableSystem box hmac).Run InTurn h ⟨client, convos, pool, true⟩)
    (hdone : ∀ i, pool i = .done) {v : AnnounceConvoRound}
    (hv : ProperNext (messages h) (.announceConvoRound v))
    (hres : ClientApp.handleResponse box hmac input (.announceConvoRound v)
      ⟨client, convos, dialer⟩ = .ok (out, app)) :
    TakesTo box hmac h pool (.announceConvoRound v) app := by
  cases hres
  have r₁ := run_client run ⟨rfl, .announce (hdone 0) v.round⟩ nofun
    (by rintro _ ⟨⟩; exact hv) (idle_round hdone v.round)
  have r₂ := run_client r₁ ⟨rfl, .request (Function.update_self ..) rfl input.convo input.now⟩
    nofun nofun trivial
  have r₃ := run_client r₂ ⟨rfl, .send (Function.update_self ..)⟩ nofun nofun trivial
  simp only [Function.update_idem, idle_update hdone] at r₃
  refine ⟨_, r₃, ?_⟩
  rw [messages_concat_none rfl, messages_concat_none rfl, messages_concat_some rfl]

theorem response_turn (run : (tableSystem box hmac).Run InTurn h ⟨client, convos, pool, true⟩)
    (hdone : ∀ i, pool i = .done) {r : ConvoResponse}
    (hv : ProperNext (messages h) (.convoResponse r))
    (hres : ClientApp.deliverConvoResponse box input r ⟨client, convos, dialer⟩ =
      .ok (out, app)) :
    TakesTo box hmac h pool (.convoResponse r) app := by
  have hnext : ∀ v', some (Message.convoResponse r) = some v' → ProperNext (messages h) v' := by
    rintro _ ⟨⟩
    exact hv
  rw [ClientApp.deliverConvoResponse] at hres
  split at hres
  · rename_i hmiss
    cases hres
    exact ⟨_, run_client run ⟨rfl, .miss hmiss⟩ nofun hnext trivial, messages_concat_some rfl⟩
  · rename_i convo hfound
    cases hcall : (convos convo).handleConvoResponse box input.now r with
    | error p =>
        simp only [hcall] at hres
        cases hres
    | ok answer =>
        simp only [hcall] at hres
        cases hres
        have r₁ := run_client run ⟨rfl, .find (hdone 0) hfound⟩ nofun hnext
          (idle_round hdone r.round)
        have r₂ := run_client r₁ ⟨rfl, .handle (Function.update_self ..) input.now hcall⟩
          nofun nofun trivial
        simp only [Function.update_idem, idle_update hdone] at r₂
        refine ⟨_, r₂, ?_⟩
        rw [messages_concat_none rfl, messages_concat_some rfl]

/-- A message that is handled while no other is takes the client where `handleResponse` does. -/
theorem handleResponse_turn (dialer : Dialer)
    (run : (tableSystem box hmac).Run InTurn h ⟨client, convos, pool, true⟩)
    (hdone : ∀ i, pool i = .done) {v : Message} (hv : ProperNext (messages h) v)
    (hres : ClientApp.handleResponse box hmac input v ⟨client, convos, dialer⟩ = .ok (out, app)) :
    TakesTo box hmac h pool v app := by
  cases hconvo : v.isConvo with
  | false =>
      obtain ⟨hclient, hconvos⟩ := ClientApp.handleResponse_of_not_isConvo hconvo hres
      rw [TakesTo, hclient, hconvos]
      have hpassed : InTurn h ⟨client, convos, pool, true⟩ (.passed v) :=
        ⟨⟨nofun, by rintro _ ⟨⟩; exact hv⟩, nofun⟩
      exact ⟨_, run.step hpassed (.passed rfl hconvo), messages_concat_some rfl⟩
  | true =>
      cases v with
      | announceConvoRound v => exact announce_turn input run hdone hv hres
      | convoResponse r => exact response_turn input run hdone hv hres
      | _ => cases hconvo

end Turn

/-! ### Rounds that are answered, fail, or are overtaken -/

/-- What the handlers of a sample client draw. -/
def sampleInput : HandlerInput :=
  ⟨sampleRequest, ⟨sampleRequest.keys, sampleRequest.drop, sampleRequest.keys⟩, 0, fun _ => []⟩

def quietDialer : Dialer := Dialer.init samplePki (sampleKey 1) (sampleKey 1)

/-- Two rounds: the first is answered, and the second still waits. -/
theorem tables_hold_unanswered_sample :
    ∃ h s, (tableSystem tagBox sampleHmac).Run InTurn h s ∧ (∀ i, s.pool i = .done) ∧
      messages h = [.announceConvoRound ⟨5⟩, .convoResponse (sampleResponse 5),
        .announceConvoRound ⟨6⟩] ∧
      (∀ round, (s.client.roundHandlers round).isSome ↔ Unanswered (messages h) round) ∧
      ∀ round, ((s.convos s.client.convoHandler).pendingRounds round).isSome ↔
        Unanswered (messages h) round := by
  have r₀ : (tableSystem tagBox sampleHmac).Run InTurn [] (sampleClient 1 2) :=
    .init (sampleClient_init 1 2)
  obtain ⟨h₁, r₁, m₁⟩ := handleResponse_turn sampleInput quietDialer
    (v := .announceConvoRound ⟨5⟩) r₀ (fun _ => rfl) rfl rfl
  obtain ⟨h₂, r₂, m₂⟩ := handleResponse_turn sampleInput quietDialer
    (v := .convoResponse (sampleResponse 5)) r₁ (fun _ => rfl) (by rw [m₁]; exact .inr rfl) rfl
  obtain ⟨h₃, r₃, m₃⟩ := handleResponse_turn sampleInput quietDialer
    (v := .announceConvoRound ⟨6⟩) r₂ (fun _ => rfl) (by rw [m₂, m₁]; rfl) rfl
  rw [m₂, m₁] at m₃
  refine ⟨h₃, _, r₃, fun _ => rfl, m₃,
    (tables_hold_unanswered_iff r₃ fun _ => rfl).mpr fun round => ?_⟩
  rw [m₃]
  simp only [messages, List.filterMap_nil, List.nil_append, List.cons_append, roundStatus,
    List.foldl_cons, List.foldl_nil, RoundStatus.after]
  split_ifs <;> simp_all

/-- The entry server answers the request of a round with a `ConvoError`, and both tables keep the
round.  And a response that is handled before the request was made takes the round out of one
table only. -/
theorem tables_keep_answered :
    (∃ h s, (tableSystem tagBox sampleHmac).Run InTurn h s ∧ (∀ i, s.pool i = .done) ∧
      messages h = [.announceConvoRound ⟨5⟩, .convoError ⟨5, "server error"⟩] ∧
      ¬ Unanswered (messages h) 5 ∧ (s.client.roundHandlers 5).isSome ∧
      ((s.convos s.client.convoHandler).pendingRounds 5).isSome) ∧
    ∃ h s, (tableSystem tagBox sampleHmac).Run ProperStep h s ∧ (∀ i, s.pool i = .done) ∧
      messages h = [.announceConvoRound ⟨5⟩, .convoResponse (sampleResponse 5)] ∧
      ¬ Unanswered (messages h) 5 ∧ s.client.roundHandlers 5 = none ∧
      ((s.convos s.client.convoHandler).pendingRounds 5).isSome := by
  constructor
  · have r₀ : (tableSystem tagBox sampleHmac).Run InTurn [] (sampleClient 1 2) :=
      .init (sampleClient_init 1 2)
    obtain ⟨h₁, r₁, m₁⟩ := handleResponse_turn sampleInput quietDialer
      (v := .announceConvoRound ⟨5⟩) r₀ (fun _ => rfl) rfl rfl
    obtain ⟨h₂, r₂, m₂⟩ := handleResponse_turn sampleInput quietDialer
      (v := .convoError ⟨5, "server error"⟩) r₁ (fun _ => rfl) (by rw [m₁]; exact .inr rfl) rfl
    rw [m₁] at m₂
    refine ⟨h₂, _, r₂, fun _ => rfl, m₂, ?_, rfl, rfl⟩
    rw [m₂]
    exact nofun
  · have r₀ : (tableSystem tagBox sampleHmac).Run ProperStep [] (sampleClient 1 2) :=
      .init (sampleClient_init 1 2)
    have r₁ := r₀.step (l := TableEvent.client (.announced 5))
      ⟨nofun, by rintro _ ⟨⟩; rfl⟩ (.client ⟨rfl, .announce (i := 0) rfl 5⟩)
    have r₂ := r₁.step (l := TableEvent.client (.found 2 (sampleResponse 5)))
      ⟨nofun, by rintro _ ⟨⟩; exact .inr rfl⟩ (.client ⟨rfl, .find (i := 1) rfl rfl⟩)
    have r₃ := r₂.step (l := TableEvent.client (.handled 2 (sampleResponse 5) none))
      ⟨nofun, nofun⟩ (.client ⟨rfl, .handle (i := 1) rfl 0 rfl⟩)
    have r₄ := r₃.step (l := TableEvent.client (.requested 2 5 (sampleSeal 5 (.timestamp 0))))
      ⟨nofun, nofun⟩ (.client ⟨rfl, .request (i := 0) rfl rfl sampleRequest 0⟩)
    have r₅ := r₄.step (l := TableEvent.client (.sent 2 (sampleConvoRequest 2 5)))
      ⟨nofun, nofun⟩ (.client ⟨rfl, .send (i := 0) rfl⟩)
    refine ⟨_, _, r₅, fun i => ?_, rfl, nofun, rfl, rfl⟩
    match i with
    | 0 => rfl
    | 1 => rfl
    | i + 2 => rfl

end Vuvuzela
