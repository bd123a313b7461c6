import Vuvuzela.Server.Calls

/-!
# Server — one round at a time

The calls on a server seen from one round of its conversation service.  A call changes the round
in one of a few ways, or it is a call of another round, a refused call or one that only reads, and
the round stays as it is (`RoundStep`).  `Effect` says what a call does to the whole server; here
it is cut down to one round, with what the handler knew when it changed the round: the length
`make` accepted, the bound `Add` checked, the replies the next server sent.

What holds of a round that does not exist and is kept by every `RoundStep` holds of every round of
a server that is up (`round_invariant`).
-/

namespace Vuvuzela
open Support

variable {σ : Type} {box : NaclBox} {cfg : Config} {next : NextServer σ}

/-- The round of the conversation service a call is for. -/
def Request.convoRound : Request → Option UInt32
  | .convoNewRound Round _ | .convoClose Round _ | .convoDelete Round => some Round
  | .convoOpen args => some args.round
  | .convoAdd args => some args.round
  | .convoGet args _ => some args.round
  | _ => none

/-- The call changed the round: it is a call of the round that succeeded, or a `Close` of it that
failed at the next server. -/
def Event.changes (Round : UInt32) (ev : Event) : Bool :=
  match ev.request, ev.outcome with
  | .convoNewRound r _, .ok => r = Round
  | .convoOpen args, .ok => args.round = Round
  | .convoAdd args, .ok => args.round = Round
  | .convoClose r _, .ok => r = Round
  | .convoClose r _, .err e => r = Round && e.fromNext
  | .convoDelete r, .ok => r = Round
  | _, _ => false

/-- What a call that does not panic does to one round. -/
inductive RoundStep (box : NaclBox) (cfg : Config) (next : NextServer σ) (srv : Server)
    (Round : UInt32) : Event → Option ConvoRound → Prop where
  | same {ev : Event} (h : ev.changes Round = false) :
      RoundStep box cfg next srv Round ev (srv.convoRounds Round)
  | created {coins : ConvoCoins} (habsent : srv.convoRounds Round = none) :
      RoundStep box cfg next srv Round ⟨.convoNewRound Round coins, .ok, []⟩
        (some (coins.newRound box cfg Round))
  | opened {n : Int} {round : ConvoRound} (hround : srv.convoRounds Round = some round)
      (hs : round.status = .roundNew) (hmake : makeOk n) :
      RoundStep box cfg next srv Round ⟨.convoOpen ⟨Round, n⟩, .ok, []⟩
        (some (ConvoService.opened round n))
  | added {offset : Int} {onions : List Bytes} {round round' : ConvoRound}
      (hround : srv.convoRounds Round = some round) (hs : round.status = .roundOpen)
      (hbound : wrapInt (offset + onions.length) ≤ round.numIncoming)
      (hadd : ConvoService.addLoop box cfg (forwardNonce Round) offset 0 onions round =
        some round') :
      RoundStep box cfg next srv Round ⟨.convoAdd ⟨Round, offset, onions⟩, .ok, []⟩ (some round')
  | exchanged {shuffler : (n : Nat) → Shuffler n} {round : ConvoRound}
      {messages batch : List Bytes} {index : List Int} (hlast : cfg.lastServer = true)
      (hc : Closing srv Round shuffler round messages index batch) :
      RoundStep box cfg next srv Round ⟨.convoClose Round shuffler, .ok, []⟩
        (some (ConvoService.exchanged (ConvoService.filtered round messages index) messages))
  | failed {shuffler : (n : Nat) → Shuffler n} {round : ConvoRound}
      {messages batch : List Bytes} {index : List Int} {call : String} {e : Err}
      {sent : List Sent} (hlast : cfg.lastServer = false)
      (hc : Closing srv Round shuffler round messages index batch) :
      RoundStep box cfg next srv Round ⟨.convoClose Round shuffler, .err (.context call e), sent⟩
        (some (drainedRound round messages index batch))
  | answered {shuffler : (n : Nat) → Shuffler n} {round : ConvoRound}
      {messages batch answers replies : List Bytes} {index : List Int} {t t' : σ}
      (hlast : cfg.lastServer = false)
      (hc : Closing srv Round shuffler round messages index batch)
      (hrun : next.runConvoRound Round batch t = .ok answers t')
      (hun : (shuffler (messages ++ round.noise).length).unshuffle answers = some replies)
      (hlen : round.numIncoming ≤ replies.length) :
      RoundStep box cfg next srv Round
        ⟨.convoClose Round shuffler, .ok, [.convoTaken Round, .convoBatch Round batch]⟩
        (some (ConvoService.answered (drainedRound round messages index batch) replies))
  | deleted : RoundStep box cfg next srv Round ⟨.convoDelete Round, .ok, []⟩ none

/-- A call of another round is none of the steps of a round. -/
theorem RoundStep.eq_of_other {srv : Server} {Round : UInt32} {ev : Event} {o : Option ConvoRound}
    (h : RoundStep box cfg next srv Round ev o) (hr : ev.request.convoRound ≠ some Round) :
    o = srv.convoRounds Round := by
  cases h with
  | same => rfl
  | _ => exact absurd rfl hr

/-! ### What the handler knew -/

section Serve

variable {w w' : World σ} {request : Request} {ev : Event}

/-- The handler behind a call. -/
theorem handle_of_serve (h : serve box cfg next request w = some (ev, w')) :
    ended (handle box cfg next.recorded request (w.server, w.next, [])) =
      some (ev.outcome, w'.server, w'.next, ev.sent) := by
  rw [serve] at h
  split at h
  · obtain ⟨⟨o, srv', t', sent⟩, hend, hev⟩ := Option.map_eq_some_iff.mp h
    cases hev
    exact hend
  · cases h

/-- A handler on the server alone that succeeded. -/
theorem eq_ok_of_ended {α : Type} {x : Rpc Server α} {srv srv' : Server}
    (h : ended (x srv) = some (.ok, srv')) : ∃ a, x srv = .ok a srv' := by
  cases hx : x srv with
  | ok a s =>
      rw [hx] at h
      cases h
      exact ⟨a, rfl⟩
  | error f s =>
      rw [hx] at h
      cases f <;> cases h

theorem makeOk_of_serve {args : ConvoOpenArgs} {sent : List Sent}
    (h : serve box cfg next (.convoOpen args) w = some (⟨.convoOpen args, .ok, sent⟩, w')) :
    makeOk args.numIncoming := by
  obtain ⟨hend, -⟩ := ended_onFst (handle_of_serve h)
  obtain ⟨a, hopen⟩ := eq_ok_of_ended hend
  exact ConvoService.makeOk_of_open hopen

theorem bound_of_serve {args : ConvoAddArgs} {sent : List Sent} {round : ConvoRound}
    (hround : w.server.convoRounds args.round = some round)
    (h : serve box cfg next (.convoAdd args) w = some (⟨.convoAdd args, .ok, sent⟩, w')) :
    wrapInt (args.offset + args.onions.length) ≤ round.numIncoming := by
  obtain ⟨hend, -⟩ := ended_onFst (handle_of_serve h)
  obtain ⟨a, hadd⟩ := eq_ok_of_ended hend
  rw [ConvoService.add_eq] at hadd
  cases hget : ConvoService.getRound args.round .roundOpen w.server with
  | error f s => rw [hget] at hadd; cases hadd
  | ok r s =>
      obtain ⟨rfl, hr, -⟩ := ConvoService.getRound_eq_ok.mp hget
      cases hr.symm.trans hround
      rw [hget] at hadd
      simp only [] at hadd
      split at hadd
      · cases hadd
      · rename_i hle
        exact Int.not_lt.mp hle

section Close

variable {srv srv' : Server} {Round : UInt32} {shuffler : (n : Nat) → Shuffler n} {t t' : σ}
  {sent : List Sent} {round : ConvoRound} {o : Outcome}

/-- `Close` of an open round panics before it calls anybody, or it has a batch to close with. -/
theorem closing_of_close (hround : srv.convoRounds Round = some round)
    (hs : round.status = .roundOpen)
    (h : ended (ConvoService.close cfg next.recorded shuffler Round (srv, t, [])) =
      some (o, srv', t', sent)) :
    (∃ p, o = .panic p) ∨ ∃ messages index batch,
      Closing srv Round shuffler round messages index batch ∧
        ConvoService.filterIncoming round.incoming = some (messages, index) := by
  cases hfilter : ConvoService.filterIncoming round.incoming with
  | none =>
      rw [ConvoService.close_eq, ConvoService.getRound_of_some hround hs] at h
      simp only [hfilter] at h
      cases h
      exact .inl ⟨_, rfl⟩
  | some r =>
      obtain ⟨messages, index⟩ := r
      obtain ⟨batch, hsh, -⟩ := (shuffler (messages ++ round.noise).length).shuffle_spec
        (x := messages ++ round.noise) rfl
      exact .inr ⟨messages, index, batch,
        ⟨hround, hs, ConvoService.filterIncoming_eq_some hfilter, hsh⟩, rfl⟩

/-- The next server behind a `Close` that succeeded. -/
theorem answered_of_close (box : NaclBox) (hlast : cfg.lastServer = false)
    (hround : srv.convoRounds Round = some round) (hs : round.status = .roundOpen)
    (h : ended (ConvoService.close cfg next.recorded shuffler Round (srv, t, [])) =
      some (.ok, srv', t', sent)) :
    RoundStep box cfg next srv Round ⟨.convoClose Round shuffler, .ok, sent⟩
      (srv'.convoRounds Round) := by
  rcases closing_of_close hround hs h with ⟨p, hp⟩ | ⟨messages, index, batch, hc, hfilter⟩
  · cases hp
  · rw [ConvoService.close_of_open cfg next.recorded shuffler hround hs hfilter, hlast] at h
    cases forwarding_of_closeForward hc h with
    | answered hidle hrun hun hle =>
        rw [Server.setConvo_self]
        exact .answered hlast hc hrun hun hle

/-- An error of a `Close` of an open round is one of the next server. -/
theorem fromNext_of_close {e : Err} (hround : srv.convoRounds Round = some round)
    (hs : round.status = .roundOpen)
    (h : ended (ConvoService.close cfg next.recorded shuffler Round (srv, t, [])) =
      some (.err e, srv', t', sent)) : e.fromNext = true := by
  rcases closing_of_close hround hs h with ⟨p, hp⟩ | ⟨messages, index, batch, hc, hfilter⟩
  · cases hp
  · rw [ConvoService.close_of_open cfg next.recorded shuffler hround hs hfilter] at h
    split at h
    · obtain ⟨hend, -⟩ := ended_onFst h
      rw [ConvoService.closeLast_eq] at hend
      split at hend <;> cases hend
    · cases forwarding_of_closeForward hc h <;> rfl

end Close

/-! ### Every call, seen from a round -/

theorem changes_eq_false_of_reads {Round : UInt32} {o : Outcome} {sent : List Sent}
    (h : request.reads = true) : Event.changes Round ⟨request, o, sent⟩ = false := by
  cases request <;> simp [Request.reads] at h <;> cases o <;> rfl

theorem changes_eq_false_of_refused {Round : UInt32} {e : Err} {sent : List Sent}
    (h : e.fromNext = false) : Event.changes Round ⟨request, .err e, sent⟩ = false := by
  cases request <;> simp [Event.changes, h]

/-- A call that leaves the rounds as they are. -/
theorem RoundStep.of_same {srv srv' : Server} {Round : UInt32}
    (hrounds : srv'.convoRounds = srv.convoRounds) (h : ev.changes Round = false) :
    RoundStep box cfg next srv Round ev (srv'.convoRounds Round) := by
  rw [hrounds]
  exact .same h

/-- A call that sets one round: it is a step of that round, and no other changes. -/
theorem RoundStep.of_set {srv srv' : Server} {r Round : UInt32} {round : ConvoRound}
    (hrounds : srv'.convoRounds = (srv.setConvo r round).convoRounds)
    (hother : r ≠ Round → ev.changes Round = false)
    (hstep : RoundStep box cfg next srv r ev (some round)) :
    RoundStep box cfg next srv Round ev (srv'.convoRounds Round) := by
  rw [hrounds]
  by_cases hr : r = Round
  · subst hr
    rw [Server.setConvo_self]
    exact hstep
  · rw [Server.setConvo_of_ne _ _ _ (Ne.symm hr)]
    exact .same (hother hr)

/-- **What a call does to a round.** -/
theorem roundStep_of_serve (h : serve box cfg next request w = some (ev, w')) (hup : w'.up = true)
    (Round : UInt32) :
    RoundStep box cfg next w.server Round ev (w'.server.convoRounds Round) := by
  obtain ⟨-, hreq, heff, hpanic⟩ := effect_of_serve h
  have hno := hpanic.mp hup
  subst hreq
  obtain ⟨srv', hsrv'⟩ : ∃ srv', w'.server = srv' := ⟨_, rfl⟩
  rw [hsrv'] at heff ⊢
  have hserve := h
  -- a `Close` of another round changes nothing here, however it ended
  have hclose : ∀ {r : UInt32} {shuffler : (n : Nat) → Shuffler n} {o : Outcome}
      {sent : List Sent}, r ≠ Round →
        Event.changes Round ⟨.convoClose r shuffler, o, sent⟩ = false := by
    intro r shuffler o sent hr
    cases o <;> simp [Event.changes, hr]
  cases heff with
  | refused he => exact .of_same rfl (changes_eq_false_of_refused he)
  | read hr => exact .of_same rfl (changes_eq_false_of_reads hr)
  | crashed => exact absurd rfl (hno _)
  | convoNew hidle habsent =>
      exact .of_set rfl (fun hr => by simp [Event.changes, hr]) (.created habsent)
  | convoExists => exact .of_same rfl rfl
  | convoOpened hround hs =>
      exact .of_set rfl (fun hr => by simp [Event.changes, hr])
        (.opened hround hs (makeOk_of_serve hserve))
  | convoAdded hround hs hadd =>
      exact .of_set rfl (fun hr => by simp [Event.changes, hr])
        (.added hround hs (bound_of_serve hround hserve) hadd)
  | convoExchanged hl hc => exact .of_set rfl hclose (.exchanged hl hc)
  | convoUnlocked => exact absurd rfl (hno _)
  | convoNotTaken hl hc | convoNotRun hl hc => exact .of_set rfl hclose (.failed hl hc)
  | convoShort => exact absurd rfl (hno _)
  | @convoAnswered r shuffler round messages batch replies index hl hc =>
      refine .of_set rfl hclose ?_
      have hstep := answered_of_close box hl hc.round_eq hc.status
        (handle_of_serve hserve)
      rw [hsrv'] at hstep
      simpa using hstep
  | @convoDeleted r =>
      by_cases hr : r = Round
      · subst hr
        simp only [Server.dropConvo, Function.update_self]
        exact .deleted
      · simp only [Server.dropConvo, Function.update_of_ne (Ne.symm hr)]
        exact .same (by simp [Event.changes, hr])
  | dialNew | dialExists | dialAdded | dialKept | dialNotTaken | dialNotRun | dialForwarded =>
      exact .of_same rfl rfl
  | dialUnlocked => exact absurd rfl (hno _)

/-- **The invariant rule of a round.**  What holds of a round that was not created yet and is kept
by what a call does to a round holds of every round, as long as the server is up. -/
theorem round_invariant {C : List Event → World σ → Event → Prop}
    {I : List Event → UInt32 → Option ConvoRound → Prop} (hinit : ∀ Round, I [] Round none)
    (hstep : ∀ h w ev Round round', I h Round (w.server.convoRounds Round) → C h w ev →
      RoundStep box cfg next w.server Round ev round' → I (h ++ [ev]) Round round')
    {h : List Event} (run : (rpcSystem box cfg next).Run C h w) (hup : w.up = true)
    (Round : UInt32) : I h Round (w.server.convoRounds Round) := by
  have hrun := run.invariant
    (I := fun h w => w.up = true → ∀ Round, I h Round (w.server.convoRounds Round)) ?_ ?_
  · exact hrun hup Round
  · rintro w ⟨hw, -⟩ - Round
    rw [hw]
    exact hinit Round
  · rintro h w ev w' ih hc ⟨request, hserve⟩ hup' Round
    obtain ⟨hup, -⟩ := effect_of_serve hserve
    exact hstep h w ev Round _ (ih hup Round) hc (roundStep_of_serve hserve hup' Round)

end Serve

end Vuvuzela
