import Vuvuzela.Server.Calls
import Vuvuzela.Chain.Sample

/-!
# Dial — what a server forwards

The dialing service of a server that is not the last one, under any calls of its upstream and any
failures of the next server.  As for conversations, the history of a run says what a round owes
the next server (`dialPledge`), and the first batch of a round that reaches the next server is
that, shuffled (`dialBatch_noised_once`).

Here `Close` leaves the noise in two places when the next server fails: among the messages of the
round, and as its noise.  The next `Close` sends both (`dialBatch_doubled_after_failure`).
-/

namespace Vuvuzela
open Support

variable {σ : Type} {box : NaclBox} {cfg : Config} {next : NextServer σ}

/-! ### What a round owes -/

/-- The messages of the onions a round was given, the noise drawn for it, and whether a `Close` of
it already failed at the next server. -/
structure DialPledge where
  messages : List Bytes
  noise : List Bytes
  failed : Bool
  deriving DecidableEq

/-- The accepted messages, each once. -/
def DialPledge.accepted (p : DialPledge) : List Bytes := firsts msgKey p.messages

/-- What one call changes in what `Round` owes. -/
def dialPledgeStep (box : NaclBox) (cfg : Config) (Round : UInt32) (p : Option DialPledge)
    (ev : Event) : Option DialPledge :=
  match ev.request, ev.outcome with
  | .dialNewRound r coins, .ok =>
      if r = Round then some ⟨[], coins.noise box cfg Round, false⟩ else p
  | .dialAdd args, .ok =>
      if args.round = Round then
        p.map fun p =>
          { p with
            messages := p.messages ++
              peelAll box cfg sizeDialExchange (forwardNonce Round) args.onions }
      else p
  | .dialClose r _, .err e =>
      if r = Round ∧ e.fromNext = true then p.map fun p => { p with failed := true } else p
  | _, _ => p

/-- What `Round` owes after the calls of a history; nothing where the round does not exist. -/
def dialPledge (box : NaclBox) (cfg : Config) (Round : UInt32) (h : List Event) :
    Option DialPledge :=
  h.foldl (dialPledgeStep box cfg Round) none

theorem dialPledge_concat (Round : UInt32) (h : List Event) (ev : Event) :
    dialPledge box cfg Round (h ++ [ev]) =
      dialPledgeStep box cfg Round (dialPledge box cfg Round h) ev := by
  rw [dialPledge, List.foldl_append]
  rfl

/-- An error of the server's own changes nothing. -/
theorem dialPledgeStep_refused {Round : UInt32} {p : Option DialPledge} {request : Request}
    {e : Err} {sent : List Sent} (he : e.fromNext = false) :
    dialPledgeStep box cfg Round p ⟨request, .err e, sent⟩ = p := by
  cases request <;> simp [dialPledgeStep, he]

theorem dialPledgeStep_read {Round : UInt32} {p : Option DialPledge} {request : Request}
    {o : Outcome} {sent : List Sent} (h : request.reads = true) :
    dialPledgeStep box cfg Round p ⟨request, o, sent⟩ = p := by
  cases request <;> simp [Request.reads] at h <;> cases o <;> rfl

theorem dialPledgeStep_noise {Round : UInt32} {p : Option DialPledge} {ev : Event}
    {noise : List Bytes} (h : ∃ q, dialPledgeStep box cfg Round p ev = some q ∧ q.noise = noise) :
    (∃ coins, ev.request = .dialNewRound Round coins ∧ ev.outcome = .ok ∧
      noise = coins.noise box cfg Round) ∨ ∃ p', p = some p' ∧ p'.noise = noise := by
  obtain ⟨q, h, rfl⟩ := h
  obtain ⟨request, outcome, sent⟩ := ev
  -- `Add` and a failed `Close` change a pledge, but not its noise
  have hmap : ∀ {f : DialPledge → DialPledge}, p.map f = some q → (∀ p, (f p).noise = p.noise) →
      ∃ p', p = some p' ∧ p'.noise = q.noise := exists_of_map_eq_some
  simp only [dialPledgeStep] at h
  split at h <;> try split at h
  · rename_i r coins hr
    subst hr
    cases h
    exact .inl ⟨coins, rfl, rfl, rfl⟩
  · exact .inr ⟨q, h, rfl⟩
  · exact .inr (hmap h fun _ => rfl)
  · exact .inr ⟨q, h, rfl⟩
  · exact .inr (hmap h fun _ => rfl)
  · exact .inr ⟨q, h, rfl⟩
  · exact .inr ⟨q, h, rfl⟩

/-- The noise a round owes was drawn in a `NewRound` of the round. -/
theorem dialPledge_drawn {Round : UInt32} {h : List Event} {p : DialPledge}
    (hp : dialPledge box cfg Round h = some p) :
    ∃ ev ∈ h, ∃ coins, ev.request = .dialNewRound Round coins ∧ ev.outcome = .ok ∧
      p.noise = coins.noise box cfg Round :=
  exists_mem_of_foldl (P := fun q noise => ∃ p, q = some p ∧ p.noise = noise) nofun
    (fun _ _ _ => dialPledgeStep_noise) ⟨p, hp, rfl⟩

/-! ### The round keeps what it owes, until a call fails -/

/-- The round still holds what it owes, while it is open and no `Close` of it has failed. -/
def DialKeeps (p : DialPledge) (round : DialRound) : Prop :=
  round.status = .roundOpen → p.failed = false →
    round.incoming = p.messages ∧ round.noise = p.noise

/-- Every round of the server has a pledge, and keeps it. -/
def DialPledged (box : NaclBox) (cfg : Config) (h : List Event) (srv : Server) : Prop :=
  ∀ Round round, srv.dialRounds Round = some round →
    ∃ p, dialPledge box cfg Round h = some p ∧ DialKeeps p round

/-- A call that does not touch the dialing rounds. -/
theorem DialPledged.same {h : List Event} {srv srv' : Server} {ev : Event}
    (hI : DialPledged box cfg h srv) (hrounds : srv'.dialRounds = srv.dialRounds)
    (hev : ∀ Round p, dialPledgeStep box cfg Round p ev = p) :
    DialPledged box cfg (h ++ [ev]) srv' := by
  intro Round round hround
  rw [hrounds] at hround
  rw [dialPledge_concat, hev]
  exact hI Round round hround

/-- A call that changes one round, and what it owes. -/
theorem DialPledged.set {h : List Event} {srv srv' : Server} {ev : Event} {Round : UInt32}
    {round' : DialRound} (hI : DialPledged box cfg h srv)
    (hrounds : srv'.dialRounds = (srv.setDial Round round').dialRounds)
    (hev : ∀ r p, r ≠ Round → dialPledgeStep box cfg r p ev = p)
    (hkeeps : ∃ p, dialPledgeStep box cfg Round (dialPledge box cfg Round h) ev = some p ∧
      DialKeeps p round') : DialPledged box cfg (h ++ [ev]) srv' := by
  intro r round hround
  rw [hrounds] at hround
  rw [dialPledge_concat]
  by_cases hr : r = Round
  · subst hr
    rw [Server.setDial_self] at hround
    cases hround
    exact hkeeps
  · rw [Server.setDial_of_ne _ _ _ hr] at hround
    rw [hev r _ hr]
    exact hI r round hround

/-- What the batch of a `Close` is, where the round keeps what it owes. -/
theorem DialClosing.batch_perm {srv : Server} {Round : UInt32}
    {shuffler : (n : Nat) → Shuffler n} {round : DialRound} {messages batch : List Bytes}
    {p : DialPledge} (hc : DialClosing srv Round shuffler round messages batch)
    (hkeeps : DialKeeps p round) (hfailed : p.failed = false) :
    batch.Perm (p.accepted ++ p.noise) := by
  obtain ⟨hin, hnoise⟩ := hkeeps hc.status hfailed
  obtain ⟨batch', hsh, hperm⟩ :=
    (shuffler (messages ++ round.noise).length).shuffle_spec (x := messages ++ round.noise) rfl
  cases hc.shuffle.symm.trans hsh
  rw [DialPledge.accepted, ← hin, ← hnoise, ← DialService.filterIncoming_eq_some hc.filtered]
  exact hperm

/-- A failed `Close` leaves its round with a pledge it need not keep. -/
theorem dialPledged_of_failed {h : List Event} {srv srv' : Server} {Round : UInt32}
    {shuffler : (n : Nat) → Shuffler n} {round round' : DialRound} {call : String} {e : Err}
    {sent : List Sent} (hI : DialPledged box cfg h srv)
    (hround : srv.dialRounds Round = some round)
    (hrounds : srv'.dialRounds = (srv.setDial Round round').dialRounds) :
    DialPledged box cfg
      (h ++ [⟨.dialClose Round shuffler, .err (.context call e), sent⟩]) srv' := by
  obtain ⟨p, hp, -⟩ := hI Round round hround
  refine hI.set hrounds (fun r p hr => if_neg fun h => hr h.1.symm)
    ⟨{ p with failed := true }, ?_, fun _ hf => nomatch hf⟩
  simp [dialPledgeStep, Err.fromNext, hp]

/-- A round that closed owes nothing more. -/
theorem dialPledged_of_closed {h : List Event} {srv srv' : Server} {Round : UInt32}
    {shuffler : (n : Nat) → Shuffler n} {round : DialRound} {incoming : List Bytes}
    {sent : List Sent} (hI : DialPledged box cfg h srv)
    (hround : srv.dialRounds Round = some round)
    (hrounds : srv'.dialRounds =
      (srv.setDial Round (DialService.closed incoming)).dialRounds) :
    DialPledged box cfg (h ++ [⟨.dialClose Round shuffler, .ok, sent⟩]) srv' := by
  obtain ⟨p, hp, -⟩ := hI Round round hround
  exact hI.set hrounds (fun _ _ _ => rfl) ⟨p, hp, nofun⟩

/-- **One call.**  Every round has a pledge after the call, and keeps it. -/
theorem DialPledged.step {h : List Event} {srv srv' : Server} {ev : Event}
    (hI : DialPledged box cfg h srv) (heff : Effect box cfg srv ev srv')
    (hpanic : ∀ p, ev.outcome ≠ .panic p) : DialPledged box cfg (h ++ [ev]) srv' := by
  cases heff with
  | refused he => exact hI.same rfl fun _ _ => dialPledgeStep_refused he
  | read hr => exact hI.same rfl fun _ _ => dialPledgeStep_read hr
  | crashed | convoUnlocked | convoShort | dialUnlocked => exact absurd rfl (hpanic _)
  | convoNew | convoExists | convoOpened | convoAdded | convoExchanged | convoNotTaken
  | convoNotRun | convoAnswered | convoDeleted => exact hI.same rfl fun _ _ => rfl
  | dialNew =>
      exact hI.set rfl (fun r p hr => if_neg hr.symm) ⟨_, if_pos rfl, fun _ _ => ⟨rfl, rfl⟩⟩
  | dialExists => exact hI.same rfl fun _ _ => dialPledgeStep_refused rfl
  | dialAdded hround hs =>
      obtain ⟨p, hp, hkeeps⟩ := hI _ _ hround
      refine hI.set rfl (fun r p hr => if_neg hr.symm)
        ⟨_, (if_pos rfl).trans (by rw [hp]; rfl), fun _ hfailed => ?_⟩
      obtain ⟨hin, hn⟩ := hkeeps hs hfailed
      exact ⟨by rw [DialService.added, hin], hn⟩
  | dialKept _ hc | dialForwarded _ hc => exact dialPledged_of_closed hI hc.round_eq rfl
  | dialNotTaken _ hc | dialNotRun _ hc => exact dialPledged_of_failed hI hc.round_eq rfl

/-! ### Every batch -/

/-- A `Close` is not made on a round of which a `Close` failed at the next server. -/
def NoDialRetry (box : NaclBox) (cfg : Config) (h : List Event) (_ : World σ) (ev : Event) : Prop :=
  ∀ Round shuffler p, ev.request = .dialClose Round shuffler →
    dialPledge box cfg Round h = some p → p.failed = false

/-- A batch was sent by a `Close` of its round. -/
theorem closing_of_dialBatch {srv srv' : Server} {ev : Event} {Round : UInt32}
    {batch : List Bytes} (heff : Effect box cfg srv ev srv')
    (hsent : .dialBatch Round batch ∈ ev.sent) :
    ∃ shuffler round messages, ev.request = .dialClose Round shuffler ∧
      DialClosing srv Round shuffler round messages batch := by
  have hbatch : ∀ {r : UInt32} {b : List Bytes},
      .dialBatch Round batch ∈ [Sent.dialTaken r, .dialBatch r b] → r = Round ∧ b = batch := by
    intro r b h
    simpa [eq_comm] using h
  cases heff with
  | convoUnlocked hc hidle hs | dialUnlocked hc hidle hs =>
      simp only [hs] at hsent
      split at hsent <;> simp at hsent
  | dialNotRun hl hc | dialForwarded hl hc =>
      obtain ⟨rfl, rfl⟩ := hbatch hsent
      exact ⟨_, _, _, rfl, hc⟩
  | _ => simp at hsent

/-- **A batch carries each noise onion once**, in every run without a retry: it is the accepted
messages of its round, which are distinct, and the noise drawn for the round, in some order.  So no
onion is in it twice, where the noise is distinct and new. -/
theorem dialBatch_noised_once {h₁ h₂ : List Event} {ev : Event} {w : World σ}
    (run : (rpcSystem box cfg next).Run (NoDialRetry box cfg) (h₁ ++ ev :: h₂) w)
    {Round : UInt32} {batch : List Bytes} (hsent : .dialBatch Round batch ∈ ev.sent) :
    ∃ p, dialPledge box cfg Round h₁ = some p ∧ p.accepted.Nodup ∧
      batch.Perm (p.accepted ++ p.noise) ∧
      (∃ ev' ∈ h₁, ∃ coins, ev'.request = .dialNewRound Round coins ∧ ev'.outcome = .ok ∧
        p.noise = coins.noise box cfg Round) ∧
      (p.noise.Nodup → p.accepted.Disjoint p.noise → batch.Nodup) := by
  obtain ⟨w₁, srv', run₁, hup, hno, heff⟩ := effect_of_run run
  have hI : DialPledged box cfg h₁ w₁.server :=
    server_invariant (I := DialPledged box cfg) nofun
      (fun h w ev srv' hI _ heff hpanic => hI.step heff hpanic) run₁ hup
  obtain ⟨shuffler, round, messages, hreq, hc⟩ := closing_of_dialBatch heff hsent
  obtain ⟨p, hp, hkeeps⟩ := hI Round round hc.round_eq
  have hperm := hc.batch_perm hkeeps (hno Round shuffler p hreq hp)
  have hnodup : p.accepted.Nodup := nodup_firsts msgKey p.messages
  refine ⟨p, hp, hnodup, hperm, dialPledge_drawn hp, fun hnoise hdisj => ?_⟩
  exact hperm.nodup_iff.mpr (hnodup.append hnoise hdisj)

/-! ### A round closed, and one closed again -/

/-- The noise of the sample, owed by a round that was given no onion. -/
def sampleDialPledge (failed : Bool) : DialPledge :=
  ⟨[], (sampleDialCoins 40).noise tagBox sampleConfig 1, failed⟩

/-- Whether a call sent a batch that has no onion twice, or one that has, in a round that owes the
noise of the sample. -/
def sendsDial (failed distinct : Bool) (h : List Event) (ev : Event) (_ : World (List Bool)) :
    Bool :=
  dialPledge tagBox sampleConfig 1 h = some (sampleDialPledge failed) &&
    ev.sent.any fun
      | .dialBatch 1 batch => decide batch.Nodup == distinct
      | _ => false

theorem batch_of_sendsDial {failed distinct : Bool} {h : List Event} {ev : Event}
    {w : World (List Bool)} (hs : sendsDial failed distinct h ev w = true) :
    dialPledge tagBox sampleConfig 1 h = some (sampleDialPledge failed) ∧
      ∃ batch, .dialBatch 1 batch ∈ ev.sent ∧ decide batch.Nodup = distinct := by
  rw [sendsDial, Bool.and_eq_true, decide_eq_true_eq, List.any_eq_true] at hs
  obtain ⟨hp, s, hmem, hlen⟩ := hs
  refine ⟨hp, ?_⟩
  split at hlen
  · exact ⟨_, hmem, beq_iff_eq.mp hlen⟩
  · cases hlen

/-- The check of `NoDialRetry`. -/
def noDialRetry (h : List Event) (_ : World (List Bool)) (ev : Event) : Bool :=
  match ev.request with
  | .dialClose Round _ => (dialPledge tagBox sampleConfig Round h).all fun p => !p.failed
  | _ => true

theorem noDialRetry_of_check {h : List Event} {w : World (List Bool)} {ev : Event}
    (hc : noDialRetry h w ev = true) : NoDialRetry tagBox sampleConfig h w ev := by
  intro Round shuffler p hreq hp
  simpa [noDialRetry, hreq, hp] using hc

/-- A round of noise only, closed once. -/
theorem dialBatch_noised_once_sample :
    ∃ h ev w batch, (rpcSystem tagBox sampleConfig scriptedServer).Run
        (NoDialRetry tagBox sampleConfig) (h ++ [ev]) w ∧
      .dialBatch 1 batch ∈ ev.sent ∧ batch.Nodup ∧
      ∃ p, dialPledge tagBox sampleConfig 1 h = some p ∧ p.noise.length = 2 ∧
        batch.Perm (p.accepted ++ p.noise) := by
  obtain ⟨h, ev, w, run, hs⟩ := run_of_lastCall (fun _ _ _ => noDialRetry_of_check)
    (show lastCall tagBox sampleConfig scriptedServer noDialRetry (sendsDial false true)
      [.dialNewRound 1 (sampleDialCoins 40)] (.dialClose 1 sampleShuffler)
      ⟨Server.start, [], true⟩ = true by decide +kernel)
  obtain ⟨hp, batch, hbatch, hnodup⟩ := batch_of_sendsDial hs
  obtain ⟨p, hp', -, hperm, -⟩ := dialBatch_noised_once run hbatch
  cases hp.symm.trans hp'
  exact ⟨h, ev, w, batch, run, hbatch, of_decide_eq_true hnodup, _, hp, by decide +kernel, hperm⟩

/-- The next server is away for one call.  The second `Close` sends every noise onion twice. -/
theorem dialBatch_doubled_after_failure :
    ∃ h ev w batch p, (rpcSystem tagBox sampleConfig scriptedServer).Run System.Any (h ++ [ev]) w ∧
      .dialBatch 1 batch ∈ ev.sent ∧ dialPledge tagBox sampleConfig 1 h = some p ∧
      (p.accepted ++ p.noise).Nodup ∧ ¬ batch.Nodup ∧ ¬ batch.Perm (p.accepted ++ p.noise) := by
  obtain ⟨h, ev, w, run, hs⟩ := run_of_lastCall (C := System.Any) (fun _ _ _ _ => trivial)
    (show lastCall tagBox sampleConfig scriptedServer (fun _ _ _ => true) (sendsDial true false)
      [.dialNewRound 1 (sampleDialCoins 40), .dialClose 1 sampleShuffler]
      (.dialClose 1 sampleShuffler) ⟨Server.start, [false], true⟩ = true by decide +kernel)
  obtain ⟨hp, batch, hbatch, hdup⟩ := batch_of_sendsDial hs
  have howed : ((sampleDialPledge true).accepted ++ (sampleDialPledge true).noise).Nodup := by
    decide +kernel
  have hdup : ¬ batch.Nodup := of_decide_eq_false hdup
  exact ⟨h, ev, w, batch, _, run, hbatch, hp, howed, hdup, fun hperm =>
    hdup (hperm.nodup_iff.mpr howed)⟩

end Vuvuzela
