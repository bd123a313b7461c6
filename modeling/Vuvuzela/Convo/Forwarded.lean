import Vuvuzela.Server.Rounds
import Vuvuzela.Convo.Bounds

/-!
# Convo — what a server forwards

A server that is not the last one, under any calls of its upstream and any failures of the next
server.  The history of a run says what each round owes the next server: the messages `Add`
accepted for it, and the noise `NewRound` drew for it (`pledge`).  A batch of the first `Close` of
a round that reaches the next server is that, shuffled (`batch_fully_noised`).

`Close` drops the noise before the calls that can fail and leaves the round open when they do.  A
second `Close` then forwards the accepted messages bare (`batch_bare_after_failure`).
-/

namespace Vuvuzela
open Support

variable {σ : Type} {box : NaclBox} {cfg : Config} {next : NextServer σ}

/-! ### The messages a round accepted -/

/-- The slots of a round after the onions of an `Add`, from the `k`-th on: an onion that opens
fills its slot, any other leaves it. -/
def accept (box : NaclBox) (cfg : Config) (nonce : Nonce) (offset : Int) :
    Nat → List Bytes → List (Option Bytes) → List (Option Bytes)
  | _, [], slots => slots
  | k, onion :: onions, slots =>
      accept box cfg nonce offset (k + 1) onions
        (match (peel box cfg sizeConvoExchange nonce onion).2 with
        | none => slots
        | some message => slots.set (wrapInt (offset + k)).toNat (some message))

/-- The loop of `Add` fills the slots, and changes neither the status nor the noise. -/
theorem addLoop_accept {nonce : Nonce} {offset : Int} :
    ∀ {k : Nat} {onions : List Bytes} {round round' : ConvoRound},
      ConvoService.addLoop box cfg nonce offset k onions round = some round' →
        round'.incoming = accept box cfg nonce offset k onions round.incoming ∧
          round'.status = round.status ∧ round'.noise = round.noise
  | _, [], round, round', h => by
      cases h
      exact ⟨rfl, rfl, rfl⟩
  | k, onion :: onions, round, round', h => by
      obtain ⟨-, hloop⟩ := ConvoService.addLoop_cons h
      obtain ⟨hincoming, hstatus, hnoise⟩ := addLoop_accept hloop
      refine ⟨hincoming.trans ?_, hstatus, hnoise⟩
      cases hm : (peel box cfg sizeConvoExchange nonce onion).2 with
      | none => simp only [accept, ConvoService.stored, hm]
      | some message => simp only [accept, ConvoService.stored, hm]

/-! ### What a round owes -/

/-- The messages a round accepted, by slot, the noise drawn for it, and whether a `Close` of it
already failed at the next server. -/
structure Pledge where
  slots : List (Option Bytes)
  noise : List Bytes
  failed : Bool
  deriving DecidableEq

/-- The accepted messages, each once. -/
def Pledge.accepted (p : Pledge) : List Bytes := firsts msgKey p.slots.reduceOption

/-- What one call changes in what `Round` owes. -/
def pledgeStep (box : NaclBox) (cfg : Config) (Round : UInt32) (p : Option Pledge) (ev : Event) :
    Option Pledge :=
  match ev.request, ev.outcome with
  | .convoNewRound r coins, .ok =>
      if r = Round then some ⟨[], coins.noise box cfg Round, false⟩ else p
  | .convoOpen args, .ok =>
      if args.round = Round then
        p.map fun p => { p with slots := List.replicate args.numIncoming.toNat none }
      else p
  | .convoAdd args, .ok =>
      if args.round = Round then
        p.map fun p =>
          { p with slots := accept box cfg (forwardNonce Round) args.offset 0 args.onions p.slots }
      else p
  | .convoClose r _, .err e =>
      if r = Round ∧ e.fromNext = true then p.map fun p => { p with failed := true } else p
  | .convoDelete r, .ok => if r = Round then none else p
  | _, _ => p

/-- What `Round` owes after the calls of a history; nothing where the round does not exist. -/
def pledge (box : NaclBox) (cfg : Config) (Round : UInt32) (h : List Event) : Option Pledge :=
  h.foldl (pledgeStep box cfg Round) none

theorem pledge_concat (Round : UInt32) (h : List Event) (ev : Event) :
    pledge box cfg Round (h ++ [ev]) = pledgeStep box cfg Round (pledge box cfg Round h) ev := by
  rw [pledge, List.foldl_append]
  rfl

/-- A call that does not change a round does not change what the round owes. -/
theorem pledgeStep_same {Round : UInt32} {p : Option Pledge} {ev : Event}
    (h : ev.changes Round = false) : pledgeStep box cfg Round p ev = p := by
  obtain ⟨request, outcome, sent⟩ := ev
  cases request <;> cases outcome <;> simp_all [Event.changes, pledgeStep]

section Steps

variable {Round : UInt32} {p : Pledge} {sent : List Sent}

theorem pledgeStep_created {q : Option Pledge} {coins : ConvoCoins} :
    pledgeStep box cfg Round q ⟨.convoNewRound Round coins, .ok, sent⟩ =
      some ⟨[], coins.noise box cfg Round, false⟩ :=
  if_pos rfl

theorem pledgeStep_opened {n : Int} :
    pledgeStep box cfg Round (some p) ⟨.convoOpen ⟨Round, n⟩, .ok, sent⟩ =
      some { p with slots := List.replicate n.toNat none } :=
  if_pos rfl

theorem pledgeStep_added {offset : Int} {onions : List Bytes} :
    pledgeStep box cfg Round (some p) ⟨.convoAdd ⟨Round, offset, onions⟩, .ok, sent⟩ =
      some { p with slots := accept box cfg (forwardNonce Round) offset 0 onions p.slots } :=
  if_pos rfl

theorem pledgeStep_failed {shuffler : (n : Nat) → Shuffler n} {call : String} {e : Err} :
    pledgeStep box cfg Round (some p)
        ⟨.convoClose Round shuffler, .err (.context call e), sent⟩ =
      some { p with failed := true } :=
  if_pos ⟨rfl, rfl⟩

end Steps

theorem pledgeStep_noise {Round : UInt32} {p : Option Pledge} {ev : Event}
    {noise : List Bytes} (h : ∃ q, pledgeStep box cfg Round p ev = some q ∧ q.noise = noise) :
    (∃ coins, ev.request = .convoNewRound Round coins ∧ ev.outcome = .ok ∧
      noise = coins.noise box cfg Round) ∨ ∃ p', p = some p' ∧ p'.noise = noise := by
  obtain ⟨q, h, rfl⟩ := h
  obtain ⟨request, outcome, sent⟩ := ev
  -- `Open`, `Add` and a failed `Close` change a pledge, but not its noise
  have hmap : ∀ {f : Pledge → Pledge}, p.map f = some q → (∀ p, (f p).noise = p.noise) →
      ∃ p', p = some p' ∧ p'.noise = q.noise := exists_of_map_eq_some
  simp only [pledgeStep] at h
  split at h <;> try split at h
  · rename_i r coins hr
    subst hr
    cases h
    exact .inl ⟨coins, rfl, rfl, rfl⟩
  · exact .inr ⟨q, h, rfl⟩
  · exact .inr (hmap h fun _ => rfl)
  · exact .inr ⟨q, h, rfl⟩
  · exact .inr (hmap h fun _ => rfl)
  · exact .inr ⟨q, h, rfl⟩
  · exact .inr (hmap h fun _ => rfl)
  · exact .inr ⟨q, h, rfl⟩
  · cases h
  · exact .inr ⟨q, h, rfl⟩
  · exact .inr ⟨q, h, rfl⟩

/-- The noise a round owes was drawn in a `NewRound` of the round. -/
theorem pledge_drawn {Round : UInt32} {h : List Event} {p : Pledge}
    (hp : pledge box cfg Round h = some p) :
    ∃ ev ∈ h, ∃ coins, ev.request = .convoNewRound Round coins ∧ ev.outcome = .ok ∧
      p.noise = coins.noise box cfg Round :=
  exists_mem_of_foldl (P := fun q noise => ∃ p, q = some p ∧ p.noise = noise) nofun
    (fun _ _ _ => pledgeStep_noise) ⟨p, hp, rfl⟩

/-! ### Rounds and what they owe -/

/-- A round that exists owes something, and the two are in a relation. -/
def Owing (P : Pledge → ConvoRound → Prop) (q : Option Pledge) (o : Option ConvoRound) : Prop :=
  ∀ round, o = some round → ∃ p, q = some p ∧ P p round

/-- **The invariant rule of a round and what it owes.**  What every call on a round keeps, of the
round and of what the history says it owes, holds of every round, as long as the server is up. -/
theorem pledge_invariant {C : List Event → World σ → Event → Prop}
    {P : Pledge → ConvoRound → Prop}
    (hstep : ∀ h w ev Round round',
      Owing P (pledge box cfg Round h) (w.server.convoRounds Round) → C h w ev →
        RoundStep box cfg next w.server Round ev round' →
          Owing P (pledgeStep box cfg Round (pledge box cfg Round h) ev) round')
    {h : List Event} {w : World σ} (run : (rpcSystem box cfg next).Run C h w) (hup : w.up = true)
    (Round : UInt32) : Owing P (pledge box cfg Round h) (w.server.convoRounds Round) := by
  refine round_invariant (I := fun h Round o => Owing P (pledge box cfg Round h) o)
    (fun _ _ => nofun) (fun h w ev r round' hI hc hround => ?_) run hup Round
  rw [pledge_concat]
  exact hstep h w ev r round' hI hc hround

/-! ### The round keeps what it owes, until a call fails -/

/-- The round still holds what it owes, while it is open and no `Close` of it has failed. -/
def Keeps (p : Pledge) (round : ConvoRound) : Prop :=
  round.status ≠ .roundClosed → p.failed = false →
    round.incoming = p.slots ∧ round.noise = p.noise

/-- Every round of the server has a pledge, and keeps it. -/
def Pledged (box : NaclBox) (cfg : Config) (h : List Event) (srv : Server) : Prop :=
  ∀ Round round, srv.convoRounds Round = some round →
    ∃ p, pledge box cfg Round h = some p ∧ Keeps p round

/-- **One call.** -/
theorem Keeps.step {q : Option Pledge} {srv : Server} {ev : Event} {Round : UInt32}
    {round' : Option ConvoRound} (hlast : cfg.lastServer = false)
    (hI : Owing Keeps q (srv.convoRounds Round))
    (hstep : RoundStep box cfg next srv Round ev round') :
    Owing Keeps (pledgeStep box cfg Round q ev) round' := by
  -- `Open` and `Add` change slots and pledge alike; a `Close` ends the pledge, or marks it failed
  intro r hr
  cases hstep with
  | same hsame =>
      rw [pledgeStep_same hsame]
      exact hI r hr
  | created =>
      cases hr
      refine ⟨_, pledgeStep_created, fun _ _ => ⟨rfl, ?_⟩⟩
      rw [ConvoCoins.newRound, hlast]
      rfl
  | opened hround hs =>
      cases hr
      obtain ⟨p, rfl, hkeeps⟩ := hI _ hround
      exact ⟨_, pledgeStep_opened, fun _ hfailed =>
        ⟨rfl, (hkeeps (by rw [hs]; rintro ⟨⟩) hfailed).2⟩⟩
  | added hround hs _ hadd =>
      cases hr
      obtain ⟨p, rfl, hkeeps⟩ := hI _ hround
      obtain ⟨hinc, -, hnoise⟩ := addLoop_accept hadd
      refine ⟨_, pledgeStep_added, fun _ hfailed => ?_⟩
      obtain ⟨hin, hn⟩ := hkeeps (by rw [hs]; rintro ⟨⟩) hfailed
      exact ⟨by rw [hinc, hin], by rw [hnoise, hn]⟩
  | exchanged hl _ => cases hl.symm.trans hlast
  | failed _ hc =>
      cases hr
      obtain ⟨p, rfl, -⟩ := hI _ hc.round_eq
      exact ⟨_, pledgeStep_failed, fun _ => by rintro ⟨⟩⟩
  | answered _ hc =>
      cases hr
      obtain ⟨p, hp, -⟩ := hI _ hc.round_eq
      exact ⟨p, hp, fun hopen => absurd rfl hopen⟩
  | deleted => cases hr

/-- **A run.**  Every round keeps what it owes. -/
theorem pledged_of_run {C : List Event → World σ → Event → Prop} {h : List Event} {w : World σ}
    (hlast : cfg.lastServer = false) (run : (rpcSystem box cfg next).Run C h w)
    (hup : w.up = true) : Pledged box cfg h w.server :=
  pledge_invariant (fun _ _ _ _ _ hI _ hstep => Keeps.step hlast hI hstep) run hup

/-- What the batch of a `Close` is, where the round keeps what it owes. -/
theorem Closing.batch_perm {srv : Server} {Round : UInt32} {shuffler : (n : Nat) → Shuffler n}
    {round : ConvoRound} {messages batch : List Bytes} {index : List Int} {p : Pledge}
    (hc : Closing srv Round shuffler round messages index batch) (hkeeps : Keeps p round)
    (hfailed : p.failed = false) : batch.Perm (p.accepted ++ p.noise) := by
  obtain ⟨hin, hnoise⟩ := hkeeps (by rw [hc.status]; exact nofun) hfailed
  obtain ⟨batch', hsh, hperm⟩ :=
    (shuffler (messages ++ round.noise).length).shuffle_spec (x := messages ++ round.noise) rfl
  cases hc.shuffle.symm.trans hsh
  rw [Pledge.accepted, ← hin, ← hnoise, ← hc.filtered.valid_eq]
  exact hperm

/-! ### Every batch -/

/-- A `Close` is not made on a round of which a `Close` failed at the next server. -/
def NoRetry (box : NaclBox) (cfg : Config) (h : List Event) (_ : World σ) (ev : Event) : Prop :=
  ∀ Round shuffler p, ev.request = .convoClose Round shuffler → pledge box cfg Round h = some p →
    p.failed = false

/-- A batch was sent by a `Close` of its round. -/
theorem closing_of_batch {srv srv' : Server} {ev : Event} {Round : UInt32} {batch : List Bytes}
    (heff : Effect box cfg srv ev srv') (hsent : .convoBatch Round batch ∈ ev.sent) :
    ∃ shuffler round messages index, ev.request = .convoClose Round shuffler ∧
      Closing srv Round shuffler round messages index batch := by
  have hbatch : ∀ {r : UInt32} {b : List Bytes},
      .convoBatch Round batch ∈ [Sent.convoTaken r, .convoBatch r b] → r = Round ∧ b = batch := by
    intro r b h
    simpa [eq_comm] using h
  cases heff with
  | convoUnlocked hc hidle hs | dialUnlocked hc hidle hs =>
      simp only [hs] at hsent
      split at hsent <;> simp at hsent
  | convoNotRun hl hc | convoShort hl hc | convoAnswered hl hc =>
      obtain ⟨rfl, rfl⟩ := hbatch hsent
      exact ⟨_, _, _, _, rfl, hc⟩
  | _ => simp at hsent

/-- **Every batch forwarded is fully noised**, in every run without a retry: it is the accepted
messages of its round and all the noise drawn for the round, in some order. -/
theorem batch_fully_noised (hlast : cfg.lastServer = false) {h₁ h₂ : List Event} {ev : Event}
    {w : World σ} (run : (rpcSystem box cfg next).Run (NoRetry box cfg) (h₁ ++ ev :: h₂) w)
    {Round : UInt32} {batch : List Bytes} (hsent : .convoBatch Round batch ∈ ev.sent) :
    ∃ p, pledge box cfg Round h₁ = some p ∧ batch.Perm (p.accepted ++ p.noise) ∧
      ∃ ev' ∈ h₁, ∃ coins, ev'.request = .convoNewRound Round coins ∧ ev'.outcome = .ok ∧
        p.noise = coins.noise box cfg Round ∧
        p.noise.length = coins.singles + coins.numFakeDoubles := by
  obtain ⟨w₁, srv', run₁, hup, hno, heff⟩ := effect_of_run run
  have hI := pledged_of_run hlast run₁ hup
  obtain ⟨shuffler, round, messages, index, hreq, hc⟩ := closing_of_batch heff hsent
  obtain ⟨p, hp, hkeeps⟩ := hI Round round hc.round_eq
  obtain ⟨ev', hev', coins, hnew, hok, hnoise⟩ := pledge_drawn hp
  exact ⟨p, hp, hc.batch_perm hkeeps (hno Round shuffler p hreq hp), ev', hev', coins, hnew, hok,
    hnoise, by rw [hnoise, ConvoCoins.length_noise]⟩

/-! ### A round closed, and one closed again -/

/-- The calls of a round with one onion, up to its `Close`. -/
def sampleCalls : List Request :=
  [.convoNewRound 1 sampleCoins, .convoOpen ⟨1, 1⟩, .convoAdd ⟨1, 0, [(sampleOnion 3).1]⟩]

/-- What the first server finds in the onion. -/
def sampleMessage : Bytes :=
  ((peel tagBox sampleConfig sizeConvoExchange (forwardNonce 1) (sampleOnion 3).1).2).getD []

/-- What the round of the sample owes. -/
def samplePledge (failed : Bool) : Pledge :=
  ⟨[some sampleMessage], sampleCoins.noise tagBox sampleConfig 1, failed⟩

/-- Whether a call sent a batch of `n` onions, in a round that owes those of the sample. -/
def sendsOf (failed : Bool) (n : Nat) (h : List Event) (ev : Event) (_ : World (List Bool)) :
    Bool :=
  pledge tagBox sampleConfig 1 h = some (samplePledge failed) &&
    ev.sent.any fun
      | .convoBatch 1 batch => batch.length == n
      | _ => false

theorem batch_of_sendsOf {failed : Bool} {n : Nat} {h : List Event} {ev : Event}
    {w : World (List Bool)} (hs : sendsOf failed n h ev w = true) :
    pledge tagBox sampleConfig 1 h = some (samplePledge failed) ∧
      ∃ batch, .convoBatch 1 batch ∈ ev.sent ∧ batch.length = n := by
  rw [sendsOf, Bool.and_eq_true, decide_eq_true_eq, List.any_eq_true] at hs
  obtain ⟨hp, s, hmem, hlen⟩ := hs
  refine ⟨hp, ?_⟩
  split at hlen
  · exact ⟨_, hmem, beq_iff_eq.mp hlen⟩
  · cases hlen

/-- A `Close` of a round of which none failed at the next server. -/
def noRetry (h : List Event) (_ : World (List Bool)) (ev : Event) : Bool :=
  match ev.request with
  | .convoClose Round _ => (pledge tagBox sampleConfig Round h).all fun p => !p.failed
  | _ => true

theorem noRetry_of_check {h : List Event} {w : World (List Bool)} {ev : Event}
    (hc : noRetry h w ev = true) : NoRetry tagBox sampleConfig h w ev := by
  intro Round shuffler p hreq hp
  simpa [noRetry, hreq, hp] using hc

/-- One onion leaves with the three onions of noise. -/
theorem batch_fully_noised_sample :
    ∃ h ev w batch, (rpcSystem tagBox sampleConfig scriptedServer).Run
        (NoRetry tagBox sampleConfig) (h ++ [ev]) w ∧
      .convoBatch 1 batch ∈ ev.sent ∧ batch.length = 4 ∧
      ∃ p, pledge tagBox sampleConfig 1 h = some p ∧ batch.Perm (p.accepted ++ p.noise) := by
  obtain ⟨h, ev, w, run, hs⟩ := run_of_lastCall (fun _ _ _ => noRetry_of_check)
    (show lastCall tagBox sampleConfig scriptedServer noRetry (sendsOf false 4) sampleCalls
      (.convoClose 1 sampleShuffler) ⟨Server.start, [], true⟩ = true by decide +kernel)
  obtain ⟨-, batch, hbatch, hlen⟩ := batch_of_sendsOf hs
  obtain ⟨p, hp, hperm, -⟩ := batch_fully_noised (by decide +kernel) run hbatch
  exact ⟨h, ev, w, batch, run, hbatch, hlen, p, hp, hperm⟩

/-- The next server is away for one call.  The second `Close` sends the onion with no noise. -/
theorem batch_bare_after_failure :
    ∃ h ev w batch p, (rpcSystem tagBox sampleConfig scriptedServer).Run System.Any (h ++ [ev]) w ∧
      .convoBatch 1 batch ∈ ev.sent ∧ pledge tagBox sampleConfig 1 h = some p ∧
      batch.length = p.accepted.length ∧ ¬ batch.Perm (p.accepted ++ p.noise) := by
  obtain ⟨h, ev, w, run, hs⟩ := run_of_lastCall (C := System.Any) (fun _ _ _ _ => trivial)
    (show lastCall tagBox sampleConfig scriptedServer (fun _ _ _ => true) (sendsOf true 1)
      (sampleCalls ++ [.convoClose 1 sampleShuffler]) (.convoClose 1 sampleShuffler)
      ⟨Server.start, [false], true⟩ = true by decide +kernel)
  obtain ⟨hp, batch, hbatch, hlen⟩ := batch_of_sendsOf hs
  have hsizes : (samplePledge true).accepted.length = 1 ∧ (samplePledge true).noise.length = 3 := by
    decide +kernel
  refine ⟨h, ev, w, batch, _, run, hbatch, hp, hlen.trans hsizes.1.symm, fun hperm => ?_⟩
  have := hperm.length_eq
  rw [List.length_append, hsizes.1, hsizes.2, hlen] at this
  cases this

end Vuvuzela
