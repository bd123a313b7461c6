import Vuvuzela.Convo.Forwarded
import Vuvuzela.Convo.Adds

/-!
# Convo — a `Close` that failed

`Close` filters the messages of a round, drops its noise and shuffles the batch, all before the
calls of the next server that can fail, and it leaves the round open when they do.  What is left
of the round is what it had exactly when there was nothing to filter, no noise to drop and the
shuffle moved nothing (`failed_close_unchanged_iff`).  Otherwise the round has fewer slots than
`numIncoming` says, and an `Add` that is in range by that number brings the server down
(`add_panics_after_failure`).

**Failures** (`close_atomic`).  In a run whose failed `Close` calls are all of that kind, every open
round has its slots, an `Add` in range succeeds, and a `Close` that succeeds gives every position
the reply to the message that was added there.
-/

namespace Vuvuzela
open Support

variable {σ : Type} {box : NaclBox} {cfg : Config} {next : NextServer σ}

/-! ### One failed `Close` -/

/-- A `Close` finds nothing to change: no noise, a message in every slot and no key twice, and a
shuffle that leaves the batch as it is. -/
def Unmoved (shuffler : (n : Nat) → Shuffler n) (round : ConvoRound) : Prop :=
  round.noise = [] ∧ none ∉ round.incoming ∧ (round.incoming.reduceOption.map msgKey).Nodup ∧
    (shuffler round.incoming.length).shuffle round.incoming = some round.incoming

instance (shuffler : (n : Nat) → Shuffler n) (round : ConvoRound) :
    Decidable (Unmoved shuffler round) :=
  inferInstanceAs (Decidable (_ ∧ _))

section Closing

variable {srv : Server} {Round : UInt32} {shuffler : (n : Nat) → Shuffler n} {round : ConvoRound}
  {messages batch : List Bytes} {index : List Int}

/-- Without noise, the batch is made of the messages alone. -/
theorem Closing.shuffle_quiet (hc : Closing srv Round shuffler round messages index batch)
    (hnoise : round.noise = []) : (shuffler messages.length).shuffle messages = some batch := by
  have h := hc.shuffle
  rw [hnoise, List.append_nil] at h
  exact h

/-- Without noise, `round.incoming` sees the whole shuffled batch. -/
theorem Closing.incoming_drained (hc : Closing srv Round shuffler round messages index batch)
    (hnoise : round.noise = []) :
    (drainedRound round messages index batch).incoming = batch.map some := by
  obtain ⟨y, hy, hperm⟩ := (shuffler messages.length).shuffle_spec (x := messages) rfl
  cases (hc.shuffle_quiet hnoise).symm.trans hy
  have hfit : (messages ++ round.noise).length ≤ round.incoming.length := by
    simpa [hnoise] using hc.filtered.length_valid_le
  simp only [drainedRound, ConvoService.drained, aliasedIncoming, if_pos hfit]
  rw [← hperm.length_eq, List.take_length]

/-- **A failed `Close` leaves messages and noise as they were** exactly when there was nothing to
change. -/
theorem failed_close_unchanged_iff (hc : Closing srv Round shuffler round messages index batch) :
    (drainedRound round messages index batch).incoming = round.incoming ∧
        (drainedRound round messages index batch).noise = round.noise ↔
      Unmoved shuffler round := by
  have hnone : ∀ l : List Bytes, none ∉ l.map some := fun l h => by simp at h
  constructor
  · rintro ⟨hin, hnoise⟩
    have hnoise' : round.noise = [] := hnoise.symm
    rw [hc.incoming_drained hnoise'] at hin
    have hsh := hc.shuffle_quiet hnoise'
    -- the filter kept as many messages as there are slots, so it kept them all
    have hvalid : messages = firsts msgKey batch := by
      rw [hc.filtered.valid_eq, ← hin, reduceOption_map_some]
    obtain ⟨y, hy, hperm⟩ := (shuffler messages.length).shuffle_spec (x := messages) rfl
    cases hsh.symm.trans hy
    have hall : messages = batch := by
      rw [hvalid]
      exact (firsts_sublist msgKey batch).eq_of_length (by rw [← hvalid, hperm.length_eq])
    subst hall
    refine ⟨hnoise', hin ▸ hnone messages, ?_, ?_⟩
    · rw [← hin, reduceOption_map_some, hvalid]
      exact nodup_map_firsts msgKey messages
    · rw [← hin, List.length_map, Shuffler.shuffle_map _ _ rfl, hsh]
      rfl
  · rintro ⟨hnoise, hfull, hkeys, hshuffle⟩
    obtain ⟨l, hl⟩ : ∃ l : List Bytes, round.incoming = l.map some :=
      ⟨_, (map_some_reduceOption hfull).symm⟩
    rw [hl, reduceOption_map_some] at hkeys
    have hmsgs : messages = l := by
      rw [hc.filtered.valid_eq, hl, reduceOption_map_some, firsts_of_nodup hkeys]
    subst hmsgs
    rw [hl, List.length_map, Shuffler.shuffle_map _ _ rfl] at hshuffle
    rw [hc.shuffle_quiet hnoise] at hshuffle
    have hbatch : batch.map some = messages.map some := Option.some.inj hshuffle
    exact ⟨by rw [hc.incoming_drained hnoise, hbatch, hl], hnoise.symm⟩

end Closing

/-! ### Rounds over a run -/

/-- Every failed `Close` of an open round finds it unmoved. -/
def FailsUnmoved (_ : List Event) (w : World σ) (ev : Event) : Prop :=
  ∀ Round shuffler e round, ev.request = .convoClose Round shuffler → ev.outcome = .err e →
    w.server.convoRounds Round = some round → round.status = .roundOpen →
      Unmoved shuffler round

/-- The slots of a round are those the history filled, and there are as many as it says. -/
structure Slotted (p : Pledge) (round : ConvoRound) : Prop where
  filled : round.status ≠ .roundClosed → round.incoming = p.slots
  slots : round.status = .roundOpen → round.Slots

/-- A round that is closed. -/
theorem Slotted.of_closed {p : Pledge} {round : ConvoRound} (h : round.status = .roundClosed) :
    Slotted p round where
  filled hs := absurd h hs
  slots hs := by rw [h] at hs; cases hs

/-- **One call.** -/
theorem Slotted.step {h : List Event} {w : World σ} {ev : Event} {Round : UInt32}
    {q : Option Pledge} {round' : Option ConvoRound}
    (hI : Owing Slotted q (w.server.convoRounds Round)) (hc : FailsUnmoved h w ev)
    (hstep : RoundStep box cfg next w.server Round ev round') :
    Owing Slotted (pledgeStep box cfg Round q ev) round' := by
  -- the one step that could lose slots is a failed `Close`, and it finds nothing to change
  intro r hr
  cases hstep with
  | same hsame =>
      rw [pledgeStep_same hsame]
      exact hI r hr
  | created =>
      cases hr
      exact ⟨_, pledgeStep_created, fun _ => rfl, by rintro ⟨⟩⟩
  | @opened n round hround hs hmake =>
      cases hr
      obtain ⟨p, rfl, -⟩ := hI round hround
      exact ⟨_, pledgeStep_opened, fun _ => rfl, fun _ => .opened round hmake⟩
  | added hround hs hbound hadd =>
      cases hr
      obtain ⟨p, rfl, hfilled, hslots⟩ := hI _ hround
      obtain ⟨haccept, hstatus, -⟩ := addLoop_accept hadd
      refine ⟨_, pledgeStep_added, fun _ => ?_, fun _ => ?_⟩
      · rw [haccept, hfilled (by rw [hs]; rintro ⟨⟩)]
      · exact ConvoService.addLoop_invariant (P := ConvoRound.Slots)
          (fun _ _ _ hround _ => hround.stored) hadd (hslots hs)
  | exchanged hlast hclose =>
      cases hr
      obtain ⟨p, hp, -⟩ := hI _ hclose.round_eq
      exact ⟨p, hp, .of_closed rfl⟩
  | failed hlast hclose =>
      cases hr
      obtain ⟨p, rfl, hfilled, hslots⟩ := hI _ hclose.round_eq
      have hs := hclose.status
      have hun := hc _ _ _ _ rfl rfl hclose.round_eq hs
      obtain ⟨hsame, -⟩ := (failed_close_unchanged_iff hclose).mpr hun
      obtain ⟨hmake, hin, hkeys⟩ := hslots hs
      refine ⟨_, pledgeStep_failed, fun _ => ?_, fun _ => ⟨hmake, ?_, hkeys⟩⟩
      · rw [hsame]
        exact hfilled (by rw [hs]; rintro ⟨⟩)
      · rw [hsame]
        exact hin
  | answered hlast hclose =>
      cases hr
      obtain ⟨p, hp, -⟩ := hI _ hclose.round_eq
      exact ⟨p, hp, .of_closed rfl⟩
  | deleted => cases hr

/-- **A run** whose failed `Close` calls change nothing. -/
theorem slotted_of_run {h : List Event} {w : World σ}
    (run : (rpcSystem box cfg next).Run FailsUnmoved h w) (hup : w.up = true) (Round : UInt32) :
    ∀ round, w.server.convoRounds Round = some round →
      ∃ p, pledge box cfg Round h = some p ∧ Slotted p round :=
  pledge_invariant (fun _ _ _ _ _ hI hc hstep => Slotted.step hI hc hstep) run hup Round

/-! ### The calls on an open round -/

/-- `Add` with onions that fall into the round. -/
theorem add_of_slotted {w : World σ} {Round : UInt32} {round : ConvoRound} {p : Pledge}
    (hround : w.server.convoRounds Round = some round) (hs : round.status = .roundOpen)
    (hI : Slotted p round) (hup : w.up = true) {offset : Int} {onions : List Bytes}
    (hoff : 0 ≤ offset) (hle : offset + onions.length ≤ round.numIncoming) :
    ∃ w', serve box cfg next (.convoAdd ⟨Round, offset, onions⟩) w =
      some (⟨.convoAdd ⟨Round, offset, onions⟩, .ok, []⟩, w') := by
  lift offset to Nat using hoff
  obtain ⟨round', hok, -⟩ := (hI.slots hs).add hround hs hle
  have hhandle : handle box cfg next.recorded (.convoAdd ⟨Round, offset, onions⟩)
      (w.server, w.next, []) = .ok () (_, w.next, []) := onFst_of_ok (w.next, []) hok
  exact ⟨_, by rw [serve, if_pos hup, hhandle]; rfl⟩

/-- The positions of a closed round and the replies to what was in their slots: `batch` went to the
next server, `answers` came back, and the kept message `place[j]` was entry `j` of the batch. -/
structure Selects (slots : List (Option Bytes)) (batch answers : List Bytes) (place : List Nat)
    (round : ConvoRound) : Prop where
  place_perm : place.Perm (List.range batch.length)
  length_index : round.incomingIndex.length = slots.length
  replied : ∀ i n : Nat, round.incomingIndex[i]? = some (n : Int) →
    ∃ (m : Bytes) (j : Nat) (reply : Bytes),
      slots[i]? = some (some m) ∧ place[j]? = some n ∧ batch[j]? = some m ∧
      answers[j]? = some reply ∧ round.replies[n]? = some reply
  unreplied : ∀ (i : Nat) (v : Int), round.incomingIndex[i]? = some v → v < 0 →
    slots[i]? = some none ∨ ∃ (m : Bytes) (i' : Nat) (m' : Bytes), slots[i]? = some (some m) ∧
      i' < i ∧ slots[i']? = some (some m') ∧ msgKey m' = msgKey m

/-- A `Close` that was answered. -/
theorem selects_of_answered {srv : Server} {Round : UInt32} {shuffler : (n : Nat) → Shuffler n}
    {round : ConvoRound} {messages batch answers replies : List Bytes} {index : List Int}
    {t t' : σ} {p : Pledge} (hI : Slotted p round)
    (hc : Closing srv Round shuffler round messages index batch)
    (hrun : next.runConvoRound Round batch t = .ok answers t')
    (hun : (shuffler (messages ++ round.noise).length).unshuffle answers = some replies) :
    ∃ place, Selects p.slots batch answers place
      (ConvoService.answered (drainedRound round messages index batch) replies) := by
  have hfilled := hI.filled (by rw [hc.status]; exact nofun)
  have hf : Filtered msgKey p.slots messages index := hfilled ▸ hc.filtered
  obtain ⟨y, hy, hperm⟩ := (shuffler (messages ++ round.noise).length).shuffle_spec
    (x := messages ++ round.noise) rfl
  cases hc.shuffle.symm.trans hy
  have hlen : answers.length = (messages ++ round.noise).length := by
    rw [next.length_replies hrun, hperm.length_eq]
  obtain ⟨place, hplace, hpos⟩ := Shuffler.shuffle_positions _ rfl hc.shuffle hlen hun
  refine ⟨place, ⟨hperm.length_eq ▸ hplace, hf.length_index, fun i n hi => ?_, fun i v hi hv => ?_⟩⟩
  · -- a kept message is in the batch somewhere, and its reply comes back from there
    obtain ⟨m, hm, hvalid⟩ := hf.get_of_index hi
    have hlt := (List.getElem?_eq_some_iff.mp hvalid).1
    obtain ⟨j, hj⟩ : ∃ j : Nat, place[j]? = some n := by
      refine List.mem_iff_getElem?.mp (hplace.mem_iff.mpr (List.mem_range.mpr ?_))
      rw [List.length_append]
      omega
    obtain ⟨hbatch, hreply⟩ := hpos j n hj
    have hjlt : j < answers.length := by
      rw [hlen, ← List.length_range (n := (messages ++ round.noise).length), ← hplace.length_eq]
      exact (List.getElem?_eq_some_iff.mp hj).1
    refine ⟨m, j, answers[j], hm, hj, ?_, List.getElem?_eq_getElem hjlt, ?_⟩
    · rw [hbatch, List.getElem?_append_left hlt, hvalid]
    · -- the slice of the replies that is kept is as long as the round
      have hle := hf.length_valid_le
      have hnum := (hI.slots hc.status).incoming_length
      rw [hfilled] at hnum
      have hkeep : n < round.numIncoming.toNat := by omega
      simp only [ConvoService.answered]
      rw [show (drainedRound round messages index batch).numIncoming = round.numIncoming from rfl,
        List.getElem?_take_of_lt hkeep, hreply, List.getElem?_eq_getElem hjlt]
  · rcases hf.index_range i v hi with rfl | ⟨n, -, rfl⟩
    · rcases (hf.index_neg i).mp hi with hgap | ⟨m, hm, i', m', hlt, hm', hkey⟩
      · exact .inl hgap
      · exact .inr ⟨m, i', m', hm, hlt, hm', hkey⟩
    · omega

/-- What the calls on an open round can rely on. -/
structure Intact (box : NaclBox) (cfg : Config) (next : NextServer σ) (h : List Event)
    (w : World σ) (Round : UInt32) (round : ConvoRound) : Prop where
  incoming_length : (round.incoming.length : Int) = round.numIncoming
  keys_length : (round.sharedKeys.length : Int) = round.numIncoming
  add : ∀ (offset : Int) (onions : List Bytes), 0 ≤ offset →
    offset + onions.length ≤ round.numIncoming →
    ∃ w', serve box cfg next (.convoAdd ⟨Round, offset, onions⟩) w =
      some (⟨.convoAdd ⟨Round, offset, onions⟩, .ok, []⟩, w')
  close : ∀ shuffler sent w', serve box cfg next (.convoClose Round shuffler) w =
    some (⟨.convoClose Round shuffler, .ok, sent⟩, w') →
    ∃ p batch answers place round' t t', pledge box cfg Round h = some p ∧
      sent = [.convoTaken Round, .convoBatch Round batch] ∧
      next.runConvoRound Round batch t = .ok answers t' ∧
      w'.server.convoRounds Round = some round' ∧ Selects p.slots batch answers place round'

/-- A `Close` of an open round that returned an error. -/
theorem failed_close {w w' : World σ} {Round : UInt32} {shuffler : (n : Nat) → Shuffler n}
    {round : ConvoRound} {e : Err} {sent : List Sent}
    (hserve : serve box cfg next (.convoClose Round shuffler) w =
      some (⟨.convoClose Round shuffler, .err e, sent⟩, w'))
    (hround : w.server.convoRounds Round = some round) (hs : round.status = .roundOpen) :
    ∃ round', w'.server.convoRounds Round = some round' ∧ round'.status = round.status ∧
      round'.numIncoming = round.numIncoming ∧ round'.sharedKeys = round.sharedKeys ∧
      (round'.incoming = round.incoming ∧ round'.noise = round.noise ↔
        Unmoved shuffler round) := by
  obtain ⟨-, -, heff, -⟩ := effect_of_serve hserve
  generalize w'.server = srv' at heff ⊢
  cases heff with
  | refused he hnew =>
      -- the only errors of its own are for a round that is not open
      have hfrom := fromNext_of_close hround hs (handle_of_serve hserve)
      rw [he] at hfrom
      cases hfrom
  | convoNotTaken hlast hc =>
      cases hc.round_eq.symm.trans hround
      exact ⟨_, Server.setConvo_self .., rfl, rfl, rfl, failed_close_unchanged_iff hc⟩
  | convoNotRun hlast hc =>
      cases hc.round_eq.symm.trans hround
      exact ⟨_, Server.setConvo_self .., rfl, rfl, rfl, failed_close_unchanged_iff hc⟩

/-- A `Close` that succeeded, of a round that has its slots. -/
theorem selects_of_close (hlast : cfg.lastServer = false) {w w' : World σ} {Round : UInt32}
    {shuffler : (n : Nat) → Shuffler n} {round : ConvoRound} {sent : List Sent} {p : Pledge}
    (hI : Slotted p round) (hround : w.server.convoRounds Round = some round)
    (hs : round.status = .roundOpen)
    (hserve : serve box cfg next (.convoClose Round shuffler) w =
      some (⟨.convoClose Round shuffler, .ok, sent⟩, w')) :
    ∃ batch answers place round' t t', sent = [.convoTaken Round, .convoBatch Round batch] ∧
      next.runConvoRound Round batch t = .ok answers t' ∧
      w'.server.convoRounds Round = some round' ∧ Selects p.slots batch answers place round' := by
  have hstep := answered_of_close box hlast hround hs (handle_of_serve hserve)
  generalize hafter : w'.server.convoRounds Round = after at hstep ⊢
  cases hstep with
  | same h => simp [Event.changes] at h
  | exchanged hl => rw [hl] at hlast; cases hlast
  | answered _ hc hrun hun =>
      cases hc.round_eq.symm.trans hround
      obtain ⟨place, hsel⟩ := selects_of_answered hI hc hrun hun
      exact ⟨_, _, place, _, _, _, rfl, hrun, rfl, hsel⟩

/-- **A failed `Close`** keeps the status, the count and the keys of an open round, and its messages
and noise exactly when it was unmoved.  In every run whose failed `Close` calls meet that, every
open round is intact. -/
theorem close_atomic (hlast : cfg.lastServer = false) :
    (∀ (w w' : World σ) (Round : UInt32) (shuffler : (n : Nat) → Shuffler n) (round : ConvoRound)
      (e : Err) (sent : List Sent),
      serve box cfg next (.convoClose Round shuffler) w =
        some (⟨.convoClose Round shuffler, .err e, sent⟩, w') →
      w.server.convoRounds Round = some round → round.status = .roundOpen →
      ∃ round', w'.server.convoRounds Round = some round' ∧ round'.status = round.status ∧
        round'.numIncoming = round.numIncoming ∧ round'.sharedKeys = round.sharedKeys ∧
        (round'.incoming = round.incoming ∧ round'.noise = round.noise ↔
          Unmoved shuffler round)) ∧
    (∀ (h : List Event) (w : World σ), (rpcSystem box cfg next).Run FailsUnmoved h w →
      w.up = true → ∀ Round round, w.server.convoRounds Round = some round →
      round.status = .roundOpen → Intact box cfg next h w Round round) := by
  refine ⟨fun w w' Round shuffler round e sent hserve hround hs => failed_close hserve hround hs,
    fun h w run hup Round round hround hs => ?_⟩
  obtain ⟨p, hp, hI⟩ := slotted_of_run run hup Round round hround
  refine ⟨(hI.slots hs).incoming_length, (hI.slots hs).keys_length,
    fun offset onions hoff hle => add_of_slotted hround hs hI hup hoff hle,
    fun shuffler sent w' hserve => ?_⟩
  obtain ⟨batch, answers, place, round', t, t', hsent, hrun, hround', hsel⟩ :=
    selects_of_close hlast hI hround hs hserve
  exact ⟨p, batch, answers, place, round', t, t', hp, hsent, hrun, hround', hsel⟩

/-! ### A `Close` that fails with nothing to lose, and one that loses a slot -/

/-- The check of `FailsUnmoved`. -/
def failsUnmoved (_ : List Event) (w : World (List Bool)) (ev : Event) : Bool :=
  match ev.request, ev.outcome with
  | .convoClose Round shuffler, .err _ =>
      (w.server.convoRounds Round).all fun round => Unmoved shuffler round
  | _, _ => true

theorem failsUnmoved_of_check {h : List Event} {w : World (List Bool)} {ev : Event}
    (hc : failsUnmoved h w ev = true) : FailsUnmoved h w ev := by
  intro Round shuffler e round hreq ho hround _
  simpa [failsUnmoved, hreq, ho, hround] using hc

/-- Whether a `Close` of round 1 failed and the round is open. -/
def failedOpen (ev : Event) (w : World (List Bool)) : Bool :=
  match ev.request, ev.outcome with
  | .convoClose 1 _, .err _ =>
      w.up && (w.server.convoRounds 1).any fun round => round.status = .roundOpen
  | _, _ => false

theorem open_of_failedOpen {ev : Event} {w : World (List Bool)} (h : failedOpen ev w = true) :
    (∃ e, ev.outcome = .err e) ∧ w.up = true ∧
      ∃ round, w.server.convoRounds 1 = some round ∧ round.status = .roundOpen := by
  rw [failedOpen] at h
  split at h
  · rename_i e _ ho
    rw [Bool.and_eq_true, Option.any_eq_true] at h
    obtain ⟨hup, round, hround, hs⟩ := h
    exact ⟨⟨e, ho⟩, hup, round, hround, by simpa using hs⟩
  · cases h

/-- One onion and no noise: the `Close` fails, and the round is as good as before. -/
theorem close_atomic_sample :
    ∃ h ev w round, (rpcSystem tagBox sampleConfig scriptedServer).Run FailsUnmoved
        (h ++ [ev]) w ∧
      (∃ e, ev.outcome = .err e) ∧ w.server.convoRounds 1 = some round ∧
      Intact tagBox sampleConfig scriptedServer (h ++ [ev]) w 1 round := by
  obtain ⟨h, ev, w, run, hs⟩ := run_of_lastCall (fun _ _ _ => failsUnmoved_of_check)
    (show lastCall tagBox sampleConfig scriptedServer failsUnmoved
      (fun _ ev w => failedOpen ev w)
      [.convoNewRound 1 { sampleCoins with singles := 0, doubles := 0 }, .convoOpen ⟨1, 1⟩,
        .convoAdd ⟨1, 0, [(sampleOnion 3).1]⟩]
      (.convoClose 1 sampleShuffler) ⟨Server.start, [false], true⟩ = true by decide +kernel)
  obtain ⟨herr, hup, round, hround, hopen⟩ := open_of_failedOpen hs
  exact ⟨h, ev, w, round, run, herr, hround,
    (close_atomic (by decide +kernel)).2 _ _ run hup 1 round hround hopen⟩

/-- Whether round 1 is short of a slot, and an `Add` in range brings the server down. -/
def shortOfSlots (w : World (List Bool)) : Bool :=
  match w.server.convoRounds 1, serve tagBox sampleConfig scriptedServer
    (.convoAdd ⟨1, 1, [(sampleOnion 4).1]⟩) w with
  | some round, some (ev, _) =>
      round.numIncoming = 2 && round.incoming.length = 1 && round.noise = [] &&
        ev.outcome = .panic .index
  | _, _ => false

/-- Two slots, one onion, and a `Close` that fails at the next server: one slot and the noise are
gone, and the onion for the second slot brings the server down. -/
theorem add_panics_after_failure :
    ∃ h ev w round, (rpcSystem tagBox sampleConfig scriptedServer).Run System.Any (h ++ [ev]) w ∧
      (∃ e, ev.outcome = .err e) ∧ w.server.convoRounds 1 = some round ∧
      round.status = .roundOpen ∧ round.numIncoming = 2 ∧ round.incoming.length = 1 ∧
      round.noise = [] ∧
      ∃ ev' w', serve tagBox sampleConfig scriptedServer (.convoAdd ⟨1, 1, [(sampleOnion 4).1]⟩) w =
        some (ev', w') ∧ ev'.outcome = .panic .index := by
  obtain ⟨h, ev, w, run, hs⟩ := run_of_lastCall (C := System.Any) (fun _ _ _ _ => trivial)
    (show lastCall tagBox sampleConfig scriptedServer (fun _ _ _ => true)
      (fun _ ev w => failedOpen ev w && shortOfSlots w)
      [.convoNewRound 1 sampleCoins, .convoOpen ⟨1, 2⟩, .convoAdd ⟨1, 0, [(sampleOnion 3).1]⟩]
      (.convoClose 1 sampleShuffler) ⟨Server.start, [false], true⟩ = true by decide +kernel)
  rw [Bool.and_eq_true] at hs
  obtain ⟨herr, -, round, hround, hopen⟩ := open_of_failedOpen hs.1
  have hshort := hs.2
  rw [shortOfSlots, hround] at hshort
  split at hshort
  · rename_i round' ev' w' hr hserve
    cases hr
    simp only [Bool.and_eq_true, decide_eq_true_eq] at hshort
    obtain ⟨⟨⟨hnum, hlen⟩, hnoise⟩, hpanic⟩ := hshort
    exact ⟨h, ev, w, round, run, herr, hround, hopen, hnum, hlen, hnoise, ev', w', hserve, hpanic⟩
  · cases hshort

end Vuvuzela
