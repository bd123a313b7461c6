import Vuvuzela.Server.Calls
import Vuvuzela.Chain.Sample

/-!
# Server — who holds `Idle`

`NewRound` of either service takes `Idle`, and the `Close` of the round gives it back once the
next server took the round, or once the last server is done with it.  A round is pending from the
one to the other (`pending`).  In a run whose calls are `Careful`, `Idle` is held exactly while
one round is pending, and only the `Close` of that round gives it back (`idle_iff_pending`).

Three calls are not careful, and none of them is refused by the code: `NewRound` of a round that
exists keeps the lock it took (`idle_stranded`); `Delete` of a pending round leaves the lock with
nobody to give it back; and a second `Close` of a round the next server took gives back a lock
the round no longer holds.
-/

namespace Vuvuzela
open Support

variable {σ : Type} {box : NaclBox} {cfg : Config} {next : NextServer σ}

/-! ### Pending rounds -/

/-- The round that is handed over or finished by a call. -/
def Event.releases (ev : Event) : Option (Service × UInt32) :=
  match ev.request with
  | .convoClose Round _ =>
      if ev.outcome = .ok ∨ .convoTaken Round ∈ ev.sent then some (.convo, Round) else none
  | .dialClose Round _ =>
      if ev.outcome = .ok ∨ .dialTaken Round ∈ ev.sent then some (.dial, Round) else none
  | _ => none

/-- What one call does to the rounds that are pending. -/
def pendingStep (rounds : List (Service × UInt32)) (ev : Event) : List (Service × UInt32) :=
  match ev.request, ev.outcome with
  | .convoNewRound Round _, .ok => (.convo, Round) :: rounds
  | .dialNewRound Round _, .ok => (.dial, Round) :: rounds
  | .convoDelete Round, .ok => rounds.filter (· ≠ (.convo, Round))
  | _, _ => rounds.filter fun id => some id ≠ ev.releases

/-- The rounds that `NewRound` created and that were not yet handed to the next server, finished
or deleted. -/
def pending (h : List Event) : List (Service × UInt32) := h.foldl pendingStep []

theorem pending_concat (h : List Event) (ev : Event) :
    pending (h ++ [ev]) = pendingStep (pending h) ev := by
  rw [pending, List.foldl_append]
  rfl

/-- A call that failed and handed nothing over. -/
theorem pendingStep_err {rounds : List (Service × UInt32)} {request : Request} {e : Err} :
    pendingStep rounds ⟨request, .err e, []⟩ = rounds := by
  cases request <;> simp [pendingStep, Event.releases]

theorem pendingStep_read {rounds : List (Service × UInt32)} {request : Request} {o : Outcome}
    (h : request.reads = true) : pendingStep rounds ⟨request, o, []⟩ = rounds := by
  cases request <;> simp [Request.reads] at h <;> simp [pendingStep, Event.releases]

/-! ### Careful calls -/

/-- `NewRound` is called for rounds that do not exist; `Close` of an open round, and not `Delete`,
is called while the round is pending. -/
def Careful (h : List Event) (w : World σ) (ev : Event) : Prop :=
  match ev.request with
  | .convoNewRound Round _ => w.server.convoRounds Round = none
  | .dialNewRound Round _ => w.server.dialRounds Round = none
  | .convoClose Round _ => ∀ round, w.server.convoRounds Round = some round →
      round.status = .roundOpen → (.convo, Round) ∈ pending h
  | .dialClose Round _ => ∀ round, w.server.dialRounds Round = some round →
      round.status = .roundOpen → (.dial, Round) ∈ pending h
  | .convoDelete Round => (.convo, Round) ∉ pending h
  | _ => True

/-- `Idle` is held by the one round that is pending, or free with none pending. -/
inductive Held : List (Service × UInt32) → Bool → Prop where
  | free : Held [] false
  | held (id : Service × UInt32) : Held [id] true

theorem Held.idle_iff {rounds : List (Service × UInt32)} {idle : Bool} (h : Held rounds idle) :
    idle = true ↔ rounds.length = 1 := by
  cases h <;> simp

theorem Held.eq_of_mem {rounds : List (Service × UInt32)} {idle : Bool} {id : Service × UInt32}
    (h : Held rounds idle) (hid : id ∈ rounds) : rounds = [id] ∧ idle = true := by
  cases h with
  | free => cases hid
  | held id' =>
      rw [List.mem_singleton.mp hid]
      exact ⟨rfl, rfl⟩

theorem Held.eq_nil {rounds : List (Service × UInt32)} (h : Held rounds false) : rounds = [] := by
  cases h
  rfl

/-! ### `Idle` over a run -/

/-- A careful `Close` of an open round is that of the round that holds `Idle`. -/
theorem Careful.holds {h : List Event} {w : World σ} {Round : UInt32}
    {shuffler : (n : Nat) → Shuffler n} {round : ConvoRound} {messages batch : List Bytes}
    {index : List Int} {o : Outcome} {sent : List Sent}
    (hheld : Held (pending h) w.server.idle)
    (hc : Careful h w ⟨.convoClose Round shuffler, o, sent⟩)
    (hclose : Closing w.server Round shuffler round messages index batch) :
    pending h = [(.convo, Round)] ∧ w.server.idle = true :=
  hheld.eq_of_mem (hc round hclose.round_eq hclose.status)

theorem Careful.holds_dial {h : List Event} {w : World σ} {Round : UInt32}
    {shuffler : (n : Nat) → Shuffler n} {round : DialRound} {messages batch : List Bytes}
    {o : Outcome} {sent : List Sent} (hheld : Held (pending h) w.server.idle)
    (hc : Careful h w ⟨.dialClose Round shuffler, o, sent⟩)
    (hclose : DialClosing w.server Round shuffler round messages batch) :
    pending h = [(.dial, Round)] ∧ w.server.idle = true :=
  hheld.eq_of_mem (hc round hclose.round_eq hclose.status)

/-- A call that releases a round is a `Close` of it, and the round holds `Idle`. -/
theorem Careful.releases {h : List Event} {w : World σ} {ev : Event} {srv' : Server}
    {id : Service × UInt32} (hheld : Held (pending h) w.server.idle) (hc : Careful h w ev)
    (heff : Effect box cfg w.server ev srv') (hrel : ev.releases = some id) :
    pending h = [id] := by
  cases heff with
  | @refused request e => cases request <;> simp [Event.releases] at hrel
  | @read request hr =>
      cases request <;> simp [Request.reads] at hr <;> simp [Event.releases] at hrel
  | @crashed srv' request p => cases request <;> simp [Event.releases] at hrel
  | convoExchanged _ hclose | convoUnlocked hclose | convoNotTaken _ hclose
  | convoNotRun _ hclose | convoShort _ hclose | convoAnswered _ hclose =>
      rw [(hc.holds hheld hclose).1]
      simp only [Event.releases] at hrel
      split at hrel
      · cases hrel; rfl
      · cases hrel
  | dialKept _ hclose | dialUnlocked hclose | dialNotTaken _ hclose | dialNotRun _ hclose
  | dialForwarded _ hclose =>
      rw [(hc.holds_dial hheld hclose).1]
      simp only [Event.releases] at hrel
      split at hrel
      · cases hrel; rfl
      · cases hrel
  | _ => simp [Event.releases] at hrel

/-- No careful call unlocks an `Idle` that is free. -/
theorem Careful.ne_unlock {h : List Event} {w : World σ} {ev : Event} {srv' : Server}
    (hheld : Held (pending h) w.server.idle) (hc : Careful h w ev)
    (heff : Effect box cfg w.server ev srv') : ev.outcome ≠ .panic .unlock := by
  cases heff with
  | crashed hp | convoShort _ _ _ hp => exact fun e => hp (Outcome.panic.inj e)
  | convoUnlocked hclose hidle => cases hidle.symm.trans (hc.holds hheld hclose).2
  | dialUnlocked hclose hidle => cases hidle.symm.trans (hc.holds_dial hheld hclose).2
  | _ => exact nofun

/-- **One call.**  A careful call that returns leaves `Idle` with the round that is pending. -/
theorem Held.step {h : List Event} {w : World σ} {ev : Event} {srv' : Server}
    (hheld : Held (pending h) w.server.idle) (hc : Careful h w ev)
    (heff : Effect box cfg w.server ev srv') (hpanic : ∀ p, ev.outcome ≠ .panic p) :
    Held (pending (h ++ [ev])) srv'.idle := by
  rw [pending_concat]
  -- a panic takes the server down, and a refused `NewRound` would keep `Idle` for no round:
  -- the first is excluded by `hpanic`, the second by `hc`
  cases heff with
  | refused => rw [pendingStep_err]; exact hheld
  | read hr => rw [pendingStep_read hr]; exact hheld
  | crashed | convoUnlocked | convoShort | dialUnlocked => exact absurd rfl (hpanic _)
  | convoNew hidle | dialNew hidle =>
      rw [hidle] at hheld
      rw [pendingStep, hheld.eq_nil]
      exact .held _
  | convoExists _ hround | dialExists _ hround => cases hround.symm.trans hc
  | convoOpened | convoAdded | dialAdded => simpa [pendingStep, Event.releases] using hheld
  | convoNotTaken | dialNotTaken => rw [pendingStep_err]; exact hheld
  | convoExchanged _ hclose | convoNotRun _ hclose | convoAnswered _ hclose =>
      rw [(hc.holds hheld hclose).1]
      simpa [pendingStep, Event.releases] using Held.free
  | dialKept _ hclose | dialNotRun _ hclose | dialForwarded _ hclose =>
      rw [(hc.holds_dial hheld hclose).1]
      simpa [pendingStep, Event.releases] using Held.free
  | @convoDeleted Round =>
      have hkeep : ∀ id ∈ pending h, id ≠ (.convo, Round) := fun id hid e => hc (e ▸ hid)
      have hsame : (pending h).filter (· ≠ (.convo, Round)) = pending h :=
        List.filter_eq_self.mpr fun id hid => by simpa using hkeep id hid
      show Held ((pending h).filter (· ≠ (.convo, Round))) w.server.idle
      rw [hsame]
      exact hheld

theorem held_of_run {h : List Event} {w : World σ}
    (run : (rpcSystem box cfg next).Run Careful h w) :
    w.up = true → Held (pending h) w.server.idle :=
  server_invariant (I := fun h srv => Held (pending h) srv.idle) .free
    (fun _ _ _ _ hheld hc heff hpanic => hheld.step hc heff hpanic) run

/-- **`Idle` is neither leaked nor over-released**, in every run of careful calls: after each call
it is held exactly when one round is pending, no call unlocks it while it is free, and the round
that is released by a call is the one that held it. -/
theorem idle_iff_pending {h : List Event} {w : World σ}
    (run : (rpcSystem box cfg next).Run Careful h w) :
    (w.up = true → (w.server.idle = true ↔ (pending h).length = 1)) ∧
    ∀ h₁ ev h₂, h = h₁ ++ ev :: h₂ → ev.outcome ≠ .panic .unlock ∧
      ∀ id, ev.releases = some id → pending h₁ = [id] := by
  refine ⟨fun hup => (held_of_run run hup).idle_iff, fun h₁ ev h₂ hh => ?_⟩
  subst hh
  obtain ⟨w₁, srv', run₁, hup, hc, heff⟩ := effect_of_run run
  have hheld := held_of_run run₁ hup
  exact ⟨hc.ne_unlock hheld heff, fun id hrel => hc.releases hheld heff hrel⟩

/-! ### A round, and a round created again -/

/-- The calls of an empty round. -/
def emptyRound : List Request :=
  [.convoNewRound 1 sampleCoins, .convoOpen ⟨1, 0⟩, .convoClose 1 sampleShuffler]

/-- The check of `Careful`. -/
def careful (h : List Event) (w : World σ) (ev : Event) : Bool :=
  match ev.request with
  | .convoNewRound Round _ => (w.server.convoRounds Round).isNone
  | .dialNewRound Round _ => (w.server.dialRounds Round).isNone
  | .convoClose Round _ => (w.server.convoRounds Round).all fun round =>
      round.status ≠ .roundOpen || (.convo, Round) ∈ pending h
  | .dialClose Round _ => (w.server.dialRounds Round).all fun round =>
      round.status ≠ .roundOpen || (.dial, Round) ∈ pending h
  | .convoDelete Round => (.convo, Round) ∉ pending h
  | _ => true

theorem careful_of_check {h : List Event} {w : World σ} {ev : Event}
    (hc : careful h w ev = true) : Careful h w ev := by
  obtain ⟨request, o, sent⟩ := ev
  cases request with
  | convoClose Round | dialClose Round =>
      intro round hround hs
      simpa [careful, hround, hs] using hc
  | convoNewRound | dialNewRound | convoDelete => simpa [careful, Careful] using hc
  | _ => trivial

/-- The `Close` of the second of two rounds releases that round. -/
theorem idle_iff_pending_sample :
    ∃ h ev w, (rpcSystem tagBox sampleConfig scriptedServer).Run Careful (h ++ [ev]) w ∧
      w.up = true ∧ ev.releases = some (.dial, 7) ∧ pending h = [(.dial, 7)] ∧
      (w.server.idle = true ↔ (pending (h ++ [ev])).length = 1) := by
  obtain ⟨h, ev, w, run, hs⟩ := run_of_lastCall (fun _ _ _ => careful_of_check)
    (show lastCall tagBox sampleConfig scriptedServer careful
      (fun _ ev w => w.up && ev.releases = some (.dial, 7))
      (emptyRound ++ [.dialNewRound 7 (sampleDialCoins 40)]) (.dialClose 7 sampleShuffler)
      ⟨Server.start, [], true⟩ = true by decide +kernel)
  rw [Bool.and_eq_true, decide_eq_true_eq] at hs
  obtain ⟨hidle, hevents⟩ := idle_iff_pending run
  exact ⟨h, ev, w, run, hs.1, hs.2, (hevents h ev [] rfl).2 _ hs.2, hidle hs.1⟩

/-- `NewRound` of a round that is over: the error comes back, and `Idle` stays held with no round
pending. -/
theorem idle_stranded :
    ∃ h ev w, (rpcSystem tagBox sampleConfig scriptedServer).Run System.Any (h ++ [ev]) w ∧
      w.up = true ∧ ev.outcome = .err (.alreadyExists 1) ∧ w.server.idle = true ∧
      pending (h ++ [ev]) = [] := by
  obtain ⟨h, ev, w, run, hs⟩ := run_of_lastCall (C := System.Any) (fun _ _ _ _ => trivial)
    (show lastCall tagBox sampleConfig scriptedServer (fun _ _ _ => true)
      (fun h ev w => w.up = true ∧ ev.outcome = .err (.alreadyExists 1) ∧ w.server.idle = true ∧
        pending (h ++ [ev]) = [])
      emptyRound (.convoNewRound 1 sampleCoins) ⟨Server.start, [], true⟩ = true by decide +kernel)
  exact ⟨h, ev, w, run, of_decide_eq_true hs⟩

end Vuvuzela
