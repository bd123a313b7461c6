import Vuvuzela.Chain.Steps
import Vuvuzela.Chain.Sample
import Vuvuzela.Convo.Handlers
import Vuvuzela.Dial.Handlers
import Vuvuzela.Support.Relational
import Vuvuzela.Support.Coupling

/-!
# Chain — many rounds at the same time

The entry server does not wait for a round to end before it starts the next one, and the two
services share the servers.  So rounds are under way on different servers at the same time, and
their calls interleave in any way.  A server lets one round in at a time: `NewRound` takes `Idle`,
and `Close` gives it back once the next server has taken the round.  A round thus goes along the
chain hand over hand (`steps_passes`), and between the locks it works on its own entry of the
tables only (`Confined`).

A round that fails keeps `Idle` where it has it, and the other rounds go on.  If it failed in a
panic, it brought a server down: here it may bring any of them down, at any later time.  No step is
taken on a server that is down, and while one is down any round under way may be lost, with whatever
error its caller sees.  What the calls of a failed round that are still under way do to its own
entries is not looked at, and no server comes back.

* `rounds_undisturbed`: a round returns what it would return on a chain of its own, also after
  another one has failed; and it fails as it would there, unless a server was down.
* `rounds_in_order`: the servers take the rounds in one order, that of the first server.
* `rounds_complete`: no round waits for ever for another one.
-/

namespace Vuvuzela
open Support

variable {α β : Type}

/-! ### What a round sees of a server -/

/-- The entry of a round in the tables of a server. -/
def roundView (key : Service × UInt32) (srv : Server) : Option ConvoRound ⊕ Option DialRound :=
  match key.1 with
  | .convo => .inl (srv.convoRounds key.2)
  | .dial => .inr (srv.dialRounds key.2)

/-- Another server, as far as the other rounds and `Idle` go. -/
structure Beyond (key : Service × UInt32) (srv srv' : Server) : Prop where
  idle : srv'.idle = srv.idle
  others : ∀ key', key' ≠ key → roundView key' srv' = roundView key' srv

theorem Beyond.rfl {key : Service × UInt32} {srv : Server} : Beyond key srv srv :=
  ⟨Eq.refl _, fun _ _ => Eq.refl _⟩

theorem Beyond.trans {key : Service × UInt32} {a b c : Server} (h : Beyond key a b)
    (h' : Beyond key b c) : Beyond key a c :=
  ⟨h'.idle.trans h.idle, fun key' hne => (h'.others key' hne).trans (h.others key' hne)⟩

/-- A handler of a round: it reads and writes the entry of the round, and neither `Idle` nor the
entries of other rounds. -/
structure Confined (key : Service × UInt32) (x : Rpc Server α) : Prop where
  alike : Simulates (fun a b => roundView key a = roundView key b) x x
  frame : ∀ srv, Beyond key srv (endState (x srv))

namespace Confined

variable {key : Service × UInt32} {Round : UInt32}

theorem result (a : α) : Confined key (pure a) := ⟨.result a, fun _ => .rfl⟩

theorem fail (f : Fault) : Confined (α := α) key (throw f) := ⟨.fail f, fun _ => .rfl⟩

theorem bind {x : Rpc Server α} {f : α → Rpc Server β} (hx : Confined key x)
    (hf : ∀ a, Confined key (f a)) : Confined key (x >>= f) := by
  refine ⟨.bind hx.alike fun a => (hf a).alike, fun srv => ?_⟩
  have hframe := hx.frame srv
  cases h : x srv with
  | ok a srv' =>
      rw [h] at hframe
      rw [bind_of_ok h]
      exact hframe.trans ((hf a).frame srv')
  | error f srv' =>
      rw [h] at hframe
      rw [bind_of_error h]
      exact hframe

theorem ite {c : Prop} [Decidable c] {x y : Rpc Server α} (hx : Confined key x)
    (hy : Confined key y) : Confined key (if c then x else y) := by
  split
  · exact hx
  · exact hy

theorem putConvo (round : ConvoRound) :
    Confined (.convo, Round) (Vuvuzela.putConvo Round round) := by
  refine ⟨fun a b _ => .ok (by simp [roundView]), fun srv => ⟨Eq.refl _, ?_⟩⟩
  rintro ⟨_ | _, r⟩ hne
  · have hr : r ≠ Round := fun e => hne (e ▸ Eq.refl _)
    exact congrArg Sum.inl (srv.setConvo_of_ne Round round hr)
  · exact Eq.refl _

theorem putDial (round : DialRound) : Confined (.dial, Round) (Vuvuzela.putDial Round round) := by
  refine ⟨fun a b _ => .ok (by simp [roundView]), fun srv => ⟨Eq.refl _, ?_⟩⟩
  rintro ⟨_ | _, r⟩ hne
  · exact Eq.refl _
  · have hr : r ≠ Round := fun e => hne (e ▸ Eq.refl _)
    exact congrArg Sum.inr (srv.setDial_of_ne Round round hr)

/-- A handler that looks its round up and leaves the server as it is. -/
theorem lookup {x : Rpc Server α} {f : Option ConvoRound ⊕ Option DialRound → Except Fault α}
    (h : ∀ srv, x srv = match f (roundView key srv) with
      | .ok a => .ok a srv
      | .error e => .error e srv) : Confined key x := by
  refine ⟨fun a b hab => ?_, fun srv => ?_⟩
  · rw [h a, h b, hab]
    cases f (roundView key b) with
    | ok r => exact .ok hab
    | error e => exact .error hab
  · rw [h srv]
    cases f (roundView key srv) <;> exact .rfl

theorem convoGetRound (status : ConvoStatus) :
    Confined (.convo, Round) (ConvoService.getRound Round status) := by
  let missing : Except Fault ConvoRound := .error (.err (.roundNotFound Round))
  refine lookup (f := Sum.elim (fun v => v.elim missing fun r => if r.status = status then .ok r
    else .error (.err (.unexpectedStatus Round r.status.toNat status.toNat)))
    fun _ => missing) fun srv => ?_
  rw [ConvoService.getRound_eq, roundView]
  cases srv.convoRounds Round with
  | none => rfl
  | some r => simp only [Sum.elim_inl, Option.elim_some]; split <;> rfl

theorem dialGetRound (status : DialStatus) :
    Confined (.dial, Round) (DialService.getRound Round status) := by
  let missing : Except Fault DialRound := .error (.err (.roundNotFound Round))
  refine lookup (f := Sum.elim (fun _ => missing) fun v => v.elim missing fun r =>
    if r.status = status then .ok r
    else .error (.err (.unexpectedStatus Round r.status.toNat status.toNat))) fun srv => ?_
  rw [DialService.getRound_eq, roundView]
  cases srv.dialRounds Round with
  | none => rfl
  | some r => simp only [Sum.elim_inr, Option.elim_some]; split <;> rfl

theorem convoCreate (box : NaclBox) (cfg : Config) (coins : ConvoCoins) :
    Confined (.convo, Round) (ConvoService.create box cfg coins Round) := by
  have hbranch : ∀ c : Bool, Confined (.convo, Round)
      (if c then throw (.err (.alreadyExists Round))
        else Vuvuzela.putConvo Round (coins.newRound box cfg Round)) :=
    fun c => .ite (.fail _) (.putConvo _)
  have heq : ∀ srv, ConvoService.create box cfg coins Round srv =
      (if (srv.convoRounds Round).isSome then throw (.err (.alreadyExists Round))
        else Vuvuzela.putConvo Round (coins.newRound box cfg Round)) srv := fun _ => rfl
  refine ⟨fun a b hab => ?_, fun srv => (hbranch (srv.convoRounds Round).isSome).frame srv⟩
  have hround : a.convoRounds Round = b.convoRounds Round := Sum.inl.inj hab
  rw [heq a, heq b, hround]
  exact (hbranch _).alike hab

theorem dialCreate (box : NaclBox) (cfg : Config) (coins : DialCoins) :
    Confined (.dial, Round) (DialService.create box cfg coins Round) := by
  have hbranch : ∀ c : Bool, Confined (.dial, Round)
      (if c then throw (.err (.alreadyExists Round))
        else Vuvuzela.putDial Round ⟨.roundOpen, [], coins.noise box cfg Round⟩) :=
    fun c => .ite (.fail _) (.putDial _)
  have heq : ∀ srv, DialService.create box cfg coins Round srv =
      (if (srv.dialRounds Round).isSome then throw (.err (.alreadyExists Round))
        else Vuvuzela.putDial Round ⟨.roundOpen, [], coins.noise box cfg Round⟩) srv := fun _ => rfl
  refine ⟨fun a b hab => ?_, fun srv => (hbranch (srv.dialRounds Round).isSome).frame srv⟩
  have hround : a.dialRounds Round = b.dialRounds Round := Sum.inr.inj hab
  rw [heq a, heq b, hround]
  exact (hbranch _).alike hab

theorem convoOpen (args : ConvoOpenArgs) :
    Confined (.convo, args.round) (ConvoService.open args) :=
  .bind (.convoGetRound _) fun _ => .ite (.putConvo _) (.fail _)

theorem convoAdd (box : NaclBox) (cfg : Config) (args : ConvoAddArgs) :
    Confined (.convo, args.round) (ConvoService.add box cfg args) := by
  refine .bind (.convoGetRound _) fun round => .ite (.fail _) ?_
  split
  · exact .fail _
  · exact .putConvo _

theorem convoGet (box : NaclBox) (cfg : Config) (filler : Nat → Nat → UInt8)
    (args : ConvoGetArgs) :
    Confined (.convo, args.round) (ConvoService.get box cfg filler args) := by
  refine .bind (.convoGetRound _) fun round => .ite ?_ (.fail _)
  dsimp only
  split
  · exact .fail _
  · exact .result _

theorem convoDelete : Confined (.convo, Round) (ConvoService.delete Round) := by
  refine ⟨fun a b _ => .ok (by simp [roundView]), fun srv => ⟨Eq.refl _, ?_⟩⟩
  rintro ⟨_ | _, r⟩ hne
  · have hr : r ≠ Round := fun e => hne (e ▸ Eq.refl _)
    exact congrArg Sum.inl (Function.update_of_ne hr _ _)
  · exact Eq.refl _

/-- The access counts belong to no round. -/
theorem counts (ac : AccessCount) : Confined key
    (modify fun srv => { srv with accessCounts := offer srv.accessCounts ac } : Rpc Server Unit) :=
  ⟨fun _ _ hab => .ok hab, fun _ => ⟨rfl, fun _ _ => Eq.refl _⟩⟩

theorem dialAdd (box : NaclBox) (cfg : Config) (args : DialAddArgs) :
    Confined (.dial, args.round) (DialService.add box cfg args) :=
  .bind (.dialGetRound _) fun _ => .putDial _

end Confined

/-! ### Hand over hand along the chain -/

section Passes

variable {J : Type} {keys : J → Service × UInt32} {j : J} {len : Nat}

/-- A part of round `j` goes along `len` servers hand over hand, from the first pair of counts of
locks to the second. -/
def Passes (keys : J → Service × UInt32) (j : J) (len : Nat) (p : RoundProg α)
    (s t : Nat × Nat) : Prop :=
  p.Coupled idleLatch (fun j => roundView (keys j)) j len s t

namespace Passes

variable {s t u : Nat × Nat} {k : Nat}

theorem result (a : α) : Passes keys j len (pure a) s s := rfl

theorem stop (f : Fault) : Passes (α := α) keys j len (.stop f) s t := trivial

theorem bind {p : RoundProg α} {q : α → RoundProg β} (hp : Passes keys j len p s t)
    (hq : ∀ a, Passes keys j len (q a) t u) : Passes keys j len (p >>= q) s u :=
  Prog.Coupled.bind hp hq

theorem mapFault (f : Fault → Fault) {p : RoundProg α} (hp : Passes keys j len p s t) :
    Passes keys j len (p.mapFault f) s t :=
  Prog.Coupled.mapFault f hp

theorem ite {c : Prop} [Decidable c] {p q : RoundProg α} (hp : Passes keys j len p s t)
    (hq : Passes keys j len q s t) : Passes keys j len (if c then p else q) s t := by
  split
  · exact hp
  · exact hq

/-- A handler of the round is a step in which nothing is locked. -/
theorem exec (hkeys : Function.Injective keys) {key : Service × UInt32} (hkey : keys j = key)
    {x : Rpc Server α} (hx : Confined key x) : Passes keys j len (.exec k x) s s := by
  subst hkey
  refine ⟨⟨fun a b hab => ?_, fun srv j' hj => ?_, fun srv => (hx.frame srv).idle⟩,
    fun a b hab => ?_, fun srv => ?_⟩
  · exact (hx.alike hab).endState_rel
  · exact (hx.frame srv).others _ fun e => hj (hkeys e)
  · exact (hx.alike hab).after_eq
  · change Prog.Coupled _ _ _ _ (Prog.after (x srv)) s s
    cases x srv with
    | ok a srv' => exact rfl
    | error f srv' => exact trivial

theorem lock {lo : Nat} (hk : k < len) (hlo : k = 0 ∨ lo < k) :
    Passes keys j len (idleLock k) (lo, k) (lo, k + 1) := ⟨rfl, hk, hlo, rfl⟩

theorem unlock {c : Nat} (hk : k < c) (hnext : k + 1 < c ∨ c = len) :
    Passes keys j len (idleUnlock k) (k, c) (k + 1, c) := ⟨rfl, hk, hnext, rfl⟩

theorem foldlM {γ : Type} {p : β → γ → RoundProg β} (hp : ∀ b c, Passes keys j len (p b c) s s) :
    ∀ (cs : List γ) (b : β), Passes keys j len (cs.foldlM p b) s s
  | [], b => result b
  | c :: cs, b => by
      rw [List.foldlM_cons]
      exact (hp b c).bind fun b' => foldlM hp cs b'

theorem callMany {γ : Type} [Inhabited α] (schedule : Schedule) (cs : List γ) {p : γ → RoundProg α}
    (hp : ∀ c, Passes keys j len (p c) s s) :
    Passes keys j len (callManySteps schedule (cs.map p)) s s := by
  refine foldlM (fun replies i => .bind ?_ fun reply => result _) _ _
  rw [List.getD_eq_getElem?_getD, List.getElem?_map]
  cases cs[i]? with
  | none => exact result default
  | some c => exact hp c

end Passes

/-- The servers from number `k` on let the round `j` pass: `NewRound` takes the lock of server `k`,
and the run of the round takes the others and gives all of them back. -/
structure NextPasses (keys : J → Service × UInt32) (j : J) (len k : Nat) (steps : NextSteps) :
    Prop where
  newConvoRound : ∀ round lo, keys j = (.convo, round) → k = 0 ∨ lo < k →
    Passes keys j len (steps.newConvoRound round) (lo, k) (lo, k + 1)
  runConvoRound : ∀ round onions, keys j = (.convo, round) →
    Passes keys j len (steps.runConvoRound round onions) (k, k + 1) (len, len)
  newDialRound : ∀ round lo, keys j = (.dial, round) → k = 0 ∨ lo < k →
    Passes keys j len (steps.newDialRound round) (lo, k) (lo, k + 1)
  runDialRound : ∀ round onions, keys j = (.dial, round) →
    Passes keys j len (steps.runDialRound round onions) (k, k + 1) (len, len)

section Server

variable {box : NaclBox} {st : Station} {stations : List Station} {k : Nat} {next : NextSteps}
  {Round : UInt32}

theorem ConvoService.close_passes (hkeys : Function.Injective keys)
    (hkey : keys j = (.convo, Round)) (hlen : k + 1 + stations.length = len)
    (hlast : st.cfg.lastServer = true ↔ stations = [])
    (hnext : NextPasses keys j len (k + 1) next) (shuffler : (n : Nat) → Shuffler n) :
    Passes keys j len (closeSteps st.cfg next shuffler k Round) (k, k + 1) (len, len) := by
  have hstep : ∀ {γ : Type} {x : Rpc Server γ} {s : Nat × Nat}, Confined (.convo, Round) x →
      Passes keys j len (.exec k x) s s := .exec hkeys hkey
  refine .bind (hstep (.convoGetRound _)) fun round => ?_
  cases filterIncoming round.incoming with
  | none => exact .stop _
  | some filtered =>
      obtain ⟨messages, index⟩ := filtered
      dsimp only
      split
      · -- the last server gives `Idle` back, and the round holds none any more
        rename_i hl
        obtain rfl : k + 1 = len := by simpa [hlast.mp hl] using hlen
        exact .bind (.unlock (Nat.lt_succ_self k) (.inr rfl)) fun _ =>
          .bind (hstep (.counts _)) fun _ => hstep (.putConvo _)
      · rw [closeForwardSteps]
        split
        · exact .stop _
        · have hnew := hnext.newConvoRound Round k hkey (.inr (Nat.lt_succ_self k))
          refine .bind (hstep (.putConvo _)) fun _ => .bind (hnew.mapFault _) fun _ =>
            .bind (.unlock (by omega) (.inl (by omega))) fun _ =>
              .bind ((hnext.runConvoRound Round _ hkey).mapFault _) fun replies => ?_
          split
          · exact .stop _
          · exact .ite (.stop _) (hstep (.putConvo _))

theorem DialService.close_passes (hkeys : Function.Injective keys)
    (hkey : keys j = (.dial, Round)) (hlen : k + 1 + stations.length = len)
    (hlast : st.cfg.lastServer = true ↔ stations = [])
    (hnext : NextPasses keys j len (k + 1) next) (shuffler : (n : Nat) → Shuffler n) :
    Passes keys j len (closeSteps st.cfg next shuffler k Round) (k, k + 1) (len, len) := by
  have hstep : ∀ {γ : Type} {x : Rpc Server γ} {s : Nat × Nat}, Confined (.dial, Round) x →
      Passes keys j len (.exec k x) s s := .exec hkeys hkey
  refine .bind (hstep (.dialGetRound _)) fun round => ?_
  cases filterIncoming round.incoming with
  | none => exact .stop _
  | some messages =>
      dsimp only
      split
      · exact .stop _
      · refine .bind (hstep (.putDial _)) fun _ => ?_
        split
        · rename_i hl
          obtain rfl : k + 1 = len := by simpa [hlast.mp hl] using hlen
          exact .bind (.unlock (Nat.lt_succ_self k) (.inr rfl)) fun _ => hstep (.putDial _)
        · exact .bind ((hnext.newDialRound Round k hkey (.inr (Nat.lt_succ_self k))).mapFault _)
            fun _ => .bind (.unlock (by omega) (.inl (by omega))) fun _ =>
              .bind ((hnext.runDialRound Round _ hkey).mapFault _) fun _ => hstep (.putDial _)

/-- A server in its place lets the round pass, if the servers after it do. -/
theorem server_passes (hkeys : Function.Injective keys) (hlen : k + 1 + stations.length = len)
    (hlast : st.cfg.lastServer = true ↔ stations = [])
    (hnext : NextPasses keys j len (k + 1) next) :
    NextPasses keys j len k (serverSteps box st k next).next where
  newConvoRound _ _ hkey hlo :=
    .bind (.lock (by omega) hlo) fun _ => .exec hkeys hkey (.convoCreate _ _ _)
  runConvoRound round _ hkey :=
    .bind ((Passes.exec hkeys hkey (.convoOpen ⟨round, _⟩)).mapFault _) fun _ =>
      .bind ((Passes.callMany _ _ fun _ =>
        .exec hkeys hkey (.convoAdd box st.cfg ⟨round, _, _⟩)).mapFault _) fun _ =>
          .bind ((ConvoService.close_passes hkeys hkey hlen hlast hnext _).mapFault _) fun _ =>
            .bind ((Passes.callMany _ _ fun _ =>
              .exec hkeys hkey (.convoGet box st.cfg st.filler ⟨round, _, _⟩)).mapFault _) fun _ =>
                .bind ((Passes.exec hkeys hkey .convoDelete).mapFault _) fun _ => .result _
  newDialRound _ _ hkey hlo :=
    .bind (.lock (by omega) hlo) fun _ => .exec hkeys hkey (.dialCreate _ _ _)
  runDialRound round _ hkey :=
    .bind ((Passes.callMany _ _ fun _ =>
      .exec hkeys hkey (.dialAdd box st.cfg ⟨round, _⟩)).mapFault _) fun _ =>
        (DialService.close_passes hkeys hkey hlen hlast hnext _).mapFault _

end Server

theorem chain_passes {box : NaclBox} (hkeys : Function.Injective keys) :
    ∀ {stations : List Station} {k : Nat}, Line box stations → k + stations.length = len →
      NextPasses keys j len k (chainSteps box stations k)
  | [], _, _, _ =>
      { newConvoRound := fun _ _ _ _ => .stop _
        runConvoRound := fun _ _ _ => .stop _
        newDialRound := fun _ _ _ _ => .stop _
        runDialRound := fun _ _ _ => .stop _ }
  | _ :: stations, k, hline, hlen => by
      have hlen' : k + 1 + stations.length = len := by
        rw [List.length_cons] at hlen
        omega
      exact server_passes hkeys hlen' hline.1.last (chain_passes hkeys hline.2 hlen')

/-- **Hand over hand.**  A round takes `Idle` of the servers in turn, each but the first while it
holds that of the server before, and gives all of them back. -/
theorem steps_passes {box : NaclBox} {jobs : J → RoundJob}
    (hkeys : Function.Injective fun j => (jobs j).key) (hline : Line box (jobs j).stations)
    (hlen : (jobs j).stations.length = len) :
    Passes (fun j => (jobs j).key) j len ((jobs j).steps box) (0, 0) (len, len) := by
  have hchain := chain_passes (j := j) hkeys hline ((Nat.zero_add _).trans hlen)
  cases hservice : (jobs j).service with
  | convo =>
      have hkey : (jobs j).key = (.convo, (jobs j).round) := by rw [RoundJob.key, hservice]
      simp only [RoundJob.steps, hservice]
      exact .bind (hchain.newConvoRound _ 0 hkey (.inl rfl)) fun _ =>
        hchain.runConvoRound _ _ hkey
  | dial =>
      have hkey : (jobs j).key = (.dial, (jobs j).round) := by rw [RoundJob.key, hservice]
      simp only [RoundJob.steps, hservice]
      exact .bind (.bind (hchain.newDialRound _ 0 hkey (.inl rfl)) fun _ =>
        hchain.runDialRound _ _ hkey) fun _ => .result _

end Passes

/-! ### Rounds on the chain -/

/-- Rounds that are run on the servers of one chain, from their start. -/
structure Rounds (box : NaclBox) (J : Type) (len : Nat) where
  jobs : J → RoundJob
  keys : Function.Injective fun j => (jobs j).key
  line : ∀ j, Line box (jobs j).stations
  length : ∀ j, (jobs j).stations.length = len

section Rounds

variable {box : NaclBox} {J : Type} [DecidableEq J] {len : Nat} (rounds : Rounds box J len)

/-- The rounds at the same time: their steps interleave in any way, also after one has failed. -/
def pipeline : System (Coupling.State J Fault Server (List Bytes)) (Coupling.Event J) :=
  Coupling.system idleLatch (fun _ => Server.start) fun j => (rounds.jobs j).steps box

/-- The servers of a list of stations, just started. -/
def startServers (stations : List Station) : Servers stations :=
  collect stations 0 fun _ => Server.start

/-- What a round looks like on the servers of a list, from number `k` on. -/
def viewServers (key : Service × UInt32) : (stations : List Station) → Servers stations →
    List (Option ConvoRound ⊕ Option DialRound)
  | [], _ => []
  | _ :: stations, servers => roundView key servers.1 :: viewServers key stations servers.2

variable {rounds} {h : List (Coupling.Event J)}
  {s : Coupling.State J Fault Server (List Bytes)}

theorem viewServers_collect {key : Service × UInt32} :
    ∀ (stations : List Station) (k : Nat) (servers : Nat → Server),
      viewServers key stations (collect stations k servers) =
        (List.range' k stations.length).map fun i => roundView key (servers i)
  | [], _, _ => rfl
  | _ :: stations, k, servers => by
      rw [List.length_cons, List.range'_succ, List.map_cons, viewServers]
      exact congrArg _ (viewServers_collect stations (k + 1) servers)

theorem roundView_set (key : Service × UInt32) (b : Bool) (srv : Server) :
    roundView key (idleLatch.set b srv) = roundView key srv := rfl

/-- What a round that has returned returned. -/
theorem returned_alone (run : (pipeline rounds).Run System.Any h s) (j : J) {replies : List Bytes}
    (htask : s.task j = .ret replies) : ∃ servers,
      (rounds.jobs j).atOnce box (startServers _) = .ok replies servers ∧
      viewServers (rounds.jobs j).key _ servers =
        (List.range len).map fun i => roundView (rounds.jobs j).key (s.node i) := by
  obtain ⟨t, hrun, hview⟩ := (Coupling.alone_of_run
    (fun j => roundView_set (rounds.jobs j).key) (fun _ => rfl)
    (fun j => steps_passes rounds.keys (rounds.line j) (rounds.length j)) run j).1 replies htask
  refine ⟨collect _ 0 t, ?_, ?_⟩
  · rw [startServers, (steps_atOnce box (rounds.jobs j)).run_eq, hrun]
    rfl
  · rw [viewServers_collect, rounds.length, ← List.range_eq_range']
    exact List.map_congr_left fun i _ => hview i

/-- How a round that has failed failed. -/
theorem failed_alone (run : (pipeline rounds).Run System.Any h s) {j : J} {f : Fault}
    (htask : s.task j = .stop f) (hlost : ¬ Coupling.Lost h j) :
    ∃ servers, (rounds.jobs j).atOnce box (startServers _) = .error f servers := by
  obtain ⟨t, hrun⟩ := (Coupling.alone_of_run
    (fun j => roundView_set (rounds.jobs j).key) (fun _ => rfl)
    (fun j => steps_passes rounds.keys (rounds.line j) (rounds.length j)) run j).2 f htask hlost
  refine ⟨collect _ 0 t, ?_⟩
  rw [startServers, (steps_atOnce box (rounds.jobs j)).run_eq, hrun]
  rfl

/-- A round that returns by itself does so step by step. -/
theorem steps_ok {job : RoundJob} (h : ∃ replies servers,
    job.atOnce box (startServers _) = .ok replies servers) :
    ∃ replies t, (job.steps box).run idleLatch (fun _ => Server.start) = .ok replies t := by
  obtain ⟨replies, servers, hreturn⟩ := h
  rw [startServers, (steps_atOnce box job).run_eq] at hreturn
  cases hrun : (job.steps box).run idleLatch fun _ => Server.start with
  | ok replies' t => exact ⟨replies', t, rfl⟩
  | error f t =>
      rw [hrun] at hreturn
      cases hreturn

end Rounds

/-! ### Two rounds to look at -/

/-- A round of conversations with one onion, and a round of dialing, on the sample chain. -/
def sampleRounds : Rounds tagBox Bool 2 where
  jobs b := {
    service := if b then .dial else .convo
    round := 1
    onions := if b then [] else [(Onionbox.seal tagBox (List.replicate sizeConvoExchange 9)
      (forwardNonce 1) samplePki.serverKeys fun _ => sampleKey 3).1]
    stations := sampleDeployment.stations }
  keys := by decide
  line _ := sampleDeployment.line
  length _ := rfl

theorem sampleRounds_alone (b : Bool) : ∃ replies servers,
    (sampleRounds.jobs b).atOnce tagBox (startServers _) = .ok replies servers := by
  have hends : ∀ b, endsOk ((sampleRounds.jobs b).atOnce tagBox (startServers _)) = true := by
    decide +kernel
  exact endsOk_iff.mp (hends b)

/-- The two rounds on servers of which the first draws no noise, and an onion of a wrong size in
the batch. -/
def brokenRounds : Rounds tagBox Bool 2 where
  jobs b := {
    service := if b then .dial else .convo
    round := 1
    onions := if b then [] else [[]]
    stations := [quietStation, sampleStation "last" 2 50] }
  keys := by decide
  line _ := by
    obtain ⟨hplace, hrest⟩ := sampleDeployment.line
    exact ⟨⟨hplace.incoming, hplace.outgoing, hplace.nextKeys, hplace.last⟩, hrest⟩
  length _ := rfl

/-- The rounds take steps in turn. -/
theorem run_of_turns {box : NaclBox} {J : Type} [DecidableEq J] {len : Nat}
    (rounds : Rounds box J len) (turns : List J)
    (test : List (Coupling.Event J) × Coupling.State J Fault Server (List Bytes) → Bool)
    (h : (System.replay (Coupling.advance idleLatch) (fun _ _ _ => true) turns []
      ⟨fun _ => Server.start, fun j => (rounds.jobs j).steps box, fun _ => false⟩).any test) :
    ∃ h s, (pipeline rounds).Run System.Any h s ∧ h.map Coupling.Event.job = turns ∧
      test (h, s) = true := by
  obtain ⟨⟨h, s⟩, hreplay, htest⟩ := (Option.any_eq_true ..).mp h
  have hstep : ∀ j s l s', Coupling.advance idleLatch j s = some (l, s') →
      (pipeline rounds).step s l s' ∧ l.job = j := fun _ _ _ _ => Coupling.step_of_advance
  obtain ⟨run, hturns⟩ := System.Run.replay hstep (fun _ _ _ _ => trivial) (.init rfl) hreplay
  exact ⟨h, s, run, hturns, htest⟩

/-- How a round has ended, once it has: with a fault, or with none. -/
def endedWith {α : Type} : RoundProg α → Option (Option Fault)
  | .ret _ => some none
  | .stop f => some (some f)
  | .lock .. | .unlock .. | .act .. => none

theorem ret_of_endedWith {α : Type} {p : RoundProg α} (h : endedWith p = some none) :
    ∃ a, p = .ret a := by
  cases p with
  | ret a => exact ⟨a, rfl⟩
  | _ => cases h

theorem stop_of_endedWith {α : Type} {p : RoundProg α} {f : Fault}
    (h : endedWith p = some (some f)) : p = .stop f := by
  cases p with
  | stop f => cases h; rfl
  | _ => cases h

/-- The round of dialing comes to the first server as soon as the round of conversations has gone on
to the second; from then on they take turns. -/
def sampleTurns : List Bool :=
  List.replicate 9 false ++ (List.replicate 11 [true, false]).flatten ++ [true, true]

/-- Both go along both servers, and return. -/
theorem sampleRounds_interleaved : ∃ h s, (pipeline sampleRounds).Run System.Any h s ∧
    h.map Coupling.Event.job = sampleTurns ∧
    (Coupling.acquired 0 h = [false, true] ∧ Coupling.acquired 1 h = [false, true]) ∧
    (∃ replies, s.task false = .ret replies) ∧ ∃ replies, s.task true = .ret replies := by
  obtain ⟨h, s, run, hturns, htest⟩ := run_of_turns sampleRounds sampleTurns
    (fun r => (Coupling.acquired 0 r.1 = [false, true] ∧
      Coupling.acquired 1 r.1 = [false, true]) ∧
        endedWith (r.2.task false) = some none ∧ endedWith (r.2.task true) = some none)
    (by decide +kernel)
  obtain ⟨hacquired, hconvo, hdial⟩ := of_decide_eq_true htest
  exact ⟨h, s, run, hturns, hacquired, ret_of_endedWith hconvo, ret_of_endedWith hdial⟩

/-- The round of conversations fails while the round of dialing is on both servers.  It brings the
first server down, and the round of dialing is lost. -/
theorem brokenRounds_run : ∃ h s f, (pipeline brokenRounds).Run System.Any h s ∧
    .lost true 0 ∈ h ∧ s.task false = .stop (.panic .slice) ∧ s.task true = .stop f := by
  obtain ⟨h, s, run, -, htest⟩ := run_of_turns brokenRounds
    (List.replicate 9 false ++ (List.replicate 6 [true, false]).flatten)
    (fun r => endedWith (r.2.task false) = some (some (.panic .slice)) ∧
      endedWith (r.2.task true) = none) (by decide +kernel)
  obtain ⟨hfailed, hunderway⟩ := of_decide_eq_true htest
  have hstop := stop_of_endedWith hfailed
  have hret : ∀ a, s.task true ≠ .ret a := fun a h => by
    rw [h] at hunderway
    cases hunderway
  have hgoes : ∀ f, s.task true ≠ .stop f := fun f h => by
    rw [h] at hunderway
    cases hunderway
  have crash : (pipeline brokenRounds).step s (.crashed false 0)
      ⟨s.node, s.task, Function.update s.down 0 true⟩ := .crash hstop
  have lose : (pipeline brokenRounds).step ⟨s.node, s.task, Function.update s.down 0 true⟩
      (.lost true 0) _ :=
    .lose (e := .err .unexpectedEOF) (Function.update_self 0 true s.down) hret hgoes
  exact ⟨_, _, _, (run.step trivial crash).step trivial lose,
    List.mem_append_right _ (List.mem_singleton_self _), hstop,
    Function.update_self true (Prog.stop (.err .unexpectedEOF)) s.task⟩

/-- The round of dialing would not have failed by itself. -/
theorem brokenRounds_dial (f : Fault) (servers : Servers (brokenRounds.jobs true).stations) :
    (brokenRounds.jobs true).atOnce tagBox (startServers _) ≠ .error f servers := by
  intro h
  have hok : endsOk ((brokenRounds.jobs true).atOnce tagBox (startServers _)) = true := by
    decide +kernel
  rw [h] at hok
  cases hok

/-! ### Every run -/

section Rounds

variable {box : NaclBox} {J : Type} [DecidableEq J] {len : Nat} {rounds : Rounds box J len}
  {h : List (Coupling.Event J)} {s : Coupling.State J Fault Server (List Bytes)}

/-- **Rounds do not disturb each other.**  A round that has returned, whatever other rounds of
either service did on the same servers in the meantime, and whether or not they failed, returned
what it returns on a chain that has just been started and that nobody else uses; on the servers that
are up it left the same behind in the tables.  A round that has failed fails there with the same
error, unless it was lost while a server was down, and then another round has failed as it fails
there. -/
theorem rounds_undisturbed (run : (pipeline rounds).Run System.Any h s) (j : J) :
    (∀ replies, s.task j = .ret replies → ∃ servers,
      (rounds.jobs j).atOnce box (startServers _) = .ok replies servers ∧
      ∀ i < len, s.down i = false → (viewServers (rounds.jobs j).key _ servers)[i]? =
        some (roundView (rounds.jobs j).key (s.node i))) ∧
    ∀ f, s.task j = .stop f →
      (∃ servers, (rounds.jobs j).atOnce box (startServers _) = .error f servers) ∨
      ∃ i, .lost j i ∈ h ∧ s.down i = true ∧ ∃ j' ≠ j, ∃ f' servers, s.task j' = .stop f' ∧
        (rounds.jobs j').atOnce box (startServers _) = .error f' servers := by
  refine ⟨fun replies htask => ?_, fun f htask => ?_⟩
  · obtain ⟨servers, hreturn, hview⟩ := returned_alone run j htask
    refine ⟨servers, hreturn, fun i hi _ => ?_⟩
    rw [hview, List.getElem?_map, List.getElem?_range hi]
    rfl
  · by_cases hlost : Coupling.Lost h j
    · obtain ⟨i, hi⟩ := hlost
      obtain ⟨-, hdown⟩ := (Coupling.blamed_of_run run).stopped j i hi
      obtain ⟨j', f', hblame, htask'⟩ := (Coupling.blamed_of_run run).blame i hdown
      obtain ⟨servers, hfail⟩ := failed_alone run htask' hblame
      have hne : j' ≠ j := by
        rintro rfl
        exact hblame ⟨i, hi⟩
      exact .inr ⟨i, hi, hdown, j', hne, f', servers, htask', hfail⟩
    · exact .inl (failed_alone run htask hlost)

/-- Both rounds return; and where the first brings its server down, the second is lost. -/
theorem rounds_undisturbed_sample :
    (∃ h s replies servers, (pipeline sampleRounds).Run System.Any h s ∧
      h.map Coupling.Event.job = sampleTurns ∧ s.task false = .ret replies ∧
      (sampleRounds.jobs false).atOnce tagBox (startServers _) = .ok replies servers) ∧
    ∃ h s servers, (pipeline brokenRounds).Run System.Any h s ∧ .lost true 0 ∈ h ∧
      (brokenRounds.jobs false).atOnce tagBox (startServers _) =
        .error (.panic .slice) servers := by
  constructor
  · obtain ⟨h, s, run, hturns, -, ⟨replies, htask⟩, -⟩ := sampleRounds_interleaved
    obtain ⟨servers, hreturn, -⟩ := (rounds_undisturbed run false).1 replies htask
    exact ⟨h, s, replies, servers, run, hturns, htask, hreturn⟩
  · obtain ⟨h, s, f, run, hlost, hstop, htask⟩ := brokenRounds_run
    rcases (rounds_undisturbed run true).2 f htask with
      ⟨servers, halone⟩ | ⟨-, -, -, j, hj, f', servers, hstop', hfail⟩
    · exact absurd halone (brokenRounds_dial f servers)
    · obtain rfl : j = false := Bool.not_eq_true j |>.mp hj
      cases hstop.symm.trans hstop'
      exact ⟨h, s, servers, run, hlost, hfail⟩

/-- **One order on all servers.**  `Idle` of a server that is up is held by one round at most.  The
servers take every round once, and in the order in which the first server took them: who has come to
a later server came to an earlier one in the same order, and at most one round for each server in
between has not come so far.  That holds also after rounds have failed. -/
theorem rounds_in_order (run : (pipeline rounds).Run System.Any h s) :
    (∀ i, s.down i = false → ((s.node i).idle = true ↔ ∃ j, Coupling.Holds h j i)) ∧
    (∀ i j j', Coupling.Holds h j i → Coupling.Holds h j' i → j = j') ∧
    ∀ i i', i ≤ i' → i' < len →
      (Coupling.acquired i h).Nodup ∧
      Coupling.acquired i' h <+: Coupling.acquired i h ∧
      (Coupling.acquired i h).length ≤ (Coupling.acquired i' h).length + (i' - i) := by
  have hset := fun j => roundView_set (rounds.jobs j).key
  have hpasses := fun j => steps_passes rounds.keys (rounds.line j) (rounds.length j)
  have hsound := Coupling.sound_of_run hset (fun _ => rfl) hpasses run
  have horder := Coupling.inOrder_of_run hset (fun _ => rfl) hpasses run
  exact ⟨fun i _ => hsound.held i, fun _ _ _ => hsound.exclusive,
    fun i i' hi hlen => ⟨horder.nodup i, horder.acquired_le hi hlen⟩⟩

/-- Both servers take both rounds, in one order. -/
theorem rounds_in_order_sample :
    ∃ h s, (pipeline sampleRounds).Run System.Any h s ∧
      h.map Coupling.Event.job = sampleTurns ∧
      Coupling.acquired 0 h = [false, true] ∧ Coupling.acquired 1 h = [false, true] ∧
      Coupling.acquired 1 h <+: Coupling.acquired 0 h := by
  obtain ⟨h, s, run, hturns, ⟨hfirst, hlast⟩, -⟩ := sampleRounds_interleaved
  obtain ⟨-, -, horder⟩ := rounds_in_order run
  exact ⟨h, s, run, hturns, hfirst, hlast, (horder 0 1 (by decide) (by decide)).2.1⟩

/-- **No round waits for ever.**  Where every round succeeds on a chain of its own, none fails
here, and whatever has happened so far, the rounds that have started can all be brought to their
end without a step of one that has not; each then returns what it returns on a chain of its own. -/
theorem rounds_complete (halone : ∀ j, ∃ replies servers,
      (rounds.jobs j).atOnce box (startServers _) = .ok replies servers)
    (run : (pipeline rounds).Run System.Any h s) :
    (∀ j f, s.task j ≠ .stop f) ∧
    ∃ h' s', (pipeline rounds).Run System.Any (h ++ h') s' ∧
      (∀ l ∈ h', Coupling.Started h l.job) ∧
      ∀ j, Coupling.Started h j → ∃ replies servers, s'.task j = .ret replies ∧
        (rounds.jobs j).atOnce box (startServers _) = .ok replies servers := by
  have hset := fun j => roundView_set (rounds.jobs j).key
  have hpasses := fun j => steps_passes rounds.keys (rounds.line j) (rounds.length j)
  have hok := fun j => steps_ok (halone j)
  obtain ⟨h', s', run', hjobs, hfin⟩ := Coupling.completes hset (fun _ => rfl) hpasses hok run
  refine ⟨Coupling.task_ne_stop hset (fun _ => rfl) hpasses hok run, h', s', run', hjobs,
    fun j hj => ?_⟩
  obtain ⟨replies, htask⟩ := hfin j hj
  obtain ⟨servers, hreturn, -⟩ := returned_alone run' j htask
  exact ⟨replies, servers, htask, hreturn⟩

/-- From the midst of both rounds, with one on each server. -/
theorem rounds_complete_sample :
    ∃ h s h' s' replies replies', (pipeline sampleRounds).Run System.Any h s ∧
      (Coupling.acquired 0 h = [false, true] ∧ Coupling.acquired 1 h = [false]) ∧
      (pipeline sampleRounds).Run System.Any (h ++ h') s' ∧
      s'.task false = .ret replies ∧ s'.task true = .ret replies' := by
  obtain ⟨h, s, run, hturns, htest⟩ := run_of_turns sampleRounds (sampleTurns.take 12)
    (fun r => Coupling.acquired 0 r.1 = [false, true] ∧
      Coupling.acquired 1 r.1 = [false]) (by decide +kernel)
  obtain ⟨-, h', s', run', -, hfin⟩ := rounds_complete sampleRounds_alone run
  have hstarted : ∀ b, Coupling.Started h b := by
    intro b
    have hmem : b ∈ h.map Coupling.Event.job := by
      rw [hturns]
      cases b <;> decide
    exact List.mem_map.mp hmem
  obtain ⟨replies, -, htask, -⟩ := hfin false (hstarted false)
  obtain ⟨replies', -, htask', -⟩ := hfin true (hstarted true)
  exact ⟨h, s, h', s', replies, replies', run, of_decide_eq_true htest, run', htask, htask'⟩

end Rounds

end Vuvuzela
