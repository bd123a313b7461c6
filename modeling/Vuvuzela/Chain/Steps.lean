import Vuvuzela.Source.Pipeline

/-!
# Chain — a round with steps is the round

The programs of `Source/Pipeline`, run from their first step to their last, do what the functions
of `Source/Convo`, `Source/Dial` and `Source/Chain` do (`steps_atOnce`).  `Implements` says this of
a program and a function of the servers from a number on, and has a rule for each way programs are
put together; the proofs follow the definitions.
-/

namespace Vuvuzela
open Support

variable {α β : Type} {stations : List Station} {st : Station} {k : Nat}

/-- The servers of a list, from number `k` on. -/
def collect : (stations : List Station) → Nat → (Nat → Server) → Servers stations
  | [], _, _ => ()
  | _ :: stations, k, s => (s k, collect stations (k + 1) s)

theorem collect_update {i : Nat} (srv : Server) (s : Nat → Server) :
    ∀ {stations : List Station} {k : Nat}, i < k →
      collect stations k (Function.update s i srv) = collect stations k s
  | [], _, _ => rfl
  | _ :: stations, k, hi => by
      rw [collect, collect, Function.update_of_ne (by omega), collect_update srv s (by omega)]

/-- A result, with another view of the state. -/
def mapState {ε σ τ : Type} (f : σ → τ) : EStateM.Result ε σ α → EStateM.Result ε τ α
  | .ok a s => .ok a (f s)
  | .error e s => .error e (f s)

theorem onFst_bind {ε σ τ : Type} (x : EStateM ε σ α) (f : α → EStateM ε σ β) :
    (onFst (x >>= f) : EStateM ε (σ × τ) β) = onFst x >>= fun a => onFst (f a) := by
  funext p
  cases hx : x p.1 with
  | ok a s =>
      rw [bind_of_ok (onFst_of_ok p.2 hx), onFst, bind_of_ok hx]
      rfl
  | error e s =>
      rw [bind_of_error (onFst_of_error p.2 hx), onFst, bind_of_error hx]

/-- The program, run to its end, is the function of the servers from number `k` on, and leaves the
others alone. -/
structure Implements (stations : List Station) (k : Nat) (p : RoundProg α)
    (x : Rpc (Servers stations) α) : Prop where
  run_eq : ∀ s, x (collect stations k s) = mapState (collect stations k) (p.run idleLatch s)
  frame : ∀ s, ∀ i < k, endState (p.run idleLatch s) i = s i

namespace Implements

theorem result (a : α) : Implements stations k (pure a) (pure a) :=
  ⟨fun _ => rfl, fun _ _ _ => rfl⟩

theorem stop (f : Fault) : Implements (α := α) stations k (.stop f) (throw f) :=
  ⟨fun _ => rfl, fun _ _ _ => rfl⟩

theorem bind {p : RoundProg α} {x : Rpc (Servers stations) α} {q : α → RoundProg β}
    {y : α → Rpc (Servers stations) β} (hp : Implements stations k p x)
    (hq : ∀ a, Implements stations k (q a) (y a)) :
    Implements stations k (p >>= q) (x >>= y) := by
  refine ⟨fun s => ?_, fun s i hi => ?_⟩
  · have hrun := hp.run_eq s
    rw [Prog.run_bind]
    cases hs : p.run idleLatch s with
    | ok a s' =>
        rw [hs] at hrun
        rw [bind_of_ok hrun, bind_of_ok hs]
        exact (hq a).run_eq s'
    | error f s' =>
        rw [hs] at hrun
        rw [bind_of_error hrun, bind_of_error hs]
        rfl
  · have hframe := hp.frame s i hi
    rw [Prog.run_bind]
    cases hs : p.run idleLatch s with
    | ok a s' =>
        rw [hs] at hframe
        rw [bind_of_ok hs, (hq a).frame s' i hi]
        exact hframe
    | error f s' =>
        rw [hs] at hframe
        rw [bind_of_error hs]
        exact hframe

theorem mapFault {p : RoundProg α} {x : Rpc (Servers stations) α} (f : Fault → Fault)
    (hp : Implements stations k p x) :
    Implements stations k (p.mapFault f) (Support.mapFault f x) := by
  refine ⟨fun s => ?_, fun s i hi => ?_⟩
  · rw [Prog.run_mapFault, Support.mapFault, Support.mapFault, hp.run_eq s]
    cases p.run idleLatch s <;> rfl
  · have hframe := hp.frame s i hi
    rw [Prog.run_mapFault, Support.mapFault]
    cases hs : p.run idleLatch s <;> rw [hs] at hframe <;> exact hframe

/-- A step on the first of the servers. -/
theorem exec (x : Rpc Server α) : Implements (st :: stations) k (.exec k x) (onFst x) := by
  refine ⟨fun s => ?_, fun s i hi => ?_⟩
  · rw [Prog.run_exec, onNode]
    cases hx : x (s k) with
    | ok a srv =>
        refine (onFst_of_ok (collect stations (k + 1) s) hx).trans ?_
        simp only [mapState, collect, Function.update_self,
          collect_update srv s (Nat.lt_succ_self k)]
        rfl
    | error f srv =>
        refine (onFst_of_error (collect stations (k + 1) s) hx).trans ?_
        simp only [mapState, collect, Function.update_self,
          collect_update srv s (Nat.lt_succ_self k)]
        rfl
  · rw [Prog.run_exec, onNode]
    cases x (s k) <;> exact Function.update_of_ne (by omega) _ _

/-- `Idle.Lock()` on the first of the servers. -/
theorem lock : Implements (st :: stations) k (idleLock k) (onFst lockIdle) := by
  have hrun : (idleLock k).run idleLatch = onNode k lockIdle := by
    funext s
    simp only [idleLock, Prog.run, onNode, lockIdle_eq]
    cases hidle : (s k).idle <;> simp [idleLatch, hidle]
  obtain ⟨hrun_eq, hframe⟩ : Implements (st :: stations) k (.exec k lockIdle) (onFst lockIdle) :=
    exec lockIdle
  rw [Prog.run_exec, ← hrun] at hrun_eq hframe
  exact ⟨hrun_eq, hframe⟩

/-- `Idle.Unlock()` on the first of the servers. -/
theorem unlock : Implements (st :: stations) k (idleUnlock k) (onFst unlockIdle) := by
  have hrun : (idleUnlock k).run idleLatch = onNode k unlockIdle := by
    funext s
    simp only [idleUnlock, Prog.run, onNode, unlockIdle_eq]
    cases hidle : (s k).idle <;> simp [idleLatch, hidle]
  obtain ⟨hrun_eq, hframe⟩ :
      Implements (st :: stations) k (.exec k unlockIdle) (onFst unlockIdle) :=
    exec unlockIdle
  rw [Prog.run_exec, ← hrun] at hrun_eq hframe
  exact ⟨hrun_eq, hframe⟩

/-- A program on the servers after the first. -/
theorem next {p : RoundProg α} {x : Rpc (Servers stations) α}
    (hp : Implements stations (k + 1) p x) :
    Implements (st :: stations) k p (onSnd x) := by
  refine ⟨fun s => ?_, fun s i hi => hp.frame s i (by omega)⟩
  have hrun := hp.run_eq s
  have hframe := hp.frame s k (by omega)
  cases hs : p.run idleLatch s with
  | ok a s' =>
      rw [hs] at hrun hframe
      rw [collect, onSnd_of_ok (s k) hrun, ← hframe]
      rfl
  | error f s' =>
      rw [hs] at hrun hframe
      rw [collect, onSnd_of_error (s k) hrun, ← hframe]
      rfl

theorem ite {c : Prop} [Decidable c] {p q : RoundProg α} {x y : Rpc (Servers stations) α}
    (hp : Implements stations k p x) (hq : Implements stations k q y) :
    Implements stations k (if c then p else q) (if c then x else y) := by
  split
  · exact hp
  · exact hq

theorem foldlM {γ : Type} {p : β → γ → RoundProg β} {x : β → γ → Rpc (Servers stations) β}
    (hp : ∀ b c, Implements stations k (p b c) (x b c)) :
    ∀ (cs : List γ) (b : β), Implements stations k (cs.foldlM p b) (cs.foldlM x b)
  | [], b => result b
  | c :: cs, b => by
      rw [List.foldlM_cons, List.foldlM_cons]
      exact (hp b c).bind fun b' => foldlM hp cs b'

theorem callMany {γ : Type} [Inhabited α] (schedule : Schedule) (cs : List γ)
    {p : γ → RoundProg α} {x : γ → Rpc (Servers stations) α}
    (hp : ∀ c, Implements stations k (p c) (x c)) :
    Implements stations k (callManySteps schedule (cs.map p))
      (Vuvuzela.callMany schedule (cs.map x)) := by
  rw [callManySteps, Vuvuzela.callMany, List.length_map, List.length_map]
  refine foldlM (fun replies i => .bind ?_ fun reply => result _) _ _
  rw [List.getD_eq_getElem?_getD, List.getD_eq_getElem?_getD, List.getElem?_map, List.getElem?_map]
  cases cs[i]? with
  | none => exact result default
  | some c => exact hp c

end Implements

/-! ### The handlers -/

section Handlers

variable {box : NaclBox} {nextSteps : NextSteps} {next : NextServer (Servers stations)}

/-- The next server, and its steps. -/
structure NextImplements (stations : List Station) (k : Nat) (steps : NextSteps)
    (next : NextServer (Servers stations)) : Prop where
  newConvoRound : ∀ round, Implements stations k (steps.newConvoRound round)
    (next.newConvoRound round)
  runConvoRound : ∀ round onions, Implements stations k (steps.runConvoRound round onions)
    (next.runConvoRound round onions)
  newDialRound : ∀ round, Implements stations k (steps.newDialRound round)
    (next.newDialRound round)
  runDialRound : ∀ round onions, Implements stations k (steps.runDialRound round onions)
    (next.runDialRound round onions)

theorem ConvoService.newRound_implements (cfg : Config) (coins : ConvoCoins) (Round : UInt32) :
    Implements (st :: stations) k (newRoundSteps box cfg coins k Round)
      (onFst (newRound box cfg coins Round)) := by
  have hparts : (onFst (newRound box cfg coins Round) : Rpc (Server × Servers stations) Unit) =
      onFst lockIdle >>= fun _ => onFst (create box cfg coins Round) := onFst_bind _ _
  rw [hparts]
  exact .bind .lock fun _ => .exec _

theorem DialService.newRound_implements (cfg : Config) (coins : DialCoins) (Round : UInt32) :
    Implements (st :: stations) k (newRoundSteps box cfg coins k Round)
      (onFst (newRound box cfg coins Round)) := by
  have hparts : (onFst (newRound box cfg coins Round) : Rpc (Server × Servers stations) Unit) =
      onFst lockIdle >>= fun _ => onFst (create box cfg coins Round) := onFst_bind _ _
  rw [hparts]
  exact .bind .lock fun _ => .exec _

theorem ConvoService.closeLast_implements (Round : UInt32) (round : ConvoRound)
    (messages : List Bytes) :
    Implements (st :: stations) k (closeLastSteps k Round round messages)
      (onFst (closeLast Round round messages)) := by
  have hparts : ∀ (x : Rpc Server Unit) (y z : Unit → Rpc Server Unit),
      (onFst (x >>= fun a => y a >>= z) : Rpc (Server × Servers stations) Unit) =
        onFst x >>= fun a => onFst (y a) >>= fun b => onFst (z b) := fun x y z => by
    simp only [onFst_bind]
  rw [closeLast, hparts]
  exact .bind .unlock fun _ => .bind (.exec _) fun _ => .exec _

theorem ConvoService.closeForward_implements
    (hnext : NextImplements stations (k + 1) nextSteps next) (shuffler : (n : Nat) → Shuffler n)
    (Round : UInt32) (round : ConvoRound) (capacity : Nat) (messages : List Bytes) :
    Implements (st :: stations) k
      (closeForwardSteps nextSteps shuffler k Round round capacity messages)
      (closeForward next shuffler Round round capacity messages) := by
  rw [closeForwardSteps, closeForward]
  cases (shuffler (messages ++ round.noise).length).shuffle (messages ++ round.noise) with
  | none => exact .stop _
  | some shuffled =>
      refine .bind (.exec _) fun _ => .bind (.next ((hnext.newConvoRound _).mapFault _)) fun _ =>
        .bind .unlock fun _ => .bind (.next ((hnext.runConvoRound _ _).mapFault _))
          fun replies => ?_
      cases (shuffler (messages ++ round.noise).length).unshuffle replies with
      | none => exact .stop _
      | some replies => exact .ite (.stop _) (.exec _)

theorem ConvoService.close_implements (hnext : NextImplements stations (k + 1) nextSteps next)
    (cfg : Config) (shuffler : (n : Nat) → Shuffler n) (Round : UInt32) :
    Implements (st :: stations) k (closeSteps cfg nextSteps shuffler k Round)
      (close cfg next shuffler Round) := by
  refine .bind (.exec _) fun round => ?_
  cases filterIncoming round.incoming with
  | none => exact .stop _
  | some filtered =>
      exact .ite (closeLast_implements _ _ _) (closeForward_implements hnext _ _ _ _ _)

theorem DialService.close_implements (hnext : NextImplements stations (k + 1) nextSteps next)
    (cfg : Config) (shuffler : (n : Nat) → Shuffler n) (Round : UInt32) :
    Implements (st :: stations) k (closeSteps cfg nextSteps shuffler k Round)
      (close cfg next shuffler Round) := by
  refine .bind (.exec _) fun round => ?_
  cases filterIncoming round.incoming with
  | none => exact .stop _
  | some messages =>
      cases hshuffle : (shuffler (messages ++ round.noise).length).shuffle
          (messages ++ round.noise) with
      | none =>
          simp only [hshuffle]
          exact .stop _
      | some shuffled =>
          simp only [hshuffle]
          refine .bind (.exec _) fun _ => .ite ?_ ?_
          · exact .bind .unlock fun _ => .exec _
          · exact .bind (.next ((hnext.newDialRound _).mapFault _)) fun _ =>
              .bind .unlock fun _ => .bind (.next ((hnext.runDialRound _ _).mapFault _)) fun _ =>
                .exec _

/-- A server, and its steps. -/
theorem server_implements (st : Station) (hnext : NextImplements stations (k + 1) nextSteps next) :
    NextImplements (st :: stations) k (serverSteps box st k nextSteps).next
      (serverClient box st next).next where
  newConvoRound := ConvoService.newRound_implements st.cfg st.convoCoins
  runConvoRound _ _ :=
    .bind ((Implements.exec _).mapFault _) fun _ =>
      .bind ((Implements.callMany _ _ fun _ => .exec _).mapFault _) fun _ =>
        .bind ((ConvoService.close_implements hnext _ _ _).mapFault _) fun _ =>
          .bind ((Implements.callMany _ _ fun _ => .exec _).mapFault _) fun _ =>
            .bind ((Implements.exec _).mapFault _) fun _ => .result _
  newDialRound := DialService.newRound_implements st.cfg st.dialCoins
  runDialRound _ _ :=
    .bind ((Implements.callMany _ _ fun _ => .exec _).mapFault _) fun _ =>
      (DialService.close_implements hnext _ _ _).mapFault _

end Handlers

/-- The chain, and its steps. -/
theorem chain_implements (box : NaclBox) : ∀ (stations : List Station) (k : Nat),
    NextImplements stations k (chainSteps box stations k) (chain box stations)
  | [], _ =>
      { newConvoRound := fun _ => .stop _
        runConvoRound := fun _ _ => .stop _
        newDialRound := fun _ => .stop _
        runDialRound := fun _ _ => .stop _ }
  | st :: stations, k => server_implements st (chain_implements box stations (k + 1))

/-- A round with steps, run from the first to the last, is the round. -/
theorem steps_atOnce (box : NaclBox) (job : RoundJob) :
    Implements job.stations 0 (job.steps box) (job.atOnce box) := by
  have hchain := chain_implements box job.stations 0
  rw [RoundJob.steps, RoundJob.atOnce]
  cases job.service with
  | convo => exact .bind (hchain.newConvoRound _) fun _ => hchain.runConvoRound _ _
  | dial =>
      have hround : Implements job.stations 0
          (dialRoundSteps (chainSteps box job.stations 0) job.round job.onions)
          (dialRound (chain box job.stations) job.round job.onions) :=
        .bind (hchain.newDialRound _) fun _ => hchain.runDialRound _ _
      exact .bind hround fun _ => .result _

end Vuvuzela
