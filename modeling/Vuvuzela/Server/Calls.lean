import Vuvuzela.Convo.Handlers
import Vuvuzela.Dial.Handlers
import Vuvuzela.Support.System

/-!
# Server — one server and the calls made on it

A server as a transition system.  Its upstream, which need not be honest, makes any calls of the
two services in any order; each call is a step, and its event says what was called, how it
ended, and what reached the next server on the way.  The next server is any `NextServer`, so
every pattern of its successes and failures is among the runs.  A call that waits for `Idle` is
not a step, and a panic ends the run.

`Effect` says once what a step can do to the server, whatever the next server is
(`effect_of_serve`); the invariants of the modules that follow read `Effect` only.
-/

namespace Vuvuzela
open Support

variable {σ : Type}

/-! ### Calls -/

/-- A call, with the random draws the server makes in it. -/
inductive Request where
  | convoNewRound (round : UInt32) (coins : ConvoCoins)
  | convoOpen (args : ConvoOpenArgs)
  | convoAdd (args : ConvoAddArgs)
  | convoClose (round : UInt32) (shuffler : (n : Nat) → Shuffler n)
  | convoGet (args : ConvoGetArgs) (filler : Nat → Nat → UInt8)
  | convoDelete (round : UInt32)
  | dialNewRound (round : UInt32) (coins : DialCoins)
  | dialAdd (args : DialAddArgs)
  | dialClose (round : UInt32) (shuffler : (n : Nat) → Shuffler n)
  | dialBuckets (round : UInt32)

/-- The handler of a call. -/
def handle (box : NaclBox) (cfg : Config) (next : NextServer σ) : Request → Rpc (Server × σ) Unit
  | .convoNewRound round coins => onFst (ConvoService.newRound box cfg coins round)
  | .convoOpen args => onFst (ConvoService.open args)
  | .convoAdd args => onFst (ConvoService.add box cfg args)
  | .convoClose round shuffler => ConvoService.close cfg next shuffler round
  | .convoGet args filler => do let _ ← onFst (ConvoService.get box cfg filler args)
  | .convoDelete round => onFst (ConvoService.delete round)
  | .dialNewRound round coins => onFst (DialService.newRound box cfg coins round)
  | .dialAdd args => onFst (DialService.add box cfg args)
  | .dialClose round shuffler => DialService.close cfg next shuffler round
  | .dialBuckets round => do let _ ← onFst (DialService.buckets cfg round)

/-! ### What reaches the next server -/

/-- A call that reached the next server: a `NewRound` it took, or a batch. -/
inductive Sent where
  | convoTaken (round : UInt32)
  | convoBatch (round : UInt32) (batch : List Bytes)
  | dialTaken (round : UInt32)
  | dialBatch (round : UInt32) (batch : List Bytes)
  deriving DecidableEq

/-- A call of the next server that is recorded when it succeeds, or in any case. -/
def record {α : Type} (always : Bool) (sent : Sent) (x : Rpc σ α) : Rpc (σ × List Sent) α :=
  fun p =>
    match x p.1 with
    | .ok a t => .ok a (t, p.2 ++ [sent])
    | .error f t => .error f (t, if always then p.2 ++ [sent] else p.2)

theorem record_of_ok {α : Type} {always : Bool} {sent : Sent} {x : Rpc σ α} {t t' : σ} {a : α}
    {log : List Sent} (h : x t = .ok a t') :
    record always sent x (t, log) = .ok a (t', log ++ [sent]) := by
  simp only [record, h]

theorem record_of_error {α : Type} {always : Bool} {sent : Sent} {x : Rpc σ α} {t t' : σ}
    {f : Fault} {log : List Sent} (h : x t = .error f t') :
    record always sent x (t, log) = .error f (t', if always then log ++ [sent] else log) := by
  simp only [record, h]

/-- The next server, with a record of what reached it. -/
def NextServer.recorded (next : NextServer σ) : NextServer (σ × List Sent) where
  newConvoRound := fun round => record false (.convoTaken round) (next.newConvoRound round)
  runConvoRound := fun round batch =>
    record true (.convoBatch round batch) (next.runConvoRound round batch)
  newDialRound := fun round => record false (.dialTaken round) (next.newDialRound round)
  runDialRound := fun round batch =>
    record true (.dialBatch round batch) (next.runDialRound round batch)
  length_replies := by
    intro round onions replies t t' h
    simp only [record] at h
    cases hrun : next.runConvoRound round onions t.1 with
    | ok a t₁ =>
        rw [hrun] at h
        cases h
        exact next.length_replies hrun
    | error f t₁ =>
        rw [hrun] at h
        cases h

/-! ### The system -/

/-- How a call ended. -/
inductive Outcome where
  | ok
  | err (e : Err)
  | panic (p : Panic)
  deriving DecidableEq

/-- The end of a program that ends. -/
def ended {τ α : Type} : EStateM.Result Fault τ α → Option (Outcome × τ)
  | .ok _ s => some (.ok, s)
  | .error (.err e) s => some (.err e, s)
  | .error (.panic p) s => some (.panic p, s)
  | .error .blocked _ => none

structure Event where
  request : Request
  outcome : Outcome
  sent : List Sent

/-- A server, the state of its next server, and whether the process is up. -/
structure World (σ : Type) where
  server : Server
  next : σ
  up : Bool

/-- A call on a server. -/
def serve (box : NaclBox) (cfg : Config) (next : NextServer σ) (request : Request) (w : World σ) :
    Option (Event × World σ) :=
  if w.up then
    (ended (handle box cfg next.recorded request (w.server, w.next, []))).map fun r =>
      (⟨request, r.1, r.2.2.2⟩, ⟨r.2.1, r.2.2.1, match r.1 with | .panic _ => false | _ => true⟩)
  else none

/-- The server under any calls, from its start. -/
def rpcSystem (box : NaclBox) (cfg : Config) (next : NextServer σ) : System (World σ) Event where
  init w := w.server = Server.start ∧ w.up = true
  step w ev w' := ∃ request, serve box cfg next request w = some (ev, w')

/-! ### What a step can do -/

/-- The error came back from the next server. -/
def Err.fromNext : Err → Bool
  | .context _ _ => true
  | _ => false

/-- A call that only reads. -/
def Request.reads : Request → Bool
  | .convoGet _ _ | .dialBuckets _ => true
  | _ => false

/-- The round a server closes, and the batch it makes of it. -/
structure Closing (srv : Server) (Round : UInt32) (shuffler : (n : Nat) → Shuffler n)
    (round : ConvoRound) (messages : List Bytes) (index : List Int) (batch : List Bytes) :
    Prop where
  round_eq : srv.convoRounds Round = some round
  status : round.status = .roundOpen
  filtered : Filtered msgKey round.incoming messages index
  shuffle : (shuffler (messages ++ round.noise).length).shuffle (messages ++ round.noise) =
    some batch

/-- The same for the dialing service. -/
structure DialClosing (srv : Server) (Round : UInt32) (shuffler : (n : Nat) → Shuffler n)
    (round : DialRound) (messages batch : List Bytes) : Prop where
  round_eq : srv.dialRounds Round = some round
  status : round.status = .roundOpen
  filtered : DialService.filterIncoming round.incoming = some messages
  shuffle : (shuffler (messages ++ round.noise).length).shuffle (messages ++ round.noise) =
    some batch

/-- The round after its batch went to `append` and `Shuffle`. -/
def drainedRound (round : ConvoRound) (messages : List Bytes) (index : List Int)
    (batch : List Bytes) : ConvoRound :=
  ConvoService.drained (ConvoService.filtered round messages index) round.incoming.length messages
    (messages ++ round.noise) batch

/-- What a call that ends does to the server. -/
inductive Effect (box : NaclBox) (cfg : Config) : Server → Event → Server → Prop where
  | refused {srv : Server} {request : Request} {e : Err} (he : e.fromNext = false)
      (hnew : ∀ r, e ≠ .alreadyExists r) : Effect box cfg srv ⟨request, .err e, []⟩ srv
  | read {srv : Server} {request : Request} (h : request.reads = true) :
      Effect box cfg srv ⟨request, .ok, []⟩ srv
  | crashed {srv srv' : Server} {request : Request} {p : Panic} (hp : p ≠ .unlock) :
      Effect box cfg srv ⟨request, .panic p, []⟩ srv'
  | convoNew {srv : Server} {Round : UInt32} {coins : ConvoCoins} (hidle : srv.idle = false)
      (habsent : srv.convoRounds Round = none) :
      Effect box cfg srv ⟨.convoNewRound Round coins, .ok, []⟩
        (Server.setConvo { srv with idle := true } Round (coins.newRound box cfg Round))
  | convoExists {srv : Server} {Round : UInt32} {coins : ConvoCoins} {round : ConvoRound}
      (hidle : srv.idle = false) (hround : srv.convoRounds Round = some round) :
      Effect box cfg srv ⟨.convoNewRound Round coins, .err (.alreadyExists Round), []⟩
        { srv with idle := true }
  | convoOpened {srv : Server} {args : ConvoOpenArgs} {round : ConvoRound}
      (hround : srv.convoRounds args.round = some round) (hs : round.status = .roundNew) :
      Effect box cfg srv ⟨.convoOpen args, .ok, []⟩
        (srv.setConvo args.round (ConvoService.opened round args.numIncoming))
  | convoAdded {srv : Server} {args : ConvoAddArgs} {round round' : ConvoRound}
      (hround : srv.convoRounds args.round = some round) (hs : round.status = .roundOpen)
      (hadd : ConvoService.addLoop box cfg (forwardNonce args.round) args.offset 0 args.onions
        round = some round') :
      Effect box cfg srv ⟨.convoAdd args, .ok, []⟩ (srv.setConvo args.round round')
  | convoExchanged {srv : Server} {Round : UInt32} {shuffler : (n : Nat) → Shuffler n}
      {round : ConvoRound} {messages batch : List Bytes} {index : List Int}
      (hlast : cfg.lastServer = true)
      (hc : Closing srv Round shuffler round messages index batch) (hidle : srv.idle = true) :
      Effect box cfg srv ⟨.convoClose Round shuffler, .ok, []⟩
        (Server.setConvo
          { srv with
            idle := false
            accessCounts := offer srv.accessCounts (accessCount (readExchanges messages)) }
          Round (ConvoService.exchanged (ConvoService.filtered round messages index) messages))
  | convoUnlocked {srv srv' : Server} {Round : UInt32} {shuffler : (n : Nat) → Shuffler n}
      {round : ConvoRound} {messages batch : List Bytes} {index : List Int} {sent : List Sent}
      (hc : Closing srv Round shuffler round messages index batch) (hidle : srv.idle = false)
      (hsent : sent = if cfg.lastServer then [] else [.convoTaken Round]) :
      Effect box cfg srv ⟨.convoClose Round shuffler, .panic .unlock, sent⟩ srv'
  | convoNotTaken {srv : Server} {Round : UInt32} {shuffler : (n : Nat) → Shuffler n}
      {round : ConvoRound} {messages batch : List Bytes} {index : List Int} {e : Err}
      (hlast : cfg.lastServer = false)
      (hc : Closing srv Round shuffler round messages index batch) :
      Effect box cfg srv ⟨.convoClose Round shuffler, .err (.context "NewConvoRound" e), []⟩
        (srv.setConvo Round (drainedRound round messages index batch))
  | convoNotRun {srv : Server} {Round : UInt32} {shuffler : (n : Nat) → Shuffler n}
      {round : ConvoRound} {messages batch : List Bytes} {index : List Int} {e : Err}
      (hlast : cfg.lastServer = false)
      (hc : Closing srv Round shuffler round messages index batch) (hidle : srv.idle = true) :
      Effect box cfg srv
        ⟨.convoClose Round shuffler, .err (.context "RunConvoRound" e),
          [.convoTaken Round, .convoBatch Round batch]⟩
        (Server.setConvo { srv with idle := false } Round (drainedRound round messages index batch))
  | convoShort {srv srv' : Server} {Round : UInt32} {shuffler : (n : Nat) → Shuffler n}
      {round : ConvoRound} {messages batch : List Bytes} {index : List Int} {p : Panic}
      (hlast : cfg.lastServer = false)
      (hc : Closing srv Round shuffler round messages index batch) (hidle : srv.idle = true)
      (hp : p ≠ .unlock) :
      Effect box cfg srv
        ⟨.convoClose Round shuffler, .panic p, [.convoTaken Round, .convoBatch Round batch]⟩ srv'
  | convoAnswered {srv : Server} {Round : UInt32} {shuffler : (n : Nat) → Shuffler n}
      {round : ConvoRound} {messages batch replies : List Bytes} {index : List Int}
      (hlast : cfg.lastServer = false)
      (hc : Closing srv Round shuffler round messages index batch) (hidle : srv.idle = true) :
      Effect box cfg srv
        ⟨.convoClose Round shuffler, .ok, [.convoTaken Round, .convoBatch Round batch]⟩
        (Server.setConvo { srv with idle := false } Round
          (ConvoService.answered (drainedRound round messages index batch) replies))
  | convoDeleted {srv : Server} {Round : UInt32} :
      Effect box cfg srv ⟨.convoDelete Round, .ok, []⟩ (srv.dropConvo Round)
  | dialNew {srv : Server} {Round : UInt32} {coins : DialCoins} (hidle : srv.idle = false)
      (habsent : srv.dialRounds Round = none) :
      Effect box cfg srv ⟨.dialNewRound Round coins, .ok, []⟩
        (Server.setDial { srv with idle := true } Round
          ⟨.roundOpen, [], coins.noise box cfg Round⟩)
  | dialExists {srv : Server} {Round : UInt32} {coins : DialCoins} {round : DialRound}
      (hidle : srv.idle = false) (hround : srv.dialRounds Round = some round) :
      Effect box cfg srv ⟨.dialNewRound Round coins, .err (.alreadyExists Round), []⟩
        { srv with idle := true }
  | dialAdded {srv : Server} {args : DialAddArgs} {round : DialRound}
      (hround : srv.dialRounds args.round = some round) (hs : round.status = .roundOpen) :
      Effect box cfg srv ⟨.dialAdd args, .ok, []⟩
        (srv.setDial args.round (DialService.added box cfg args round))
  | dialKept {srv : Server} {Round : UInt32} {shuffler : (n : Nat) → Shuffler n}
      {round : DialRound} {messages batch : List Bytes} (hlast : cfg.lastServer = true)
      (hc : DialClosing srv Round shuffler round messages batch) (hidle : srv.idle = true) :
      Effect box cfg srv ⟨.dialClose Round shuffler, .ok, []⟩
        (Server.setDial { srv with idle := false } Round (DialService.closed batch))
  | dialUnlocked {srv srv' : Server} {Round : UInt32} {shuffler : (n : Nat) → Shuffler n}
      {round : DialRound} {messages batch : List Bytes} {sent : List Sent}
      (hc : DialClosing srv Round shuffler round messages batch) (hidle : srv.idle = false)
      (hsent : sent = if cfg.lastServer then [] else [.dialTaken Round]) :
      Effect box cfg srv ⟨.dialClose Round shuffler, .panic .unlock, sent⟩ srv'
  | dialNotTaken {srv : Server} {Round : UInt32} {shuffler : (n : Nat) → Shuffler n}
      {round : DialRound} {messages batch : List Bytes} {e : Err} (hlast : cfg.lastServer = false)
      (hc : DialClosing srv Round shuffler round messages batch) :
      Effect box cfg srv ⟨.dialClose Round shuffler, .err (.context "NewDialRound" e), []⟩
        (srv.setDial Round (DialService.batched round batch))
  | dialNotRun {srv : Server} {Round : UInt32} {shuffler : (n : Nat) → Shuffler n}
      {round : DialRound} {messages batch : List Bytes} {e : Err} (hlast : cfg.lastServer = false)
      (hc : DialClosing srv Round shuffler round messages batch) (hidle : srv.idle = true) :
      Effect box cfg srv
        ⟨.dialClose Round shuffler, .err (.context "RunDialRound" e),
          [.dialTaken Round, .dialBatch Round batch]⟩
        (Server.setDial { srv with idle := false } Round (DialService.batched round batch))
  | dialForwarded {srv : Server} {Round : UInt32} {shuffler : (n : Nat) → Shuffler n}
      {round : DialRound} {messages batch : List Bytes} (hlast : cfg.lastServer = false)
      (hc : DialClosing srv Round shuffler round messages batch) (hidle : srv.idle = true) :
      Effect box cfg srv
        ⟨.dialClose Round shuffler, .ok, [.dialTaken Round, .dialBatch Round batch]⟩
        (Server.setDial { srv with idle := false } Round (DialService.closed []))

/-! ### Every step has one of these effects -/

section Effects

variable {box : NaclBox} {cfg : Config} {next : NextServer σ} {srv srv' : Server} {t t' : σ}
  {o : Outcome} {sent : List Sent}

/-- A handler that does not call the next server. -/
theorem ended_onFst {τ α : Type} {x : Rpc Server α} {u u' : τ}
    (h : ended (onFst x (srv, u)) = some (o, srv', u')) :
    ended (x srv) = some (o, srv') ∧ u' = u := by
  simp only [onFst] at h
  cases hx : x srv with
  | ok a s =>
      rw [hx] at h
      cases h
      exact ⟨rfl, rfl⟩
  | error f s =>
      rw [hx] at h
      cases f with
      | err e => cases h; exact ⟨rfl, rfl⟩
      | panic p => cases h; exact ⟨rfl, rfl⟩
      | blocked => cases h

/-- The result of a call that only reads is dropped. -/
theorem ended_discard {τ α : Type} {x : Rpc τ α} {u : τ} :
    ended ((do let _ ← x : Rpc τ Unit) u) = ended (x u) := by
  cases hx : x u with
  | ok a s => rw [bind_of_ok hx]; rfl
  | error f s => rw [bind_of_error hx]; cases f <;> rfl

theorem refused_convo {Round : UInt32} {status : ConvoStatus} {f : Fault} {s : Server}
    {request : Request} {res : Outcome × Server} {α : Type}
    (h : ConvoService.getRound Round status srv = .error f s)
    (hend : ended (.error f s : EStateM.Result Fault Server α) = some res) :
    Effect box cfg srv ⟨request, res.1, []⟩ res.2 := by
  rw [ConvoService.getRound_eq] at h
  split at h
  · cases h; cases hend; exact .refused rfl (fun _ => nofun)
  · split at h
    · cases h
    · cases h; cases hend; exact .refused rfl (fun _ => nofun)

theorem refused_dial {Round : UInt32} {status : DialStatus} {f : Fault} {s : Server}
    {request : Request} {res : Outcome × Server} {α : Type}
    (h : DialService.getRound Round status srv = .error f s)
    (hend : ended (.error f s : EStateM.Result Fault Server α) = some res) :
    Effect box cfg srv ⟨request, res.1, []⟩ res.2 := by
  rw [DialService.getRound_eq] at h
  split at h
  · cases h; cases hend; exact .refused rfl (fun _ => nofun)
  · split at h
    · cases h
    · cases h; cases hend; exact .refused rfl (fun _ => nofun)

theorem effect_convoNewRound {Round : UInt32} {coins : ConvoCoins}
    (h : ended (ConvoService.newRound box cfg coins Round srv) = some (o, srv')) :
    Effect box cfg srv ⟨.convoNewRound Round coins, o, []⟩ srv' := by
  rw [ConvoService.newRound_eq] at h
  split at h
  · cases h
  · rename_i hidle
    have hidle' : srv.idle = false := by simpa using hidle
    cases hround : srv.convoRounds Round with
    | none =>
        rw [hround] at h
        cases h
        exact .convoNew hidle' hround
    | some round =>
        rw [hround] at h
        cases h
        exact .convoExists hidle' hround

theorem effect_dialNewRound {Round : UInt32} {coins : DialCoins}
    (h : ended (DialService.newRound box cfg coins Round srv) = some (o, srv')) :
    Effect box cfg srv ⟨.dialNewRound Round coins, o, []⟩ srv' := by
  rw [DialService.newRound_eq] at h
  split at h
  · cases h
  · rename_i hidle
    have hidle' : srv.idle = false := by simpa using hidle
    cases hround : srv.dialRounds Round with
    | none =>
        rw [hround] at h
        cases h
        exact .dialNew hidle' hround
    | some round =>
        rw [hround] at h
        cases h
        exact .dialExists hidle' hround

theorem effect_convoOpen {args : ConvoOpenArgs}
    (h : ended (ConvoService.open args srv) = some (o, srv')) :
    Effect box cfg srv ⟨.convoOpen args, o, []⟩ srv' := by
  rw [ConvoService.open_eq] at h
  cases hget : ConvoService.getRound args.round .roundNew srv with
  | error f s =>
      rw [hget] at h
      exact refused_convo hget h
  | ok round s =>
      obtain ⟨rfl, hround, hs⟩ := ConvoService.getRound_eq_ok.mp hget
      rw [hget] at h
      simp only [] at h
      split at h
      · cases h
        exact .convoOpened hround hs
      · cases h
        exact .crashed nofun

theorem effect_convoAdd {args : ConvoAddArgs}
    (h : ended (ConvoService.add box cfg args srv) = some (o, srv')) :
    Effect box cfg srv ⟨.convoAdd args, o, []⟩ srv' := by
  rw [ConvoService.add_eq] at h
  cases hget : ConvoService.getRound args.round .roundOpen srv with
  | error f s =>
      rw [hget] at h
      exact refused_convo hget h
  | ok round s =>
      obtain ⟨rfl, hround, hs⟩ := ConvoService.getRound_eq_ok.mp hget
      rw [hget] at h
      simp only [] at h
      split at h
      · cases h
        exact .refused rfl (fun _ => nofun)
      · split at h
        · cases h
          exact .crashed nofun
        · rename_i hadd
          cases h
          exact .convoAdded hround hs hadd

theorem effect_dialAdd {args : DialAddArgs}
    (h : ended (DialService.add box cfg args srv) = some (o, srv')) :
    Effect box cfg srv ⟨.dialAdd args, o, []⟩ srv' := by
  rw [DialService.add_eq] at h
  cases hget : DialService.getRound args.round .roundOpen srv with
  | error f s =>
      rw [hget] at h
      exact refused_dial hget h
  | ok round s =>
      obtain ⟨rfl, hround, hs⟩ := DialService.getRound_eq_ok.mp hget
      rw [hget] at h
      cases h
      exact .dialAdded hround hs

theorem mapM_eq_error {ε α β : Type} {f : α → Except ε β} {e : ε} :
    ∀ {l : List α}, l.mapM f = .error e → ∃ a ∈ l, f a = .error e
  | [], h => by cases h
  | a :: l, h => by
      rw [List.mapM_cons] at h
      cases ha : f a with
      | error e' =>
          rw [ha] at h
          cases h
          exact ⟨a, List.mem_cons_self, ha⟩
      | ok b =>
          cases hl : l.mapM f with
          | error e' =>
              rw [ha, hl] at h
              cases h
              obtain ⟨c, hc, hfc⟩ := mapM_eq_error hl
              exact ⟨c, List.mem_cons_of_mem _ hc, hfc⟩
          | ok bs =>
              rw [ha, hl] at h
              cases h

theorem getAt_ne_unlock {α : Type} {x : List α} {j : Int} {p : Panic}
    (h : getAt x j = .error p) : p ≠ .unlock := by
  rw [getAt] at h
  split at h
  · cases h; exact nofun
  · split at h
    · cases h; exact nofun
    · cases h

/-- `Get` panics on an index or a nil key. -/
theorem getOnion_ne_unlock {nonce : Nonce} {size : Nat} {filler : Nat → Nat → UInt8}
    {round : ConvoRound} {i : Int} {p : Panic}
    (h : ConvoService.getOnion box nonce size filler round i = .error p) : p ≠ .unlock := by
  simp only [ConvoService.getOnion, bind, Except.bind] at h
  cases hv : getAt round.incomingIndex i with
  | error p' => rw [hv] at h; cases h; exact getAt_ne_unlock hv
  | ok v =>
      simp only [hv] at h
      by_cases hneg : -1 < v
      · simp only [if_pos hneg] at h
        cases hr : getAt round.replies v with
        | error p' => rw [hr] at h; cases h; exact getAt_ne_unlock hr
        | ok reply =>
            cases hk : getAt round.sharedKeys i with
            | error p' => rw [hr, hk] at h; cases h; exact getAt_ne_unlock hk
            | ok key =>
                simp only [hr, hk] at h
                cases key with
                | none => cases h; exact nofun
                | some key => simp only [] at h; split at h <;> cases h
      · simp only [if_neg hneg] at h
        split at h <;> cases h

theorem effect_convoGet {args : ConvoGetArgs} {filler : Nat → Nat → UInt8}
    (h : ended (ConvoService.get box cfg filler args srv) = some (o, srv')) :
    Effect box cfg srv ⟨.convoGet args filler, o, []⟩ srv' := by
  rw [ConvoService.get_eq] at h
  cases hget : ConvoService.getRound args.round .roundClosed srv with
  | error f s =>
      rw [hget] at h
      exact refused_convo hget h
  | ok round s =>
      obtain ⟨rfl, -⟩ := ConvoService.getRound_eq_ok.mp hget
      rw [hget] at h
      simp only [] at h
      split at h
      · split at h
        · rename_i p hp
          cases h
          obtain ⟨k, -, hk⟩ := mapM_eq_error hp
          exact .crashed (getOnion_ne_unlock hk)
        · cases h
          exact .read rfl
      · cases h
        exact .crashed nofun

theorem effect_dialBuckets {Round : UInt32}
    (h : ended (DialService.buckets cfg Round srv) = some (o, srv')) :
    Effect box cfg srv ⟨.dialBuckets Round, o, []⟩ srv' := by
  rw [DialService.buckets_eq] at h
  split at h
  · cases hget : DialService.getRound Round .roundClosed srv with
    | error f s =>
        rw [hget] at h
        exact refused_dial hget h
    | ok round s =>
        obtain ⟨rfl, -⟩ := DialService.getRound_eq_ok.mp hget
        rw [hget] at h
        cases h
        exact .read rfl
  · cases h
    exact .refused rfl (fun _ => nofun)

/-- A call of the next server that failed: its error comes back with the name of the call. -/
theorem ended_remote {τ α : Type} {f : Fault} {call : String} {s : τ} {res : Outcome × τ}
    (h : ended (.error (f.remote.context call) s : EStateM.Result Fault τ α) = some res) :
    ∃ e, res = (.err (.context call e), s) := by
  cases f with
  | err e => cases h; exact ⟨e, rfl⟩
  | panic p => cases h; exact ⟨.unexpectedEOF, rfl⟩
  | blocked => cases h

theorem effect_closeLast {Round : UInt32} {shuffler : (n : Nat) → Shuffler n} {round : ConvoRound}
    {messages batch : List Bytes} {index : List Int} (hlast : cfg.lastServer = true)
    (hc : Closing srv Round shuffler round messages index batch)
    (h : ended (ConvoService.closeLast Round (ConvoService.filtered round messages index) messages
      srv) = some (o, srv')) :
    Effect box cfg srv ⟨.convoClose Round shuffler, o, []⟩ srv' := by
  rw [ConvoService.closeLast_eq] at h
  split at h
  · rename_i hidle
    cases h
    exact .convoExchanged hlast hc hidle
  · rename_i hidle
    cases h
    exact .convoUnlocked hc (by simpa using hidle) (by rw [hlast]; rfl)

/-- How a `Close` that goes to the next server ends. -/
inductive Forwarding (next : NextServer σ) (srv : Server) (Round : UInt32)
    (shuffler : (n : Nat) → Shuffler n) (round : ConvoRound) (messages : List Bytes)
    (index : List Int) (batch : List Bytes) : Outcome → Server → List Sent → Prop where
  | notTaken {e : Err} :
      Forwarding next srv Round shuffler round messages index batch
        (.err (.context "NewConvoRound" e))
        (srv.setConvo Round (drainedRound round messages index batch)) []
  | unlocked {srv' : Server} (hidle : srv.idle = false) :
      Forwarding next srv Round shuffler round messages index batch (.panic .unlock) srv'
        [.convoTaken Round]
  | notRun {e : Err} (hidle : srv.idle = true) :
      Forwarding next srv Round shuffler round messages index batch
        (.err (.context "RunConvoRound" e))
        (Server.setConvo { srv with idle := false } Round
          (drainedRound round messages index batch))
        [.convoTaken Round, .convoBatch Round batch]
  | short {srv' : Server} {p : Panic} (hidle : srv.idle = true) (hp : p ≠ .unlock) :
      Forwarding next srv Round shuffler round messages index batch (.panic p) srv'
        [.convoTaken Round, .convoBatch Round batch]
  | answered {answers replies : List Bytes} {t t' : σ} (hidle : srv.idle = true)
      (hrun : next.runConvoRound Round batch t = .ok answers t')
      (hun : (shuffler (messages ++ round.noise).length).unshuffle answers = some replies)
      (hlen : round.numIncoming ≤ replies.length) :
      Forwarding next srv Round shuffler round messages index batch .ok
        (Server.setConvo { srv with idle := false } Round
          (ConvoService.answered (drainedRound round messages index batch) replies))
        [.convoTaken Round, .convoBatch Round batch]

theorem forwarding_of_closeForward {Round : UInt32} {shuffler : (n : Nat) → Shuffler n}
    {round : ConvoRound} {messages batch : List Bytes} {index : List Int}
    (hc : Closing srv Round shuffler round messages index batch)
    (h : ended (ConvoService.closeForward next.recorded shuffler Round
      (ConvoService.filtered round messages index) round.incoming.length messages (srv, t, [])) =
        some (o, srv', t', sent)) :
    Forwarding next srv Round shuffler round messages index batch o srv' sent := by
  rw [ConvoService.closeForward_eq next.recorded shuffler Round
    (ConvoService.filtered round messages index) round.incoming.length messages srv (t, []) rfl
    hc.shuffle] at h
  -- One case for each place the handler can stop at; `hrec` is what the caller has recorded
  -- of the calls by then.
  cases hnew : next.newConvoRound Round t with
  | error f t₁ =>
      have hrec : next.recorded.newConvoRound Round (t, []) = .error f (t₁, []) :=
        record_of_error hnew
      simp only [hrec] at h
      obtain ⟨e, he⟩ := ended_remote h
      cases he
      exact .notTaken
  | ok u t₁ =>
      have hrec : next.recorded.newConvoRound Round (t, []) = .ok u (t₁, [.convoTaken Round]) :=
        record_of_ok hnew
      simp only [hrec] at h
      split at h
      case isFalse hidle =>
        cases h
        exact .unlocked (by simpa using hidle)
      case isTrue hidle =>
        cases hrun : next.runConvoRound Round batch t₁ with
        | error f t₂ =>
            have hrec : next.recorded.runConvoRound Round batch (t₁, [.convoTaken Round]) =
                .error f (t₂, [.convoTaken Round, .convoBatch Round batch]) :=
              record_of_error hrun
            simp only [hrec] at h
            obtain ⟨e, he⟩ := ended_remote h
            cases he
            exact .notRun hidle
        | ok answers t₂ =>
            have hrec : next.recorded.runConvoRound Round batch (t₁, [.convoTaken Round]) =
                .ok answers (t₂, [.convoTaken Round, .convoBatch Round batch]) :=
              record_of_ok hrun
            simp only [hrec] at h
            split at h
            · -- the replies do not unshuffle, or are fewer than the batch
              cases h
              exact .short hidle nofun
            · rename_i replies hun
              split at h
              · cases h
                exact .short hidle nofun
              · rename_i hle
                cases h
                rw [Server.setConvo_setConvo]
                exact .answered hidle hrun hun (Int.not_lt.mp hle)

theorem effect_closeForward {Round : UInt32} {shuffler : (n : Nat) → Shuffler n}
    {round : ConvoRound} {messages batch : List Bytes} {index : List Int}
    (hlast : cfg.lastServer = false) (hc : Closing srv Round shuffler round messages index batch)
    (h : Forwarding next srv Round shuffler round messages index batch o srv' sent) :
    Effect box cfg srv ⟨.convoClose Round shuffler, o, sent⟩ srv' := by
  cases h with
  | notTaken => exact .convoNotTaken hlast hc
  | unlocked hidle => exact .convoUnlocked hc hidle (by rw [hlast]; rfl)
  | notRun hidle => exact .convoNotRun hlast hc hidle
  | short hidle hp => exact .convoShort hlast hc hidle hp
  | answered hidle => exact .convoAnswered hlast hc hidle

theorem effect_convoClose {Round : UInt32} {shuffler : (n : Nat) → Shuffler n}
    (h : ended (ConvoService.close cfg next.recorded shuffler Round (srv, t, [])) =
      some (o, srv', t', sent)) :
    Effect box cfg srv ⟨.convoClose Round shuffler, o, sent⟩ srv' := by
  rw [ConvoService.close_eq] at h
  cases hget : ConvoService.getRound Round .roundOpen srv with
  | error f s =>
      rw [hget] at h
      cases f with
      | err e => cases h; exact refused_convo (α := Unit) hget rfl
      | panic p => cases h; exact refused_convo (α := Unit) hget rfl
      | blocked => cases h
  | ok round s =>
      obtain ⟨rfl, hround, hs⟩ := ConvoService.getRound_eq_ok.mp hget
      rw [hget] at h
      simp only [] at h
      cases hfilter : ConvoService.filterIncoming round.incoming with
      | none =>
          -- a message too short for its key: `Close` panics before it calls anybody
          rw [hfilter] at h
          cases h
          exact .crashed nofun
      | some r =>
          obtain ⟨messages, index⟩ := r
          simp only [hfilter] at h
          obtain ⟨batch, hsh, -⟩ := (shuffler (messages ++ round.noise).length).shuffle_spec
            (x := messages ++ round.noise) rfl
          have hc : Closing s Round shuffler round messages index batch :=
            ⟨hround, hs, ConvoService.filterIncoming_eq_some hfilter, hsh⟩
          split at h
          case isTrue hlast =>
            obtain ⟨h', hsent⟩ := ended_onFst h
            cases hsent
            exact effect_closeLast hlast hc h'
          case isFalse hlast =>
            exact effect_closeForward (by simpa using hlast) hc (forwarding_of_closeForward hc h)

theorem effect_dialClosing {Round : UInt32} {shuffler : (n : Nat) → Shuffler n}
    {round : DialRound} {messages batch : List Bytes}
    (hc : DialClosing srv Round shuffler round messages batch)
    (h : ended (DialService.close cfg next.recorded shuffler Round (srv, t, [])) =
      some (o, srv', t', sent)) :
    Effect box cfg srv ⟨.dialClose Round shuffler, o, sent⟩ srv' := by
  rw [DialService.close_of_open cfg next.recorded shuffler hc.round_eq hc.status hc.filtered rfl
    hc.shuffle (t, [])] at h
  simp only [] at h
  split at h
  case isTrue hlast =>
    split at h
    case isTrue hidle => cases h; exact .dialKept hlast hc hidle
    case isFalse hidle =>
      cases h
      exact .dialUnlocked hc (by simpa using hidle) (by rw [hlast]; rfl)
  case isFalse hnot =>
    have hlast : cfg.lastServer = false := by simpa using hnot
    -- as in `forwarding_of_closeForward`, except that no reply comes back
    cases hnew : next.newDialRound Round t with
    | error f t₁ =>
        have hrec : next.recorded.newDialRound Round (t, []) = .error f (t₁, []) :=
          record_of_error hnew
        simp only [hrec] at h
        obtain ⟨e, he⟩ := ended_remote h
        cases he
        exact .dialNotTaken hlast hc
    | ok u t₁ =>
        have hrec : next.recorded.newDialRound Round (t, []) = .ok u (t₁, [.dialTaken Round]) :=
          record_of_ok hnew
        simp only [hrec] at h
        split at h
        case isFalse hidle =>
          cases h
          exact .dialUnlocked hc (by simpa using hidle) (by rw [hlast]; rfl)
        case isTrue hidle =>
          cases hrun : next.runDialRound Round batch t₁ with
          | error f t₂ =>
              have hrec : next.recorded.runDialRound Round batch (t₁, [.dialTaken Round]) =
                  .error f (t₂, [.dialTaken Round, .dialBatch Round batch]) :=
                record_of_error hrun
              simp only [hrec] at h
              obtain ⟨e, he⟩ := ended_remote h
              cases he
              exact .dialNotRun hlast hc hidle
          | ok v t₂ =>
              have hrec : next.recorded.runDialRound Round batch (t₁, [.dialTaken Round]) =
                  .ok v (t₂, [.dialTaken Round, .dialBatch Round batch]) :=
                record_of_ok hrun
              simp only [hrec] at h
              cases h
              exact .dialForwarded hlast hc hidle

theorem effect_dialClose {Round : UInt32} {shuffler : (n : Nat) → Shuffler n}
    (h : ended (DialService.close cfg next.recorded shuffler Round (srv, t, [])) =
      some (o, srv', t', sent)) :
    Effect box cfg srv ⟨.dialClose Round shuffler, o, sent⟩ srv' := by
  cases hget : DialService.getRound Round .roundOpen srv with
  | error f s =>
      rw [DialService.close, bind_of_error (onFst_of_error _ hget)] at h
      cases f with
      | err e => cases h; exact refused_dial (α := Unit) hget rfl
      | panic p => cases h; exact refused_dial (α := Unit) hget rfl
      | blocked => cases h
  | ok round s =>
      obtain ⟨rfl, hround, hs⟩ := DialService.getRound_eq_ok.mp hget
      cases hfilter : DialService.filterIncoming round.incoming with
      | none =>
          rw [DialService.close, bind_of_ok (onFst_of_ok _ hget), hfilter] at h
          cases h
          exact .crashed (by rintro ⟨⟩)
      | some messages =>
          obtain ⟨batch, hsh, -⟩ := (shuffler (messages ++ round.noise).length).shuffle_spec
            (x := messages ++ round.noise) rfl
          exact effect_dialClosing ⟨hround, hs, hfilter, hsh⟩ h

/-- **What a call can do.**  The effect of a call that ended, for any next server. -/
theorem effect_of_handle {request : Request}
    (h : ended (handle box cfg next.recorded request (srv, t, [])) = some (o, srv', t', sent)) :
    Effect box cfg srv ⟨request, o, sent⟩ srv' := by
  -- Every handler but the two `Close` works on the server alone, and sends nothing.
  have honFst : ∀ {α : Type} {x : Rpc Server α},
      ended (onFst x (srv, t, ([] : List Sent))) = some (o, srv', t', sent) →
        (ended (x srv) = some (o, srv') → Effect box cfg srv ⟨request, o, []⟩ srv') →
          Effect box cfg srv ⟨request, o, sent⟩ srv' := by
    intro α x hx heff
    obtain ⟨h', hsent⟩ := ended_onFst hx
    cases hsent
    exact heff h'
  cases request with
  | convoNewRound round coins => exact honFst h effect_convoNewRound
  | convoOpen args => exact honFst h effect_convoOpen
  | convoAdd args => exact honFst h effect_convoAdd
  | convoClose round shuffler => exact effect_convoClose h
  | convoGet args filler => exact honFst (ended_discard.symm.trans h) effect_convoGet
  | convoDelete round =>
      refine honFst (x := ConvoService.delete round) h fun h' => ?_
      cases h'
      exact .convoDeleted
  | dialNewRound round coins => exact honFst h effect_dialNewRound
  | dialAdd args => exact honFst h effect_dialAdd
  | dialClose round shuffler => exact effect_dialClose h
  | dialBuckets round => exact honFst (ended_discard.symm.trans h) effect_dialBuckets

theorem effect_of_serve {request : Request} {w w' : World σ} {ev : Event}
    (h : serve box cfg next request w = some (ev, w')) :
    w.up = true ∧ ev.request = request ∧ Effect box cfg w.server ev w'.server ∧
      (w'.up = true ↔ ∀ p, ev.outcome ≠ .panic p) := by
  rw [serve] at h
  split at h
  case isFalse => cases h
  case isTrue hup =>
    obtain ⟨⟨o, srv', t', sent⟩, hend, hev⟩ := Option.map_eq_some_iff.mp h
    cases hev
    refine ⟨hup, rfl, effect_of_handle hend, ?_⟩
    cases o <;> simp

/-! ### Runs -/

/-- **The invariant rule of a server.**  What holds at the start and is kept by the effect of
every call that does not panic holds as long as the server is up. -/
theorem server_invariant {C : List Event → World σ → Event → Prop}
    {I : List Event → Server → Prop} (hinit : I [] Server.start)
    (hstep : ∀ h w ev srv', I h w.server → C h w ev → Effect box cfg w.server ev srv' →
      (∀ p, ev.outcome ≠ .panic p) → I (h ++ [ev]) srv')
    {h : List Event} {w : World σ} (run : (rpcSystem box cfg next).Run C h w) :
    w.up = true → I h w.server := by
  refine run.invariant (I := fun h w => w.up = true → I h w.server) ?_ ?_
  · rintro w ⟨hw, -⟩ -
    exact hw.symm ▸ hinit
  · rintro h w ev w' ih hc ⟨request, hserve⟩ hup'
    obtain ⟨hup, -, heff, hpanic⟩ := effect_of_serve hserve
    exact hstep h w ev w'.server (ih hup) hc heff (hpanic.mp hup')

/-- Every event of a run is that of a call on a server that was up. -/
theorem effect_of_run {C : List Event → World σ → Event → Prop} {h₁ h₂ : List Event} {ev : Event}
    {w : World σ} (run : (rpcSystem box cfg next).Run C (h₁ ++ ev :: h₂) w) :
    ∃ (w₁ : World σ) (srv' : Server), (rpcSystem box cfg next).Run C h₁ w₁ ∧ w₁.up = true ∧
      C h₁ w₁ ev ∧ Effect box cfg w₁.server ev srv' := by
  obtain ⟨w₁, w₂, run₁, hc, request, hserve⟩ := run.label
  obtain ⟨hup, -, heff, -⟩ := effect_of_serve hserve
  exact ⟨w₁, w₂.server, run₁, hup, hc, heff⟩

end Effects

/-! ### Replaying calls -/

section Replay

variable (box : NaclBox) (cfg : Config) (next : NextServer σ)

/-- Calls made one after the other, while each passes the check. -/
def replay (check : List Event → World σ → Event → Bool) :
    List Request → List Event → World σ → Option (List Event × World σ)
  | [], h, w => some (h, w)
  | request :: requests, h, w =>
      match serve box cfg next request w with
      | none => none
      | some (ev, w') =>
          if check h w ev then replay check requests (h ++ [ev]) w' else none

variable {box cfg next}

theorem replay_eq {check : List Event → World σ → Event → Bool} (requests : List Request)
    (h : List Event) (w : World σ) :
    replay box cfg next check requests h w =
      System.replay (serve box cfg next) check requests h w := by
  induction requests generalizing h w with
  | nil => rfl
  | cons request requests ih =>
      rw [replay, System.replay]
      cases serve box cfg next request w with
      | none => rfl
      | some r => simp only [ih]

/-- What a replay reaches is reached by a run. -/
theorem run_of_replay {C : List Event → World σ → Event → Prop}
    {check : List Event → World σ → Event → Bool}
    (hcheck : ∀ h w ev, check h w ev = true → C h w ev) :
    ∀ {requests : List Request} {h h' : List Event} {w w' : World σ},
      (rpcSystem box cfg next).Run C h w →
        replay box cfg next check requests h w = some (h', w') →
          (rpcSystem box cfg next).Run C h' w' := by
  intro requests h h' w w' run heq
  rw [replay_eq] at heq
  have hserve : ∀ request w ev w', serve box cfg next request w = some (ev, w') →
      (rpcSystem box cfg next).step w ev w' ∧ ev.request = request :=
    fun request _ _ _ h => ⟨⟨request, h⟩, (effect_of_serve h).2.1⟩
  exact (run.replay hserve hcheck heq).1

/-- Whether calls can be made one after the other, and the last one passes a test. -/
def lastCall (box : NaclBox) (cfg : Config) (next : NextServer σ)
    (check : List Event → World σ → Event → Bool) (test : List Event → Event → World σ → Bool)
    (requests : List Request) (last : Request) (w : World σ) : Bool :=
  match replay box cfg next check requests [] w with
  | none => false
  | some (h, w) =>
      match serve box cfg next last w with
      | none => false
      | some (ev, w') => check h w ev && test h ev w'

theorem run_of_lastCall {C : List Event → World σ → Event → Prop}
    {check : List Event → World σ → Event → Bool}
    (hcheck : ∀ h w ev, check h w ev = true → C h w ev)
    {test : List Event → Event → World σ → Bool} {requests : List Request} {last : Request} {t : σ}
    (h : lastCall box cfg next check test requests last ⟨Server.start, t, true⟩ = true) :
    ∃ h ev w, (rpcSystem box cfg next).Run C (h ++ [ev]) w ∧ test h ev w = true := by
  rw [lastCall] at h
  split at h
  · cases h
  · rename_i h₁ w₁ hreplay
    split at h
    · cases h
    · rename_i ev w₂ hserve
      rw [Bool.and_eq_true] at h
      have run := run_of_replay hcheck (.init ⟨rfl, rfl⟩) hreplay
      exact ⟨h₁, ev, w₂, run.step (hcheck h₁ w₁ ev h.1) ⟨last, hserve⟩, h.2⟩

end Replay

end Vuvuzela
