import Vuvuzela.Source.Dial
import Vuvuzela.Convo.Handlers

/-!
# Dial — how the handlers end

One equation for each handler of the dialing service, as for the conversation service.
-/

namespace Vuvuzela
open Support

namespace DialService

variable {σ : Type} {srv : Server} {Round : UInt32}

theorem getRound_eq (srv : Server) (Round : UInt32) (status : DialStatus) :
    getRound Round status srv =
      match srv.dialRounds Round with
      | none => .error (.err (.roundNotFound Round)) srv
      | some r =>
          if r.status = status then .ok r srv
          else .error (.err (.unexpectedStatus Round r.status.toNat status.toNat)) srv := by
  simp only [getRound, bind, EStateM.bind, get_eq]
  cases srv.dialRounds Round with
  | none => rfl
  | some r =>
      simp only []
      split <;> rfl

theorem getRound_of_some {round : DialRound} {status : DialStatus}
    (h : srv.dialRounds Round = some round) (hs : round.status = status) :
    getRound Round status srv = .ok round srv := by
  rw [getRound_eq, h]
  simp [hs]

theorem getRound_eq_ok {round : DialRound} {status : DialStatus} {srv' : Server} :
    getRound Round status srv = .ok round srv' ↔
      srv' = srv ∧ srv.dialRounds Round = some round ∧ round.status = status := by
  rw [getRound_eq]
  cases srv.dialRounds Round with
  | none => simp
  | some r =>
      simp only [Option.some.injEq]
      split
      · rename_i hs
        simp only [EStateM.Result.ok.injEq]
        constructor
        · rintro ⟨rfl, rfl⟩; exact ⟨rfl, rfl, hs⟩
        · rintro ⟨rfl, rfl, -⟩; exact ⟨rfl, rfl⟩
      · rename_i hs
        simp only [reduceCtorEq, false_iff]
        rintro ⟨-, rfl, h⟩
        exact hs h

theorem newRound_eq (box : NaclBox) (cfg : Config) (coins : DialCoins) (srv : Server)
    (Round : UInt32) :
    newRound box cfg coins Round srv =
      if srv.idle then .error .blocked srv
      else if (srv.dialRounds Round).isSome then
        .error (.err (.alreadyExists Round)) { srv with idle := true }
      else .ok () (Server.setDial { srv with idle := true } Round
        ⟨.roundOpen, [], coins.noise box cfg Round⟩) := by
  simp only [newRound, bind, EStateM.bind, lockIdle_eq]
  cases srv.idle with
  | true => rfl
  | false =>
      simp only [Bool.false_eq_true, if_false, get_eq]
      split <;> rfl

/-- A round with the messages of an `Add`. -/
def added (box : NaclBox) (cfg : Config) (args : DialAddArgs) (round : DialRound) : DialRound :=
  { round with
    incoming := round.incoming ++
      peelAll box cfg sizeDialExchange (forwardNonce args.round) args.onions }

theorem add_eq (box : NaclBox) (cfg : Config) (srv : Server) (args : DialAddArgs) :
    add box cfg args srv =
      match getRound args.round .roundOpen srv with
      | .error f srv => .error f srv
      | .ok round srv => .ok () (srv.setDial args.round (added box cfg args round)) := by
  simp only [add, bind, EStateM.bind]
  cases getRound args.round .roundOpen srv <;> rfl

/-- What `filterIncoming` returns, where it returns. -/
theorem filterLoop_eq_some :
    ∀ {incoming : List Bytes} {seen : List UInt64} {valid messages : List Bytes},
      filterLoop incoming seen valid = some messages →
        messages = valid ++ firstsFrom msgKey seen incoming
  | [], _, valid, messages, h => by
      cases h
      rw [firstsFrom, List.append_nil]
  | msg :: incoming, seen, valid, messages, h => by
      rw [filterLoop] at h
      split at h
      · cases h
      · rename_i msgkey hkey
        -- a key that could be read is the key of the total `msgKey`
        have hmsg : msgkey = msgKey msg := by
          rw [ConvoService.msgKey?_of_isSome (by rw [hkey]; rfl)] at hkey
          exact (Option.some.inj hkey).symm
        subst hmsg
        rw [firstsFrom]
        split at h
        · rename_i hmem
          rw [if_pos hmem]
          exact filterLoop_eq_some h
        · rename_i hmem
          rw [if_neg hmem, filterLoop_eq_some h, List.append_assoc]
          rfl

theorem filterIncoming_eq_some {incoming messages : List Bytes}
    (h : filterIncoming incoming = some messages) : messages = firsts msgKey incoming :=
  filterLoop_eq_some h

/-- A round whose batch was shuffled, noise and all. -/
def batched (round : DialRound) (shuffled : List Bytes) : DialRound :=
  { round with incoming := shuffled }

/-- A round that ended with the messages `incoming`. -/
def closed (incoming : List Bytes) : DialRound := ⟨.roundClosed, incoming, []⟩

/-- `Close` of an open round whose messages filter. -/
theorem close_of_open (cfg : Config) (next : NextServer σ) (shuffler : (n : Nat) → Shuffler n)
    {round : DialRound} {messages outgoing shuffled : List Bytes}
    (hround : srv.dialRounds Round = some round) (hopen : round.status = .roundOpen)
    (hfilter : filterIncoming round.incoming = some messages)
    (hout : messages ++ round.noise = outgoing)
    (hsh : (shuffler outgoing.length).shuffle outgoing = some shuffled) (t : σ) :
    close cfg next shuffler Round (srv, t) =
      let srv₁ := srv.setDial Round (batched round shuffled)
      if cfg.lastServer then
        if srv.idle then
          .ok () (Server.setDial { srv with idle := false } Round (closed shuffled), t)
        else .error (.panic .unlock) (srv₁, t)
      else
        match next.newDialRound Round t with
        | .error f t₁ => .error (f.remote.context "NewDialRound") (srv₁, t₁)
        | .ok _ t₁ =>
            if srv.idle then
              match next.runDialRound Round shuffled t₁ with
              | .error f t₂ =>
                  .error (f.remote.context "RunDialRound") ({ srv₁ with idle := false }, t₂)
              | .ok _ t₂ =>
                  .ok () (Server.setDial { srv with idle := false } Round (closed []), t₂)
            else .error (.panic .unlock) (srv₁, t₁) := by
  -- Both branches unlock `Idle` with the shuffled batch stored in the round.
  have hunlock : srv.idle = true → unlockIdle (srv.setDial Round (batched round shuffled)) =
      .ok () { srv.setDial Round (batched round shuffled) with idle := false } := fun h =>
    (unlockIdle_eq _).trans (if_pos h)
  have hpanic : ¬ srv.idle = true → unlockIdle (srv.setDial Round (batched round shuffled)) =
      .error (.panic .unlock) (srv.setDial Round (batched round shuffled)) := fun h =>
    (unlockIdle_eq _).trans (if_neg h)
  have hset : ∀ round' : DialRound,
      Server.setDial { srv.setDial Round (batched round shuffled) with idle := false } Round
          round' =
        Server.setDial { srv with idle := false } Round round' := fun round' => by
    simp [Server.setDial]
  subst hout
  rw [close, bind_of_ok (onFst_of_ok t (getRound_of_some hround hopen)), hfilter]
  simp only [hsh]
  refine (bind_of_ok (onFst_of_ok t (putDial_eq ..))).trans ?_
  split
  · by_cases hidle : srv.idle = true
    · rw [if_pos hidle]
      refine (bind_of_ok (onFst_of_ok t (hunlock hidle))).trans ?_
      exact (onFst_of_ok t (putDial_eq ..)).trans (by rw [← hset]; rfl)
    · rw [if_neg hidle]
      exact bind_of_error (onFst_of_error t (hpanic hidle))
  · -- `Idle` is unlocked between the two calls: after `NewRound` of the next server
    cases hnew : next.newDialRound Round t with
    | error f t₁ => exact bind_of_error (onSnd_of_error _ (calling_of_error hnew))
    | ok _ t₁ =>
        refine (bind_of_ok (onSnd_of_ok _ (calling_of_ok hnew))).trans ?_
        simp only []
        by_cases hidle : srv.idle = true
        · rw [if_pos hidle]
          refine (bind_of_ok (onFst_of_ok t₁ (hunlock hidle))).trans ?_
          cases hrun : next.runDialRound Round shuffled t₁ with
          | error f t₂ => exact bind_of_error (onSnd_of_error _ (calling_of_error hrun))
          | ok _ t₂ =>
              refine (bind_of_ok (onSnd_of_ok _ (calling_of_ok hrun))).trans ?_
              exact (onFst_of_ok t₂ (putDial_eq ..)).trans (by rw [← hset]; rfl)
        · rw [if_neg hidle]
          exact bind_of_error (onFst_of_error t₁ (hpanic hidle))

@[simp] theorem length_fileIntro (buckets : List Bucket) (m : Bytes) :
    (fileIntro buckets m).length = buckets.length := by
  rw [fileIntro]
  split
  · rfl
  · split
    · rfl
    · split
      · rfl
      · rw [List.length_modify]

theorem length_foldl_fileIntro (incoming : List Bytes) (buckets : List Bucket) :
    (incoming.foldl fileIntro buckets).length = buckets.length := by
  induction incoming generalizing buckets with
  | nil => rfl
  | cons m incoming ih => rw [List.foldl_cons, ih, length_fileIntro]

@[simp] theorem length_fileIntros (cfg : Config) (incoming : List Bytes) :
    (fileIntros cfg incoming).length = cfg.dialBuckets.toNat := by
  rw [fileIntros, length_foldl_fileIntro, List.length_replicate]

theorem buckets_eq (cfg : Config) (srv : Server) (Round : UInt32) :
    buckets cfg Round srv =
      if cfg.lastServer then
        match getRound Round .roundClosed srv with
        | .error f srv => .error f srv
        | .ok round srv => .ok (fileIntros cfg round.incoming) srv
      else .error (.err .notLastServer) srv := by
  rw [buckets]
  split
  · simp only [bind, EStateM.bind]
    cases getRound Round .roundClosed srv <;> rfl
  · rfl

theorem buckets_of_closed {cfg : Config} (hlast : cfg.lastServer = true) {incoming : List Bytes}
    (h : srv.dialRounds Round = some (closed incoming)) :
    buckets cfg Round srv = .ok (fileIntros cfg incoming) srv := by
  have hget : getRound Round .roundClosed srv = .ok (closed incoming) srv :=
    getRound_of_some h rfl
  rw [buckets_eq, if_pos hlast, hget]
  rfl

/-- What `Buckets` returns, where it returns. -/
theorem buckets_eq_ok {cfg : Config} {srv srv' : Server} {result : List Bucket}
    (h : buckets cfg Round srv = .ok result srv') :
    ∃ round, srv.dialRounds Round = some round ∧ round.status = .roundClosed ∧
      result = fileIntros cfg round.incoming := by
  rw [buckets_eq] at h
  split at h
  · cases hget : getRound Round .roundClosed srv with
    | error f s =>
        rw [hget] at h
        cases h
    | ok round s =>
        rw [hget] at h
        cases h
        obtain ⟨-, hround, hs⟩ := getRound_eq_ok.mp hget
        exact ⟨round, hround, hs, rfl⟩
  · cases h

end DialService

end Vuvuzela
