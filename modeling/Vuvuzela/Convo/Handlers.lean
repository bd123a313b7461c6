import Vuvuzela.Source.Convo

/-!
# Convo — how the handlers end

One equation for each handler of the conversation service, which says how it ends from every
state, and the loop of `Add` taken apart onion by onion (`addLoop_cons`).  The later modules read
the handlers through these and do not unfold them.
-/

namespace Vuvuzela
open Support

namespace ConvoService

variable {σ : Type} {srv : Server} {Round : UInt32}

/-- `getRound` leaves the state as it is, and fails with an error only. -/
theorem getRound_eq (srv : Server) (Round : UInt32) (status : ConvoStatus) :
    getRound Round status srv =
      match srv.convoRounds Round with
      | none => .error (.err (.roundNotFound Round)) srv
      | some r =>
          if r.status = status then .ok r srv
          else .error (.err (.unexpectedStatus Round r.status.toNat status.toNat)) srv := by
  simp only [getRound, bind, EStateM.bind, get_eq]
  cases srv.convoRounds Round with
  | none => rfl
  | some r =>
      simp only []
      split <;> rfl

theorem getRound_of_some {round : ConvoRound} {status : ConvoStatus}
    (h : srv.convoRounds Round = some round) (hs : round.status = status) :
    getRound Round status srv = .ok round srv := by
  rw [getRound_eq, h]
  simp [hs]

theorem getRound_eq_ok {round : ConvoRound} {status : ConvoStatus} {srv' : Server} :
    getRound Round status srv = .ok round srv' ↔
      srv' = srv ∧ srv.convoRounds Round = some round ∧ round.status = status := by
  rw [getRound_eq]
  cases srv.convoRounds Round with
  | none => simp
  | some r =>
      simp only [Option.some.injEq]
      split
      · rename_i hs
        simp only [EStateM.Result.ok.injEq]
        constructor
        · rintro ⟨rfl, rfl⟩; exact ⟨rfl, rfl, hs⟩
        · rintro ⟨rfl, rfl, -⟩; exact ⟨rfl, rfl⟩
      · rename_i hs
        simp only [reduceCtorEq, false_iff]
        rintro ⟨-, rfl, h⟩
        exact hs h

/-! ### `NewRound`, `Open`, `Add`, `Delete` -/

theorem newRound_eq (box : NaclBox) (cfg : Config) (coins : ConvoCoins) (srv : Server)
    (Round : UInt32) :
    newRound box cfg coins Round srv =
      if srv.idle then .error .blocked srv
      else if (srv.convoRounds Round).isSome then
        .error (.err (.alreadyExists Round)) { srv with idle := true }
      else .ok () (Server.setConvo { srv with idle := true } Round
        (coins.newRound box cfg Round)) := by
  simp only [newRound, bind, EStateM.bind, lockIdle_eq]
  cases srv.idle with
  | true => rfl
  | false =>
      simp only [Bool.false_eq_true, if_false, get_eq]
      split <;> rfl

/-- A round as `Open` leaves it. -/
def opened (round : ConvoRound) (numIncoming : Int) : ConvoRound :=
  { round with
    numIncoming := numIncoming
    sharedKeys := List.replicate numIncoming.toNat none
    incoming := List.replicate numIncoming.toNat none
    status := .roundOpen }

theorem open_eq (srv : Server) (args : ConvoOpenArgs) :
    ConvoService.open args srv =
      match getRound args.round .roundNew srv with
      | .error f srv => .error f srv
      | .ok round srv =>
          if makeOk args.numIncoming then
            .ok () (srv.setConvo args.round (opened round args.numIncoming))
          else .error (.panic .make) srv := by
  simp only [ConvoService.open, bind, EStateM.bind]
  cases getRound args.round .roundNew srv with
  | error f s => rfl
  | ok round s =>
      simp only []
      split <;> rfl

theorem makeOk_of_open {srv' : Server} {args : ConvoOpenArgs}
    (h : ConvoService.open args srv = .ok () srv') : makeOk args.numIncoming := by
  rw [open_eq] at h
  split at h
  · cases h
  · by_contra hmake
    rw [if_neg hmake] at h
    cases h

theorem add_eq (box : NaclBox) (cfg : Config) (srv : Server) (args : ConvoAddArgs) :
    add box cfg args srv =
      match getRound args.round .roundOpen srv with
      | .error f srv => .error f srv
      | .ok round srv =>
          if round.numIncoming < wrapInt (args.offset + args.onions.length) then
            .error (.err (.overflowingOnions args.offset args.onions.length round.numIncoming)) srv
          else
            match addLoop box cfg (forwardNonce args.round) args.offset 0 args.onions round with
            | none => .error (.panic .index) srv
            | some round => .ok () (srv.setConvo args.round round) := by
  simp only [add, bind, EStateM.bind]
  cases getRound args.round .roundOpen srv with
  | error f s => rfl
  | ok round s =>
      simp only []
      split
      · rfl
      · cases addLoop box cfg (forwardNonce args.round) args.offset 0 args.onions round <;> rfl

/-! ### The loop of `Add` -/

section AddLoop

variable {box : NaclBox} {cfg : Config}

/-- A round in which an onion was stored at position `i`. -/
def stored (box : NaclBox) (cfg : Config) (nonce : Nonce) (i : Nat) (onion : Bytes)
    (round : ConvoRound) : ConvoRound :=
  { round with
    sharedKeys := round.sharedKeys.set i (some (peel box cfg sizeConvoExchange nonce onion).1)
    incoming :=
      match (peel box cfg sizeConvoExchange nonce onion).2 with
      | none => round.incoming
      | some message => round.incoming.set i (some message) }

/-- One onion, where the loop of `Add` gets past it: its position exists, and it is stored there. -/
theorem addLoop_cons {nonce : Nonce} {offset : Int} {k : Nat} {onion : Bytes}
    {onions : List Bytes} {round round' : ConvoRound}
    (h : addLoop box cfg nonce offset k (onion :: onions) round = some round') :
    (0 ≤ wrapInt (offset + k) ∧ wrapInt (offset + k) < round.sharedKeys.length) ∧
      addLoop box cfg nonce offset (k + 1) onions
        (stored box cfg nonce (wrapInt (offset + k)).toNat onion round) = some round' := by
  -- a position that does not exist is the panic of `Add`, which is no result of the loop
  have hset : ∀ {α : Type} {x y : List α} {a : α},
      setAt? x (wrapInt (offset + k)) a = some y →
        (0 ≤ wrapInt (offset + k) ∧ wrapInt (offset + k) < x.length) ∧
          y = x.set (wrapInt (offset + k)).toNat a := by
    intro α x y a hx
    rw [setAt?] at hx
    split at hx
    · rename_i hi
      cases hx
      exact ⟨hi, rfl⟩
    · cases hx
  cases hm : (peel box cfg sizeConvoExchange nonce onion).2 with
  | none =>
      simp only [addLoop, hm, Option.bind_eq_bind, Option.bind_eq_some_iff] at h
      obtain ⟨sharedKeys, hkeys, incoming, hin, hloop⟩ := h
      cases hin
      obtain ⟨hi, rfl⟩ := hset hkeys
      simp only [stored, hm]
      exact ⟨hi, hloop⟩
  | some message =>
      simp only [addLoop, hm, Option.bind_eq_bind, Option.bind_eq_some_iff] at h
      obtain ⟨sharedKeys, hkeys, incoming, hin, hloop⟩ := h
      obtain ⟨hi, rfl⟩ := hset hkeys
      obtain ⟨-, rfl⟩ := hset hin
      simp only [stored, hm]
      exact ⟨hi, hloop⟩

/-- The loop of `Add` keeps what storing an onion at a position that exists keeps. -/
theorem addLoop_invariant {P : ConvoRound → Prop} {nonce : Nonce} {offset : Int}
    (hstep : ∀ round i onion, P round → i < round.sharedKeys.length →
      P (stored box cfg nonce i onion round)) :
    ∀ {k : Nat} {onions : List Bytes} {round round' : ConvoRound},
      addLoop box cfg nonce offset k onions round = some round' → P round → P round'
  | _, [], round, round', h, hP => by
      cases h
      exact hP
  | k, onion :: onions, round, round', h, hP => by
      obtain ⟨⟨hpos, hlt⟩, hloop⟩ := addLoop_cons h
      exact addLoop_invariant hstep hloop (hstep round _ onion hP (by omega))

/-- The rest of the round, and how many slots it has. -/
theorem addLoop_frame {nonce : Nonce} {offset : Int} {k : Nat} {onions : List Bytes}
    {round round' : ConvoRound} (h : addLoop box cfg nonce offset k onions round = some round') :
    round' = { round with sharedKeys := round'.sharedKeys, incoming := round'.incoming } ∧
      round'.sharedKeys.length = round.sharedKeys.length ∧
      round'.incoming.length = round.incoming.length := by
  refine addLoop_invariant (P := fun r =>
    r = { round with sharedKeys := r.sharedKeys, incoming := r.incoming } ∧
      r.sharedKeys.length = round.sharedKeys.length ∧
      r.incoming.length = round.incoming.length) ?_ h ⟨rfl, rfl, rfl⟩
  rintro r i onion ⟨hr, hkeys, hin⟩ -
  refine ⟨?_, by simpa [stored] using hkeys, ?_⟩
  · rw [hr]
    rfl
  · simp only [stored]
    split
    · exact hin
    · simpa using hin

end AddLoop

/-! ### `Close` -/

theorem msgKey?_of_isSome {m : Bytes} (h : (msgKey? m).isSome) : msgKey? m = some (msgKey m) := by
  rw [msgKey?] at h ⊢
  split
  · rename_i hlt
    rw [if_pos hlt] at h
    cases h
  · rfl

/-- What `filterIncoming` returns, where it returns. -/
theorem filterIncoming_eq_some {incoming : List (Option Bytes)} {messages : List Bytes}
    {index : List Int} (h : filterIncoming incoming = some (messages, index)) :
    Filtered msgKey incoming messages index := by
  obtain ⟨valid, index', h', hf⟩ := filterFirsts_spec fun m hm =>
    msgKey?_of_isSome (filterFirsts_keys _ h m hm)
  obtain ⟨rfl, rfl⟩ := Prod.mk.inj (Option.some.inj (h.symm.trans h'))
  exact hf

/-- A round after `filterIncoming`. -/
def filtered (round : ConvoRound) (messages : List Bytes) (incomingIndex : List Int) :
    ConvoRound :=
  { round with incoming := messages.map some, incomingIndex := incomingIndex }

/-- A round the last server closed. -/
def exchanged (round : ConvoRound) (messages : List Bytes) : ConvoRound :=
  { round with replies := dropReplies (readExchanges messages), status := .roundClosed }

/-- A round whose batch was handed to `append` and `Shuffle`: the noise is gone from it. -/
def drained (round : ConvoRound) (capacity : Nat) (messages outgoing shuffled : List Bytes) :
    ConvoRound :=
  { round with
    incoming := (aliasedIncoming capacity messages outgoing shuffled).map some
    noise := [] }

/-- A round whose replies came back. -/
def answered (round : ConvoRound) (replies : List Bytes) : ConvoRound :=
  { round with replies := replies.take round.numIncoming.toNat, status := .roundClosed }

theorem closeLast_eq (srv : Server) (Round : UInt32) (round : ConvoRound) (messages : List Bytes) :
    closeLast Round round messages srv =
      if srv.idle then
        .ok () (Server.setConvo
          { srv with
            idle := false
            accessCounts := offer srv.accessCounts (accessCount (readExchanges messages)) }
          Round (exchanged round messages))
      else .error (.panic .unlock) srv := by
  simp only [closeLast, bind, EStateM.bind, unlockIdle_eq]
  cases srv.idle <;> rfl

/-- `Close` on a server that is not the last one, with the batch it forwards. -/
theorem closeForward_eq (next : NextServer σ) (shuffler : (n : Nat) → Shuffler n)
    (Round : UInt32) (round : ConvoRound) (capacity : Nat) (messages : List Bytes) (srv : Server)
    (t : σ) {outgoing shuffled : List Bytes} (hout : messages ++ round.noise = outgoing)
    (hsh : (shuffler outgoing.length).shuffle outgoing = some shuffled) :
    closeForward next shuffler Round round capacity messages (srv, t) =
      let round₁ := drained round capacity messages outgoing shuffled
      match next.newConvoRound Round t with
      | .error f t₁ => .error (f.remote.context "NewConvoRound") (srv.setConvo Round round₁, t₁)
      | .ok _ t₁ =>
          if srv.idle then
            let srv₁ := Server.setConvo { srv with idle := false } Round round₁
            match next.runConvoRound Round shuffled t₁ with
            | .error f t₂ => .error (f.remote.context "RunConvoRound") (srv₁, t₂)
            | .ok replies t₂ =>
                match (shuffler outgoing.length).unshuffle replies with
                | none => .error (.panic .index) (srv₁, t₂)
                | some replies =>
                    if (replies.length : Int) < round.numIncoming then
                      .error (.panic .slice) (srv₁, t₂)
                    else .ok () (srv₁.setConvo Round (answered round₁ replies), t₂)
          else .error (.panic .unlock) (srv.setConvo Round round₁, t₁) := by
  rw [closeForward, hout, hsh]
  simp only []
  rw [bind_of_ok (onFst_of_ok t (putConvo_eq _ _ _))]
  cases hnew : next.newConvoRound Round t with
  | error f t₁ => exact bind_of_error (onSnd_of_error _ (calling_of_error hnew))
  | ok _ t₁ =>
      rw [bind_of_ok (onSnd_of_ok _ (calling_of_ok hnew))]
      -- `Idle` is unlocked between the two calls, and is not locked again where the second fails
      by_cases hidle : srv.idle = true
      · have hunlock := (unlockIdle_eq (srv.setConvo Round
          (drained round capacity messages outgoing shuffled))).trans
            (if_pos hidle)
        simp only [if_pos hidle]
        refine (bind_of_ok (onFst_of_ok t₁ hunlock)).trans ?_
        cases hrun : next.runConvoRound Round shuffled t₁ with
        | error f t₂ => exact bind_of_error (onSnd_of_error _ (calling_of_error hrun))
        | ok replies t₂ =>
            rw [bind_of_ok (onSnd_of_ok _ (calling_of_ok hrun))]
            simp only []
            cases (shuffler outgoing.length).unshuffle replies with
            | none => rfl
            | some replies =>
                simp only []
                split <;> rfl
      · simp only [if_neg hidle]
        exact bind_of_error (onFst_of_error t₁ ((unlockIdle_eq _).trans (if_neg hidle)))

theorem close_eq (cfg : Config) (next : NextServer σ) (shuffler : (n : Nat) → Shuffler n)
    (Round : UInt32) (srv : Server) (t : σ) :
    close cfg next shuffler Round (srv, t) =
      match getRound Round .roundOpen srv with
      | .error f srv => .error f (srv, t)
      | .ok round srv =>
          match filterIncoming round.incoming with
          | none => .error (.panic .slice) (srv, t)
          | some (messages, incomingIndex) =>
              if cfg.lastServer then
                onFst (closeLast Round (filtered round messages incomingIndex) messages) (srv, t)
              else
                closeForward next shuffler Round (filtered round messages incomingIndex)
                  round.incoming.length messages (srv, t) := by
  simp only [close, bind, EStateM.bind, onFst]
  cases getRound Round .roundOpen srv with
  | error f s => rfl
  | ok round s =>
      simp only []
      cases filterIncoming round.incoming with
      | none => rfl
      | some p =>
          obtain ⟨messages, incomingIndex⟩ := p
          simp only []
          split <;> rfl

/-- `Close` of an open round whose messages filter. -/
theorem close_of_open (cfg : Config) (next : NextServer σ) (shuffler : (n : Nat) → Shuffler n)
    {round : ConvoRound} {messages : List Bytes} {index : List Int}
    (hround : srv.convoRounds Round = some round) (hopen : round.status = .roundOpen)
    (hfilter : filterIncoming round.incoming = some (messages, index)) (t : σ) :
    close cfg next shuffler Round (srv, t) =
      if cfg.lastServer then
        onFst (closeLast Round (filtered round messages index) messages) (srv, t)
      else closeForward next shuffler Round (filtered round messages index) round.incoming.length
        messages (srv, t) := by
  rw [close_eq, getRound_of_some hround hopen]
  simp only [hfilter]

/-! ### `Get` -/

theorem get_eq (box : NaclBox) (cfg : Config) (filler : Nat → Nat → UInt8) (srv : Server)
    (args : ConvoGetArgs) :
    ConvoService.get box cfg filler args srv =
      match getRound args.round .roundClosed srv with
      | .error f srv => .error f srv
      | .ok round srv =>
          if makeOk args.count then
            match (List.range args.count.toNat).mapM fun k : Nat =>
              getOnion box (backwardNonce args.round) cfg.outgoingOnionSize filler round
                (wrapInt (args.offset + k)) with
            | .error p => .error (.panic p) srv
            | .ok onions => .ok onions srv
          else .error (.panic .make) srv := by
  simp only [ConvoService.get, bind, EStateM.bind]
  cases getRound args.round .roundClosed srv with
  | error f s => rfl
  | ok round s =>
      simp only []
      split
      · split <;> rename_i h <;> simp only [h] <;> rfl
      · rfl

end ConvoService

end Vuvuzela
