import Vuvuzela.Convo.Replies

/-!
# Convo — onions and round numbers

The onions of a round are opened under a nonce of the round number, and the replies are sealed
under another one.  A server knows a round number again for as long as it has the round: within a
round the filter drops what comes twice, and `NewRound` refuses a number that exists.  `Delete`
forgets the number, and then everything can be done again (`onion_processed_twice`).  Within a
round, two onions with one public key get their replies under one key (`key_sealed_twice`).

A run is read here with the server each call was made on, so that one can say what a `Close` handed
on (`handedOn`) and what a `Get` sealed (`sealings`).

**Replay** (`onions_once`).  In a run that does not create a round again after it was closed, every
message is handed on in at most one batch of its round number; and if no `Close` finds one key at
two messages, then no key and nonce seal two replies.
-/

namespace Vuvuzela
open Support

variable {σ : Type} {box : NaclBox} {cfg : Config} {next : NextServer σ}

/-! ### What goes on, and what is sealed -/

/-- The call is a `Close` of the round while it is open. -/
def ClosesOpen (Round : UInt32) (l : World σ × Event) : Prop :=
  (∃ shuffler, l.2.request = .convoClose Round shuffler) ∧
    ∃ round, l.1.server.convoRounds Round = some round ∧ round.status = .roundOpen

/-- What a call hands on under a round number: the batch that reaches the next server, or the
messages the last server exchanges. -/
def handedOn (cfg : Config) (Round : UInt32) (l : World σ × Event) : List Bytes :=
  if cfg.lastServer then
    match l.2.request, l.1.server.convoRounds Round with
    | .convoClose r _, some round =>
        if r = Round ∧ round.status = .roundOpen then
          ((ConvoService.filterIncoming round.incoming).map Prod.fst).getD []
        else []
    | _, _ => []
  else
    l.2.sent.flatMap fun
      | .convoBatch r batch => if r = Round then batch else []
      | _ => []

/-- What `Get` seals at a position, and the key it takes; none where it seals nothing. -/
def ConvoRound.sealing (round : ConvoRound) (i : Int) : Except Panic (Option (BoxKey × Bytes)) := do
  let v ← getAt round.incomingIndex i
  if -1 < v then
    let reply ← getAt round.replies v
    let sharedKey ← getAt round.sharedKeys i
    match sharedKey with
    | none => .error .nil
    | some sharedKey => .ok (some (sharedKey, reply))
  else .ok none

/-- The seals of a call: key, nonce and reply. -/
def sealings (l : World σ × Event) : List (BoxKey × Nonce × Bytes) :=
  match l.2.request with
  | .convoGet args _ =>
      match l.1.server.convoRounds args.round with
      | some round =>
          if round.status = .roundClosed then
            (List.range args.count.toNat).filterMap fun k : Nat =>
              match round.sealing (wrapInt (args.offset + k)) with
              | .ok (some (key, reply)) => some (key, backwardNonce args.round, reply)
              | _ => none
          else []
      | none => []
  | _ => []

theorem backwardNonce_inj {r r' : UInt32} (h : backwardNonce r = backwardNonce r') : r = r' := by
  have hbytes := congrArg Subtype.val h
  simp only [backwardNonce, roundNonce] at hbytes
  exact putUint32_inj (List.append_inj hbytes (by simp)).1

theorem eq_some_of_getAt {α : Type} {x : List α} {i : Int} {a : α} (h : getAt x i = .ok a) :
    ∃ n : Nat, i = n ∧ x[n]? = some a := by
  rw [getAt] at h
  split at h
  · cases h
  · rename_i hneg
    refine ⟨i.toNat, (Int.toNat_of_nonneg (Int.not_lt.mp hneg)).symm, ?_⟩
    split at h
    · cases h
    · rename_i hget
      cases h
      exact hget

/-- What `Get` returns for a position, from what it seals there. -/
theorem ConvoService.getOnion_eq_sealing (nonce : Nonce) (size : Nat) (filler : Nat → Nat → UInt8)
    (round : ConvoRound) (i : Int) :
    getOnion box nonce size filler round i = (round.sealing i).map fun
      | none => replyOnion box nonce size filler (Block.zero 32) none i.toNat
      | some (key, reply) => replyOnion box nonce size filler key (some reply) i.toNat := by
  simp only [getOnion, ConvoRound.sealing, replyOnion, bind, Except.bind]
  cases getAt round.incomingIndex i with
  | error p => rfl
  | ok v =>
      by_cases hv : -1 < v
      · simp only [if_pos hv]
        cases getAt round.replies v with
        | error p => rfl
        | ok reply =>
            cases getAt round.sharedKeys i with
            | error p => rfl
            | ok key =>
                cases key with
                | none => rfl
                | some key => simp only [Except.map]; split <;> rfl
      · simp only [if_neg hv, Except.map]
        split <;> rfl

/-- A seal is that of a position that was kept. -/
theorem ConvoRound.of_sealing {round : ConvoRound} {i : Int} {key : BoxKey} {reply : Bytes}
    (h : round.sealing i = .ok (some (key, reply))) :
    ∃ j n : Nat, round.incomingIndex[j]? = some (n : Int) ∧ round.replies[n]? = some reply ∧
      round.sharedKeys[j]? = some (some key) := by
  obtain ⟨v, hv, h⟩ := except_bind_eq_ok.mp h
  split at h
  · obtain ⟨reply', hreply, h⟩ := except_bind_eq_ok.mp h
    obtain ⟨key', hkey, h⟩ := except_bind_eq_ok.mp h
    cases key' with
    | none => cases h
    | some key' =>
        cases h
        obtain ⟨j, rfl, hindex⟩ := eq_some_of_getAt hv
        obtain ⟨n, rfl, hr⟩ := eq_some_of_getAt hreply
        obtain ⟨j', hj, hk⟩ := eq_some_of_getAt hkey
        cases Int.ofNat.inj hj
        exact ⟨j, n, hindex, hr, hk⟩
  · cases h

/-- A seal of a call is one of a closed round. -/
theorem round_of_sealings {l : World σ × Event} {key : BoxKey} {nonce : Nonce} {reply : Bytes}
    (h : (key, nonce, reply) ∈ sealings l) :
    ∃ Round round i, nonce = backwardNonce Round ∧ l.1.server.convoRounds Round = some round ∧
      round.status = .roundClosed ∧ round.sealing i = .ok (some (key, reply)) := by
  rw [sealings] at h
  split at h
  · rename_i args filler hreq
    split at h
    · rename_i round hround
      split at h
      · rename_i hs
        obtain ⟨k, -, hk⟩ := List.mem_filterMap.mp h
        split at hk
        · rename_i key' reply' hseal
          cases hk
          exact ⟨args.round, round, _, rfl, hround, hs, hseal⟩
        · cases hk
      · cases h
    · cases h
  · cases h

/-- Only a `Close` of an open round hands anything on. -/
theorem closesOpen_of_handedOn {request : Request} {w w' : World σ} {ev : Event} {Round : UInt32}
    {m : Bytes} (hserve : serve box cfg next request w = some (ev, w'))
    (h : m ∈ handedOn cfg Round (w, ev)) : ClosesOpen Round (w, ev) := by
  rw [handedOn] at h
  split at h
  · split at h
    · rename_i r shuffler round hreq hround
      split at h
      · rename_i hr
        obtain ⟨rfl, hs⟩ := hr
        exact ⟨⟨shuffler, hreq⟩, round, hround, hs⟩
      · cases h
    · cases h
  · obtain ⟨sent, hsent, hm⟩ := List.mem_flatMap.mp h
    split at hm
    · rename_i r batch
      split at hm
      · rename_i hr
        subst hr
        obtain ⟨-, -, heff, -⟩ := effect_of_serve hserve
        generalize w'.server = srv' at heff
        -- of all calls only a `Close` that runs the round sends a batch of it
        cases heff with
        | convoUnlocked hc _ hsent' =>
            rw [hsent'] at hsent
            split at hsent <;> simp at hsent
        | dialUnlocked hc _ hsent' =>
            rw [hsent'] at hsent
            split at hsent <;> simp at hsent
        | convoNotRun _ hc | convoShort _ hc | convoAnswered _ hc =>
            obtain ⟨rfl, -⟩ : r = _ ∧ batch = _ := by simpa using hsent
            exact ⟨⟨_, rfl⟩, _, hc.round_eq, hc.status⟩
        | _ => simp at hsent
      · cases hm
    · cases hm

/-! ### Runs that repeat nothing -/

/-- The calls of the next server succeeded. -/
def NextSucceeds (l : World σ × Event) : Prop :=
  ∀ e, l.2.outcome = .err e → e.fromNext = false

/-- Messages with one key are one message, as far as the filter can tell. -/
def ConvoRound.KeyedApart (round : ConvoRound) : Prop :=
  ∀ (i j : Nat) (m m' : Bytes) (key : BoxKey), round.incoming[i]? = some (some m) →
    round.incoming[j]? = some (some m') → round.sharedKeys[i]? = some (some key) →
      round.sharedKeys[j]? = some (some key) → msgKey m = msgKey m'

/-- The call repeats nothing: it does not create a round that was closed before, and does not close
one that has one key for two messages. -/
structure Unrepeated (h : List (World σ × Event)) (w : World σ) (ev : Event) : Prop where
  numbers : ∀ Round coins, ev.request = .convoNewRound Round coins →
    w.server.convoRounds Round = none → ∀ l ∈ h, ¬ ClosesOpen Round l
  keys : ∀ Round shuffler round, ev.request = .convoClose Round shuffler →
    w.server.convoRounds Round = some round → round.status = .roundOpen → round.KeyedApart

/-- The next server answers, and no call repeats anything. -/
def Once (h : List (World σ × Event)) (w : World σ) (l : World σ × Event) : Prop :=
  NextSucceeds l ∧ Unrepeated h w l.2

/-- A `Close` of an open round succeeds, if the next server does and the server stays up. -/
theorem changes_of_closesOpen {request : Request} {w w' : World σ} {ev : Event} {Round : UInt32}
    (hserve : serve box cfg next request w = some (ev, w')) (hup : w'.up = true)
    (hnext : NextSucceeds (w, ev)) (h : ClosesOpen Round (w, ev)) :
    ev.changes Round = true := by
  obtain ⟨⟨shuffler, hreq⟩, round, hround, hs⟩ := h
  obtain ⟨-, rfl, -, hpanic⟩ := effect_of_serve hserve
  obtain ⟨request, outcome, sent⟩ := ev
  cases hreq
  cases outcome with
  | ok => simp [Event.changes]
  | err e =>
      have hfrom := fromNext_of_close hround hs (handle_of_serve hserve)
      cases hfrom.symm.trans (hnext e rfl)
  | panic p => exact absurd rfl (hpanic.mp hup p)

/-- No two positions of a closed round that have one key have two replies. -/
def ConvoRound.SealedApart (round : ConvoRound) : Prop :=
  ∀ (i j n n' : Nat) (key : BoxKey), round.incomingIndex[i]? = some (n : Int) →
    round.incomingIndex[j]? = some (n' : Int) → round.sharedKeys[i]? = some (some key) →
      round.sharedKeys[j]? = some (some key) → n = n'

theorem ConvoRound.KeyedApart.filtered {round round' : ConvoRound} {messages : List Bytes}
    (h : round.KeyedApart) (hf : Filtered msgKey round.incoming messages round'.incomingIndex)
    (hkeys : round'.sharedKeys = round.sharedKeys) : round'.SealedApart := by
  intro i j n n' key hi hj hki hkj
  rw [hkeys] at hki hkj
  obtain ⟨m, hm, hn⟩ := hf.get_of_index hi
  obtain ⟨m', hm', hn'⟩ := hf.get_of_index hj
  have hkey := h i j m m' key hm hm' hki hkj
  have hnodup : (messages.map msgKey).Nodup := hf.nodup_keys
  have hget : ∀ {n : Nat} {m : Bytes}, messages[n]? = some m →
      (messages.map msgKey)[n]? = some (msgKey m) := by
    intro n m hn
    rw [List.getElem?_map, hn]
    rfl
  obtain ⟨hlt, -⟩ := List.getElem?_eq_some_iff.mp (hget hn)
  exact (List.getElem?_inj hlt hnodup).mp (by rw [hget hn, hget hn', hkey])

/-! ### One life of a round -/

/-- A round number has one life: a round that is not closed was never closed before, and whoever
saw it closed saw the round that is there, or that was deleted for good. -/
structure OneLife (Round : UInt32) (h : List (World σ × Event)) (o : Option ConvoRound) : Prop where
  unclosed : ∀ round, o = some round → round.status ≠ .roundClosed → ∀ l ∈ h, ¬ ClosesOpen Round l
  closed : ∀ round, o = some round → round.status = .roundClosed →
    (∃ l ∈ h, ClosesOpen Round l) ∧ round.SealedApart
  seen : ∀ l ∈ h, ∀ round, l.1.server.convoRounds Round = some round →
    round.status = .roundClosed →
      (∃ l ∈ h, ClosesOpen Round l) ∧ (o = some round ∨ o = none)

section OneLife

variable {h : List (World σ × Event)} {w w' : World σ} {ev : Event} {request : Request}
  {Round : UInt32}

/-- A round that is not closed yet, before and after a call. -/
theorem OneLife.open_round {o : Option ConvoRound}
    (hI : OneLife Round h (w.server.convoRounds Round))
    (hbefore : ∀ round, w.server.convoRounds Round = some round → round.status ≠ .roundClosed)
    (hno : ∀ l ∈ h, ¬ ClosesOpen Round l) (hev : ¬ ClosesOpen Round (w, ev))
    (hafter : ∀ round, o = some round → round.status ≠ .roundClosed) :
    OneLife Round (h ++ [(w, ev)]) o := by
  refine ⟨fun _ _ _ l hl => ?_, fun round hround hs => absurd hs (hafter round hround),
    fun l hl round hround hs => ?_⟩
  all_goals rcases List.mem_append.mp hl with hl | hl
  · exact hno l hl
  · cases List.mem_singleton.mp hl
    exact hev
  · obtain ⟨⟨l', hl', hcloses⟩, -⟩ := hI.seen l hl round hround hs
    exact absurd hcloses (hno l' hl')
  · cases List.mem_singleton.mp hl
    exact absurd hs (hbefore round hround)

/-- A round that is not closed goes on. -/
theorem OneLife.go_on {round round' : ConvoRound}
    (hI : OneLife Round h (w.server.convoRounds Round))
    (hround : w.server.convoRounds Round = some round) (hs : round.status ≠ .roundClosed)
    (hev : ¬ ClosesOpen Round (w, ev)) (hs' : round'.status ≠ .roundClosed) :
    OneLife Round (h ++ [(w, ev)]) (some round') := by
  refine hI.open_round ?_ (hI.unclosed round hround hs) hev ?_
  · intro r hr
    cases hround.symm.trans hr
    exact hs
  · rintro _ ⟨⟩
    exact hs'

/-- The `Close` of a round. -/
theorem OneLife.close_round {round round' : ConvoRound}
    (hI : OneLife Round h (w.server.convoRounds Round))
    (hround : w.server.convoRounds Round = some round) (hs : round.status = .roundOpen)
    (hev : ClosesOpen Round (w, ev)) (hs' : round'.status = .roundClosed)
    (hsealed : round'.SealedApart) : OneLife Round (h ++ [(w, ev)]) (some round') := by
  have hopen : round.status ≠ .roundClosed := by
    rw [hs]
    nofun
  refine ⟨fun r hr hnot => ?_, fun r hr _ => ?_, fun l hl r hr hclosed => ?_⟩
  · cases hr
    exact absurd hs' hnot
  · cases hr
    exact ⟨⟨(w, ev), List.mem_append_right _ List.mem_cons_self, hev⟩, hsealed⟩
  · rcases List.mem_append.mp hl with hl | hl
    · obtain ⟨⟨l', hl', hcloses⟩, -⟩ := hI.seen l hl r hr hclosed
      exact absurd hcloses (hI.unclosed round hround hopen l' hl')
    · cases List.mem_singleton.mp hl
      cases hround.symm.trans hr
      exact absurd hclosed hopen

/-- A call that leaves the round as it is, or deletes it. -/
theorem OneLife.keep_round {o : Option ConvoRound}
    (hI : OneLife Round h (w.server.convoRounds Round)) (hev : ¬ ClosesOpen Round (w, ev))
    (ho : o = w.server.convoRounds Round ∨ o = none) : OneLife Round (h ++ [(w, ev)]) o := by
  have hmono : (∃ l ∈ h, ClosesOpen Round l) → ∃ l ∈ h ++ [(w, ev)], ClosesOpen Round l := by
    rintro ⟨l, hl, hcloses⟩
    exact ⟨l, List.mem_append_left _ hl, hcloses⟩
  have hback : ∀ {round}, o = some round → w.server.convoRounds Round = some round := by
    rintro round rfl
    exact (ho.resolve_right nofun).symm
  refine ⟨fun round hround hnot l hl => ?_, fun round hround hclosed => ?_,
    fun l hl round hround hclosed => ?_⟩
  · rcases List.mem_append.mp hl with hl | hl
    · exact hI.unclosed round (hback hround) hnot l hl
    · cases List.mem_singleton.mp hl
      exact hev
  · obtain ⟨hcloses, hsealed⟩ := hI.closed round (hback hround) hclosed
    exact ⟨hmono hcloses, hsealed⟩
  · rcases List.mem_append.mp hl with hl | hl
    · obtain ⟨hcloses, hnow⟩ := hI.seen l hl round hround hclosed
      refine ⟨hmono hcloses, ?_⟩
      rcases ho with rfl | rfl
      · exact hnow
      · exact .inr rfl
    · cases List.mem_singleton.mp hl
      rw [← hround]
      exact ⟨hmono (hI.closed round hround hclosed).1, ho⟩

/-- **One call.** -/
theorem OneLife.step (hserve : serve box cfg next request w = some (ev, w')) (hup : w'.up = true)
    (hc : Once h w (w, ev)) (hI : OneLife Round h (w.server.convoRounds Round)) :
    OneLife Round (h ++ [(w, ev)]) (w'.server.convoRounds Round) := by
  obtain ⟨hnext, hnumbers, hkeys⟩ := hc
  have hchanges : ClosesOpen Round (w, ev) → ev.changes Round = true :=
    changes_of_closesOpen hserve hup hnext
  have hstep := roundStep_of_serve hserve hup Round
  -- only the two ways to close add to what was handed on, and only `created` starts a life
  clear hserve
  generalize w'.server.convoRounds Round = o at hstep ⊢
  cases hstep with
  | same hsame =>
      exact hI.keep_round (fun h => by rw [hchanges h] at hsame; cases hsame) (.inl rfl)
  | created habsent =>
      refine hI.open_round ?_ (hnumbers Round _ rfl habsent) (by rintro ⟨⟨_, h⟩, _⟩; cases h) ?_
      · rw [habsent]
        nofun
      · rintro round ⟨⟩
        nofun
  | @opened n round hround hs hmake =>
      exact hI.go_on hround (by rw [hs]; nofun) (by rintro ⟨⟨_, h⟩, _⟩; cases h) nofun
  | @added offset onions round round' hround hs hbound hadd =>
      have hs' : round'.status = .roundOpen := by
        rw [(ConvoService.addLoop_frame hadd).1]
        exact hs
      exact hI.go_on hround (by rw [hs]; nofun) (by rintro ⟨⟨_, h⟩, _⟩; cases h)
        (by rw [hs']; nofun)
  | exchanged hlast hc =>
      exact hI.close_round hc.round_eq hc.status ⟨⟨_, rfl⟩, _, hc.round_eq, hc.status⟩ rfl
        ((hkeys Round _ _ rfl hc.round_eq hc.status).filtered hc.filtered rfl)
  | failed => cases hnext _ rfl
  | answered hlast hc =>
      exact hI.close_round hc.round_eq hc.status ⟨⟨_, rfl⟩, _, hc.round_eq, hc.status⟩ rfl
        ((hkeys Round _ _ rfl hc.round_eq hc.status).filtered hc.filtered rfl)
  | deleted => exact hI.keep_round (by rintro ⟨⟨_, h⟩, _⟩; cases h) (.inr rfl)

theorem oneLife_of_run (run : (rpcSystem box cfg next).traced.Run Once h w) (hup : w.up = true)
    (Round : UInt32) : OneLife Round h (w.server.convoRounds Round) := by
  refine run.invariant (I := fun h w => w.up = true → OneLife Round h (w.server.convoRounds Round))
    ?_ ?_ hup
  · rintro w ⟨hw, -⟩ -
    rw [hw]
    exact ⟨nofun, nofun, fun l hl => absurd hl List.not_mem_nil⟩
  · rintro h w ⟨w₀, ev⟩ w' ih hc ⟨hw, request, hserve⟩ hup'
    cases hw
    obtain ⟨hup, -⟩ := effect_of_serve hserve
    exact OneLife.step hserve hup' hc (ih hup)

/-- Before a call, its server had every round once. -/
theorem oneLife_of_get {n : Nat} {l : World σ × Event}
    (run : (rpcSystem box cfg next).traced.Run Once h w) (hn : h[n]? = some l) (Round : UInt32) :
    OneLife Round (h.take n) (l.1.server.convoRounds Round) ∧
      ∃ request w₂, serve box cfg next request l.1 = some (l.2, w₂) := by
  obtain ⟨w₁, w₂, run₁, -, rfl, request, hserve⟩ := run.get hn
  obtain ⟨hup, -⟩ := effect_of_serve hserve
  exact ⟨oneLife_of_run run₁ hup Round, request, w₂, hserve⟩

end OneLife

/-- No message is handed on in two calls under one round number. -/
def HandedOnce (cfg : Config) (h : List (World σ × Event)) : Prop :=
  ∀ (Round : UInt32) (m : Bytes) (n₁ n₂ : Nat) (l₁ l₂ : World σ × Event), h[n₁]? = some l₁ →
    h[n₂]? = some l₂ → m ∈ handedOn cfg Round l₁ → m ∈ handedOn cfg Round l₂ → n₁ = n₂

/-- No key and nonce seal two replies. -/
def SealedOnce (h : List (World σ × Event)) : Prop :=
  ∀ (key : BoxKey) (nonce : Nonce) (reply₁ reply₂ : Bytes), ∀ l₁ ∈ h, ∀ l₂ ∈ h,
    (key, nonce, reply₁) ∈ sealings l₁ → (key, nonce, reply₂) ∈ sealings l₂ → reply₁ = reply₂

section Once

variable {h : List (World σ × Event)} {w : World σ}

/-- The later of two calls does not close an open round that the earlier one closed. -/
theorem not_lt_of_closesOpen (run : (rpcSystem box cfg next).traced.Run Once h w) {Round : UInt32}
    {n₁ n₂ : Nat} {l₁ l₂ : World σ × Event} (h₁ : h[n₁]? = some l₁) (h₂ : h[n₂]? = some l₂)
    (hc₁ : ClosesOpen Round l₁) (hc₂ : ClosesOpen Round l₂) : ¬ n₁ < n₂ := by
  intro hlt
  obtain ⟨hI, -⟩ := oneLife_of_get run h₂ Round
  obtain ⟨-, round, hround, hs⟩ := hc₂
  refine hI.unclosed round hround (by rw [hs]; nofun) l₁ ?_ hc₁
  exact List.mem_of_getElem? (by rw [List.getElem?_take_of_lt hlt, h₁])

/-- Whoever sees a round closed sees the same round. -/
theorem closed_round_eq (run : (rpcSystem box cfg next).traced.Run Once h w) {Round : UInt32}
    {n₁ n₂ : Nat} {l₁ l₂ : World σ × Event} {round₁ round₂ : ConvoRound} (h₁ : h[n₁]? = some l₁)
    (h₂ : h[n₂]? = some l₂) (hr₁ : l₁.1.server.convoRounds Round = some round₁)
    (hr₂ : l₂.1.server.convoRounds Round = some round₂) (hs₁ : round₁.status = .roundClosed)
    (hle : n₁ ≤ n₂) : round₁ = round₂ := by
  rcases Nat.eq_or_lt_of_le hle with rfl | hlt
  · cases h₁.symm.trans h₂
    exact Option.some.inj (hr₁.symm.trans hr₂)
  · obtain ⟨hI, -⟩ := oneLife_of_get run h₂ Round
    have hmem : l₁ ∈ h.take n₂ :=
      List.mem_of_getElem? (by rw [List.getElem?_take_of_lt hlt, h₁])
    obtain ⟨-, hsame⟩ := hI.seen l₁ hmem round₁ hr₁ hs₁
    rw [hr₂] at hsame
    exact (Option.some.inj (hsame.resolve_right nofun)).symm

end Once

/-- **Onions are processed once**, in every run in which the next server answers, no round is
created again after it was closed, and no `Close` finds one key at two messages. -/
theorem onions_once {h : List (World σ × Event)} {w : World σ}
    (run : (rpcSystem box cfg next).traced.Run Once h w) : HandedOnce cfg h ∧ SealedOnce h := by
  refine ⟨fun Round m n₁ n₂ l₁ l₂ h₁ h₂ hm₁ hm₂ => ?_,
    fun key nonce reply₁ reply₂ l₁ hl₁ l₂ hl₂ hs₁ hs₂ => ?_⟩
  · obtain ⟨-, _, _, hserve₁⟩ := oneLife_of_get run h₁ Round
    obtain ⟨-, _, _, hserve₂⟩ := oneLife_of_get run h₂ Round
    have hc₁ := closesOpen_of_handedOn hserve₁ hm₁
    have hc₂ := closesOpen_of_handedOn hserve₂ hm₂
    exact Nat.le_antisymm (Nat.not_lt.mp (not_lt_of_closesOpen run h₂ h₁ hc₂ hc₁))
      (Nat.not_lt.mp (not_lt_of_closesOpen run h₁ h₂ hc₁ hc₂))
  · obtain ⟨Round, round₁, i₁, rfl, hr₁, hclosed₁, hseal₁⟩ := round_of_sealings hs₁
    obtain ⟨Round', round₂, i₂, hnonce, hr₂, hclosed₂, hseal₂⟩ := round_of_sealings hs₂
    cases backwardNonce_inj hnonce
    obtain ⟨n₁, h₁⟩ := List.getElem?_of_mem hl₁
    obtain ⟨n₂, h₂⟩ := List.getElem?_of_mem hl₂
    -- both calls read one round, which gives every key one reply
    have hsame : round₁ = round₂ := by
      rcases Nat.le_total n₁ n₂ with hle | hle
      · exact closed_round_eq run h₁ h₂ hr₁ hr₂ hclosed₁ hle
      · exact (closed_round_eq run h₂ h₁ hr₂ hr₁ hclosed₂ hle).symm
    subst hsame
    obtain ⟨hI, -⟩ := oneLife_of_get run h₁ Round
    obtain ⟨-, happart⟩ := hI.closed round₁ hr₁ hclosed₁
    obtain ⟨j₁, m₁, hi₁, hreply₁, hk₁⟩ := ConvoRound.of_sealing hseal₁
    obtain ⟨j₂, m₂, hi₂, hreply₂, hk₂⟩ := ConvoRound.of_sealing hseal₂
    cases happart j₁ j₂ m₁ m₂ key hi₁ hi₂ hk₁ hk₂
    exact Option.some.inj (hreply₁.symm.trans hreply₂)

/-! ### Two lives of a round -/

/-- A call, with the server it is made on. -/
def traceCall (box : NaclBox) (cfg : Config) (next : NextServer σ) (request : Request)
    (w : World σ) : Option ((World σ × Event) × World σ) :=
  (serve box cfg next request w).map fun r => ((w, r.1), r.2)

/-- Calls made one after the other, whose history passes a test. -/
theorem run_of_any {C : List (World σ × Event) → World σ → World σ × Event → Prop}
    {check : List (World σ × Event) → World σ → World σ × Event → Bool}
    (hcheck : ∀ h w l, check h w l = true → C h w l) {test : List (World σ × Event) → Bool}
    {requests : List Request} {t : σ}
    (h : (System.replay (traceCall box cfg next) check requests [] ⟨Server.start, t, true⟩).any
      (fun r => test r.1) = true) :
    ∃ h w, (rpcSystem box cfg next).traced.Run C h w ∧ test h = true := by
  have hcall : ∀ request w l w₁, traceCall box cfg next request w = some (l, w₁) →
      (rpcSystem box cfg next).traced.step w l w₁ ∧ l.2.request = request := by
    intro request w l w₁ hcall
    obtain ⟨⟨ev, w₂⟩, hserve, heq⟩ := Option.map_eq_some_iff.mp hcall
    cases heq
    exact ⟨⟨rfl, request, hserve⟩, (effect_of_serve hserve).2.1⟩
  have hstart : (rpcSystem box cfg next).traced.init ⟨Server.start, t, true⟩ := ⟨rfl, rfl⟩
  obtain ⟨h', w', run, -, htest⟩ := System.Run.of_replay hcall hcheck hstart h
  exact ⟨h', w', run, htest⟩

/-- The life of round 1 on the last server, with some onions. -/
def sampleLife (onions : List Bytes) : List Request :=
  [.convoNewRound 1 sampleCoins, .convoOpen ⟨1, onions.length⟩, .convoAdd ⟨1, 0, onions⟩,
    .convoClose 1 sampleShuffler, .convoGet ⟨1, 0, onions.length⟩ fun _ _ => 0, .convoDelete 1]

/-- Whether the life that starts at `n` exchanges the messages, and makes the seals. -/
def lifeIs (n : Nat) (messages : List Bytes) (seals : List (BoxKey × Nonce × Bytes))
    (h : List (World (List Bool) × Event)) : Bool :=
  (h[n + 3]?).any (fun l => handedOn sampleLast 1 l = messages) &&
    (h[n + 4]?).any fun l => sealings l = seals

theorem of_lifeIs {n : Nat} {messages : List Bytes} {seals : List (BoxKey × Nonce × Bytes)}
    {h : List (World (List Bool) × Event)} (hlife : lifeIs n messages seals h = true) :
    (∃ l, h[n + 3]? = some l ∧ handedOn sampleLast 1 l = messages) ∧
      ∃ l ∈ h, sealings l = seals := by
  simp only [lifeIs, Bool.and_eq_true, Option.any_eq_true, decide_eq_true_eq] at hlife
  obtain ⟨hclosed, l, hl, hseals⟩ := hlife
  exact ⟨hclosed, l, List.mem_of_getElem? hl, hseals⟩

/-- A message of the sample, sealed for the last server with the key `k`. -/
def sampleInner (b k : UInt8) : Bytes :=
  (Onionbox.seal tagBox (sampleExchange b).marshal (forwardNonce 1) [sampleKey 2]
    fun _ => sampleKey k).1

/-- A seal of the sample: the reply `b` to an onion with the key `k`. -/
def sampleSealing (b k : UInt8) : BoxKey × Nonce × Bytes :=
  (tagBox.precompute (sampleKey k) (sampleKey 2), backwardNonce 1,
    (sampleExchange b).encryptedMessage.1)

def succeeds (l : World (List Bool) × Event) : Bool := l.2.outcome = .ok

theorem nextSucceeds_of_check {l : World (List Bool) × Event} (h : succeeds l = true) :
    NextSucceeds l := by
  intro e he
  rw [succeeds, he] at h
  cases h

/-- Whether a call succeeds, and starts the history if it creates a round and has one slot to
close if it closes one. -/
def checkOnce (h : List (World (List Bool) × Event)) (w : World (List Bool))
    (l : World (List Bool) × Event) : Bool :=
  succeeds l &&
    match l.2.request with
    | .convoNewRound _ _ => h.isEmpty
    | .convoClose r _ => (w.server.convoRounds r).all fun round => round.incoming.length ≤ 1
    | _ => true

theorem once_of_check {h : List (World (List Bool) × Event)} {w : World (List Bool)}
    {l : World (List Bool) × Event} (hcheck : checkOnce h w l = true) : Once h w l := by
  rw [checkOnce, Bool.and_eq_true] at hcheck
  obtain ⟨hok, hreq⟩ := hcheck
  refine ⟨nextSucceeds_of_check hok, fun Round coins hnew _ l' hl' => ?_,
    fun Round shuffler round hclose hround _ i j m m' key hi hj _ _ => ?_⟩
  · rw [hnew] at hreq
    rw [List.isEmpty_iff.mp hreq] at hl'
    cases hl'
  · rw [hclose] at hreq
    simp only [hround, Option.all_some, decide_eq_true_eq] at hreq
    have hi' := (List.getElem?_eq_some_iff.mp hi).1
    have hj' := (List.getElem?_eq_some_iff.mp hj).1
    obtain rfl : i = j := by omega
    cases hi.symm.trans hj
    rfl

/-- Whether an onion is exchanged and answered. -/
def livesOnce (h : List (World (List Bool) × Event)) : Bool :=
  lifeIs 0 [(sampleExchange 3).marshal] [sampleSealing 3 3] h

/-- One life of a round, in which an onion is exchanged and answered. -/
theorem onions_once_sample :
    ∃ h w, (rpcSystem tagBox sampleLast scriptedServer).traced.Run Once h w ∧
      (∃ l ∈ h, handedOn sampleLast 1 l = [(sampleExchange 3).marshal]) ∧
      (∃ l ∈ h, sealings l = [sampleSealing 3 3]) ∧ HandedOnce sampleLast h ∧ SealedOnce h := by
  obtain ⟨h, w, run, hs⟩ := run_of_any (C := Once) (fun _ _ _ => once_of_check)
    (show (System.replay (traceCall tagBox sampleLast scriptedServer) checkOnce
      (sampleLife [sampleInner 3 3]) [] ⟨Server.start, [], true⟩).any
        (fun r => livesOnce r.1) = true by decide +kernel)
  obtain ⟨⟨l, hl, hon⟩, hseals⟩ := of_lifeIs hs
  exact ⟨h, w, run, ⟨l, List.mem_of_getElem? hl, hon⟩, hseals, onions_once run⟩

/-- Whether the onion of a first life comes back in a second one, with another. -/
def livesTwice (h : List (World (List Bool) × Event)) : Bool :=
  livesOnce h &&
    lifeIs 6 [(sampleExchange 3).marshal, (sampleExchange 4).marshal]
      [sampleSealing 4 3, sampleSealing 3 4] h

/-- A round is closed, deleted and created again, and its onion added again: it is exchanged
twice, and the two replies to it are sealed under one key and one nonce. -/
theorem onion_processed_twice :
    ∃ h w, (rpcSystem tagBox sampleLast scriptedServer).traced.Run
        (fun _ _ l => NextSucceeds l) h w ∧
      ¬ HandedOnce sampleLast h ∧ ¬ SealedOnce h := by
  obtain ⟨h, w, run, hs⟩ := run_of_any (C := fun _ _ l => NextSucceeds l)
    (fun _ _ _ => nextSucceeds_of_check)
    (show (System.replay (traceCall tagBox sampleLast scriptedServer) (fun _ _ => succeeds)
      (sampleLife [sampleInner 3 3] ++ sampleLife [sampleInner 3 3, sampleInner 4 4]) []
      ⟨Server.start, [], true⟩).any (fun r => livesTwice r.1) = true by decide +kernel)
  rw [livesTwice, Bool.and_eq_true] at hs
  obtain ⟨⟨l₁, hl₁, hon₁⟩, l₁', hl₁', hseal₁⟩ := of_lifeIs hs.1
  obtain ⟨⟨l₂, hl₂, hon₂⟩, l₂', hl₂', hseal₂⟩ := of_lifeIs hs.2
  refine ⟨h, w, run, fun honce => ?_, fun honce => ?_⟩
  · have heq := honce 1 (sampleExchange 3).marshal _ _ l₁ l₂ hl₁ hl₂
      (hon₁ ▸ List.mem_cons_self) (hon₂ ▸ List.mem_cons_self)
    cases heq
  · have h₁ : sampleSealing 3 3 ∈ sealings l₁' := hseal₁ ▸ List.mem_cons_self
    have h₂ : sampleSealing 4 3 ∈ sealings l₂' := hseal₂ ▸ List.mem_cons_self
    have heq := honce _ _ _ _ l₁' hl₁' l₂' hl₂' h₁ h₂
    exact absurd heq (by decide +kernel)

/-- Whether two onions with one public key are answered in one life. -/
def sharesKey (h : List (World (List Bool) × Event)) : Bool :=
  lifeIs 0 [(sampleExchange 3).marshal, (sampleExchange 4).marshal]
    [sampleSealing 4 3, sampleSealing 3 3] h

/-- One life is enough to seal two replies under one key and one nonce. -/
theorem key_sealed_twice :
    ∃ h w, (rpcSystem tagBox sampleLast scriptedServer).traced.Run
        (fun _ _ l => NextSucceeds l) h w ∧ ¬ SealedOnce h := by
  obtain ⟨h, w, run, hs⟩ := run_of_any (C := fun _ _ l => NextSucceeds l)
    (fun _ _ _ => nextSucceeds_of_check)
    (show (System.replay (traceCall tagBox sampleLast scriptedServer) (fun _ _ => succeeds)
      (sampleLife [sampleInner 3 3, sampleInner 4 3]) [] ⟨Server.start, [], true⟩).any
        (fun r => sharesKey r.1) = true by decide +kernel)
  obtain ⟨-, l, hl, hseals⟩ := of_lifeIs hs
  refine ⟨h, w, run, fun honce => ?_⟩
  have h₁ : sampleSealing 4 3 ∈ sealings l := hseals ▸ List.mem_cons_self
  have h₂ : sampleSealing 3 3 ∈ sealings l := hseals ▸ List.mem_cons_of_mem _ List.mem_cons_self
  have heq := honce _ _ _ _ l hl l hl h₁ h₂
  exact absurd heq (by decide +kernel)

end Vuvuzela
