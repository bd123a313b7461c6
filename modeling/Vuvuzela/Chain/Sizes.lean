import Vuvuzela.Server.Rounds
import Vuvuzela.Convo.Forwarded
import Vuvuzela.Convo.Adds
import Vuvuzela.Dial.Forwarded
import Vuvuzela.Client.Nonces
import Vuvuzela.Source.Dialer

/-!
# Chain — the sizes of onions on the way to the last server

An onion for the servers `post` around a message of `size` bytes has `layered post size` bytes,
whoever made it: a client, a server that took its own layer off, or a server that drew it as
noise.  All that is assumed of a box is that it adds `box.Overhead` bytes (`NaclBox.Sized`).

**Sizes** (`forward_sizes`).  The requests of all clients have one size, the one the first server
expects.  Under any calls, and with any next server, all a server forwards has the size the next
server expects, and all the last server stores is as long as an exchange.
-/

namespace Vuvuzela
open Support

variable {box : NaclBox} {cfg : Config}

/-! ### Places -/

/-- The size of an onion for the servers `post` around a message of `size` bytes. -/
def layered (post : List String) (size : Nat) : Nat := size + post.length * Onionbox.overhead

/-- The server comes right before the servers `post` in an order without repetitions. -/
structure Config.Before (cfg : Config) (post : List String) : Prop where
  nodup : cfg.pki.serverOrder.Nodup
  order : ∃ pre, cfg.pki.serverOrder = pre ++ cfg.serverName :: post

theorem PKI.incoming_eq_layered {pki : PKI} {pre post : List String} {s : String}
    (horder : pki.serverOrder = pre ++ s :: post) (hnodup : pki.serverOrder.Nodup) (size : Nat) :
    pki.incomingOnionOverhead s + size = layered (s :: post) size := by
  rw [incomingOnionOverhead_eq horder hnodup, layered, List.length_cons, Nat.add_comm]

namespace Config.Before

variable {post : List String}

theorem expectedOnionSize (h : cfg.Before post) (size : Nat) :
    cfg.expectedOnionSize size = layered (cfg.serverName :: post) size := by
  obtain ⟨pre, horder⟩ := h.order
  exact PKI.incoming_eq_layered horder h.nodup size

theorem length_nextServerKeys (h : cfg.Before post) :
    (cfg.pki.nextServerKeys cfg.serverName).length = post.length := by
  obtain ⟨pre, horder⟩ := h.order
  rw [PKI.nextServerKeys_eq horder h.nodup, List.length_map]

/-- A layer comes off. -/
theorem length_peel (h : cfg.Before post) (hbox : box.Sized) {size : Nat} {nonce : Nonce}
    {onion m : Bytes} (hpeel : (peel box cfg size nonce onion).2 = some m) :
    m.length = layered post size := by
  have hlen := peel_length hbox hpeel
  rw [h.expectedOnionSize, layered, List.length_cons, Nat.add_mul, Nat.one_mul,
    ← Nat.add_assoc] at hlen
  exact Nat.add_right_cancel hlen

/-- An onion for the later servers. -/
theorem length_seal (h : cfg.Before post) (hbox : box.Sized) {m : Bytes} {size : Nat}
    (hm : m.length = size) (nonce : Nonce) (keys : Nat → BoxKey) :
    (Onionbox.seal box m nonce (cfg.pki.nextServerKeys cfg.serverName) keys).1.length =
      layered post size := by
  rw [Onionbox.length_seal hbox, h.length_nextServerKeys, hm, layered]

theorem length_noise (h : cfg.Before post) (hbox : box.Sized) {coins : ConvoCoins}
    {Round : UInt32} {onion : Bytes} (hmem : onion ∈ coins.noise box cfg Round) :
    onion.length = layered post sizeConvoExchange := by
  rw [ConvoCoins.noise_eq] at hmem
  obtain ⟨⟨m, keys⟩, hdraw, rfl⟩ := List.mem_map.mp hmem
  exact h.length_seal hbox (ConvoCoins.length_of_mem_draws hdraw) _ keys

theorem length_dialNoise (h : cfg.Before post) (hbox : box.Sized) {coins : DialCoins}
    {Round : UInt32} {onion : Bytes} (hmem : onion ∈ coins.noise box cfg Round) :
    onion.length = layered post sizeDialExchange := by
  rw [DialCoins.noise, fillWithFakeIntroductions_eq] at hmem
  obtain ⟨i, -, rfl⟩ := List.mem_map.mp hmem
  refine h.length_seal hbox ?_ _ _
  simp [introExchange, sizeDialExchange]

end Config.Before

/-! ### Requests -/

/-- The size of a request, for a message of `size` bytes. -/
def PKI.requestSize (pki : PKI) (size : Nat) : Nat := layered pki.serverOrder size

theorem PKI.length_request (hbox : box.Sized) (pki : PKI) {m : Bytes} {size : Nat}
    (hm : m.length = size) (nonce : Nonce) (keys : Nat → BoxKey) :
    (Onionbox.seal box m nonce pki.serverKeys keys).1.length = pki.requestSize size := by
  rw [Onionbox.length_seal hbox, hm, serverKeys, List.length_map, requestSize, layered]

theorem Conversation.length_nextConvoRequest (hbox : box.Sized) (hmac : Hmac)
    (coins : RequestCoins) (now : Time) (round : UInt32) (c : Conversation) :
    (c.nextConvoRequest box hmac coins now round).1.onion.length =
      c.pki.requestSize sizeConvoExchange :=
  c.pki.length_request hbox (ConvoExchange.length_marshal _) _ _

theorem Dialer.length_nextDialRequest (hbox : box.Sized) (coins : DialRequestCoins)
    (round : UInt32) {buckets : UInt32} (hbuckets : 1 ≤ buckets) (d : Dialer) :
    ∃ request d', d.nextDialRequest box coins round buckets = some (request, d') ∧
      request.onion.length = d.pki.requestSize sizeDialExchange := by
  have hne : buckets ≠ 0 := by
    rintro rfl
    exact absurd hbuckets (by decide)
  obtain ⟨⟨ex, d'⟩, hex⟩ : ∃ r, d.nextExchange box coins round buckets = some r := by
    rw [nextExchange]
    split
    · rw [keyDialBucket, if_neg hne]
      exact ⟨_, rfl⟩
    · exact ⟨_, rfl⟩
  refine ⟨_, d', by rw [nextDialRequest, hex]; rfl, ?_⟩
  exact d.pki.length_request hbox (DialExchange.length_marshal ex) _ _

/-! ### What a server holds -/

section Server

variable {σ : Type} {next : NextServer σ} {post : List String}

/-- All a round holds has one size. -/
structure ConvoRound.Uniform (size : Nat) (round : ConvoRound) : Prop where
  incoming : ∀ m, some m ∈ round.incoming → m.length = size
  noise : ∀ m ∈ round.noise, m.length = size

section Closing

variable {srv : Server} {Round : UInt32} {shuffler : (n : Nat) → Shuffler n} {round : ConvoRound}
  {messages batch : List Bytes} {index : List Int} {size : Nat}

theorem Closing.length_messages (hc : Closing srv Round shuffler round messages index batch)
    (hround : round.Uniform size) {m : Bytes} (hm : m ∈ messages) : m.length = size :=
  hround.incoming m (hc.filtered.mem_of_valid hm)

/-- A batch is made of what the round holds. -/
theorem Closing.length_batch (hc : Closing srv Round shuffler round messages index batch)
    (hround : round.Uniform size) {m : Bytes} (hm : m ∈ batch) : m.length = size := by
  obtain ⟨batch', hsh, hperm⟩ :=
    (shuffler (messages ++ round.noise).length).shuffle_spec (x := messages ++ round.noise) rfl
  cases hc.shuffle.symm.trans hsh
  rcases List.mem_append.mp (hperm.subset hm) with hmem | hmem
  · exact hc.length_messages hround hmem
  · exact hround.noise m hmem

/-- The round that lost its noise still holds messages of the batch only. -/
theorem Closing.uniform_drained (hc : Closing srv Round shuffler round messages index batch)
    (hround : round.Uniform size) : (drainedRound round messages index batch).Uniform size := by
  refine ⟨fun m hm => ?_, nofun⟩
  simp only [drainedRound, ConvoService.drained, aliasedIncoming, List.mem_map, Option.some.injEq,
    exists_eq_right] at hm
  split at hm
  · exact hc.length_batch hround (List.mem_of_mem_take hm)
  · exact hc.length_messages hround hm

end Closing

/-- **One call** keeps the size of what a round holds. -/
theorem ConvoRound.Uniform.step (hcfg : cfg.Before post) (hbox : box.Sized) {srv : Server}
    {ev : Event} {Round : UInt32} {round' : Option ConvoRound}
    (hI : ∀ round, srv.convoRounds Round = some round →
      round.Uniform (layered post sizeConvoExchange))
    (hstep : RoundStep box cfg next srv Round ev round') :
    ∀ round, round' = some round → round.Uniform (layered post sizeConvoExchange) := by
  rintro r hr
  cases hstep with
  | same => exact hI r hr
  | created =>
      cases hr
      refine ⟨nofun, fun m hm => ?_⟩
      rw [ConvoCoins.newRound] at hm
      split at hm
      · cases hm
      · exact hcfg.length_noise hbox hm
  | opened hround =>
      cases hr
      refine ⟨fun m hm => ?_, (hI _ hround).noise⟩
      cases List.eq_of_mem_replicate hm
  | added hround _ _ hadd =>
      cases hr
      refine ConvoService.addLoop_invariant
        (P := fun r => r.Uniform (layered post sizeConvoExchange)) ?_ hadd (hI _ hround)
      rintro r i onion ⟨hin, hnoise⟩ -
      refine ⟨fun m hm => ?_, hnoise⟩
      rw [ConvoService.stored] at hm
      -- an onion that opens fills a slot with what is inside its outer layer
      split at hm
      · exact hin m hm
      · rename_i message hpeel
        rcases List.mem_or_eq_of_mem_set hm with hold | hnew
        · exact hin m hold
        · cases hnew
          exact hcfg.length_peel hbox hpeel
  | exchanged _ hc =>
      cases hr
      have hround := hI _ hc.round_eq
      refine ⟨fun m hm => ?_, hround.noise⟩
      obtain ⟨m', hm', e⟩ := List.mem_map.mp hm
      cases e
      exact hc.length_messages hround hm'
  | failed _ hc =>
      cases hr
      exact hc.uniform_drained (hI _ hc.round_eq)
  | answered _ hc =>
      cases hr
      obtain ⟨hin, hnoise⟩ := hc.uniform_drained (hI _ hc.round_eq)
      exact ⟨hin, hnoise⟩
  | deleted => cases hr

/-- **Every round** of a server that is up. -/
theorem uniform_of_run (hcfg : cfg.Before post) (hbox : box.Sized)
    {C : List Event → World σ → Event → Prop} {h : List Event} {w : World σ}
    (run : (rpcSystem box cfg next).Run C h w) (hup : w.up = true) (Round : UInt32) :
    ∀ round, w.server.convoRounds Round = some round →
      round.Uniform (layered post sizeConvoExchange) :=
  round_invariant (I := fun _ _ o => ∀ round, o = some round →
      round.Uniform (layered post sizeConvoExchange))
    (fun _ _ => nofun) (fun _ _ _ _ _ hI _ hstep => ConvoRound.Uniform.step hcfg hbox hI hstep)
    run hup Round

/-- All a round of dialing holds has one size. -/
structure DialRound.Uniform (size : Nat) (round : DialRound) : Prop where
  incoming : ∀ m ∈ round.incoming, m.length = size
  noise : ∀ m ∈ round.noise, m.length = size

theorem DialClosing.length_batch {srv : Server} {Round : UInt32}
    {shuffler : (n : Nat) → Shuffler n} {round : DialRound} {messages batch : List Bytes}
    (hc : DialClosing srv Round shuffler round messages batch) {size : Nat}
    (hround : round.Uniform size) {m : Bytes} (hm : m ∈ batch) : m.length = size := by
  obtain ⟨batch', hsh, hperm⟩ :=
    (shuffler (messages ++ round.noise).length).shuffle_spec (x := messages ++ round.noise) rfl
  cases hc.shuffle.symm.trans hsh
  rcases List.mem_append.mp (hperm.subset hm) with hmem | hmem
  · rw [DialService.filterIncoming_eq_some hc.filtered] at hmem
    exact hround.incoming m ((firsts_sublist msgKey _).subset hmem)
  · exact hround.noise m hmem

/-- **One call** keeps the size of what the rounds of dialing hold. -/
theorem DialRound.Uniform.step (hcfg : cfg.Before post) (hbox : box.Sized) {srv srv' : Server}
    {ev : Event}
    (hI : ∀ Round round, srv.dialRounds Round = some round →
      round.Uniform (layered post sizeDialExchange))
    (heff : Effect box cfg srv ev srv') (hpanic : ∀ p, ev.outcome ≠ .panic p) :
    ∀ Round round, srv'.dialRounds Round = some round →
      round.Uniform (layered post sizeDialExchange) := by
  -- a call sets one round at most, so it is enough that this one is uniform
  have hset : ∀ {r : UInt32} {round' : DialRound} {s : Server},
      s.dialRounds = (srv.setDial r round').dialRounds →
      round'.Uniform (layered post sizeDialExchange) →
      ∀ Round round, s.dialRounds Round = some round →
        round.Uniform (layered post sizeDialExchange) := by
    intro r round' s hs hround' Round round hround
    rw [hs] at hround
    by_cases hr : Round = r
    · subst hr
      rw [Server.setDial_self] at hround
      cases hround
      exact hround'
    · rw [Server.setDial_of_ne _ _ _ hr] at hround
      exact hI Round round hround
  cases heff with
  | crashed | convoUnlocked | convoShort | dialUnlocked => exact absurd rfl (hpanic _)
  | dialNew =>
      exact hset rfl ⟨nofun, fun m hm => hcfg.length_dialNoise hbox hm⟩
  | dialAdded hround =>
      refine hset rfl ⟨fun m hm => ?_, (hI _ _ hround).noise⟩
      rcases List.mem_append.mp hm with hold | hnew
      · exact (hI _ _ hround).incoming m hold
      · obtain ⟨onion, -, hpeel⟩ := List.mem_filterMap.mp hnew
        exact hcfg.length_peel hbox hpeel
  | dialKept _ hc =>
      exact hset rfl ⟨fun m hm => hc.length_batch (hI _ _ hc.round_eq) hm, nofun⟩
  | dialNotTaken _ hc | dialNotRun _ hc =>
      have hround := hI _ _ hc.round_eq
      exact hset rfl ⟨fun m hm => hc.length_batch hround hm, hround.noise⟩
  | dialForwarded => exact hset rfl ⟨nofun, nofun⟩
  | _ => exact hI

theorem dialUniform_of_run (hcfg : cfg.Before post) (hbox : box.Sized)
    {C : List Event → World σ → Event → Prop} {h : List Event} {w : World σ}
    (run : (rpcSystem box cfg next).Run C h w) (hup : w.up = true) :
    ∀ Round round, w.server.dialRounds Round = some round →
      round.Uniform (layered post sizeDialExchange) :=
  server_invariant (I := fun _ srv => ∀ Round round, srv.dialRounds Round = some round →
      round.Uniform (layered post sizeDialExchange))
    (fun _ _ => nofun)
    (fun _ _ _ _ hI _ heff hpanic => DialRound.Uniform.step hcfg hbox hI heff hpanic) run hup

/-! ### What a server forwards -/

/-- Every onion of a batch that went to the next server. -/
theorem length_forwarded (hcfg : cfg.Before post) (hbox : box.Sized)
    {C : List Event → World σ → Event → Prop} {h : List Event} {w : World σ}
    (run : (rpcSystem box cfg next).Run C h w) {ev : Event} (hev : ev ∈ h) {Round : UInt32}
    {batch : List Bytes} {onion : Bytes} (honion : onion ∈ batch) :
    (.convoBatch Round batch ∈ ev.sent → onion.length = layered post sizeConvoExchange) ∧
      (.dialBatch Round batch ∈ ev.sent → onion.length = layered post sizeDialExchange) := by
  obtain ⟨h₁, h₂, rfl⟩ := List.append_of_mem hev
  obtain ⟨w₁, srv', run₁, hup, -, heff⟩ := effect_of_run run
  constructor
  · intro hsent
    obtain ⟨shuffler, round, messages, index, -, hc⟩ := closing_of_batch heff hsent
    exact hc.length_batch (uniform_of_run hcfg hbox run₁ hup Round round hc.round_eq) honion
  · intro hsent
    obtain ⟨shuffler, round, messages, -, hc⟩ := closing_of_dialBatch heff hsent
    exact hc.length_batch (dialUniform_of_run hcfg hbox run₁ hup Round round hc.round_eq) honion

end Server

theorem ConvoExchange.unmarshal_isSome {m : Bytes} (hm : m.length = sizeConvoExchange) :
    (unmarshal m).isSome := by
  rw [unmarshal, if_neg (by rw [hm]; exact Nat.lt_irrefl _)]
  rfl

/-- **Onions have one size on the way**, for every order of servers without repetitions.  The
requests of all clients have one size, which the first server expects.  In every run of a server
that is not the last one, each onion it forwards has the size the next one expects.  In every run
of the last server, each message it stores is as long as an exchange, and `Close` decodes it. -/
theorem forward_sizes (hbox : box.Sized) (pki : PKI) (hnodup : pki.serverOrder.Nodup) :
    ((∀ (hmac : Hmac) (coins : RequestCoins) (now : Time) (round : UInt32) (c : Conversation),
        c.pki = pki → (c.nextConvoRequest box hmac coins now round).1.onion.length =
          pki.requestSize sizeConvoExchange) ∧
      (∀ (coins : DialRequestCoins) (round buckets : UInt32) (d : Dialer), d.pki = pki →
        1 ≤ buckets → ∃ request d', d.nextDialRequest box coins round buckets =
          some (request, d') ∧ request.onion.length = pki.requestSize sizeDialExchange) ∧
      ∀ first post size, pki.serverOrder = first :: post →
        pki.requestSize size = pki.incomingOnionOverhead first + size) ∧
    (∀ (σ : Type) (next : NextServer σ) (cfg : Config) (pre post : List String) (s : String)
        (h : List Event) (w : World σ), cfg.pki = pki →
      pki.serverOrder = pre ++ cfg.serverName :: s :: post →
      (rpcSystem box cfg next).Run System.Any h w →
      ∀ ev ∈ h, ∀ Round batch, ∀ onion ∈ batch,
        (.convoBatch Round batch ∈ ev.sent →
          onion.length = pki.incomingOnionOverhead s + sizeConvoExchange) ∧
        (.dialBatch Round batch ∈ ev.sent →
          onion.length = pki.incomingOnionOverhead s + sizeDialExchange)) ∧
    ∀ (σ : Type) (next : NextServer σ) (cfg : Config) (pre : List String) (h : List Event)
        (w : World σ), cfg.pki = pki → pki.serverOrder = pre ++ [cfg.serverName] →
      (rpcSystem box cfg next).Run System.Any h w → w.up = true →
      ∀ Round round, w.server.convoRounds Round = some round →
        (∀ m, some m ∈ round.incoming → m.length = sizeConvoExchange) ∧
        ∀ messages index, ConvoService.filterIncoming round.incoming = some (messages, index) →
          ∀ m ∈ messages, (ConvoExchange.unmarshal m).isSome := by
  refine ⟨⟨?_, ?_, ?_⟩, ?_, ?_⟩
  · rintro hmac coins now round c rfl
    exact c.length_nextConvoRequest hbox hmac coins now round
  · rintro coins round buckets d rfl hbuckets
    exact d.length_nextDialRequest hbox coins round hbuckets
  · intro first post size horder
    have horder' : pki.serverOrder = [] ++ first :: post := horder
    rw [PKI.incoming_eq_layered horder' hnodup, PKI.requestSize, horder]
  · rintro σ next cfg pre post s h w rfl horder run ev hev Round batch onion honion
    have hcfg : cfg.Before (s :: post) := ⟨hnodup, pre, horder⟩
    have horder' : cfg.pki.serverOrder = (pre ++ [cfg.serverName]) ++ s :: post := by
      rw [horder, List.append_assoc]
      rfl
    rw [PKI.incoming_eq_layered horder' hnodup, PKI.incoming_eq_layered horder' hnodup]
    exact length_forwarded hcfg hbox run hev honion
  · rintro σ next cfg pre h w rfl horder run hup Round round hround
    have hcfg : cfg.Before [] := ⟨hnodup, pre, horder⟩
    have hlen : ∀ m, some m ∈ round.incoming → m.length = sizeConvoExchange :=
      (uniform_of_run hcfg hbox run hup Round round hround).incoming
    refine ⟨hlen, fun messages index hfilter m hm => ?_⟩
    exact ConvoExchange.unmarshal_isSome
      (hlen m ((ConvoService.filterIncoming_eq_some hfilter).mem_of_valid hm))

/-! ### The two servers of the sample -/

/-- The last server of the sample chain. -/
def sampleLast : Config := (sampleStation "last" 2 50).cfg

/-- Whether a call sent a batch of round 1 that is not empty. -/
def sendsSome (_ : List Event) (ev : Event) (_ : World (List Bool)) : Bool :=
  ev.sent.any fun
    | .convoBatch 1 batch => !batch.isEmpty
    | _ => false

/-- Whether round 1 holds a message after a call. -/
def holdsSome (_ : List Event) (_ : Event) (w : World (List Bool)) : Bool :=
  w.up && ((w.server.convoRounds 1).any fun round => round.incoming.any Option.isSome)

/-- A text and a cover request; the batch of the first server; a message the last one stores. -/
theorem forward_sizes_sample :
    ((((sampleClient 1 2).convos 2).nextConvoRequest tagBox sampleHmac sampleRequest 0
        5).1.onion.length = samplePki.requestSize sizeConvoExchange ∧
      (∃ request d', (Dialer.init samplePki (sampleKey 1) (sampleKey 1)).nextDialRequest tagBox
          ⟨fun _ => sampleKey 8, fun _ => 0, fun _ => sampleKey 9⟩ 5 1 = some (request, d') ∧
        request.onion.length = samplePki.requestSize sizeDialExchange) ∧
      samplePki.requestSize sizeConvoExchange =
        samplePki.incomingOnionOverhead "first" + sizeConvoExchange) ∧
    (∃ h ev w batch onion, (rpcSystem tagBox sampleConfig scriptedServer).Run System.Any h w ∧
      ev ∈ h ∧ .convoBatch 1 batch ∈ ev.sent ∧ onion ∈ batch ∧
      onion.length = samplePki.incomingOnionOverhead "last" + sizeConvoExchange) ∧
    ∃ h w round m, (rpcSystem tagBox sampleLast scriptedServer).Run System.Any h w ∧
      w.server.convoRounds 1 = some round ∧ some m ∈ round.incoming ∧
      m.length = sizeConvoExchange := by
  obtain ⟨⟨hconvo, hdial, hfirst⟩, hforward, hstored⟩ :=
    forward_sizes tagBox_ideal.sized samplePki (by decide)
  refine ⟨⟨hconvo _ _ _ _ _ rfl, hdial _ 5 1 _ rfl (by decide), hfirst "first" ["last"] _ rfl⟩,
    ?_, ?_⟩
  · obtain ⟨h, ev, w, run, hs⟩ := run_of_lastCall (C := System.Any) (fun _ _ _ _ => trivial)
      (show lastCall tagBox sampleConfig scriptedServer (fun _ _ _ => true) sendsSome sampleCalls
        (.convoClose 1 sampleShuffler) ⟨Server.start, [], true⟩ = true by decide +kernel)
    obtain ⟨sent, hmem, hsent⟩ := List.any_eq_true.mp hs
    split at hsent
    · rename_i batch
      cases batch with
      | nil => cases hsent
      | cons onion batch =>
          have hev : ev ∈ h ++ [ev] := List.mem_append_right _ List.mem_cons_self
          have hsize := hforward _ _ _ [] [] "last" _ _ rfl rfl run ev hev 1 (onion :: batch) onion
            List.mem_cons_self
          exact ⟨_, ev, w, _, onion, run, hev, hmem, List.mem_cons_self, hsize.1 hmem⟩
    · cases hsent
  · obtain ⟨h, ev, w, run, hs⟩ := run_of_lastCall (C := System.Any) (fun _ _ _ _ => trivial)
      (show lastCall tagBox sampleLast scriptedServer (fun _ _ _ => true) holdsSome
        [.convoNewRound 1 sampleCoins, .convoOpen ⟨1, 1⟩] (.convoAdd ⟨1, 0, [sampleMessage]⟩)
        ⟨Server.start, [], true⟩ = true by decide +kernel)
    rw [holdsSome, Bool.and_eq_true, Option.any_eq_true] at hs
    obtain ⟨hup, round, hround, hany⟩ := hs
    obtain ⟨slot, hslot, hsome⟩ := List.any_eq_true.mp hany
    obtain ⟨m, rfl⟩ := Option.isSome_iff_exists.mp hsome
    exact ⟨_, w, round, m, run, hround, hslot,
      (hstored _ _ _ ["first"] _ _ rfl rfl run hup 1 round hround).1 m hslot⟩

end Vuvuzela
