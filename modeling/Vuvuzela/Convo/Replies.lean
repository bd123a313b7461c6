import Vuvuzela.Chain.Sizes
import Vuvuzela.Convo.Failures
import Vuvuzela.Convo.Transfer

/-!
# Convo — what `Get` returns

`Get` seals the reply of a position under the key of the position, and returns random bytes where
there is no reply or the sealed reply has the wrong length.  So all it returns has one length, and
whether a reply gets through depends on its length alone.

**Replies** (`return_sizes`).  In any run, a `Get` in the range of a round that was closed, without
a `Close` of it that failed before, succeeds and returns onions of one length.  Where the replies
have the length the next server returns, and always on the last server, every position whose
message was kept gets its reply under its key.
-/

namespace Vuvuzela
open Support

variable {σ : Type} {box : NaclBox} {cfg : Config} {next : NextServer σ}

/-! ### Rounds that can be answered -/

/-- An open round has the slots it was opened with, and a key wherever it has a message. -/
structure ConvoRound.Keyed (round : ConvoRound) : Prop extends round.Slots where
  keyed : ∀ (i : Nat) (m : Bytes), round.incoming[i]? = some (some m) →
    ∃ key, round.sharedKeys[i]? = some (some key)

/-- A closed round has a reply and a key for every position that was kept; on the last server every
reply is a whole message. -/
structure Returning (cfg : Config) (round : ConvoRound) : Prop where
  makes : makeOk round.numIncoming
  index_length : (round.incomingIndex.length : Int) = round.numIncoming
  replied : ∀ (i : Nat) (v : Int), round.incomingIndex[i]? = some v →
    v = -1 ∨ ∃ (n : Nat) (reply : Bytes) (key : BoxKey), v = n ∧
      round.replies[n]? = some reply ∧ round.sharedKeys[i]? = some (some key) ∧
      (cfg.lastServer = true → reply.length = sizeEncryptedMessage)

/-- A round after its messages were filtered and replies came. -/
theorem Returning.of_filtered {round round' : ConvoRound} {messages : List Bytes}
    {index : List Int} (hI : round.Keyed) (hf : Filtered msgKey round.incoming messages index)
    (hnum : round'.numIncoming = round.numIncoming) (hkeys : round'.sharedKeys = round.sharedKeys)
    (hindex : round'.incomingIndex = index)
    (hreplies : ∀ n < messages.length, ∃ reply, round'.replies[n]? = some reply ∧
      (cfg.lastServer = true → reply.length = sizeEncryptedMessage)) : Returning cfg round' := by
  refine ⟨hnum ▸ hI.makes, ?_, fun i v hv => ?_⟩
  · rw [hindex, hnum, hf.length_index]
    exact hI.incoming_length
  · rw [hindex] at hv
    rcases hf.index_range i v hv with hneg | ⟨n, hn, rfl⟩
    · exact .inl hneg
    · obtain ⟨m, hm, -⟩ := hf.get_of_index hv
      obtain ⟨key, hkey⟩ := hI.keyed i m hm
      obtain ⟨reply, hreply, hlen⟩ := hreplies n hn
      exact .inr ⟨n, reply, key, rfl, hreply, hkeys ▸ hkey, hlen⟩

/-- Storing an onion stores its key with its message. -/
theorem ConvoRound.Keyed.stored {round : ConvoRound} (hI : round.Keyed) {nonce : Nonce} {i : Nat}
    {onion : Bytes} (hi : i < round.sharedKeys.length) :
    (ConvoService.stored box cfg nonce i onion round).Keyed := by
  have hkeyed : ∀ (j : Nat) (m : Bytes), j = i ∨ round.incoming[j]? = some (some m) →
      ∃ key, (ConvoService.stored box cfg nonce i onion round).sharedKeys[j]? =
        some (some key) := by
    rintro j m hj
    by_cases hji : j = i
    · subst hji
      exact ⟨_, List.getElem?_set_self hi⟩
    · obtain ⟨key, hkey⟩ := hI.keyed j m (hj.resolve_left hji)
      exact ⟨key, by rw [ConvoService.stored, List.getElem?_set_ne (Ne.symm hji), hkey]⟩
  refine ⟨hI.toSlots.stored, fun j m hm => ?_⟩
  simp only [ConvoService.stored] at hm
  split at hm
  · exact hkeyed j m (.inr hm)
  · by_cases hji : j = i
    · exact hkeyed j m (.inl hji)
    · rw [List.getElem?_set_ne (Ne.symm hji)] at hm
      exact hkeyed j m (.inr hm)

/-! ### Rounds over a run -/

/-- As long as no `Close` of it failed, a round can be answered. -/
structure Answering (cfg : Config) (p : Pledge) (round : ConvoRound) : Prop where
  opened : round.status = .roundOpen → p.failed = false → round.Keyed
  closed : round.status = .roundClosed → p.failed = false → Returning cfg round

/-- **One call.** -/
theorem Answering.step {q : Option Pledge} {srv : Server} {ev : Event} {Round : UInt32}
    {round' : Option ConvoRound} (hI : Owing (Answering cfg) q (srv.convoRounds Round))
    (hstep : RoundStep box cfg next srv Round ev round') :
    Owing (Answering cfg) (pledgeStep box cfg Round q ev) round' := by
  intro r hr
  cases hstep with
  | same hsame =>
      rw [pledgeStep_same hsame]
      exact hI r hr
  | created =>
      cases hr
      exact ⟨_, pledgeStep_created, by rintro ⟨⟩, by rintro ⟨⟩⟩
  | @opened n round hround hs hmake =>
      cases hr
      obtain ⟨p, rfl, -⟩ := hI round hround
      refine ⟨_, pledgeStep_opened, fun _ _ => ⟨.opened round hmake, fun i m hm => ?_⟩,
        by rintro ⟨⟩⟩
      cases List.eq_of_mem_replicate (List.mem_of_getElem? hm)
  | added hround hs _ hadd =>
      cases hr
      obtain ⟨p, rfl, hopen, -⟩ := hI _ hround
      have hstatus : r.status = .roundOpen := by
        rw [(ConvoService.addLoop_frame hadd).1]
        exact hs
      refine ⟨_, pledgeStep_added, fun _ hfailed => ?_, fun hclosed => ?_⟩
      · exact ConvoService.addLoop_invariant (P := ConvoRound.Keyed)
          (fun _ _ _ hround hi => hround.stored hi) hadd (hopen hs hfailed)
      · rw [hstatus] at hclosed
        cases hclosed
  | @exchanged shuffler round messages batch index hlast hc =>
      cases hr
      obtain ⟨p, hp, hopen, -⟩ := hI _ hc.round_eq
      refine ⟨p, hp, by rintro ⟨⟩, fun _ hfailed => ?_⟩
      refine .of_filtered (hopen hc.status hfailed) hc.filtered rfl rfl rfl fun n hn => ?_
      have hex : (readExchanges messages)[n]? =
          some ((ConvoExchange.unmarshal messages[n]).getD .zero) := by
        rw [readExchanges, List.getElem?_map, List.getElem?_eq_getElem hn]
        rfl
      exact ⟨_, getElem?_dropReplies hex, fun _ => length_dropReply hex⟩
  | failed _ hc =>
      cases hr
      obtain ⟨p, rfl, -⟩ := hI _ hc.round_eq
      exact ⟨_, pledgeStep_failed, fun _ => by rintro ⟨⟩, fun _ => by rintro ⟨⟩⟩
  | @answered shuffler round messages batch answers replies index t t' hlast hc _ _ hlen =>
      cases hr
      obtain ⟨p, hp, hopen, -⟩ := hI _ hc.round_eq
      refine ⟨p, hp, by rintro ⟨⟩, fun _ hfailed => ?_⟩
      have hround := hopen hc.status hfailed
      refine .of_filtered hround hc.filtered rfl rfl rfl fun n hn => ?_
      -- the kept messages come first in the batch, and there are no more of them than slots
      have hkept : n < round.numIncoming.toNat := by
        have h₁ := hc.filtered.length_valid_le
        have h₂ := hround.incoming_length
        omega
      have hreply : n < replies.length := by omega
      refine ⟨replies[n], ?_, fun h => by cases hlast.symm.trans h⟩
      rw [ConvoService.answered]
      simp only []
      rw [show (drainedRound round messages index batch).numIncoming = round.numIncoming from rfl,
        List.getElem?_take_of_lt hkept, List.getElem?_eq_getElem hreply]
  | deleted => cases hr

theorem answering_of_run {C : List Event → World σ → Event → Prop} {h : List Event} {w : World σ}
    (run : (rpcSystem box cfg next).Run C h w) (hup : w.up = true) (Round : UInt32) :
    ∀ round, w.server.convoRounds Round = some round →
      ∃ p, pledge box cfg Round h = some p ∧ Answering cfg p round :=
  pledge_invariant (fun _ _ _ _ _ hI _ hstep => Answering.step hI hstep) run hup Round

/-! ### `Get` -/

theorem ConvoService.length_replyOnion (nonce : Nonce) (size : Nat) (filler : Nat → Nat → UInt8)
    (key : BoxKey) (reply : Option Bytes) (i : Nat) :
    (replyOnion box nonce size filler key reply i).length = size := by
  cases reply <;> simp only [replyOnion]
  all_goals
    split
    · exact length_randRead _ _
    · rename_i hlen
      exact not_not.mp hlen

variable (box) in
/-- What `Get` makes of a position. -/
theorem Returning.getOnion {round : ConvoRound} (hI : Returning cfg round) (nonce : Nonce)
    (size : Nat) (filler : Nat → Nat → UInt8) {i : Nat} (hi : (i : Int) < round.numIncoming) :
    ∃ onion, ConvoService.getOnion box nonce size filler round i = .ok onion ∧
      onion.length = size ∧
      ∀ v, round.incomingIndex[i]? = some v → -1 < v →
        ∃ reply key, round.replies[v.toNat]? = some reply ∧
          round.sharedKeys[i]? = some (some key) ∧
          (cfg.lastServer = true → reply.length = sizeEncryptedMessage) ∧
          ((box.sealAfterPrecomputation reply nonce key).length = size →
            onion = box.sealAfterPrecomputation reply nonce key) := by
  have hlt : i < round.incomingIndex.length := by
    have := hI.index_length
    omega
  have hv := List.getElem?_eq_getElem hlt
  rcases hI.replied i _ hv with hneg | ⟨n, reply, key, hn, hreply, hkey, hlen⟩
  · rw [hneg] at hv
    refine ⟨ConvoService.replyOnion box nonce size filler (Block.zero 32) none i,
      ConvoService.getOnion_of_neg hv, ConvoService.length_replyOnion .., fun v hv' hpos => ?_⟩
    cases hv.symm.trans hv'
    exact absurd hpos (by decide)
  · rw [hn] at hv
    refine ⟨_, ConvoService.getOnion_of_reply hv hreply hkey, ConvoService.length_replyOnion ..,
      fun v hv' _ => ?_⟩
    cases hv.symm.trans hv'
    refine ⟨reply, key, hreply, hkey, hlen, fun hsize => ?_⟩
    simp only [ConvoService.replyOnion]
    exact if_neg (not_not.mpr hsize)

namespace Config.Before

variable {post : List String}

theorem outgoingOnionSize (hcfg : cfg.Before post) :
    cfg.outgoingOnionSize = (post.length + 1) * boxOverhead + sizeEncryptedMessage := by
  obtain ⟨pre, horder⟩ := hcfg.order
  rw [Config.outgoingOnionSize, PKI.outgoingOnionOverhead_eq horder hcfg.nodup]

/-- A reply the next server returns fits, once it is sealed. -/
theorem length_sealed_reply (hcfg : cfg.Before post) (hbox : box.Sized) {reply : Bytes}
    (hreply : post = [] ∧ reply.length = sizeEncryptedMessage ∨ ∃ s post', post = s :: post' ∧
      reply.length = cfg.pki.outgoingOnionOverhead s + sizeEncryptedMessage)
    (nonce : Nonce) (key : BoxKey) :
    (box.sealAfterPrecomputation reply nonce key).length = cfg.outgoingOnionSize := by
  rw [hbox.seal_length, hcfg.outgoingOnionSize]
  rcases hreply with ⟨rfl, hlen⟩ | ⟨s, post', rfl, hlen⟩
  · rw [hlen, List.length_nil, Nat.zero_add, Nat.one_mul, Nat.add_comm]
  · obtain ⟨pre, horder⟩ := hcfg.order
    have horder' : cfg.pki.serverOrder = (pre ++ [cfg.serverName]) ++ s :: post' := by
      rw [horder, List.append_assoc]
      rfl
    rw [hlen, PKI.outgoingOnionOverhead_eq horder' hcfg.nodup, List.length_cons,
      Nat.add_mul (post'.length + 1), Nat.one_mul, Nat.add_right_comm]

end Config.Before

variable (box) in
/-- A `Get` in the range of a closed round. -/
theorem Returning.get {round : ConvoRound} (hI : Returning cfg round) {srv : Server}
    {Round : UInt32} (hround : srv.convoRounds Round = some round)
    (hs : round.status = .roundClosed) (filler : Nat → Nat → UInt8) {offset count : Nat}
    (hle : (offset : Int) + count ≤ round.numIncoming) :
    ∃ onion : Nat → Bytes,
      ConvoService.get box cfg filler ⟨Round, offset, count⟩ srv =
        .ok ((List.range count).map onion) srv ∧
      ∀ k < count, ConvoService.getOnion box (backwardNonce Round) cfg.outgoingOnionSize filler
        round ((offset + k : Nat) : Int) = .ok (onion k) := by
  have honion : ∀ k, ∃ onion, k < count → ConvoService.getOnion box (backwardNonce Round)
      cfg.outgoingOnionSize filler round ((offset + k : Nat) : Int) = .ok onion := by
    intro k
    by_cases hk : k < count
    · obtain ⟨onion, hok, -⟩ := hI.getOnion box (backwardNonce Round)
        cfg.outgoingOnionSize filler (i := offset + k) (by omega)
      exact ⟨onion, fun _ => hok⟩
    · exact ⟨[], fun h => absurd h hk⟩
  choose onion honion using honion
  refine ⟨onion, ?_, honion⟩
  obtain ⟨hpos, hmax⟩ := hI.makes
  have hbound := hI.makes.lt
  refine ConvoService.get_of_range ⟨by omega, by omega⟩ hround hs fun k hk => ?_
  rw [← Int.natCast_add, wrapInt_natCast (by omega)]
  exact honion k hk

/-- **What `Get` returns has one length, and a reply is never replaced**, in every run, for a round
that was closed without a `Close` that failed before.  Every `Get` in its range succeeds, and
returns onions of the size the server returns.  A position whose message was kept has a reply and
a key, and gets the reply sealed under the key if the server is the last one, or if the reply is
as long as what the next server returns. -/
theorem return_sizes (hbox : box.Sized) {post : List String} (hcfg : cfg.Before post)
    (hlast : cfg.lastServer = true ↔ post = []) {h : List Event} {w : World σ}
    (run : (rpcSystem box cfg next).Run System.Any h w) (hup : w.up = true) {Round : UInt32}
    {round : ConvoRound} {p : Pledge} (hround : w.server.convoRounds Round = some round)
    (hs : round.status = .roundClosed) (hp : pledge box cfg Round h = some p)
    (hfailed : p.failed = false) (filler : Nat → Nat → UInt8) {offset count : Int}
    (hoffset : 0 ≤ offset) (hcount : 0 ≤ count) (hle : offset + count ≤ round.numIncoming) :
    ∃ onions, ConvoService.get box cfg filler ⟨Round, offset, count⟩ w.server =
        .ok onions w.server ∧ (onions.length : Int) = count ∧
      (∀ onion ∈ onions,
        onion.length = cfg.pki.outgoingOnionOverhead cfg.serverName + sizeEncryptedMessage) ∧
      ∀ (k : Nat) (v : Int), (k : Int) < count →
        round.incomingIndex[offset.toNat + k]? = some v → -1 < v →
        ∃ reply key, round.replies[v.toNat]? = some reply ∧
          round.sharedKeys[offset.toNat + k]? = some (some key) ∧
          ((post = [] ∨ ∃ s post', post = s :: post' ∧
              reply.length = cfg.pki.outgoingOnionOverhead s + sizeEncryptedMessage) →
            onions[k]? = some (box.sealAfterPrecomputation reply (backwardNonce Round) key)) := by
  obtain ⟨p', hp', hI⟩ := answering_of_run run hup Round round hround
  cases hp.symm.trans hp'
  have hreturn := hI.closed hs hfailed
  lift offset to Nat using hoffset
  lift count to Nat using hcount
  obtain ⟨onion, hget, honion⟩ := hreturn.get box hround hs filler hle
  -- what the position says of its onion, from the one lemma about a position
  have hposition : ∀ k < count, _ := fun k hk => hreturn.getOnion box
    (backwardNonce Round) cfg.outgoingOnionSize filler (i := offset + k) (by omega)
  refine ⟨_, hget, by simp, fun o ho => ?_, fun k v hk hv hpos => ?_⟩
  · obtain ⟨k, hk, rfl⟩ := List.mem_map.mp ho
    obtain ⟨o, hok, hlen, -⟩ := hposition k (List.mem_range.mp hk)
    cases (honion k (List.mem_range.mp hk)).symm.trans hok
    exact hlen
  · have hk' : k < count := Int.ofNat_lt.mp hk
    obtain ⟨o, hok, -, hreply⟩ := hposition k hk'
    cases (honion k hk').symm.trans hok
    rw [Int.toNat_natCast] at hv ⊢
    obtain ⟨reply, key, hr, hkey, hwhole, hsealed⟩ := hreply v hv hpos
    refine ⟨reply, key, hr, hkey, fun hfits => ?_⟩
    rw [List.getElem?_map, List.getElem?_range hk']
    refine congrArg some (hsealed (hcfg.length_sealed_reply hbox ?_ _ key))
    rcases hfits with hnil | hnext
    · exact .inl ⟨hnil, hwhole (hlast.mpr hnil)⟩
    · exact .inr hnext

/-- Whether round 1 is closed, without a failure, and has kept the first message of two. -/
def keepsFirst (h : List Event) (ev : Event) (w : World (List Bool)) : Bool :=
  w.up && (w.server.convoRounds 1).any (fun round => round.status = .roundClosed &&
      round.numIncoming = 2 && round.incomingIndex = [0, -1]) &&
    (pledge tagBox sampleLast 1 (h ++ [ev])).any fun p => !p.failed

/-- An onion and garbage on the last server: the first gets its reply, and the second bytes of
the same length. -/
theorem return_sizes_sample :
    ∃ h w round onions, (rpcSystem tagBox sampleLast scriptedServer).Run System.Any h w ∧
      w.server.convoRounds 1 = some round ∧ round.incomingIndex = [0, -1] ∧
      ConvoService.get tagBox sampleLast (fun _ _ => 0) ⟨1, 0, 2⟩ w.server =
        .ok onions w.server ∧
      (∀ onion ∈ onions,
        onion.length = samplePki.outgoingOnionOverhead "last" + sizeEncryptedMessage) ∧
      ∃ reply key, round.replies[0]? = some reply ∧ round.sharedKeys[0]? = some (some key) ∧
        onions[0]? = some (tagBox.sealAfterPrecomputation reply (backwardNonce 1) key) := by
  obtain ⟨h, ev, w, run, hs⟩ := run_of_lastCall (C := System.Any) (fun _ _ _ _ => trivial)
    (show lastCall tagBox sampleLast scriptedServer (fun _ _ _ => true) keepsFirst
      [.convoNewRound 1 sampleCoins, .convoOpen ⟨1, 2⟩, .convoAdd ⟨1, 0, [sampleMessage, [7]]⟩]
      (.convoClose 1 sampleShuffler) ⟨Server.start, [], true⟩ = true by decide +kernel)
  simp only [keepsFirst, Bool.and_eq_true, Option.any_eq_true, decide_eq_true_eq] at hs
  obtain ⟨⟨hup, round, hround, ⟨hclosed, hnum⟩, hindex⟩, p, hp, hfailed⟩ := hs
  have hcfg : sampleLast.Before [] := ⟨by decide, ["first"], rfl⟩
  obtain ⟨onions, hget, -, hlen, hreply⟩ := return_sizes tagBox_ideal.sized hcfg (by decide) run
    hup hround hclosed hp (by simpa using hfailed) (fun _ _ => 0) (le_refl 0)
    (by decide : (0 : Int) ≤ 2) (by simp [hnum])
  obtain ⟨reply, key, hr, hkey, hsealed⟩ := hreply 0 0 (by decide) (by simp [hindex]) (by decide)
  exact ⟨_, w, round, onions, run, hround, hindex, hget, hlen, reply, key, hr, hkey,
    hsealed (.inl rfl)⟩

end Vuvuzela
