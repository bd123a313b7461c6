import Vuvuzela.Dial.Hop
import Vuvuzela.Chain.Deployment

/-!
# Dial — a batch on its way through the chain

The order of a batch means nothing to the dialing service, so its way through the chain is told up
to order, with the messages of the clients apart from the noise.  At each server the messages of
the clients lose their repetitions and the noise grows by the noise of the server.  Where no two
different messages a server finds share their key (`KeysApart`), nothing else is lost: a round
that ends well leaves on the last server the exchanges of the clients, each once, and all that the
servers drew, whatever the orders of the `Add` calls and the shuffles were
(`dialRound_delivers`).
-/

namespace Vuvuzela
open Support

variable {box : NaclBox} {Round : UInt32}

/-- The messages a server finds in a batch. -/
def dialMessages (box : NaclBox) (st : Station) (Round : UInt32) (batch : List Bytes) :
    List Bytes :=
  batch.filterMap (dialMessage box st.cfg Round)

/-- No two different messages a server finds share their last 8 bytes, at any server on the way.
Two messages of clients are different where their bytes are; a message of noise is different from
every other message. -/
def KeysApart (box : NaclBox) (Round : UInt32) :
    List Station → (clients noise : List Bytes) → Prop
  | [], _, _ => True
  | st :: post, clients, noise =>
      (∀ m ∈ dialMessages box st Round clients, ∀ m' ∈ dialMessages box st Round clients,
        msgKey m = msgKey m' → m = m') ∧
      ((dialMessages box st Round noise).map msgKey).Nodup ∧
      (∀ m ∈ dialMessages box st Round clients, ∀ n ∈ dialMessages box st Round noise,
        msgKey m ≠ msgKey n) ∧
      KeysApart box Round post (dialMessages box st Round clients).dedup
        (dialMessages box st Round noise ++ st.dialCoins.noise box st.cfg Round)

instance decidableKeysApart (box : NaclBox) (Round : UInt32) :
    ∀ (stations : List Station) (clients noise : List Bytes),
      Decidable (KeysApart box Round stations clients noise)
  | [], _, _ => .isTrue trivial
  | st :: post, clients, noise =>
      have := decidableKeysApart box Round post (dialMessages box st Round clients).dedup
        (dialMessages box st Round noise ++ st.dialCoins.noise box st.cfg Round)
      inferInstanceAs (Decidable (_ ∧ _ ∧ _ ∧ _))

/-! ### One server -/

theorem dedup_perm_of_mem_iff {α : Type} [DecidableEq α] {l l' : List α}
    (h : ∀ a, a ∈ l ↔ a ∈ l') : l.dedup.Perm l'.dedup := by
  rw [List.perm_ext_iff_of_nodup (List.nodup_dedup l) (List.nodup_dedup l')]
  intro a
  rw [List.mem_dedup, List.mem_dedup]
  exact h a

/-- The filter of a server drops the repetitions of the clients and nothing else. -/
theorem firsts_perm_of_keysApart {st : Station} {post : List Station}
    {clients noise incoming : List Bytes} (hkeys : KeysApart box Round (st :: post) clients noise)
    (hincoming : incoming.Perm
      (dialMessages box st Round clients ++ dialMessages box st Round noise)) :
    (firsts msgKey incoming).Perm
      ((dialMessages box st Round clients).dedup ++ dialMessages box st Round noise) := by
  obtain ⟨hclients, hnoise, hapart, -⟩ := hkeys
  -- equal keys: both messages of clients, or both noise, and each of these has its own clause
  have hinj : ∀ m ∈ incoming, ∀ m' ∈ incoming, msgKey m = msgKey m' → m = m' := by
    intro m hm m' hm' hkey
    rcases List.mem_append.mp (hincoming.mem_iff.mp hm) with hm | hm
    · rcases List.mem_append.mp (hincoming.mem_iff.mp hm') with hm' | hm'
      · exact hclients m hm m' hm' hkey
      · exact absurd hkey (hapart m hm m' hm')
    · rcases List.mem_append.mp (hincoming.mem_iff.mp hm') with hm' | hm'
      · exact absurd hkey.symm (hapart m' hm' m hm)
      · exact List.inj_on_of_nodup_map hnoise hm hm' hkey
  have hnodup : ((dialMessages box st Round clients).dedup ++
      dialMessages box st Round noise).Nodup := by
    refine List.nodup_append'.mpr ⟨List.nodup_dedup _, hnoise.of_map msgKey, fun m hm hm' => ?_⟩
    exact hapart m (List.mem_dedup.mp hm) m hm' rfl
  refine (firsts_perm_dedup hinj).trans (hincoming.dedup.trans ?_)
  rw [List.perm_ext_iff_of_nodup (List.nodup_dedup _) hnodup]
  intro m
  rw [List.mem_dedup, List.mem_append, List.mem_append, List.mem_dedup]

/-- **Step lemma.**  The batch a server passes on, or stores: the different messages of the
clients, the noise it found and its own. -/
theorem dialBatch_perm {st : Station} {post : List Station}
    {onions clients noise incoming shuffled : List Bytes}
    (hkeys : KeysApart box Round (st :: post) clients noise)
    (hbatch : onions.Perm (clients ++ noise))
    (hincoming : incoming.Perm (onions.filterMap (dialMessage box st.cfg Round)))
    (hshuffled : shuffled.Perm (firsts msgKey incoming ++ st.dialCoins.noise box st.cfg Round)) :
    shuffled.Perm ((dialMessages box st Round clients).dedup ++
      (dialMessages box st Round noise ++ st.dialCoins.noise box st.cfg Round)) := by
  have hmessages := hincoming.trans (hbatch.filterMap _)
  rw [List.filterMap_append] at hmessages
  have hkept := firsts_perm_of_keysApart hkeys hmessages
  rw [← List.append_assoc]
  exact hshuffled.trans (hkept.append_right _)

/-! ### The noise -/

/-- The exchanges a server draws, with the private keys of their layers. -/
def DialCoins.draws (cfg : Config) (coins : DialCoins) : List (DialExchange × (Nat → BoxKey)) :=
  (List.range (coins.noiseCounts cfg).sum).map fun i =>
    (⟨UInt32.ofNat ((noiseBuckets (coins.noiseCounts cfg)).getD i 0),
        Block.copy sizeEncryptedIntro (randRead (coins.intro i).payload sizeEncryptedIntro)⟩,
      (coins.intro i).keys)

/-- The exchanges a server draws. -/
def Station.dialExchanges (st : Station) : List DialExchange :=
  (st.dialCoins.draws st.cfg).map Prod.fst

theorem introExchange_eq_marshal (bucket : Nat) (coins : FakeCoins) :
    introExchange bucket coins = (DialExchange.mk (UInt32.ofNat bucket)
      (Block.copy sizeEncryptedIntro (randRead coins.payload sizeEncryptedIntro))).marshal := by
  have hlen : sizeEncryptedIntro ≤ (randRead coins.payload sizeEncryptedIntro).length := by simp
  rw [introExchange, DialExchange.marshal, Block.copy_take hlen, List.take_of_length_le (by simp)]
  rfl

/-- The noise of a server: its draws, sealed for the servers after it. -/
theorem noise_eq_draws {st : Station} {post : List Station} (hplace : Place box st post) :
    st.dialCoins.noise box st.cfg Round = (st.dialCoins.draws st.cfg).map fun p =>
      (Onionbox.seal box p.1.marshal (forwardNonce Round) (lineKeys box post) p.2).1 := by
  rw [DialCoins.noise, fillWithFakeIntroductions_eq, List.length_replicate, hplace.nextKeys,
    DialCoins.draws, List.map_map]
  refine List.map_congr_left fun i _ => ?_
  rw [fakeOnion, introExchange_eq_marshal]
  rfl

/-- Inside the noise of a server are the exchanges it drew. -/
theorem filterMap_unwrap_noise (hbox : box.Ideal) {st : Station} {post : List Station}
    (hline : Line box (st :: post)) :
    (st.dialCoins.noise box st.cfg Round).filterMap
        (unwrap box sizeDialExchange (forwardNonce Round) post) =
      st.dialExchanges.map DialExchange.marshal := by
  rw [noise_eq_draws hline.1, List.filterMap_map, Station.dialExchanges, List.map_map,
    ← List.filterMap_eq_map]
  refine List.filterMap_congr fun p _ => ?_
  exact unwrap_seal hbox p.1.length_marshal _ hline.2 p.2

theorem filterMap_unwrap_cons (st : Station) (post : List Station) (batch : List Bytes) :
    batch.filterMap (unwrap box sizeDialExchange (forwardNonce Round) (st :: post)) =
      (batch.filterMap (dialMessage box st.cfg Round)).filterMap
        (unwrap box sizeDialExchange (forwardNonce Round) post) :=
  List.filterMap_filterMap.symm

/-! ### The whole chain -/

/-- What `Buckets` returns on the last server of a chain. -/
def lastBuckets (Round : UInt32) : (stations : List Station) → Servers stations →
    Option (List Bucket)
  | [], _ => none
  | [st], s =>
      match DialService.buckets st.cfg Round s.1 with
      | .ok buckets _ => some buckets
      | .error _ _ => none
  | _ :: st' :: post, s => lastBuckets Round (st' :: post) s.2

/-- The exchanges of the clients do not change when a server takes its layer off. -/
theorem dedup_filterMap_dialMessages (st : Station) (post : List Station) (clients : List Bytes) :
    ((dialMessages box st Round clients).dedup.filterMap
        (unwrap box sizeDialExchange (forwardNonce Round) post)).dedup.Perm
      (clients.filterMap
        (unwrap box sizeDialExchange (forwardNonce Round) (st :: post))).dedup := by
  refine dedup_perm_of_mem_iff fun x => ?_
  rw [filterMap_unwrap_cons]
  simp only [dialMessages, List.mem_filterMap, List.mem_dedup]

/-- The noise a server passes on: what is inside the noise it found, and what it drew. -/
theorem filterMap_noise_append (hbox : box.Ideal) (Round : UInt32) {st : Station}
    {post : List Station} (hline : Line box (st :: post)) (noise : List Bytes) :
    (dialMessages box st Round noise ++ st.dialCoins.noise box st.cfg Round).filterMap
        (unwrap box sizeDialExchange (forwardNonce Round) post) =
      noise.filterMap (unwrap box sizeDialExchange (forwardNonce Round) (st :: post)) ++
        st.dialExchanges.map DialExchange.marshal := by
  rw [List.filterMap_append, filterMap_unwrap_noise hbox hline, filterMap_unwrap_cons]
  rfl

/-- **Run lemma.**  What a round that ends well leaves on the last server, up to order: the
different exchanges of the clients, those in the noise, and those the servers drew. -/
theorem dialRound_delivers (hbox : box.Ideal) :
    ∀ (stations : List Station), Line box stations → stations ≠ [] →
      ∀ {onions clients noise : List Bytes} {s s' : Servers stations},
      onions.Perm (clients ++ noise) → KeysApart box Round stations clients noise →
      dialRound (chain box stations) Round onions s = .ok () s' →
      ∃ st ∈ stations, ∃ final, lastBuckets Round stations s' = some (fileIntros st.cfg final) ∧
        final.Perm
          ((clients.filterMap (unwrap box sizeDialExchange (forwardNonce Round) stations)).dedup ++
            (noise.filterMap (unwrap box sizeDialExchange (forwardNonce Round) stations) ++
              (stations.flatMap Station.dialExchanges).map DialExchange.marshal))
  | [], _, hne, _, _, _, _, _, _, _, _ => absurd rfl hne
  | [st], hline, _, onions, clients, noise, s, s', hbatch, hkeys, hrun => by
      obtain ⟨incoming, final, hincoming, hfinal, hend⟩ := dialRound_eq_ok hrun
      have hlast : st.cfg.lastServer = true := hline.1.last.mpr rfl
      rw [if_pos hlast] at hend
      refine ⟨st, List.mem_singleton_self st, final, ?_, ?_⟩
      · rw [lastBuckets, DialService.buckets_of_closed hlast hend]
      · -- the layers are off: what is inside a message is the message
        have hclients : (dialMessages box st Round clients).dedup.Perm
            (clients.filterMap (unwrap box sizeDialExchange (forwardNonce Round) [st])).dedup := by
          rw [filterMap_unwrap_cons]
          exact List.Perm.of_eq (congrArg List.dedup List.filterMap_some.symm)
        have hnoise := filterMap_noise_append hbox Round hline noise
        rw [show unwrap box sizeDialExchange (forwardNonce Round) [] = some from rfl,
          List.filterMap_some] at hnoise
        have hperm := dialBatch_perm hkeys hbatch hincoming hfinal
        rw [hnoise] at hperm
        rw [List.flatMap_singleton]
        exact hperm.trans (hclients.append_right _)
  | st :: st' :: post, hline, _, onions, clients, noise, s, s', hbatch, hkeys, hrun => by
      obtain ⟨incoming, shuffled, hincoming, hshuffled, hend⟩ := dialRound_eq_ok hrun
      have hlast : ¬ st.cfg.lastServer = true := by
        intro h
        cases hline.1.last.mp h
      rw [if_neg hlast] at hend
      -- the server's own noise joins the noise of the batch, the clients stay the clients
      obtain ⟨last, hmem, final, hbuckets, hfinal⟩ := dialRound_delivers hbox (st' :: post) hline.2
        (List.cons_ne_nil _ _) (dialBatch_perm hkeys hbatch hincoming hshuffled) hkeys.2.2.2 hend
      refine ⟨last, List.mem_cons_of_mem _ hmem, final, hbuckets, hfinal.trans ?_⟩
      have hdrawn : (st :: st' :: post).flatMap Station.dialExchanges =
          st.dialExchanges ++ (st' :: post).flatMap Station.dialExchanges := rfl
      rw [filterMap_noise_append hbox Round hline, hdrawn, List.map_append, List.append_assoc]
      exact (dedup_filterMap_dialMessages st (st' :: post) clients).append_right _

end Vuvuzela
