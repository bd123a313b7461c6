import Vuvuzela.Dial.Delivery
import Vuvuzela.Source.Dialer
import Vuvuzela.Source.Entry
import Vuvuzela.Chain.Sample

/-!
# Dial — introductions, from the dialer to the bucket of the dialed

The purpose of a round of dialing, without servers, layers or order: a bucket holds the
introductions of the different exchanges that were sent for it, and the noise.  This is what the
last server returns (`introductions_filed`): no introduction is lost, repeated or put into another
bucket on the way.  The entry server picks the bucket of a client as the dialer did, so the client
finds the introduction there and opens it.
-/

namespace Vuvuzela
open Support

variable {box : NaclBox} {Round : UInt32}

/-- The introductions that some exchanges have for a bucket. -/
def introsFor (b : Nat) (exchanges : List DialExchange) : Bucket :=
  (exchanges.filter fun ex => ex.bucket.toNat = b).map fun ex => ex.encryptedIntro

theorem introsFor_append (b : Nat) (l l' : List DialExchange) :
    introsFor b (l ++ l') = introsFor b l ++ introsFor b l' := by
  rw [introsFor, List.filter_append, List.map_append]
  rfl

theorem introsFor_perm (b : Nat) {l l' : List DialExchange} (h : l.Perm l') :
    (introsFor b l).Perm (introsFor b l') :=
  (h.filter _).map _

theorem introsFor_flatMap (b : Nat) {α : Type} (f : α → List DialExchange) (l : List α) :
    introsFor b (l.flatMap f) = l.flatMap fun a => introsFor b (f a) := by
  rw [introsFor, List.filter_flatMap, List.map_flatMap]
  rfl

/-! ### What `Buckets` returns -/

/-- One step of the loop of `Buckets`, on the encoding of an exchange. -/
theorem getElem?_fileIntro {b : Nat} {buckets : List Bucket} {intros : Bucket}
    (hlen : buckets.length < 2 ^ 32) (hb : buckets[b]? = some intros) (ex : DialExchange) :
    (fileIntro buckets ex.marshal)[b]? = some (intros ++ introsFor b [ex]) := by
  have hlt := (List.getElem?_eq_some_iff.mp hb).1
  rw [fileIntro, if_neg (not_not.mpr ex.length_marshal), DialExchange.unmarshal_marshal]
  simp only []
  by_cases hb' : ex.bucket.toNat = b
  · -- the comparison is of `uint32`, and the number of buckets is not cut by it
    have hin : ¬ UInt32.ofNat buckets.length ≤ ex.bucket := by
      rw [UInt32.le_iff_toNat_le, UInt32.toNat_ofNat_of_lt' hlen, hb', Nat.not_le]
      exact hlt
    rw [if_neg hin, hb', List.getElem?_modify_eq, hb]
    simp [introsFor, hb']
  · have hnone : introsFor b [ex] = [] := by simp [introsFor, hb']
    rw [hnone, List.append_nil]
    split
    · exact hb
    · rw [List.getElem?_modify_ne _ _ hb']
      exact hb

/-- The loop of `Buckets` over the encodings of exchanges, one bucket at a time. -/
theorem getElem?_foldl_fileIntro {b : Nat} :
    ∀ (exchanges : List DialExchange) {buckets : List Bucket} {intros : Bucket},
      buckets.length < 2 ^ 32 → buckets[b]? = some intros →
      ((exchanges.map DialExchange.marshal).foldl fileIntro buckets)[b]? =
        some (intros ++ introsFor b exchanges)
  | [], _, intros, _, hb => by
      have hnone : introsFor b [] = [] := rfl
      rw [hnone, List.append_nil]
      exact hb
  | ex :: exchanges, buckets, intros, hlen, hb => by
      have hfile := getElem?_fileIntro hlen hb ex
      rw [List.map_cons, List.foldl_cons,
        getElem?_foldl_fileIntro exchanges (by rwa [DialService.length_fileIntro]) hfile,
        List.append_assoc, ← introsFor_append]
      rfl

/-- **The buckets of a round.** -/
theorem getElem?_fileIntros {cfg : Config} {b : Nat} (hb : b < cfg.dialBuckets.toNat)
    (exchanges : List DialExchange) :
    (fileIntros cfg (exchanges.map DialExchange.marshal))[b]? = some (introsFor b exchanges) := by
  have hlen : (List.replicate cfg.dialBuckets.toNat ([] : Bucket)).length < 2 ^ 32 := by
    rw [List.length_replicate]
    exact cfg.dialBuckets.toNat_lt
  rw [fileIntros, getElem?_foldl_fileIntro exchanges hlen (List.getElem?_replicate_of_lt hb)]
  rfl

/-! ### The noise of a server, bucket by bucket -/

theorem count_flatMap_replicate (b : Nat) :
    ∀ (counts : List Nat) (k : Nat),
      ((counts.zipIdx k).flatMap fun p => List.replicate p.1 p.2).count b =
        if k ≤ b then counts.getD (b - k) 0 else 0
  | [], k => by simp
  | n :: counts, k => by
      rw [List.zipIdx_cons, List.flatMap_cons, List.count_append,
        count_flatMap_replicate b counts (k + 1), List.count_replicate]
      rcases Nat.lt_trichotomy k b with h | rfl | h
      · have hsub : b - k = (b - (k + 1)) + 1 := by omega
        simp [h.ne, h.le, Nat.succ_le_of_lt h, hsub]
      · simp
      · simp [h.ne', Nat.not_le.mpr h, Nat.not_le.mpr (Nat.lt_succ_of_lt h)]

/-- `noiseCounts[b]` fake introductions are for bucket `b`. -/
theorem count_noiseBuckets (noiseCounts : List Nat) (b : Nat) :
    (noiseBuckets noiseCounts).count b = noiseCounts.getD b 0 := by
  rw [noiseBuckets, count_flatMap_replicate, if_pos (Nat.zero_le b), Nat.sub_zero]

theorem length_noiseBuckets (noiseCounts : List Nat) :
    (noiseBuckets noiseCounts).length = noiseCounts.sum := by
  have h : ∀ (counts : List Nat) (k : Nat),
      ((counts.zipIdx k).flatMap fun p => List.replicate p.1 p.2).length = counts.sum := by
    intro counts
    induction counts with
    | nil => exact fun _ => rfl
    | cons n counts ih =>
        intro k
        rw [List.zipIdx_cons, List.flatMap_cons, List.length_append, ih, List.length_replicate,
          List.sum_cons]
  exact h noiseCounts 0

theorem lt_of_mem_noiseBuckets {noiseCounts : List Nat} {b : Nat}
    (h : b ∈ noiseBuckets noiseCounts) : b < noiseCounts.length := by
  obtain ⟨p, hp, hb⟩ := List.mem_flatMap.mp h
  obtain ⟨-, rfl⟩ := List.mem_replicate.mp hb
  exact (List.mem_zipIdx' hp).1

/-- The buckets of the exchanges a server draws. -/
theorem map_bucket_dialExchanges (st : Station) :
    st.dialExchanges.map (·.bucket.toNat) = noiseBuckets (st.dialCoins.noiseCounts st.cfg) := by
  obtain ⟨counts, hcounts⟩ : ∃ counts, st.dialCoins.noiseCounts st.cfg = counts := ⟨_, rfl⟩
  have hlen : counts.length = st.cfg.dialBuckets.toNat := by
    rw [← hcounts, DialCoins.noiseCounts, List.length_map, List.length_range]
  rw [Station.dialExchanges, DialCoins.draws, hcounts, List.map_map, List.map_map,
    ← length_noiseBuckets]
  refine List.ext_getElem? fun i => ?_
  rw [List.getElem?_map]
  by_cases hi : i < (noiseBuckets counts).length
  · rw [List.getElem?_range hi, List.getElem?_eq_getElem hi]
    have hlt := lt_of_mem_noiseBuckets (List.getElem_mem hi)
    have hbound : (noiseBuckets counts)[i] < 2 ^ 32 :=
      (hlen ▸ hlt).trans st.cfg.dialBuckets.toNat_lt
    simpa [hi] using hbound
  · rw [List.getElem?_eq_none (by simpa using hi), List.getElem?_eq_none (by simpa using hi)]
    rfl

/-- The introductions a server draws for a bucket are as many as `noiseCounts` says. -/
theorem length_introsFor_dialExchanges (st : Station) {b : Nat}
    (hb : b < st.cfg.dialBuckets.toNat) :
    (introsFor b st.dialExchanges).length = st.dialCoins.counts b := by
  have hcount : (introsFor b st.dialExchanges).length =
      (st.dialExchanges.map (·.bucket.toNat)).count b := by
    rw [introsFor, List.length_map, ← List.countP_eq_length_filter, List.count, List.countP_map]
    refine List.countP_congr fun ex _ => ?_
    simp
  rw [hcount, map_bucket_dialExchanges, count_noiseBuckets, DialCoins.noiseCounts]
  simp [hb]

/-! ### The exchanges of the clients -/

/-- The exchanges inside the onions of a batch that every server opens. -/
def dialed (box : NaclBox) (Round : UInt32) (stations : List Station) (onions : List Bytes) :
    List DialExchange :=
  onions.filterMap fun onion =>
    (unwrap box sizeDialExchange (forwardNonce Round) stations onion).bind DialExchange.unmarshal

theorem DialExchange.marshal_injective : Function.Injective DialExchange.marshal := by
  intro e e' h
  have := congrArg DialExchange.unmarshal h
  rw [unmarshal_marshal, unmarshal_marshal] at this
  exact Option.some.inj this

theorem map_marshal_dialed (hbox : box.Ideal) {stations : List Station} (hline : Line box stations)
    (hne : stations ≠ []) (onions : List Bytes) :
    (dialed box Round stations onions).map DialExchange.marshal =
      onions.filterMap (unwrap box sizeDialExchange (forwardNonce Round) stations) := by
  rw [dialed, List.map_filterMap]
  refine List.filterMap_congr fun onion _ => ?_
  cases hm : unwrap box sizeDialExchange (forwardNonce Round) stations onion with
  | none => rfl
  | some m =>
      have hlen := unwrap_length hbox hline hne hm
      obtain ⟨ex, hex⟩ : ∃ ex, DialExchange.unmarshal m = some ex := by
        rw [DialExchange.unmarshal, if_neg (Nat.not_lt.mpr hlen.ge)]
        exact ⟨_, rfl⟩
      rw [Option.bind_some, hex, Option.map_some, DialExchange.marshal_of_unmarshal hlen hex]

/-- An exchange that was sealed for the chain is one of the exchanges of the batch. -/
theorem mem_dialed_of_seal (hbox : box.Ideal) {stations : List Station} (hline : Line box stations)
    {onions : List Bytes} {ex : DialExchange} {keys : Nat → BoxKey}
    (h : (Onionbox.seal box ex.marshal (forwardNonce Round) (lineKeys box stations) keys).1 ∈
      onions) : ex ∈ dialed box Round stations onions := by
  refine List.mem_filterMap.mpr ⟨_, h, ?_⟩
  rw [unwrap_seal hbox ex.length_marshal _ hline, Option.bind_some,
    DialExchange.unmarshal_marshal]

/-! ### The dialer and the dialed -/

namespace Dialer

/-- The request for a key that waits: to the bucket of the key, with an introduction sealed for
it. -/
theorem nextDialRequest_eq (box : NaclBox) (coins : DialRequestCoins) (Round : UInt32)
    {total : UInt32} (hpos : total ≠ 0) {d : Dialer} {pk : BoxKey} {rest : List BoxKey}
    (hqueue : d.userDialRequests = pk :: rest) :
    ∃ bucket, keyDialBucket pk total = some bucket ∧
      d.nextDialRequest box coins Round total =
        some (⟨Round, (Onionbox.seal box
            (DialExchange.mk bucket (d.sealIntro box coins.introKeys Round pk)).marshal
            (forwardNonce Round) d.pki.serverKeys coins.keys).1⟩,
          { d with userDialRequests := rest }) := by
  have hbucket : keyDialBucket pk total = some (uint32 (pk.1.drop 28) % total) := if_neg hpos
  refine ⟨_, hbucket, ?_⟩
  simp only [nextDialRequest, nextExchange, hqueue, hbucket]
  rfl

/-- The dialed opens the introduction of the dialer. -/
theorem openIntro_sealIntro (hbox : box.Ideal) (Round : UInt32) (a b : Dialer)
    (introKeys : Nat → BoxKey) :
    b.openIntro box Round (a.sealIntro box introKeys Round (box.publicKey b.myPrivateKey)) =
      some ⟨Round + 4, a.myPublicKey⟩ := by
  obtain ⟨onion, honion⟩ : ∃ onion, (Onionbox.seal box (a.introduction Round).marshal
    (forwardNonce Round) [box.publicKey b.myPrivateKey] introKeys).1 = onion := ⟨_, rfl⟩
  have hlen : onion.length = sizeEncryptedIntro := by
    rw [← honion, Onionbox.length_seal hbox.sized, Introduction.length_marshal]
    rfl
  have hcopy : (Block.copy sizeEncryptedIntro onion).1 = onion := by
    rw [Block.copy_take hlen.ge, List.take_of_length_le hlen.le]
  rw [openIntro, sealIntro, honion, hcopy, ← honion]
  simp only [Onionbox.seal, Block.copy_append]
  have hdrop : ((box.publicKey (introKeys 0)).1 ++ box.sealAfterPrecomputation
      (a.introduction Round).marshal (forwardNonce Round)
      (box.precompute (box.publicKey b.myPrivateKey) (introKeys 0))).drop 32 =
      box.sealAfterPrecomputation (a.introduction Round).marshal (forwardNonce Round)
        (box.precompute (box.publicKey b.myPrivateKey) (introKeys 0)) :=
    List.drop_left' (box.publicKey (introKeys 0)).2
  rw [hdrop, NaclBox.open, hbox.precompute_comm (introKeys 0), hbox.open_seal]
  exact Introduction.unmarshal_marshal _

/-- An introduction that opens is shown. -/
theorem mem_handleDialBucket {d : Dialer} {intros : Bucket} {b : Block sizeEncryptedIntro}
    {intro : Introduction} (hb : b ∈ intros) (h : d.openIntro box Round b = some intro)
    (people : Nat → List (String × BoxKey)) :
    ∃ i, introWarning (people i) intro ∈ d.handleDialBucket box people ⟨Round, intros⟩ := by
  obtain ⟨i, hi⟩ := List.mem_iff_getElem?.mp hb
  refine ⟨i, List.mem_filterMap.mpr ⟨(b, i), List.mem_zipIdx_iff_getElem?.mpr hi, ?_⟩⟩
  rw [h]
  rfl

end Dialer

/-- The bucket of a key is one of the buckets. -/
theorem keyDialBucket_lt {key : BoxKey} {total bucket : UInt32}
    (h : keyDialBucket key total = some bucket) : bucket.toNat < total.toNat := by
  rw [keyDialBucket] at h
  split at h
  · cases h
  · rename_i hne
    cases h
    rw [UInt32.toNat_mod]
    refine Nat.mod_lt _ (Nat.pos_of_ne_zero fun h0 => hne (UInt32.toNat_inj.mp ?_))
    exact h0

/-! ### The round -/

/-- Messages that are the encodings of some exchanges, in another order. -/
theorem exists_exchanges_of_perm {final : List Bytes} {exchanges : List DialExchange}
    (h : final.Perm (exchanges.map DialExchange.marshal)) :
    ∃ exchanges' : List DialExchange,
      final = exchanges'.map DialExchange.marshal ∧ exchanges'.Perm exchanges := by
  have hcomp := congrFun (congrFun (List.eq_map_comp_perm DialExchange.marshal) final) exchanges
  exact hcomp.mpr h

/-- **No introduction is lost, repeated or misfiled.**  In a round of dialing that ends well, with
`total` buckets at every server, `Buckets` on the last server returns for each bucket the
introductions of the different exchanges the clients sent for it and `noiseCounts[b]` introductions
from each server.  The entry server picks the bucket of a client as a dialer of the client's key
did; the client finds the introduction in it, and reads the dialer's key. -/
theorem introductions_filed (hbox : box.Ideal) (d : Deployment box) {total : UInt32}
    (hpos : total ≠ 0) (htotal : ∀ st ∈ d.stations, st.cfg.dialBuckets = total)
    {onions : List Bytes} {s s' : Servers d.stations}
    (hrun : dialRound (chain box d.stations) Round onions s = .ok () s')
    (hkeys : KeysApart box Round d.stations onions []) :
    ∃ buckets, lastBuckets Round d.stations s' = some buckets ∧ buckets.length = total.toNat ∧
      (∀ b < total.toNat, ∃ intros, buckets[b]? = some intros ∧
        intros.Perm (introsFor b (dialed box Round d.stations onions).dedup ++
          d.stations.flatMap fun st => introsFor b st.dialExchanges) ∧
        ∀ st ∈ d.stations, (introsFor b st.dialExchanges).length = st.dialCoins.counts b) ∧
      ∀ (alice bob : Dialer) (coins : DialRequestCoins) (rest : List BoxKey),
        alice.pki = d.pki → alice.userDialRequests = box.publicKey bob.myPrivateKey :: rest →
        ∃ request alice', alice.nextDialRequest box coins Round total = some (request, alice') ∧
          (request.onion ∈ onions →
            ∃ intros b, bucketOf total (box.publicKey bob.myPrivateKey) buckets = some intros ∧
              b ∈ intros ∧ bob.openIntro box Round b = some ⟨Round + 4, alice.myPublicKey⟩ ∧
              ∀ people, ∃ i, Dialer.introWarning (people i) ⟨Round + 4, alice.myPublicKey⟩ ∈
                bob.handleDialBucket box people ⟨Round, intros⟩) := by
  obtain ⟨last, hlast, final, hbuckets, hfinal⟩ := dialRound_delivers hbox d.stations d.line
    d.nonempty (by rw [List.append_nil]) hkeys hrun
  rw [List.filterMap_nil, List.nil_append, ← map_marshal_dialed hbox d.line d.nonempty,
    List.dedup_map_of_injective DialExchange.marshal_injective, ← List.map_append] at hfinal
  obtain ⟨exchanges, rfl, hexchanges⟩ := exists_exchanges_of_perm hfinal
  have htotal' : last.cfg.dialBuckets.toNat = total.toNat := by rw [htotal last hlast]
  have hget : ∀ b < total.toNat, (fileIntros last.cfg (exchanges.map DialExchange.marshal))[b]? =
      some (introsFor b exchanges) := by
    intro b hb
    exact getElem?_fileIntros (htotal' ▸ hb) exchanges
  refine ⟨_, hbuckets, (DialService.length_fileIntros ..).trans htotal', fun b hb => ?_, ?_⟩
  · refine ⟨_, hget b hb, ?_, fun st hst => ?_⟩
    · have hintros := introsFor_perm b hexchanges
      rwa [introsFor_append, introsFor_flatMap] at hintros
    · exact length_introsFor_dialExchanges st (by rwa [htotal st hst])
  · intro alice bob coins rest hpki hqueue
    obtain ⟨bucket, hbucket, hnext⟩ := Dialer.nextDialRequest_eq box coins Round hpos hqueue
    refine ⟨_, _, hnext, fun hmem => ?_⟩
    rw [hpki, d.serverKeys_eq] at hmem
    -- the exchange of the dialer is one of those that were filed
    have hdialed := mem_dialed_of_seal hbox d.line hmem
    have hfiled := hexchanges.mem_iff.mpr (List.mem_append_left _ (List.mem_dedup.mpr hdialed))
    have hopen := Dialer.openIntro_sealIntro hbox Round alice bob coins.introKeys
    have hin : alice.sealIntro box coins.introKeys Round (box.publicKey bob.myPrivateKey) ∈
        introsFor bucket.toNat exchanges :=
      List.mem_map.mpr ⟨_, List.mem_filter.mpr ⟨hfiled, decide_eq_true rfl⟩, rfl⟩
    refine ⟨_, _, ?_, hin, hopen, Dialer.mem_handleDialBucket hin hopen⟩
    rw [bucketOf, hbucket]
    exact hget bucket.toNat (keyDialBucket_lt hbucket)

/-- A client of the sample chain, with the keys that wait to be dialed. -/
def sampleDialer (key : UInt8) (queue : List BoxKey) : Dialer :=
  ⟨samplePki, tagBox.publicKey (sampleKey key), sampleKey key, queue⟩

def sampleDialRequestCoins (b : UInt8) : DialRequestCoins where
  introKeys := fun i => sampleKey (b + UInt8.ofNat i)
  filler := fun i => b + UInt8.ofNat i
  keys := fun i => sampleKey (b + 3 + UInt8.ofNat i)

/-- The onion of a request in round 1, with two buckets. -/
def sampleDialOnion (d : Dialer) (b : UInt8) : Bytes :=
  ((d.nextDialRequest tagBox (sampleDialRequestCoins b) 1 2).map (·.1.onion)).getD []

/-- One client dials another, the request is replayed, and a third client sends cover traffic; the
two servers add a fake introduction to each of the two buckets. -/
def sampleDialBatch : List Bytes :=
  let dial := sampleDialOnion (sampleDialer 11 [tagBox.publicKey (sampleKey 12)]) 60
  [dial, sampleDialOnion (sampleDialer 13 []) 70, dial]

theorem introductions_filed_sample :
    ∃ s', dialRound (chain tagBox sampleDeployment.stations) 1 sampleDialBatch sampleServers =
        .ok () s' ∧
      ∃ buckets intros b, lastBuckets 1 sampleDeployment.stations s' = some buckets ∧
        bucketOf 2 (tagBox.publicKey (sampleKey 12)) buckets = some intros ∧ b ∈ intros ∧
        (sampleDialer 12 []).openIntro tagBox 1 b =
          some ⟨5, tagBox.publicKey (sampleKey 11)⟩ := by
  obtain ⟨_, s', hrun⟩ := endsOk_iff.mp (show endsOk (dialRound
    (chain tagBox sampleDeployment.stations) 1 sampleDialBatch sampleServers) = true by
      decide +kernel)
  have htwo : (2 : UInt32) ≠ 0 := by decide
  obtain ⟨buckets, hbuckets, -, -, hdial⟩ := introductions_filed tagBox_ideal sampleDeployment htwo
    (by decide +kernel) hrun (by decide +kernel)
  obtain ⟨request, alice', hnext, hfound⟩ :=
    hdial (sampleDialer 11 [tagBox.publicKey (sampleKey 12)]) (sampleDialer 12 [])
      (sampleDialRequestCoins 60) [] rfl rfl
  have hmem : request.onion ∈ sampleDialBatch := by
    have honion : request.onion =
        sampleDialOnion (sampleDialer 11 [tagBox.publicKey (sampleKey 12)]) 60 := by
      rw [sampleDialOnion, hnext]
      rfl
    rw [honion]
    exact List.mem_cons_self
  obtain ⟨intros, b, hbucket, hb, hopen, -⟩ := hfound hmem
  exact ⟨s', hrun, buckets, intros, b, hbuckets, hbucket, hb, hopen⟩

end Vuvuzela
