import Vuvuzela.Convo.Hop
import Vuvuzela.Chain.Deployment

/-!
# Convo — a batch on its way through the chain

The way of a batch through the chain, with the origin of each onion: `deliver` peels, filters,
adds noise and shuffles as the servers do, and carries the origins along.  What the last server
gets is a list of messages with their origins; the requests among them are the accepted ones.

The code does not know the origins.  `convoRound_next` says that a round that ends with replies
makes the moves `deliver` makes, and `replies_open` that the replies find the way back: where
request `i` arrives at position `q` of the last server's batch, its reply opens, layer by layer,
to the reply of position `q`.
-/

namespace Vuvuzela
open Support

variable {σ : Type} {box : NaclBox} {Round : UInt32}

/-- Where an onion of a batch comes from: the batch of requests, or a server's noise. -/
inductive Origin where
  | request (i : Nat)
  | noise
  deriving DecidableEq

def Origin.request? : Origin → Option Nat
  | .request i => some i
  | .noise => none

@[simp] theorem Origin.request?_eq_some {o : Origin} {i : Nat} :
    o.request? = some i ↔ o = .request i := by cases o <;> simp [request?]

/-- An onion or a message with its origin. -/
abbrev Tagged := Origin × Bytes

/-- The requests, numbered. -/
def requests (onions : List Bytes) : List Tagged := onions.zipIdx.map fun p => (.request p.2, p.1)

/-- What is inside an onion has the origin of the onion. -/
def tagMessage (box : NaclBox) (cfg : Config) (Round : UInt32) (e : Tagged) : Option Tagged :=
  (convoMessage box cfg Round e.2).map fun m => (e.1, m)

/-- What a server keeps of a batch. -/
def kept (box : NaclBox) (cfg : Config) (Round : UInt32) (batch : List Tagged) : List Tagged :=
  firsts (fun e => msgKey e.2) (batch.filterMap (tagMessage box cfg Round))

/-- What a server makes of a batch before it shuffles it. -/
def forwarded (box : NaclBox) (st : Station) (Round : UInt32) (batch : List Tagged) :
    List Tagged :=
  kept box st.cfg Round batch ++
    (st.convoCoins.noise box st.cfg Round).map fun onion => (.noise, onion)

/-- A batch, shuffled by a server. -/
def shuffled (st : Station) (batch : List Tagged) : List Tagged :=
  ((st.shuffler batch.length).shuffle batch).getD batch

/-- What the last server gets of a batch. -/
def deliver (box : NaclBox) (Round : UInt32) : List Station → List Tagged → List Tagged
  | [], batch => batch
  | [st], batch => kept box st.cfg Round batch
  | st :: st' :: post, batch =>
      deliver box Round (st' :: post) (shuffled st (forwarded box st Round batch))

/-- The requests of a batch, by number. -/
def numbers (batch : List Tagged) : List Nat := batch.filterMap fun e => e.1.request?

/-! ### Positions and origins -/

theorem shuffle_eq_shuffled (st : Station) (batch : List Tagged) :
    (st.shuffler batch.length).shuffle batch = some (shuffled st batch) := by
  obtain ⟨y, hy, -⟩ := (st.shuffler batch.length).shuffle_spec (x := batch) rfl
  rw [shuffled, hy]
  rfl

theorem shuffled_perm (st : Station) (batch : List Tagged) : (shuffled st batch).Perm batch := by
  obtain ⟨y, hy, hperm⟩ := (st.shuffler batch.length).shuffle_spec (x := batch) rfl
  rw [shuffled, hy]
  exact hperm

theorem kept_sublist (cfg : Config) (batch : List Tagged) :
    (kept box cfg Round batch).Sublist (batch.filterMap (tagMessage box cfg Round)) :=
  firsts_sublist _ _

theorem mem_filterMap_tag {cfg : Config} {batch : List Tagged} {e : Tagged}
    (h : e ∈ batch.filterMap (tagMessage box cfg Round)) :
    ∃ onion, (e.1, onion) ∈ batch ∧ convoMessage box cfg Round onion = some e.2 := by
  obtain ⟨⟨o, onion⟩, hmem, htag⟩ := List.mem_filterMap.mp h
  obtain ⟨m, hm, rfl⟩ := Option.map_eq_some_iff.mp htag
  exact ⟨onion, hmem, hm⟩

theorem mem_kept {cfg : Config} {batch : List Tagged} {e : Tagged}
    (h : e ∈ kept box cfg Round batch) :
    ∃ onion, (e.1, onion) ∈ batch ∧ convoMessage box cfg Round onion = some e.2 :=
  mem_filterMap_tag ((kept_sublist cfg batch).mem h)

theorem numbers_filterMap_tag (cfg : Config) :
    ∀ batch : List Tagged,
      (numbers (batch.filterMap (tagMessage box cfg Round))).Sublist (numbers batch)
  | [] => List.Sublist.slnil
  | (o, onion) :: batch => by
      have ih := numbers_filterMap_tag cfg batch
      simp only [numbers, List.filterMap_cons, tagMessage] at ih ⊢
      cases convoMessage box cfg Round onion with
      | none =>
          cases o.request? with
          | none => exact ih
          | some i => exact ih.cons _
      | some m =>
          simp only [Option.map_some, List.filterMap_cons]
          cases o.request? with
          | none => exact ih
          | some i => exact ih.cons_cons _

theorem numbers_kept (cfg : Config) (batch : List Tagged) :
    (numbers (kept box cfg Round batch)).Sublist (numbers batch) :=
  ((kept_sublist cfg batch).filterMap _).trans (numbers_filterMap_tag cfg batch)

/-- No request is taken twice by a server that forwards. -/
theorem nodup_numbers_shuffled (st : Station) {batch : List Tagged} (h : (numbers batch).Nodup) :
    (numbers (shuffled st (forwarded box st Round batch))).Nodup := by
  have hperm : (numbers (shuffled st (forwarded box st Round batch))).Perm
      (numbers (forwarded box st Round batch)) := (shuffled_perm st _).filterMap _
  rw [hperm.nodup_iff]
  have : numbers (forwarded box st Round batch) = numbers (kept box st.cfg Round batch) := by
    simp [numbers, forwarded, List.filterMap_append, List.filterMap_map,
      Origin.request?]
  rw [this]
  exact (numbers_kept st.cfg batch).nodup h

/-- A request has one position. -/
theorem position_unique {batch : List Tagged} (h : (numbers batch).Nodup) {p p' i : Nat}
    {m m' : Bytes} (hp : batch[p]? = some (.request i, m))
    (hp' : batch[p']? = some (.request i, m')) :
    p = p' := by
  rw [numbers, List.Nodup, List.pairwise_filterMap, List.pairwise_iff_getElem] at h
  obtain ⟨hlt, e⟩ := List.getElem?_eq_some_iff.mp hp
  obtain ⟨hlt', e'⟩ := List.getElem?_eq_some_iff.mp hp'
  rcases Nat.lt_trichotomy p p' with hlt₁ | rfl | hlt₁
  · exact absurd rfl (h p p' hlt hlt' hlt₁ i (by simp [e]) i (by simp [e']))
  · rfl
  · exact absurd rfl (h p' p hlt' hlt hlt₁ i (by simp [e']) i (by simp [e]))

theorem nodup_numbers_deliver :
    ∀ (stations : List Station) {batch : List Tagged}, (numbers batch).Nodup →
      (numbers (deliver box Round stations batch)).Nodup
  | [], _, h => h
  | [st], batch, h => (numbers_kept st.cfg batch).nodup h
  | st :: st' :: post, _, h =>
      nodup_numbers_deliver (st' :: post) (nodup_numbers_shuffled st h)

theorem mem_forwarded {st : Station} {batch : List Tagged} {e : Tagged}
    (h : e ∈ shuffled st (forwarded box st Round batch)) :
    e ∈ kept box st.cfg Round batch ∨
      e.1 = .noise ∧ e.2 ∈ st.convoCoins.noise box st.cfg Round := by
  rcases List.mem_append.mp ((shuffled_perm st _).mem_iff.mp h) with hk | hn
  · exact .inl hk
  · obtain ⟨onion, honion, rfl⟩ := List.mem_map.mp hn
    exact .inr ⟨rfl, honion⟩

/-- **What arrives.**  A message the last server gets was inside an onion of the batch of the same
origin, or is the exchange of a server's noise. -/
theorem mem_deliver (hbox : box.Ideal) :
    ∀ (stations : List Station), Line box stations → ∀ {batch : List Tagged} {e : Tagged},
      e ∈ deliver box Round stations batch →
      (∃ onion, (e.1, onion) ∈ batch ∧
        unwrap box sizeConvoExchange (forwardNonce Round) stations onion = some e.2) ∨
      e.1 = .noise ∧ ∃ st ∈ stations, st.cfg.lastServer = false ∧ e.2 ∈ st.convoCoins.exchanges
  | [], _, _, e, h => .inl ⟨e.2, h, rfl⟩
  | [st], _, batch, e, h => by
      obtain ⟨onion, hmem, hm⟩ := mem_kept h
      rw [convoMessage] at hm
      exact .inl ⟨onion, hmem, by simp [unwrap, hm]⟩
  | st :: st' :: post, hline, batch, e, h => by
      rcases mem_deliver hbox (st' :: post) hline.2 h with ⟨onion, hmem, hun⟩ | ⟨ho, st₁, hst, hx⟩
      · -- the onion it was in at the next server was kept here, or is noise of this server
        rcases mem_forwarded hmem with hk | ⟨ho, hn⟩
        · obtain ⟨onion', hmem', hm⟩ := mem_kept hk
          rw [convoMessage] at hm
          exact .inl ⟨onion', hmem', by rw [unwrap, hm]; exact hun⟩
        · rw [ConvoCoins.noise_eq, hline.1.nextKeys] at hn
          obtain ⟨⟨x, keys⟩, hx, rfl⟩ := List.mem_map.mp hn
          rw [unwrap_seal hbox (ConvoCoins.length_of_mem_draws hx) _ hline.2] at hun
          obtain rfl := Option.some.inj hun
          have hlast : st.cfg.lastServer = false := by simpa using hline.1.last
          exact .inr ⟨ho, st, List.mem_cons_self, hlast, List.mem_map_of_mem hx⟩
      · exact .inr ⟨ho, st₁, List.mem_cons_of_mem _ hst, hx⟩

/-! ### The code makes the moves of `deliver` -/

/-- `filterIncoming` keeps what `kept` keeps, and its index says where each onion went. -/
theorem filterIncoming_kept (hbox : box.Ideal) (cfg : Config) (Round : UInt32)
    (batch : List Tagged) :
    ∃ index,
      ConvoService.filterIncoming ((batch.map Prod.snd).map (convoMessage box cfg Round)) =
        some ((kept box cfg Round batch).map Prod.snd, index) ∧
      Filtered msgKey ((batch.map Prod.snd).map (convoMessage box cfg Round))
        ((kept box cfg Round batch).map Prod.snd) index ∧
      Filtered (fun e => msgKey e.2) (batch.map (tagMessage box cfg Round))
        (kept box cfg Round batch) index := by
  obtain ⟨messages, index, hfilter, hf⟩ :=
    filterIncoming_spec hbox cfg Round (batch.map Prod.snd)
  have hkey : ∀ e : Tagged, some e ∈ batch.map (tagMessage box cfg Round) →
      msgKey? e.2 = some (msgKey e.2) := fun e he => by
    obtain ⟨⟨o, onion⟩, -, htag⟩ := List.mem_map.mp he
    obtain ⟨m, hm, rfl⟩ := Option.map_eq_some_iff.mp htag
    rw [msgKey?, if_neg (Nat.not_lt.mpr (le_msg_length hbox hm))]
    rfl
  obtain ⟨valid, index', hfilter', hf'⟩ := filterFirsts_spec hkey
  have hvalid : valid = kept box cfg Round batch := by
    rw [hf'.valid_eq, kept, List.reduceOption, List.filterMap_map]
    rfl
  -- the loop does not look at the origins
  have hmap := filterFirsts_map msgKey? Prod.snd (batch.map (tagMessage box cfg Round)) [] [] []
  have hincoming : (batch.map (tagMessage box cfg Round)).map (Option.map Prod.snd) =
      (batch.map Prod.snd).map (convoMessage box cfg Round) := by
    simp only [List.map_map]
    refine List.map_congr_left fun e _ => ?_
    simp [tagMessage, Function.comp_def]
  rw [hincoming, hfilter', List.map_nil, Option.map_some] at hmap
  have heq := hfilter.symm.trans hmap
  simp only [Option.some.injEq, Prod.mk.injEq] at heq
  obtain ⟨rfl, rfl⟩ := heq
  subst hvalid
  exact ⟨index, hfilter, hf, hf'⟩

/-- The reply of position `p`, whose message went to position `v`. -/
theorem replyAt_of_index {index : List Int} {replies : List Bytes} {p v : Nat}
    (h : index[p]? = some (v : Int)) : replyAt index replies p = replies[v]? := by
  simp [replyAt, h]

/-- An onion is sealed for its way back when its reply has the right size. -/
theorem hopReply_of_index (hbox : box.Ideal) {st : Station} {onions replies : List Bytes}
    {index : List Int} {p v : Nat} {reply : Bytes} (h : index[p]? = some (v : Int))
    (hreply : replies[v]? = some reply)
    (hsize : reply.length + boxOverhead = st.cfg.outgoingOnionSize) :
    hopReply box st Round onions index replies p =
      box.sealAfterPrecomputation reply (backwardNonce Round)
        (convoKey box st.cfg Round (onions.getD p [])) := by
  rw [hopReply, replyAt_of_index h, hreply, ConvoService.replyOnion]
  simp [hbox.seal_length, hsize]

/-- **One hop.**  A round that ends with replies hands the next server the batch `deliver` goes
on with, and returns what comes back to where it came from. -/
theorem convoRound_next (hbox : box.Ideal) {st : Station} {next : NextServer σ}
    (hlast : st.cfg.lastServer = false) {batch : List Tagged} {replies : List Bytes}
    {s s' : Server × σ}
    (h : convoRound (serverClient box st next).next Round (batch.map Prod.snd) s =
      .ok replies s') :
    ∃ (index : List Int) (replies₁ replies₂ : List Bytes),
      Filtered (fun e => msgKey e.2) (batch.map (tagMessage box st.cfg Round))
        (kept box st.cfg Round batch) index ∧
      convoRound next Round ((shuffled st (forwarded box st Round batch)).map Prod.snd) s.2 =
        .ok replies₁ s'.2 ∧
      (st.shuffler (forwarded box st Round batch).length).unshuffle replies₁ = some replies₂ ∧
      batch.length ≤ replies₂.length ∧
      replies = (List.range batch.length).map (hopReply box st Round (batch.map Prod.snd) index
        (replies₂.take batch.length)) := by
  obtain ⟨srv, t⟩ := s
  obtain ⟨hv, hmake⟩ := convoRound_ok_inv h
  obtain ⟨index, hfilter, hf, hf'⟩ := filterIncoming_kept hbox st.cfg Round batch
  -- The code mixes bytes, `deliver` mixes bytes with their origin: the same moves on both.
  have hout : outgoing box st Round ((kept box st.cfg Round batch).map Prod.snd) =
      (forwarded box st Round batch).map Prod.snd := by
    simp [outgoing, forwarded, Function.comp_def]
  have hsh : (st.shuffler (outgoing box st Round
      ((kept box st.cfg Round batch).map Prod.snd)).length).shuffle
      (outgoing box st Round ((kept box st.cfg Round batch).map Prod.snd)) =
      some ((shuffled st (forwarded box st Round batch)).map Prod.snd) := by
    rw [hout, List.length_map, Shuffler.shuffle_map _ _ rfl, shuffle_eq_shuffled]
    rfl
  rw [convoRound_forward hv hlast hmake hfilter hf hsh] at h
  simp only [] at h
  rw [hout, List.length_map, List.length_map] at h
  -- the round ended with replies, so the calls of the next server did
  cases hnew : next.newConvoRound Round t with
  | error f t₁ => simp [hnew] at h
  | ok _ t₁ =>
      simp only [hnew] at h
      cases hrun : next.runConvoRound Round
          ((shuffled st (forwarded box st Round batch)).map Prod.snd) t₁ with
      | error f t₂ => simp [hrun] at h
      | ok replies₁ t₂ =>
          simp only [hrun] at h
          cases hun : (st.shuffler (forwarded box st Round batch).length).unshuffle replies₁ with
          | none => simp [hun] at h
          | some replies₂ =>
              simp only [hun] at h
              split at h
              · cases h
              · rename_i hlen
                cases h
                exact ⟨index, replies₁, replies₂, hf', (bind_of_ok hnew).trans hrun, hun,
                  by omega, rfl⟩

/-- **The last hop.**  A round that ends with replies answers from the dead drops what `deliver`
ends with, and sends their counts. -/
theorem convoRound_done (hbox : box.Ideal) {st : Station} {next : NextServer σ}
    (hlast : st.cfg.lastServer = true) {batch : List Tagged} {replies : List Bytes}
    {s s' : Server × σ}
    (h : convoRound (serverClient box st next).next Round (batch.map Prod.snd) s =
      .ok replies s') :
    ∃ index : List Int,
      Filtered (fun e => msgKey e.2) (batch.map (tagMessage box st.cfg Round))
        (kept box st.cfg Round batch) index ∧
      replies = (List.range batch.length).map (hopReply box st Round (batch.map Prod.snd) index
        (dropReplies (readExchanges ((kept box st.cfg Round batch).map Prod.snd)))) ∧
      s'.1.accessCounts = offer s.1.accessCounts
        (accessCount (readExchanges ((kept box st.cfg Round batch).map Prod.snd))) := by
  obtain ⟨srv, t⟩ := s
  obtain ⟨hv, hmake⟩ := convoRound_ok_inv h
  obtain ⟨index, hfilter, hf, hf'⟩ := filterIncoming_kept hbox st.cfg Round batch
  rw [convoRound_last hlast hv hmake hfilter hf, List.length_map] at h
  cases h
  exact ⟨index, hf', rfl, rfl⟩

/-! ### The replies find the way back -/

/-- Where request `i` is at position `q` of `final`, the reply opens to that of position `q`. -/
def Returns (box : NaclBox) (Round : UInt32) (stations : List Station) (final : List Tagged)
    (e : Tagged) (reply : Bytes) : Prop :=
  ∀ (i q : Nat) (m a : Bytes), e.1 = .request i → final[q]? = some (.request i, m) →
    (dropReplies (readExchanges (final.map Prod.snd)))[q]? = some a →
    a.length = sizeEncryptedMessage →
    Onionbox.open box (backwardNonce Round)
        (layerKeys box sizeConvoExchange (forwardNonce Round) stations e.2) reply = some a ∧
      reply.length = sizeEncryptedMessage + stations.length * boxOverhead

/-- A request that was kept has the index of the message it became. -/
theorem index_of_kept {cfg : Config} {batch : List Tagged} {index : List Int}
    (hf : Filtered (fun e => msgKey e.2) (batch.map (tagMessage box cfg Round))
      (kept box cfg Round batch) index)
    (hnodup : (numbers batch).Nodup) {p v i : Nat} {onion m : Bytes}
    (hp : batch[p]? = some (.request i, onion))
    (hv : (kept box cfg Round batch)[v]? = some (.request i, m)) :
    index[p]? = some (v : Int) ∧ convoMessage box cfg Round onion = some m := by
  obtain ⟨p', hp', hindex⟩ := hf.valid_index v _ hv
  rw [List.getElem?_map] at hp'
  obtain ⟨⟨o, onion'⟩, hget, htag⟩ := Option.map_eq_some_iff.mp hp'
  obtain ⟨m', hm', e⟩ := Option.map_eq_some_iff.mp htag
  obtain ⟨rfl, rfl⟩ := Prod.mk.inj e
  obtain rfl := position_unique hnodup hp hget
  rw [hp] at hget
  obtain ⟨-, rfl⟩ := Prod.mk.inj (Option.some.inj hget)
  exact ⟨hindex, hm'⟩

/-- One layer of a reply. -/
theorem hopReply_opens (hbox : box.Ideal) {st : Station} {post : List Station}
    (hplace : Place box st post) {batch : List Tagged} {replies : List Bytes} {index : List Int}
    {p v : Nat} {e : Tagged} {m reply a : Bytes} (hp : batch[p]? = some e)
    (hm : convoMessage box st.cfg Round e.2 = some m) (hindex : index[p]? = some (v : Int))
    (hreply : replies[v]? = some reply)
    (hopen : Onionbox.open box (backwardNonce Round)
      (layerKeys box sizeConvoExchange (forwardNonce Round) post m) reply = some a)
    (hsize : reply.length = sizeEncryptedMessage + post.length * boxOverhead) :
    Onionbox.open box (backwardNonce Round)
        (layerKeys box sizeConvoExchange (forwardNonce Round) (st :: post) e.2)
        (hopReply box st Round (batch.map Prod.snd) index replies p) = some a ∧
      (hopReply box st Round (batch.map Prod.snd) index replies p).length =
        sizeEncryptedMessage + (st :: post).length * boxOverhead := by
  -- the reply has the size the server checks, so it is sealed and not replaced by filler
  have hout : reply.length + boxOverhead = st.cfg.outgoingOnionSize := by
    rw [Config.outgoingOnionSize, hplace.outgoing, hsize, Nat.succ_mul]
    omega
  have hget : (batch.map Prod.snd).getD p [] = e.2 := by
    simp [List.getD_eq_getElem?_getD, hp]
  rw [hopReply_of_index hbox hindex hreply hout, hget]
  constructor
  · have hkey : (peel box st.cfg sizeConvoExchange (forwardNonce Round) e.2).1 =
        convoKey box st.cfg Round e.2 := rfl
    rw [layerKeys, Onionbox.open, hkey, hbox.open_seal]
    rw [convoMessage] at hm
    simpa [hm] using hopen
  · rw [hbox.seal_length, hsize, List.length_cons, Nat.succ_mul]
    omega

/-- **The replies find the way back**, through any number of servers. -/
theorem replies_open (hbox : box.Ideal) :
    ∀ (stations : List Station), Line box stations → stations ≠ [] →
      ∀ {batch : List Tagged}, (numbers batch).Nodup →
      ∀ {replies : List Bytes} {s s' : Servers stations},
        convoRound (chain box stations) Round (batch.map Prod.snd) s = .ok replies s' →
        List.Forall₂ (Returns box Round stations (deliver box Round stations batch)) batch replies
  | [], _, hne, _, _, _, _, _, _ => absurd rfl hne
  | [st], hline, _, batch, hnodup, replies, s, s', h => by
      obtain ⟨index, hf, rfl, -⟩ := convoRound_done hbox (hline.1.last.mpr rfl) h
      refine forall₂_iff_getElem?.mpr ⟨by simp, fun p e reply hp hreply => ?_⟩
      intro i q m a he hq ha hsize
      obtain ⟨o, onion⟩ := e
      obtain rfl : o = .request i := he
      obtain ⟨hindex, hm⟩ := index_of_kept hf hnodup hp hq
      have hlt := (List.getElem?_eq_some_iff.mp hp).1
      simp only [List.getElem?_map, List.getElem?_range hlt, Option.map_some,
        Option.some.injEq] at hreply
      subst hreply
      exact hopReply_opens hbox hline.1 hp hm hindex ha rfl (by simpa using hsize)
  | st :: st' :: post, hline, _, batch, hnodup, replies, s, s', h => by
      have hlast : st.cfg.lastServer = false := by
        have := hline.1.last
        simpa using this
      obtain ⟨index, replies₁, replies₂, hf, hrun, hun, hlen, rfl⟩ := convoRound_next hbox hlast h
      have ih := replies_open hbox (st' :: post) hline.2 (List.cons_ne_nil _ _)
        (nodup_numbers_shuffled st hnodup) hrun
      obtain ⟨w, hw, hR⟩ := (st.shuffler (forwarded box st Round batch).length).unshuffle_spec rfl
        (shuffle_eq_shuffled st _) ih
      obtain rfl : w = replies₂ := Option.some.inj (hw.symm.trans hun)
      refine forall₂_iff_getElem?.mpr ⟨by simp, fun p e reply hp hreply => ?_⟩
      intro i q m a he hq ha hsize
      obtain ⟨o, onion⟩ := e
      obtain rfl : o = .request i := he
      -- what arrives was forwarded, so it was kept here, at some position `v`
      obtain ⟨msg, hmsg, -⟩ : ∃ msg, (Origin.request i, msg) ∈
          shuffled st (forwarded box st Round batch) ∧ _ :=
        (mem_deliver hbox (st' :: post) hline.2 (List.mem_of_getElem? hq)).resolve_right (by simp)
      have hkept : (Origin.request i, msg) ∈ kept box st.cfg Round batch :=
        (mem_forwarded hmsg).resolve_right (by simp)
      obtain ⟨v, hv⟩ := List.mem_iff_getElem?.mp hkept
      have hvlt := (List.getElem?_eq_some_iff.mp hv).1
      obtain ⟨hindex, hm⟩ := index_of_kept hf hnodup hp hv
      obtain ⟨hlenR, hget⟩ := forall₂_iff_getElem?.mp hR
      have hfwd : (forwarded box st Round batch)[v]? = some (.request i, msg) := by
        rw [forwarded, List.getElem?_append_left hvlt, hv]
      have hvn : v < batch.length := by
        have := hf.length_valid_le
        rw [List.length_map] at this
        omega
      have hw' := List.getElem?_eq_getElem (show v < w.length by omega)
      obtain ⟨hopen, hsize'⟩ := hget v _ _ hfwd hw' i q m a rfl hq ha hsize
      have hlt := (List.getElem?_eq_some_iff.mp hp).1
      simp only [List.getElem?_map, List.getElem?_range hlt, Option.map_some,
        Option.some.injEq] at hreply
      subst hreply
      have htake : (w.take batch.length)[v]? = some w[v] := by
        rw [List.getElem?_take_of_lt hvn, hw']
      exact hopReply_opens hbox hline.1 hp hm hindex htake hopen hsize'

end Vuvuzela
