import Vuvuzela.Convo.DeadDrops
import Vuvuzela.Convo.Handlers
import Mathlib.Logic.Equiv.Defs

/-!
# Convo — what `Close` makes of a batch

The two passes over a batch, on any batch.  The filter keeps the first message of each key and
numbers the kept positions in order (`filterIncoming_keeps_firsts`); the key of a message is its
last 8 bytes.  The last server then matches the dead drops (`deadDrops_matched`): a request alone
in its dead drop gets its own message, the first of several gets that of the second, and every
other one that of the first.  Where no dead drop is used more than twice this does not depend on
the order of the batch, and the two counts never do.
-/

namespace Vuvuzela
open Support

/-! ### The duplicate filter -/

/-- The last 8 bytes of a message. -/
def lastBytes (msg : Bytes) : Bytes := msg.drop (msg.length - 8)

/-- The key of a message spells its last 8 bytes. -/
theorem msgKey_eq_iff {m m' : Bytes} (h : 8 ≤ m.length) (h' : 8 ≤ m'.length) :
    msgKey m = msgKey m' ↔ lastBytes m = lastBytes m' := by
  have hlen : ∀ {x : Bytes}, 8 ≤ x.length → (lastBytes x).length = 8 := fun hx => by
    rw [lastBytes, List.length_drop]
    omega
  have hkey : ∀ x : Bytes, 8 ≤ x.length → (msgKey x).toNat = beNat (lastBytes x) := fun x hx => by
    have hlt := beNat_lt (lastBytes x)
    rw [hlen hx] at hlt
    rw [msgKey, uint64, ← lastBytes, List.take_of_length_le (hlen hx).le,
      UInt64.toNat_ofNat_of_lt' hlt]
  constructor
  · intro e
    refine beNat_inj ((hlen h).trans (hlen h').symm) ?_
    rw [← hkey m h, ← hkey m' h', e]
  · intro e
    rw [← UInt64.toNat_inj, hkey m h, hkey m' h', e]

/-- **The duplicate filter**, on any batch of messages of 8 bytes or more. -/
theorem filterIncoming_keeps_firsts {incoming : List (Option Bytes)}
    (hlong : ∀ m, some m ∈ incoming → 8 ≤ m.length) :
    ∃ messages index, ConvoService.filterIncoming incoming = some (messages, index) ∧
      index.length = incoming.length ∧
      (∀ i < incoming.length, index[i]? = some (-1) ↔ incoming[i]? = some none ∨
        ∃ m, incoming[i]? = some (some m) ∧ ∃ j < i, ∃ m', incoming[j]? = some (some m') ∧
          lastBytes m' = lastBytes m) ∧
      (∀ (i : Nat) (v : Int), index[i]? = some v → v ≠ -1 → 0 ≤ v ∧ v < messages.length ∧
        ∃ m, incoming[i]? = some (some m) ∧ messages[v.toNat]? = some m) ∧
      (∀ (i j : Nat) (v v' : Int), i < j → index[i]? = some v → index[j]? = some v' →
        v ≠ -1 → v' ≠ -1 → v < v') ∧
      (∀ n < messages.length, ∃ i : Nat, index[i]? = some (n : Int)) ∧
      (messages.map lastBytes).Nodup ∧
      ∀ key, key ∈ messages.map lastBytes ↔ ∃ m, some m ∈ incoming ∧ lastBytes m = key := by
  have hkeys : ∀ m, some m ∈ incoming → msgKey? m = some (msgKey m) := fun m hm =>
    if_neg (Nat.not_lt.mpr (hlong m hm))
  obtain ⟨messages, index, hfilter, hf⟩ := filterFirsts_spec hkeys
  have hget : ∀ {j : Nat} {m : Bytes}, incoming[j]? = some (some m) → 8 ≤ m.length :=
    fun hj => hlong _ (List.mem_of_getElem? hj)
  have hkept : ∀ {m : Bytes}, m ∈ messages → 8 ≤ m.length := fun hm =>
    hlong _ (hf.mem_of_valid hm)
  refine ⟨messages, index, hfilter, hf.length_index, ?_, ?_, ?_, ?_, ?_, ?_⟩
  · intro i _
    rw [hf.index_neg i]
    refine or_congr Iff.rfl (exists_congr fun m => and_congr_right fun hm => ?_)
    constructor
    · rintro ⟨j, m', hj, hm', e⟩
      exact ⟨j, hj, m', hm', (msgKey_eq_iff (hget hm') (hget hm)).mp e⟩
    · rintro ⟨j, hj, m', hm', e⟩
      exact ⟨j, m', hj, hm', (msgKey_eq_iff (hget hm') (hget hm)).mpr e⟩
  · intro i v hv hne
    obtain ⟨n, hn, rfl⟩ := (hf.index_range i v hv).resolve_left hne
    obtain ⟨m, hm, hvalid⟩ := hf.get_of_index hv
    exact ⟨Int.natCast_nonneg n, Int.ofNat_lt.mpr hn, m, hm, hvalid⟩
  · intro i j v v' hij hv hv' hne hne'
    obtain ⟨n, -, rfl⟩ := (hf.index_range i v hv).resolve_left hne
    obtain ⟨n', -, rfl⟩ := (hf.index_range j v' hv').resolve_left hne'
    exact Int.ofNat_lt.mpr (filterFirsts_increasing hfilter hij hv hv')
  · intro n hn
    obtain ⟨i, -, hi⟩ := hf.valid_index n _ (List.getElem?_eq_getElem hn)
    exact ⟨i, hi⟩
  · have hnodup := List.pairwise_map.mp hf.nodup_keys
    refine List.pairwise_map.mpr (hnodup.imp_of_mem fun hm hm' hne e => hne ?_)
    exact (msgKey_eq_iff (hkept hm) (hkept hm')).mpr e
  · intro key
    rw [List.mem_map]
    constructor
    · rintro ⟨m, hm, e⟩
      exact ⟨m, hf.mem_of_valid hm, e⟩
    · rintro ⟨m, hm, rfl⟩
      obtain ⟨m', hm', e⟩ := hf.exists_of_key hm
      exact ⟨m', hm', (msgKey_eq_iff (hkept hm') (hlong _ hm)).mp e⟩

/-- A gap, a message, the same key again, and another message. -/
def sampleIncoming : List (Option Bytes) :=
  [none, some (List.replicate 9 1), some (List.replicate 8 1), some (List.replicate 8 2)]

theorem filterIncoming_keeps_firsts_sample :
    (∀ m, some m ∈ sampleIncoming → 8 ≤ m.length) ∧
    ∃ messages index, ConvoService.filterIncoming sampleIncoming = some (messages, index) ∧
      index.length = 4 ∧ index[2]? = some (-1) ∧ (messages.map lastBytes).Nodup := by
  have hlong : ∀ m, some m ∈ sampleIncoming → 8 ≤ m.length := by
    simp [sampleIncoming]
  obtain ⟨messages, index, hfilter, hlen, hneg, -, -, -, hnodup, -⟩ :=
    filterIncoming_keeps_firsts hlong
  refine ⟨hlong, messages, index, hfilter, hlen, ?_, hnodup⟩
  exact (hneg 2 (by decide)).mpr (.inr ⟨_, rfl, 1, by decide, _, rfl, by decide⟩)

/-! ### The dead drops -/

section DeadDrops

variable {exchanges : List ConvoExchange}

/-- The reply of a request that is not alone: the message of the second request of the dead drop
for the first one, and of the first one for the others. -/
theorem dropReplies_several {q a b : Nat} {rest : List Nat} {ex : ConvoExchange}
    (hq : exchanges[q]? = some ex) (h : positions exchanges ex.deadDrop = a :: b :: rest) :
    (dropReplies exchanges)[q]? =
      some (exchanges.getD (if q = a then b else a) .zero).encryptedMessage.1 := by
  rw [getElem?_dropReplies hq, dropReply, (dropTable_spec exchanges).1, h]
  rfl

/-- The first of several requests gets the message of the second. -/
theorem dropReplies_first {q b : Nat} {ex ex' : ConvoExchange} (hq : exchanges[q]? = some ex)
    (hb : exchanges[b]? = some ex') (hdrop : ex'.deadDrop = ex.deadDrop) (hlt : q < b)
    (hnext : ∀ j ∈ positions exchanges ex.deadDrop, j = q ∨ b ≤ j) :
    (dropReplies exchanges)[q]? = some ex'.encryptedMessage.1 := by
  have hsorted := pairwise_positions exchanges ex.deadDrop
  have hqmem : q ∈ positions exchanges ex.deadDrop := mem_positions.mpr ⟨ex, hq, rfl⟩
  have hbmem : b ∈ positions exchanges ex.deadDrop := mem_positions.mpr ⟨ex', hb, hdrop⟩
  -- the positions are in order, so `q` is the first of them and `b` the second
  match hpos : positions exchanges ex.deadDrop with
  | [] => rw [hpos] at hqmem; cases hqmem
  | [x] =>
      rw [hpos, List.mem_singleton] at hqmem hbmem
      omega
  | x :: y :: rest =>
      rw [hpos] at hsorted hqmem hbmem hnext
      have hlater : ∀ j ∈ x :: y :: rest, j = x ∨ y ≤ j := by
        intro j hj
        rcases List.mem_cons.mp hj with rfl | hj
        · exact .inl rfl
        · rcases List.mem_cons.mp hj with rfl | hj
          · exact .inr (Nat.le_refl _)
          · exact .inr (List.rel_of_pairwise_cons hsorted.of_cons hj).le
      have hxy : x < y := List.rel_of_pairwise_cons hsorted List.mem_cons_self
      have hx := hnext x List.mem_cons_self
      have hy := hnext y (List.mem_cons_of_mem _ List.mem_cons_self)
      have hq' := hlater q hqmem
      have hb' := hlater b hbmem
      obtain ⟨rfl, rfl⟩ : q = x ∧ b = y := by omega
      rw [dropReplies_several hq hpos, if_pos rfl, List.getD_eq_getElem?_getD, hb]
      rfl

/-- A request that is not the first of its dead drop gets the message of the first. -/
theorem dropReplies_later {q a : Nat} {ex ex' : ConvoExchange} (hq : exchanges[q]? = some ex)
    (ha : exchanges[a]? = some ex') (hdrop : ex'.deadDrop = ex.deadDrop) (hlt : a < q)
    (hfirst : ∀ j ∈ positions exchanges ex.deadDrop, a ≤ j) :
    (dropReplies exchanges)[q]? = some ex'.encryptedMessage.1 := by
  have hsorted := pairwise_positions exchanges ex.deadDrop
  have hqmem : q ∈ positions exchanges ex.deadDrop := mem_positions.mpr ⟨ex, hq, rfl⟩
  have hamem : a ∈ positions exchanges ex.deadDrop := mem_positions.mpr ⟨ex', ha, hdrop⟩
  match hpos : positions exchanges ex.deadDrop with
  | [] => rw [hpos] at hqmem; cases hqmem
  | [x] =>
      rw [hpos, List.mem_singleton] at hqmem hamem
      omega
  | x :: y :: rest =>
      rw [hpos] at hsorted hamem hfirst
      have hxa := hfirst x List.mem_cons_self
      obtain rfl : a = x := by
        rcases List.mem_cons.mp hamem with rfl | hmem
        · rfl
        · have := List.rel_of_pairwise_cons hsorted hmem
          omega
      rw [dropReplies_several hq hpos, if_neg (by omega), List.getD_eq_getElem?_getD, ha]
      rfl

/-- The only two requests of a dead drop. -/
theorem positions_perm_pair {q q' : Nat} {d : DeadDrop} (hne : q ≠ q')
    (h : ∀ j, j ∈ positions exchanges d ↔ j = q ∨ j = q') :
    (positions exchanges d).Perm [q, q'] :=
  (List.perm_ext_iff_of_nodup (nodup_positions exchanges d) (by simp [hne])).mpr (by simpa using h)

/-- The only request of a dead drop. -/
theorem positions_eq_singleton {q : Nat} {d : DeadDrop}
    (h : ∀ j, j ∈ positions exchanges d ↔ j = q) : positions exchanges d = [q] :=
  List.perm_singleton.mp ((List.perm_ext_iff_of_nodup (nodup_positions exchanges d)
    (List.nodup_singleton q)).mpr (by simpa using h))

/-- In a dead drop that is used twice there is nobody else. -/
theorem mem_positions_of_two {q q' : Nat} {d : DeadDrop}
    (htwo : (exchanges.map (·.deadDrop)).count d ≤ 2) (hq : q ∈ positions exchanges d)
    (hq' : q' ∈ positions exchanges d) (hne : q ≠ q') (j : Nat) :
    j ∈ positions exchanges d ↔ j = q ∨ j = q' := by
  constructor
  · intro hj
    by_contra hother
    rw [not_or] at hother
    have hnodup : [q, q', j].Nodup := by simp [hne, Ne.symm hother.1, Ne.symm hother.2]
    have hsub : [q, q', j] ⊆ positions exchanges d := by simp [hq, hq', hj]
    have hlen := (hnodup.subperm hsub).length_le
    rw [length_positions] at hlen
    exact absurd (hlen.trans htwo) (by simp)
  · rintro (rfl | rfl)
    · exact hq
    · exact hq'

/-- A batch in another order: position `i` holds what position `order i` held. -/
def reordered (exchanges : List ConvoExchange) (order : Equiv.Perm (Fin exchanges.length)) :
    List ConvoExchange :=
  List.ofFn fun i => exchanges.get (order i)

section Reordered

variable (order : Equiv.Perm (Fin exchanges.length))

theorem getElem?_reordered (i : Fin exchanges.length) :
    (reordered exchanges order)[i.1]? = some (exchanges.get (order i)) := by
  rw [reordered, List.getElem?_ofFn, dif_pos i.2]

theorem mem_positions_reordered {d : DeadDrop} {j : Nat} :
    j ∈ positions (reordered exchanges order) d ↔
      ∃ i : Fin exchanges.length, j = i ∧ (order i).1 ∈ positions exchanges d := by
  have hlen : (reordered exchanges order).length = exchanges.length := by simp [reordered]
  simp only [mem_positions]
  constructor
  · rintro ⟨ex, hex, hd⟩
    have hj := (List.getElem?_eq_some_iff.mp hex).1
    rw [hlen] at hj
    rw [getElem?_reordered order ⟨j, hj⟩] at hex
    cases hex
    exact ⟨⟨j, hj⟩, rfl, _, List.getElem?_eq_getElem (order ⟨j, hj⟩).2, hd⟩
  · rintro ⟨i, rfl, ex, hex, hd⟩
    rw [List.getElem?_eq_getElem (order i).2] at hex
    cases hex
    exact ⟨_, getElem?_reordered order i, hd⟩

/-- Where no dead drop is used more than twice, the replies move with the requests. -/
theorem dropReplies_reordered (htwo : ∀ d, (exchanges.map (·.deadDrop)).count d ≤ 2)
    (i : Fin exchanges.length) :
    (dropReplies (reordered exchanges order))[i.1]? = (dropReplies exchanges)[(order i).1]? := by
  have hi := getElem?_reordered order i
  have hq : exchanges[(order i).1]? = some (exchanges.get (order i)) :=
    List.getElem?_eq_getElem (order i).2
  generalize exchanges.get (order i) = ex at hi hq
  have hqmem : (order i).1 ∈ positions exchanges ex.deadDrop := mem_positions.mpr ⟨ex, hq, rfl⟩
  by_cases halone : ∀ j ∈ positions exchanges ex.deadDrop, j = (order i).1
  · have hpos : positions exchanges ex.deadDrop = [(order i).1] :=
      positions_eq_singleton fun j => ⟨halone j, fun e => e ▸ hqmem⟩
    have hpos' : positions (reordered exchanges order) ex.deadDrop = [i.1] := by
      refine positions_eq_singleton fun j => ?_
      rw [mem_positions_reordered]
      constructor
      · rintro ⟨i', rfl, hmem⟩
        rw [order.injective (Fin.ext (halone _ hmem))]
      · rintro rfl
        exact ⟨i, rfl, hqmem⟩
    rw [dropReplies_alone hi hpos', dropReplies_alone hq hpos]
  · simp only [not_forall] at halone
    obtain ⟨q', hq', hne⟩ := halone
    obtain ⟨ex', hex', -⟩ := mem_positions.mp hq'
    have hmem := mem_positions_of_two (htwo ex.deadDrop) hqmem hq' (Ne.symm hne)
    -- the peer is where the order puts it
    obtain ⟨i', rfl⟩ : ∃ i', q' = (order i').1 :=
      ⟨order.symm ⟨q', (List.getElem?_eq_some_iff.mp hex').1⟩, by simp⟩
    have hii' : i.1 ≠ i'.1 := fun e => hne (by rw [Fin.ext e])
    have hex'' := getElem?_reordered order i'
    rw [List.getElem?_eq_getElem (order i').2] at hex'
    have hpair : (positions (reordered exchanges order) ex.deadDrop).Perm [i.1, i'.1] := by
      refine positions_perm_pair hii' fun j => ?_
      rw [mem_positions_reordered]
      constructor
      · rintro ⟨i₁, rfl, hmem₁⟩
        rcases (hmem _).mp hmem₁ with e | e
        · exact .inl (by rw [order.injective (Fin.ext e)])
        · exact .inr (by rw [order.injective (Fin.ext e)])
      · rintro (rfl | rfl)
        · exact ⟨i, rfl, hqmem⟩
        · exact ⟨i', rfl, hq'⟩
    rw [dropReplies_pair hi hex'' hii' hpair,
      dropReplies_pair hq (List.getElem?_eq_getElem (order i').2) (Ne.symm hne)
        (positions_perm_pair (Ne.symm hne) hmem)]
    rfl

end Reordered

/-- The counts do not depend on the order of the batch. -/
theorem accessCount_perm {exchanges' : List ConvoExchange} (h : exchanges'.Perm exchanges) :
    accessCount exchanges' = accessCount exchanges := by
  simp only [accessCount, (dropTable_spec _).2.1, (dropTable_spec _).2.2]
  rw [once_perm (h.map _), often_perm (h.map _)]

/-- A `Close` of the last server that succeeded. -/
theorem replies_of_close {σ : Type} {cfg : Config} (hlast : cfg.lastServer = true)
    {next : NextServer σ} {shuffler : (n : Nat) → Shuffler n} {Round : UInt32} {srv srv' : Server}
    {t t' : σ} {round : ConvoRound} {messages : List Bytes} {index : List Int}
    (hround : srv.convoRounds Round = some round) (hopen : round.status = .roundOpen)
    (hfilter : ConvoService.filterIncoming round.incoming = some (messages, index))
    (h : ConvoService.close cfg next shuffler Round (srv, t) = .ok () (srv', t')) :
    ∃ round', srv'.convoRounds Round = some round' ∧ round'.status = .roundClosed ∧
      round'.replies = dropReplies (readExchanges messages) ∧
      srv'.accessCounts = offer srv.accessCounts (accessCount (readExchanges messages)) := by
  rw [ConvoService.close_of_open cfg next shuffler hround hopen hfilter, if_pos hlast, onFst,
    ConvoService.closeLast_eq] at h
  by_cases hidle : srv.idle = true
  · rw [if_pos hidle] at h
    cases h
    exact ⟨_, Server.setConvo_self .., rfl, rfl, rfl⟩
  · rw [if_neg hidle] at h
    cases h

/-- **The dead drops of a batch**, of any length and with any dead drops. -/
theorem deadDrops_matched (exchanges : List ConvoExchange) :
    (∀ (i : Nat) (ex : ConvoExchange), exchanges[i]? = some ex →
      ((∀ j ∈ positions exchanges ex.deadDrop, j = i) →
        (dropReplies exchanges)[i]? = some ex.encryptedMessage.1) ∧
      (∀ b ex', exchanges[b]? = some ex' → ex'.deadDrop = ex.deadDrop → i < b →
        (∀ j ∈ positions exchanges ex.deadDrop, j = i ∨ b ≤ j) →
        (dropReplies exchanges)[i]? = some ex'.encryptedMessage.1) ∧
      (∀ a ex', exchanges[a]? = some ex' → ex'.deadDrop = ex.deadDrop → a < i →
        (∀ j ∈ positions exchanges ex.deadDrop, a ≤ j) →
        (dropReplies exchanges)[i]? = some ex'.encryptedMessage.1) ∧
      ∃ reply, (dropReplies exchanges)[i]? = some reply ∧ reply ≠ []) ∧
    (accessCount exchanges).singles = once (exchanges.map (·.deadDrop)) ∧
    (accessCount exchanges).doubles = often (exchanges.map (·.deadDrop)) ∧
    (∀ exchanges' : List ConvoExchange, exchanges'.Perm exchanges →
      accessCount exchanges' = accessCount exchanges) ∧
    ((∀ d, (exchanges.map (·.deadDrop)).count d ≤ 2) →
      ∀ (order : Equiv.Perm (Fin exchanges.length)) (i : Fin exchanges.length),
        (dropReplies (reordered exchanges order))[i.1]? =
          (dropReplies exchanges)[(order i).1]?) ∧
    ∀ (σ : Type) (cfg : Config) (next : NextServer σ) (shuffler : (n : Nat) → Shuffler n)
      (Round : UInt32) (srv srv' : Server) (t t' : σ) (round : ConvoRound)
      (messages : List Bytes) (index : List Int), cfg.lastServer = true →
      srv.convoRounds Round = some round → round.status = .roundOpen →
      ConvoService.filterIncoming round.incoming = some (messages, index) →
      readExchanges messages = exchanges →
      ConvoService.close cfg next shuffler Round (srv, t) = .ok () (srv', t') →
      ∃ round', srv'.convoRounds Round = some round' ∧ round'.status = .roundClosed ∧
        round'.replies = dropReplies exchanges ∧
        srv'.accessCounts = offer srv.accessCounts (accessCount exchanges) := by
  refine ⟨fun i ex hi => ⟨?_, ?_, ?_, ?_⟩, (dropTable_spec exchanges).2.1,
    (dropTable_spec exchanges).2.2, fun _ => accessCount_perm,
    fun htwo order i => dropReplies_reordered order htwo i, ?_⟩
  · intro halone
    have hmem : i ∈ positions exchanges ex.deadDrop := mem_positions.mpr ⟨ex, hi, rfl⟩
    exact dropReplies_alone hi (positions_eq_singleton fun j => ⟨halone j, fun e => e ▸ hmem⟩)
  · intro b ex' hb hdrop hlt hnext
    exact dropReplies_first hi hb hdrop hlt hnext
  · intro a ex' ha hdrop hlt hfirst
    exact dropReplies_later hi ha hdrop hlt hfirst
  · refine ⟨_, getElem?_dropReplies hi, fun hnil => ?_⟩
    have hlen := length_dropReply hi
    rw [hnil] at hlen
    cases hlen
  · rintro σ cfg next shuffler Round srv srv' t t' round messages index hlast hround hopen hfilter
      rfl hclose
    exact replies_of_close hlast hround hopen hfilter hclose

end DeadDrops

end Vuvuzela
