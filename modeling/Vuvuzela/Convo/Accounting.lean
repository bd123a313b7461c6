import Vuvuzela.Convo.Exchange

/-!
# Convo — the noise in the counts of the last server

Where the draws are fresh and no two messages of a batch are confused, every noise onion arrives:
what the last server gets of the noise is the exchanges the servers before it drew
(`noise_arrives`).  Its counts are then those of the accepted requests plus the noise
(`accessCounts_eq`).
-/

namespace Vuvuzela
open Support

variable {box : NaclBox} {Round : UInt32}

def Origin.isNoise : Origin → Bool
  | .request _ => false
  | .noise => true

/-- What of a batch is noise. -/
def noiseIn (batch : List Tagged) : List Bytes :=
  (batch.filter fun e => e.1.isNoise).map Prod.snd

/-- The exchanges drawn by all servers but the last. -/
def drawnExchanges (stations : List Station) : List Bytes :=
  stations.dropLast.flatMap fun st => st.convoCoins.exchanges

/-- No two different messages a server finds in its batch share their last 8 bytes, at any server
on the way. -/
def Distinguished (box : NaclBox) (Round : UInt32) : List Station → List Tagged → Prop
  | [], _ => True
  | st :: post, batch =>
      (∀ e ∈ batch, ∀ e' ∈ batch, ∀ m ∈ convoMessage box st.cfg Round e.2,
        ∀ m' ∈ convoMessage box st.cfg Round e'.2, msgKey m = msgKey m' → m = m') ∧
      Distinguished box Round post (shuffled st (forwarded box st Round batch))

instance (box : NaclBox) (Round : UInt32) :
    ∀ (stations : List Station) (batch : List Tagged),
      Decidable (Distinguished box Round stations batch)
  | [], _ => .isTrue trivial
  | st :: post, batch =>
      have := instDecidableDistinguished box Round post (shuffled st (forwarded box st Round batch))
      inferInstanceAs (Decidable (_ ∧ _))

/-! ### The noise arrives -/

theorem noiseIn_append (b b' : List Tagged) : noiseIn (b ++ b') = noiseIn b ++ noiseIn b' := by
  simp [noiseIn]

theorem noiseIn_perm {b b' : List Tagged} (h : b.Perm b') : (noiseIn b).Perm (noiseIn b') :=
  (h.filter _).map _

theorem noiseIn_noise (l : List Bytes) : noiseIn (l.map fun onion => (.noise, onion)) = l := by
  simp [noiseIn, List.filter_map, Function.comp_def, Origin.isNoise]

/-- The noise among the messages of a batch is what is inside the noise. -/
theorem noiseIn_filterMap (cfg : Config) (batch : List Tagged) :
    noiseIn (batch.filterMap (tagMessage box cfg Round)) =
      (noiseIn batch).filterMap (convoMessage box cfg Round) := by
  induction batch with
  | nil => rfl
  | cons e batch ih =>
      obtain ⟨o, onion⟩ := e
      simp only [noiseIn, tagMessage, List.filterMap_cons] at ih ⊢
      cases o with
      | request i => cases convoMessage box cfg Round onion <;> simpa [Origin.isNoise] using ih
      | noise =>
          cases h : convoMessage box cfg Round onion <;>
            simpa [Origin.isNoise, h] using ih

/-- The draws of noise, sealed for the servers of a line. -/
def sealDraws (box : NaclBox) (Round : UInt32) (stations : List Station)
    (draws : List (Bytes × (Nat → BoxKey))) : List Bytes :=
  draws.map fun p => (Onionbox.seal box p.1 (forwardNonce Round) (lineKeys box stations) p.2).1

/-- What a server finds in the noise of a batch: the same draws, with keys of one layer less. -/
def innerDraws (draws : List (Bytes × (Nat → BoxKey))) : List (Bytes × (Nat → BoxKey)) :=
  draws.map fun p => (p.1, fun i => p.2 (i + 1))

theorem map_fst_innerDraws (draws : List (Bytes × (Nat → BoxKey))) :
    (innerDraws draws).map Prod.fst = draws.map Prod.fst := by
  simp [innerDraws, Function.comp_def]

/-- The draws have the size of an exchange. -/
def Sized (draws : List (Bytes × (Nat → BoxKey))) : Prop :=
  ∀ p ∈ draws, p.1.length = sizeConvoExchange

theorem Sized.inner {draws : List (Bytes × (Nat → BoxKey))} (h : Sized draws) :
    Sized (innerDraws draws) := fun p hp => by
  obtain ⟨q, hq, rfl⟩ := List.mem_map.mp hp
  exact h q hq

theorem filterMap_sealDraws (hbox : box.Ideal) {st : Station} {post : List Station}
    (hplace : Place box st post) :
    ∀ {draws : List (Bytes × (Nat → BoxKey))}, Sized draws →
      (sealDraws box Round (st :: post) draws).filterMap (convoMessage box st.cfg Round) =
        sealDraws box Round post (innerDraws draws)
  | [], _ => rfl
  | p :: draws, h => by
      have hm : convoMessage box st.cfg Round (Onionbox.seal box p.1 (forwardNonce Round)
          (lineKeys box (st :: post)) p.2).1 = some (Onionbox.seal box p.1 (forwardNonce Round)
            (lineKeys box post) fun i => p.2 (i + 1)).1 :=
        congrArg Prod.snd (peel_seal hbox hplace (h p List.mem_cons_self) (forwardNonce Round) p.2)
      have ih := filterMap_sealDraws hbox hplace fun q hq => h q (List.mem_cons_of_mem p hq)
      exact (List.filterMap_cons_some hm).trans (congrArg _ ih)

/-- The exchange inside noise that was sealed for a line. -/
theorem unwrap_of_mem_sealDraws (hbox : box.Ideal) {stations : List Station}
    (hline : Line box stations) {draws : List (Bytes × (Nat → BoxKey))} (hsize : Sized draws)
    {m : Bytes} (hm : m ∈ sealDraws box Round stations draws) :
    ∃ x ∈ draws.map Prod.fst,
      unwrap box sizeConvoExchange (forwardNonce Round) stations m = some x := by
  obtain ⟨p, hp, rfl⟩ := List.mem_map.mp hm
  exact ⟨p.1, List.mem_map_of_mem hp, unwrap_seal hbox (hsize p hp) _ hline _⟩

/-- Noise with different exchanges is different at every layer. -/
theorem nodup_sealDraws (hbox : box.Ideal) {stations : List Station} (hline : Line box stations)
    {draws : List (Bytes × (Nat → BoxKey))} (hsize : Sized draws)
    (hnodup : (draws.map Prod.fst).Nodup) : (sealDraws box Round stations draws).Nodup := by
  refine List.Nodup.of_map (unwrap box sizeConvoExchange (forwardNonce Round) stations) ?_
  have : (sealDraws box Round stations draws).map
      (unwrap box sizeConvoExchange (forwardNonce Round) stations) =
      (draws.map Prod.fst).map some := by
    simp only [sealDraws, List.map_map]
    exact List.map_congr_left fun p hp => unwrap_seal hbox (hsize p hp) _ hline _
  rw [this]
  exact hnodup.map (Option.some_injective _)

/-- One server keeps all noise: no earlier message has the key of a noise message. -/
theorem noiseIn_kept (hbox : box.Ideal) {st : Station} {post : List Station}
    (hline : Line box (st :: post)) {batch : List Tagged}
    {draws : List (Bytes × (Nat → BoxKey))} (hsize : Sized draws)
    (hnoise : (noiseIn batch).Perm (sealDraws box Round (st :: post) draws))
    (hnodup : (draws.map Prod.fst).Nodup)
    (hfresh : ∀ i onion x, (Origin.request i, onion) ∈ batch →
      unwrap box sizeConvoExchange (forwardNonce Round) (st :: post) onion = some x →
      x ∉ draws.map Prod.fst)
    (hdist : Distinguished box Round (st :: post) batch) :
    (noiseIn (kept box st.cfg Round batch)).Perm (sealDraws box Round post (innerDraws draws)) := by
  obtain ⟨M, hM⟩ : ∃ M, batch.filterMap (tagMessage box st.cfg Round) = M := ⟨_, rfl⟩
  have hmem : ∀ e ∈ M, ∃ onion, (e.1, onion) ∈ batch ∧
      convoMessage box st.cfg Round onion = some e.2 :=
    fun e he => mem_filterMap_tag (hM ▸ he)
  have hMnoise : (noiseIn M).Perm (sealDraws box Round post (innerDraws draws)) := by
    rw [← hM, noiseIn_filterMap, ← filterMap_sealDraws hbox hline.1 hsize]
    exact hnoise.filterMap _
  have hdiff : M.Pairwise fun a b => a.1.isNoise = true → b.1.isNoise = true → a.2 ≠ b.2 := by
    have h := hMnoise.nodup_iff.mpr (nodup_sealDraws hbox hline.2 hsize.inner
      (by rw [map_fst_innerDraws]; exact hnodup))
    rw [noiseIn, List.Nodup, List.pairwise_map, List.pairwise_filter] at h
    exact h
  have hkeys : M.Pairwise fun a b => b.1.isNoise = true → msgKey a.2 ≠ msgKey b.2 := by
    refine hdiff.imp_of_mem fun {a b} ha hb hab hbn hkey => ?_
    obtain ⟨onion, ho, hm⟩ := hmem a ha
    obtain ⟨onion', ho', hm'⟩ := hmem b hb
    have heq : a.2 = b.2 := hdist.1 _ ho _ ho' _ hm _ hm' hkey
    obtain ⟨o, m⟩ := a
    cases o with
    | noise => exact hab rfl hbn heq
    | request i =>
        -- a request that is noise inside would arrive at the dead drop of the noise
        have hin : b.2 ∈ noiseIn M := List.mem_map_of_mem (List.mem_filter.mpr ⟨hb, hbn⟩)
        obtain ⟨x, hx, hun⟩ :=
          unwrap_of_mem_sealDraws hbox hline.2 hsize.inner (hMnoise.mem_iff.mp hin)
        rw [map_fst_innerDraws] at hx
        refine hfresh i onion x ho ?_ hx
        rw [convoMessage] at hm
        rw [unwrap, hm, Option.bind_some, heq]
        exact hun
  have hkept : noiseIn (kept box st.cfg Round batch) = noiseIn M := by
    rw [noiseIn, kept, hM, filter_firsts hkeys, noiseIn]
  rw [hkept]
  exact hMnoise

/-- **The noise arrives.** -/
theorem noise_arrives (hbox : box.Ideal) :
    ∀ (stations : List Station), Line box stations → stations ≠ [] →
      ∀ {batch : List Tagged} {draws : List (Bytes × (Nat → BoxKey))}, Sized draws →
      (noiseIn batch).Perm (sealDraws box Round stations draws) →
      (draws.map Prod.fst ++ drawnExchanges stations).Nodup →
      (∀ i onion x, (Origin.request i, onion) ∈ batch →
        unwrap box sizeConvoExchange (forwardNonce Round) stations onion = some x →
        x ∉ draws.map Prod.fst ++ drawnExchanges stations) →
      Distinguished box Round stations batch →
      (noiseIn (deliver box Round stations batch)).Perm
        (draws.map Prod.fst ++ drawnExchanges stations)
  | [], _, hne, _, _, _, _, _, _, _ => absurd rfl hne
  -- Induction on the servers still to come; `draws` is what the noise in the batch was sealed
  -- from, and grows by what each server draws itself.
  | [st], hline, _, batch, draws, hsize, hnoise, hnodup, hfresh, hdist => by
      have hdrawn : drawnExchanges [st] = [] := rfl
      rw [hdrawn, List.append_nil] at hnodup hfresh ⊢
      have h := noiseIn_kept hbox hline hsize hnoise hnodup hfresh hdist
      have hfst : sealDraws box Round [] (innerDraws draws) = draws.map Prod.fst := by
        rw [← map_fst_innerDraws]
        rfl
      rw [hfst] at h
      exact h
  | st :: st' :: post, hline, _, batch, draws, hsize, hnoise, hnodup, hfresh, hdist => by
      have hdrawn : drawnExchanges (st :: st' :: post) =
          st.convoCoins.exchanges ++ drawnExchanges (st' :: post) := rfl
      rw [hdrawn, ← List.append_assoc] at hnodup hfresh ⊢
      have hkept := noiseIn_kept hbox hline hsize hnoise
        (List.Nodup.of_append_left (List.Nodup.of_append_left hnodup))
        (fun i onion x hmem hun hx => hfresh i onion x hmem hun
          (List.mem_append_left _ (List.mem_append_left _ hx))) hdist
      have hfst : ((innerDraws draws ++ st.convoCoins.draws).map Prod.fst) =
          draws.map Prod.fst ++ st.convoCoins.exchanges := by
        rw [List.map_append, map_fst_innerDraws]
        rfl
      have hnext : (noiseIn (shuffled st (forwarded box st Round batch))).Perm
          (sealDraws box Round (st' :: post) (innerDraws draws ++ st.convoCoins.draws)) := by
        refine (noiseIn_perm (shuffled_perm st _)).trans ?_
        rw [forwarded, noiseIn_append, noiseIn_noise, ConvoCoins.noise_eq, hline.1.nextKeys,
          sealDraws, List.map_append]
        exact hkept.append_right _
      have hsize' : Sized (innerDraws draws ++ st.convoCoins.draws) := fun p hp =>
        (List.mem_append.mp hp).elim (hsize.inner p) ConvoCoins.length_of_mem_draws
      have ih := noise_arrives hbox (st' :: post) hline.2 (List.cons_ne_nil _ _) hsize' hnext
        (by rw [hfst]; exact hnodup) (fun i m x hmem hun => ?_) hdist.2
      · rw [hfst] at ih
        exact ih
      · -- a request the next server gets was inside a request of this batch
        obtain ⟨onion, hb, hm⟩ := mem_kept ((mem_forwarded hmem).resolve_right (by simp))
        rw [hfst]
        rw [convoMessage] at hm
        refine hfresh i onion x hb ?_
        rw [unwrap, hm]
        exact hun

/-! ### The dead drops of the noise -/

namespace ConvoCoins

variable (coins : ConvoCoins)

/-- The dead drops drawn for the fake singles. -/
def singleDrops : List DeadDrop :=
  (List.range coins.singles).map fun i => Block.copy 16 (singleExchange (coins.single i))

/-- The dead drops drawn for the fake doubles, one for each pair. -/
def doubleDrops : List DeadDrop :=
  (List.range (coins.numFakeDoubles / 2)).map fun i =>
    Block.copy 16 (doubleExchanges (coins.double i)).1

/-- The dead drops drawn for the noise. -/
def drawnDrops : List DeadDrop := coins.singleDrops ++ coins.doubleDrops

theorem copy_doubleExchanges (c : FakeCoins × FakeCoins) :
    Block.copy 16 (doubleExchanges c).2 = Block.copy 16 (doubleExchanges c).1 := by
  have hlen : ((randRead c.1.payload sizeConvoExchange).take 16).length = 16 := by
    simp [sizeConvoExchange, sizeEncryptedMessage, sizeMessage, boxOverhead]
  refine Subtype.ext ?_
  rw [Block.copy_take (by simp [doubleExchanges, sizeConvoExchange, sizeEncryptedMessage,
      sizeMessage, boxOverhead]), Block.copy_take (by simp [doubleExchanges, sizeConvoExchange,
      sizeEncryptedMessage, sizeMessage, boxOverhead])]
  simp only [doubleExchanges]
  rw [List.take_append_of_le_length hlen.ge, List.take_of_length_le hlen.le]

/-- A single uses its dead drop once, a double uses its dead drop twice. -/
theorem deadDrops_eq : coins.deadDrops = coins.singleDrops ++ doubled coins.doubleDrops := by
  simp only [deadDrops, exchanges, draws, List.map_append, List.map_map, pairUp, List.map_flatMap,
    singleDrops, doubleDrops, doubled, List.flatMap_map]
  simp [Function.comp_def, copy_doubleExchanges]

theorem mem_drawnDrops {x : Bytes} (h : x ∈ coins.exchanges) :
    Block.copy 16 x ∈ coins.drawnDrops := by
  have hd : Block.copy 16 x ∈ coins.deadDrops := List.mem_map_of_mem h
  rw [deadDrops_eq, List.mem_append, mem_doubled] at hd
  exact List.mem_append.mpr hd

theorem exchanges_eq : coins.exchanges =
    ((List.range coins.singles).map fun i => singleExchange (coins.single i)) ++
      (List.range (coins.numFakeDoubles / 2)).flatMap fun i =>
        [(doubleExchanges (coins.double i)).1, (doubleExchanges (coins.double i)).2] := by
  simp [exchanges, draws, pairUp, List.map_flatMap, Function.comp_def]

/-- Draws with different dead drops, and different halves, are different. -/
theorem nodup_exchanges (hdrops : coins.drawnDrops.Nodup)
    (hhalves : ∀ i < coins.numFakeDoubles / 2,
      (doubleExchanges (coins.double i)).1 ≠ (doubleExchanges (coins.double i)).2) :
    coins.exchanges.Nodup := by
  obtain ⟨hs, hd, hdisj⟩ := List.nodup_append'.mp hdrops
  rw [exchanges_eq, List.nodup_append']
  refine ⟨List.Nodup.of_map (Block.copy 16) (by rw [List.map_map]; exact hs), ?_, ?_⟩
  · rw [List.nodup_flatMap]
    refine ⟨fun i hi => by simpa using hhalves i (List.mem_range.mp hi), ?_⟩
    rw [doubleDrops, List.Nodup, List.pairwise_map] at hd
    refine hd.imp fun {i j} hij => ?_
    intro x hx hx'
    -- both halves of a pair show the dead drop of the pair
    have hdrop : ∀ {k : Nat}, x ∈ [(doubleExchanges (coins.double k)).1,
        (doubleExchanges (coins.double k)).2] →
        Block.copy 16 x = Block.copy 16 (doubleExchanges (coins.double k)).1 := fun {k} h => by
      rcases List.mem_pair.mp h with rfl | rfl
      · rfl
      · exact copy_doubleExchanges _
    exact hij ((hdrop hx).symm.trans (hdrop hx'))
  · intro x hx hx'
    obtain ⟨i, hi, rfl⟩ := List.mem_map.mp hx
    obtain ⟨j, hj, hmem⟩ := List.mem_flatMap.mp hx'
    refine hdisj (List.mem_map_of_mem hi) ?_
    refine List.mem_map.mpr ⟨j, hj, ?_⟩
    rcases List.mem_pair.mp hmem with e | e
    · rw [e]
    · rw [e, copy_doubleExchanges]

end ConvoCoins

theorem mem_drawn_of_mem_deadDrops {coins : ConvoCoins} {d : DeadDrop} (h : d ∈ coins.deadDrops) :
    d ∈ coins.drawnDrops := by
  rw [ConvoCoins.deadDrops_eq, List.mem_append, mem_doubled] at h
  exact List.mem_append.mpr h

/-- The noise of one server, counted. -/
theorem counts_deadDrops {coins : ConvoCoins} (h : coins.drawnDrops.Nodup) :
    once coins.deadDrops = coins.singles ∧ often coins.deadDrops = coins.numFakeDoubles / 2 := by
  obtain ⟨hs, hd, hdisj⟩ := List.nodup_append'.mp h
  have hdisj' : coins.singleDrops.Disjoint (doubled coins.doubleDrops) :=
    fun a ha ha' => hdisj ha (mem_doubled.mp ha')
  rw [ConvoCoins.deadDrops_eq, once_append hdisj', often_append hdisj', once_of_nodup hs,
    often_of_nodup hs, once_doubled, often_doubled hd]
  simp [ConvoCoins.singleDrops, ConvoCoins.doubleDrops]

/-- The noise of several servers, counted. -/
theorem counts_flatMap_deadDrops :
    ∀ {stations : List Station}, (stations.flatMap fun st => st.convoCoins.drawnDrops).Nodup →
      once (stations.flatMap fun st => st.convoCoins.deadDrops) =
        (stations.map fun st => st.convoCoins.singles).sum ∧
      often (stations.flatMap fun st => st.convoCoins.deadDrops) =
        (stations.map fun st => st.convoCoins.numFakeDoubles / 2).sum
  | [], _ => ⟨rfl, rfl⟩
  | st :: stations, h => by
      obtain ⟨hst, hrest, hdisj⟩ := List.nodup_append'.mp h
      have hdisj' : st.convoCoins.deadDrops.Disjoint
          (stations.flatMap fun st => st.convoCoins.deadDrops) := by
        intro a ha ha'
        obtain ⟨st', hst', ha'⟩ := List.mem_flatMap.mp ha'
        exact hdisj (mem_drawn_of_mem_deadDrops ha)
          (List.mem_flatMap.mpr ⟨st', hst', mem_drawn_of_mem_deadDrops ha'⟩)
      obtain ⟨h₁, h₂⟩ := counts_deadDrops hst
      obtain ⟨ih₁, ih₂⟩ := counts_flatMap_deadDrops hrest
      simp only [List.flatMap_cons, List.map_cons, List.sum_cons]
      rw [once_append hdisj', often_append hdisj', h₁, h₂, ih₁, ih₂]
      exact ⟨rfl, rfl⟩

/-! ### The counts -/

/-- The counts the last server of a chain has sent. -/
def sentCounts : (stations : List Station) → Servers stations → List AccessCount
  | [], _ => []
  | [_], s => s.1.accessCounts
  | _ :: st' :: post, s => sentCounts (st' :: post) s.2

/-- The last server sends the counts of what it gets. -/
theorem sentCounts_eq (hbox : box.Ideal) :
    ∀ (stations : List Station), Line box stations → stations ≠ [] →
      ∀ {batch : List Tagged} {replies : List Bytes} {s s' : Servers stations},
        convoRound (chain box stations) Round (batch.map Prod.snd) s = .ok replies s' →
        sentCounts stations s' = offer (sentCounts stations s)
          (accessCount (readExchanges ((deliver box Round stations batch).map Prod.snd)))
  | [], _, hne, _, _, _, _, _ => absurd rfl hne
  | [st], hline, _, batch, replies, s, s', h => by
      obtain ⟨index, -, -, hcounts⟩ := convoRound_done hbox (hline.1.last.mpr rfl) h
      exact hcounts
  | st :: st' :: post, hline, _, batch, replies, s, s', h => by
      have hlast : st.cfg.lastServer = false := by simpa using hline.1.last
      obtain ⟨index, replies₁, replies₂, -, hrun, -⟩ := convoRound_next hbox hlast h
      exact sentCounts_eq hbox (st' :: post) hline.2 (List.cons_ne_nil _ _) hrun

/-- The draws of the servers are fresh: no dead drop is drawn twice, the two halves of a double
carry different messages, and no request goes to a dead drop of the noise. -/
structure FreshDraws (box : NaclBox) (Round : UInt32) (stations : List Station)
    (onions : List Bytes) : Prop where
  distinct : (stations.dropLast.flatMap fun st => st.convoCoins.drawnDrops).Nodup
  halves : ∀ st ∈ stations.dropLast, ∀ i < st.convoCoins.numFakeDoubles / 2,
    (doubleExchanges (st.convoCoins.double i)).1 ≠ (doubleExchanges (st.convoCoins.double i)).2
  unused : ∀ onion ∈ onions,
    ∀ x ∈ unwrap box sizeConvoExchange (forwardNonce Round) stations onion,
    ∀ st ∈ stations.dropLast, Block.copy 16 x ∉ st.convoCoins.drawnDrops

theorem FreshDraws.nodup_drawnExchanges {stations : List Station} {onions : List Bytes}
    (h : FreshDraws box Round stations onions) : (drawnExchanges stations).Nodup := by
  obtain ⟨heach, hpair⟩ := List.nodup_flatMap.mp h.distinct
  refine List.nodup_flatMap.mpr ⟨fun st hst =>
    ConvoCoins.nodup_exchanges _ (heach st hst) (h.halves st hst), hpair.imp ?_⟩
  intro st st' hdisj x hx hx'
  exact hdisj (ConvoCoins.mem_drawnDrops _ hx) (ConvoCoins.mem_drawnDrops _ hx')

/-- The dead drops of what arrived: those of the accepted requests, and those of the noise. -/
theorem deadDrops_perm (final : List Tagged) :
    ((readExchanges (final.map Prod.snd)).map (·.deadDrop)).Perm
      ((acceptedIn final).map (·.2.deadDrop) ++
        (noiseIn final).map fun m => (readExchange m).deadDrop) := by
  induction final with
  | nil => exact List.Perm.refl _
  | cons e final ih =>
      obtain ⟨o, m⟩ := e
      cases o with
      | request i => exact ih.cons _
      | noise => exact (ih.cons _).trans List.perm_middle.symm

/-- `numFakeSingles` of all servers but the last. -/
def fakeSingles (stations : List Station) : Nat :=
  (stations.dropLast.map fun st => st.convoCoins.singles).sum

/-- Half of `numFakeDoubles` of all servers but the last. -/
def fakePairs (stations : List Station) : Nat :=
  (stations.dropLast.map fun st => st.convoCoins.numFakeDoubles / 2).sum

theorem noiseIn_requests (onions : List Bytes) : noiseIn (requests onions) = [] := by
  rw [noiseIn, requests, List.filter_map, List.map_map, List.map_eq_nil_iff, List.filter_eq_nil_iff]
  intro p _ h
  cases h

/-- The exchanges of the noise have the dead drops that were drawn for them. -/
theorem deadDrops_drawnExchanges (stations : List Station) :
    ((drawnExchanges stations).map fun m => (readExchange m).deadDrop) =
      stations.dropLast.flatMap fun st => st.convoCoins.deadDrops := by
  rw [drawnExchanges, List.map_flatMap]
  congr 1
  funext st
  refine List.map_congr_left fun x hx => ?_
  obtain ⟨p, hp, rfl⟩ := List.mem_map.mp hx
  exact readExchange_deadDrop (ConvoCoins.length_of_mem_draws hp)

/-- **The counts of the last server** are those of the accepted requests and of the noise, and no
noise is lost: in a round that ends with replies, where the draws are fresh and no two messages
of a batch are confused. -/
theorem accessCounts_eq (hbox : box.Ideal) (d : Deployment box) {onions replies : List Bytes}
    {s s' : Servers d.stations}
    (hrun : convoRound (chain box d.stations) Round onions s = .ok replies s')
    (hfresh : FreshDraws box Round d.stations onions)
    (hdist : Distinguished box Round d.stations (requests onions)) :
    sentCounts d.stations s' = offer (sentCounts d.stations s)
      ⟨(once ((accepted box Round d.stations onions).map (·.2.deadDrop)) +
          fakeSingles d.stations : Nat),
        (often ((accepted box Round d.stations onions).map (·.2.deadDrop)) +
          fakePairs d.stations : Nat)⟩ ∧
    (noiseIn (deliver box Round d.stations (requests onions))).Perm
      (drawnExchanges d.stations) := by
  obtain ⟨final, hfinal⟩ : ∃ final, deliver box Round d.stations (requests onions) = final :=
    ⟨_, rfl⟩
  have hnoise : (noiseIn final).Perm (drawnExchanges d.stations) := by
    rw [← hfinal]
    refine noise_arrives hbox d.stations d.line d.nonempty (show Sized [] from fun _ h => nomatch h)
      (by rw [noiseIn_requests]; exact List.Perm.refl _) hfresh.nodup_drawnExchanges
      (fun i onion x hmem hun hx => ?_) hdist
    obtain ⟨st, hst, hx⟩ := List.mem_flatMap.mp hx
    exact hfresh.unused onion (List.mem_of_getElem? (mem_requests.mp hmem)) x hun st hst
      (ConvoCoins.mem_drawnDrops _ hx)
  -- the dead drops of the requests and those of the noise have nothing in common
  have hdrops := (hnoise.map fun m => (readExchange m).deadDrop)
  rw [deadDrops_drawnExchanges] at hdrops
  have hdisj : ((acceptedIn final).map (·.2.deadDrop)).Disjoint
      (d.stations.dropLast.flatMap fun st => st.convoCoins.deadDrops) := by
    intro a ha ha'
    obtain ⟨p, hp, rfl⟩ := List.mem_map.mp ha
    obtain ⟨m, hmem, hp₂⟩ := mem_acceptedIn.mp hp
    obtain ⟨onion, hreq, hun⟩ := (mem_deliver hbox d.stations d.line (hfinal ▸ hmem)).resolve_right
      (by simp)
    obtain ⟨st, hst, ha'⟩ := List.mem_flatMap.mp ha'
    refine hfresh.unused onion (List.mem_of_getElem? (mem_requests.mp hreq)) m hun st hst ?_
    rw [← readExchange_deadDrop (unwrap_length hbox d.line d.nonempty hun), ← hp₂]
    exact mem_drawn_of_mem_deadDrops ha'
  have hperm := (deadDrops_perm final).trans (hdrops.append_left _)
  obtain ⟨h₁, h₂⟩ := counts_flatMap_deadDrops hfresh.distinct
  refine ⟨?_, hfinal ▸ hnoise⟩
  rw [sentCounts_eq hbox d.stations d.line d.nonempty (by rw [map_snd_requests]; exact hrun),
    hfinal, accessCount, (dropTable_spec _).2.1, (dropTable_spec _).2.2, once_perm hperm,
    often_perm hperm, once_append hdisj, often_append hdisj, h₁, h₂, accepted, hfinal]
  rfl

/-- Two requests that meet, a replay and one of a wrong size, with the noise of the first server:
one single and one pair. -/
theorem accessCounts_eq_sample :
    ∃ replies s', convoRound (chain tagBox sampleDeployment.stations) 1
        [(sampleOnion 3).1, (sampleOnion 4).1, (sampleOnion 3).1, []] sampleServers =
          .ok replies s' ∧
      sentCounts sampleDeployment.stations s' = [⟨0 + 1, 1 + 1⟩] := by
  obtain ⟨replies, s', hrun⟩ := endsOk_iff.mp (show endsOk (convoRound
    (chain tagBox sampleDeployment.stations) 1
    [(sampleOnion 3).1, (sampleOnion 4).1, (sampleOnion 3).1, []] sampleServers) = true by
      decide +kernel)
  refine ⟨replies, s', hrun, (accessCounts_eq tagBox_ideal sampleDeployment hrun
    ⟨by decide +kernel, by decide +kernel, by decide +kernel⟩ (by decide +kernel)).1.trans ?_⟩
  decide +kernel

end Vuvuzela
