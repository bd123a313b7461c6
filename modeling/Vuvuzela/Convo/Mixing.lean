import Vuvuzela.Convo.Exchange
import Vuvuzela.Shuffle.Mixing

/-!
# Convo — what a server hides

A server that is not the last one, in a round driven by its upstream.  Everyone else may work
against it: whoever gave it the batch, and its next servers, which are any servers at all.  What
they are left with at the end of the round is the state of the next servers, and each onion of the
batch with its reply (`exposed`).

The server draws its shuffler and the filler for onions that have no reply.  Then the order of the
batch does not show in what is exposed (**`order_hidden`**): it has the same law in any other order.
So nothing that the next servers see, do or answer says which of two requests of a batch is which.
The requests must not be told apart by what the server rejects: no two different onions of the
batch hold messages of one key.
-/

namespace Vuvuzela
open Support

variable {σ : Type} {box : NaclBox} {Round : UInt32}

/-! ### The batch and its onions -/

/-- What is inside an onion, with the onion. -/
def opened (box : NaclBox) (cfg : Config) (Round : UInt32) (onion : Bytes) :
    Option (Bytes × Bytes) :=
  (convoMessage box cfg Round onion).map (onion, ·)

/-- The messages a server keeps of a batch, each with its onion. -/
def keptOnions (box : NaclBox) (cfg : Config) (Round : UInt32) (onions : List Bytes) :
    List (Bytes × Bytes) :=
  firsts (fun p => msgKey p.2) (onions.filterMap (opened box cfg Round))

/-- Different onions of a batch hold messages of different keys. -/
def Distinct (box : NaclBox) (cfg : Config) (Round : UInt32) (onions : List Bytes) : Prop :=
  ∀ p ∈ onions.filterMap (opened box cfg Round), ∀ q ∈ onions.filterMap (opened box cfg Round),
    msgKey p.2 = msgKey q.2 → p.1 = q.1

instance (box : NaclBox) (cfg : Config) (Round : UInt32) (onions : List Bytes) :
    Decidable (Distinct box cfg Round onions) :=
  inferInstanceAs (Decidable (∀ p ∈ onions.filterMap (opened box cfg Round),
    ∀ q ∈ onions.filterMap (opened box cfg Round), msgKey p.2 = msgKey q.2 → p.1 = q.1))

/-- The order of a batch does not say which onions are kept. -/
theorem keptOnions_perm {cfg : Config} {onions onions' : List Bytes}
    (hdistinct : Distinct box cfg Round onions) (h : onions'.Perm onions) :
    (keptOnions box cfg Round onions').Perm (keptOnions box cfg Round onions) := by
  refine firsts_perm (fun p hp q hq hkey => ?_) (h.filterMap _)
  have honion := hdistinct p hp q hq hkey
  obtain ⟨o, -, ho⟩ := List.mem_filterMap.mp hp
  obtain ⟨o', -, ho'⟩ := List.mem_filterMap.mp hq
  obtain ⟨m, hm, rfl⟩ := Option.map_eq_some_iff.mp ho
  obtain ⟨m', hm', rfl⟩ := Option.map_eq_some_iff.mp ho'
  obtain rfl : o = o' := honion
  exact congrArg (o, ·) (Option.some.inj (hm.symm.trans hm'))

/-- `filterIncoming` of a loaded batch, with the onions. -/
theorem filterIncoming_onions (hbox : box.Ideal) (cfg : Config) (Round : UInt32)
    (onions : List Bytes) :
    ∃ index,
      ConvoService.filterIncoming (onions.map (convoMessage box cfg Round)) =
        some ((keptOnions box cfg Round onions).map Prod.snd, index) ∧
      Filtered msgKey (onions.map (convoMessage box cfg Round))
        ((keptOnions box cfg Round onions).map Prod.snd) index ∧
      Filtered (fun p => msgKey p.2) (onions.map (opened box cfg Round))
        (keptOnions box cfg Round onions) index := by
  obtain ⟨messages, index, hfilter, hf⟩ := filterIncoming_spec hbox cfg Round onions
  have hkey : ∀ onion ∈ onions, ∀ m, convoMessage box cfg Round onion = some m →
      msgKey? m = some (msgKey m) := fun onion _ m hm => by
    rw [msgKey?, if_neg (Nat.not_lt.mpr (le_msg_length hbox hm))]
    rfl
  obtain ⟨index', hfilter', hf'⟩ := filterFirsts_tagged (convoMessage box cfg Round) onions hkey
  obtain ⟨rfl, rfl⟩ := Prod.mk.inj (Option.some.inj (hfilter.symm.trans hfilter'))
  exact ⟨index, hfilter, hf, hf'⟩

/-- Each onion of a batch with the reply it has, if any. -/
def answers (onions : List Bytes) (index : List Int) (replies : List Bytes) :
    List (Bytes × Option Bytes) :=
  (List.range onions.length).map fun i => (onions.getD i [], replyAt index replies i)

/-- The onions that were kept have the replies of their messages, and the others have none. -/
theorem answers_perm {cfg : Config} {onions : List Bytes} {index : List Int}
    (hf : Filtered (fun p => msgKey p.2) (onions.map (opened box cfg Round))
      (keptOnions box cfg Round onions) index) :
    ∃ dropped : List Bytes,
      onions.Perm ((keptOnions box cfg Round onions).map Prod.fst ++ dropped) ∧
      ∀ replies : List Bytes, (keptOnions box cfg Round onions).length ≤ replies.length →
        (answers onions index replies).Perm
          (((keptOnions box cfg Round onions).zip replies).map (fun p => (p.1.1, some p.2)) ++
            dropped.map (·, none)) := by
  obtain ⟨keptAt, dropped, hperm, hkept, hdropped⟩ := hf.positions
  rw [List.length_map] at hperm
  have honions : (List.range onions.length).map (onions.getD · []) = onions := by
    simpa using map_range_getD id onions []
  -- the onion of a position that was kept
  have honion : ∀ {i v : Nat}, index[i]? = some (v : Int) →
      onions.getD i [] = ((keptOnions box cfg Round onions).getD v default).1 := by
    intro i v hi
    obtain ⟨p, hp, hv⟩ := hf.get_of_index hi
    rw [List.getElem?_map, Option.map_eq_some_iff] at hp
    obtain ⟨onion, ho, hp⟩ := hp
    obtain ⟨m, -, rfl⟩ := Option.map_eq_some_iff.mp hp
    rw [List.getD_eq_getElem?_getD, List.getD_eq_getElem?_getD, ho, hv]
    rfl
  refine ⟨dropped.map (onions.getD · []), ?_, fun replies hle => ?_⟩
  · have hfst : keptAt.map (onions.getD · []) = (keptOnions box cfg Round onions).map Prod.fst := by
      rw [← map_range_getD Prod.fst _ default, ← List.forall₂_eq_eq_eq,
        List.forall₂_map_left_iff, List.forall₂_map_right_iff]
      exact hkept.imp fun _ _ => honion
    rw [← hfst, ← List.map_append]
    conv_lhs => rw [← honions]
    exact hperm.map _
  · have hzip : keptAt.map (fun i => (onions.getD i [], replyAt index replies i)) =
        ((keptOnions box cfg Round onions).zip replies).map fun p => (p.1.1, some p.2) := by
      have hrange : ((keptOnions box cfg Round onions).zip replies).map
          (fun p => (p.1.1, some p.2)) =
          (List.range (keptOnions box cfg Round onions).length).map fun v =>
            (((keptOnions box cfg Round onions).getD v default).1, replies[v]?) := by
        refine List.ext_getElem (by simp [hle]) fun v hv _ => ?_
        simp only [List.length_map, List.length_zip, lt_min_iff] at hv
        simp [hv.1, hv.2]
      rw [hrange, ← List.forall₂_eq_eq_eq, List.forall₂_map_left_iff, List.forall₂_map_right_iff]
      exact hkept.imp fun i v hi => Prod.ext (honion hi) (replyAt_of_index hi)
    have hnone : (dropped.map (onions.getD · [])).map (·, (none : Option Bytes)) =
        dropped.map fun i => (onions.getD i [], replyAt index replies i) := by
      rw [List.map_map]
      refine List.map_congr_left fun i hi => ?_
      simp [replyAt, hdropped i hi]
    rw [← hzip, hnone, ← List.map_append]
    exact hperm.map _

/-! ### The random choices of a server -/

/-- How many onions a server hands to its next one. -/
def batchSize (box : NaclBox) (st : Station) (Round : UInt32) (onions : List Bytes) : Nat :=
  (keptOnions box st.cfg Round onions).length + (st.convoCoins.noise box st.cfg Round).length

/-- A server that has drawn the shuffler for batches of `n`, and filler for each position. -/
def Station.drawn {n : Nat} (st : Station) (s : Shuffler n) (fillers : List (Nat → UInt8)) :
    Station :=
  { st with
    shuffler := Function.update st.shuffler n s
    filler := fun i => fillers.getD i (st.filler i) }

/-- A round on a server that draws its shuffler as `NewShuffler` does (`newShuffler_law`), and for
each position, from the law `ν`, the filler that `Get` would read. -/
noncomputable def convoRoundLaw (box : NaclBox) (st : Station) (ν : PMF (Nat → UInt8))
    (next : NextServer σ) (Round : UInt32) (onions : List Bytes) (s : Server × σ) :
    PMF (EStateM.Result Fault (Server × σ) (List Bytes)) :=
  (independentIndices (batchSize box st Round onions)).bind fun shuffler =>
    (independent ν onions.length).map fun fillers =>
      convoRound (serverClient box (st.drawn shuffler fillers) next).next Round onions s

/-- What a round leaves with the others: how it ended, with each onion and its reply, and the
state of the next servers. -/
def exposed (onions : List Bytes) :
    EStateM.Result Fault (Server × σ) (List Bytes) → Except Fault (Multiset (Bytes × Bytes)) × σ
  | .ok replies s => (.ok (onions.zip replies), s.2)
  | .error f s => (.error f, s.2)

/-- The onion that goes back for an onion with or without a reply, with some filler. -/
def wrapped (box : NaclBox) (st : Station) (Round : UInt32)
    (p : (Bytes × Option Bytes) × (Nat → UInt8)) : Bytes × Bytes :=
  (p.1.1, ConvoService.replyOnion box (backwardNonce Round) st.cfg.outgoingOnionSize
    (fun _ => p.2) (convoKey box st.cfg Round p.1.1) p.1.2 0)

/-- What goes back to the onions of a batch. -/
theorem zip_hopReply {n : Nat} {st : Station} {onions replies : List Bytes} {index : List Int}
    (s : Shuffler n) {fillers : List (Nat → UInt8)} (hlen : fillers.length = onions.length) :
    onions.zip ((List.range onions.length).map
        (hopReply box (st.drawn s fillers) Round onions index replies)) =
      ((answers onions index replies).zip fillers).map (wrapped box st Round) := by
  refine List.ext_getElem (by simp [answers, hlen]) fun i hi _ => ?_
  simp only [List.length_zip, List.length_map, List.length_range, min_self] at hi
  simp [answers, hopReply, wrapped, ConvoService.replyOnion, Station.drawn, hi, hlen]

section Round

variable {st : Station} {next : NextServer σ} {srv : Server} {t : σ} {onions onions' : List Bytes}
  {n : Nat}

/-- What comes back from the next servers for a batch, and the state they are left in. -/
def asked (next : NextServer σ) (Round : UInt32) (batch : List Bytes) (t : σ) :
    Except Fault (List Bytes) × σ :=
  match next.newConvoRound Round t with
  | .error f t₁ => (.error ((f.remote.context "NewConvoRound").context "Close"), t₁)
  | .ok _ t₁ =>
      match next.runConvoRound Round batch t₁ with
      | .error f t₂ => (.error ((f.remote.context "RunConvoRound").context "Close"), t₂)
      | .ok replies t₂ => (.ok replies, t₂)

/-- As many replies come back as there are onions. -/
theorem length_of_asked {batch replies : List Bytes} {t' : σ}
    (h : asked next Round batch t = (.ok replies, t')) : replies.length = batch.length := by
  rw [asked] at h
  split at h
  · cases h
  · split at h
    · cases h
    · rename_i hrun
      cases h
      exact next.length_replies hrun

/-- The batch a server hands to its next one. -/
def mixed (box : NaclBox) (st : Station) (Round : UInt32) (onions : List Bytes) (s : Shuffler n) :
    List Bytes :=
  (s.shuffle (outgoing box st Round ((keptOnions box st.cfg Round onions).map Prod.snd))).getD []

/-- What a server makes of the replies to its batch. -/
def returned (box : NaclBox) (st : Station) (Round : UInt32) (onions : List Bytes)
    (index : List Int) (s : Shuffler n) (fillers : List (Nat → UInt8)) (replies : List Bytes) :
    Except Fault (Multiset (Bytes × Bytes)) :=
  match s.unshuffle replies with
  | none => .error (.panic .index)
  | some replies =>
      if (replies.length : Int) < onions.length then .error (.panic .slice)
      else .ok (((answers onions index (replies.take onions.length)).zip fillers).map
        (wrapped box st Round))

/-- What a round exposes, without the handlers. -/
theorem exposed_convoRound (hbox : box.Ideal) (hlast : st.cfg.lastServer = false)
    (hv : Vacant Round srv) (hmake : makeOk onions.length) (next : NextServer σ) (t : σ)
    (hn : batchSize box st Round onions = n) :
    ∃ index, Filtered (fun p => msgKey p.2) (onions.map (opened box st.cfg Round))
        (keptOnions box st.cfg Round onions) index ∧
      ∀ (s : Shuffler n) (fillers : List (Nat → UInt8)), fillers.length = onions.length →
        exposed onions (convoRound (serverClient box (st.drawn s fillers) next).next Round onions
          (srv, t)) =
        ((asked next Round (mixed box st Round onions s) t).1.bind
          (returned box st Round onions index s fillers),
          (asked next Round (mixed box st Round onions s) t).2) := by
  obtain ⟨index, hfilter, hf, hf'⟩ := filterIncoming_onions hbox st.cfg Round onions
  refine ⟨index, hf', fun s fillers hlen => ?_⟩
  obtain rfl : (outgoing box st Round ((keptOnions box st.cfg Round onions).map Prod.snd)).length =
      n := by rw [← hn, outgoing, List.length_append, List.length_map, batchSize]
  obtain ⟨shuffled, hsh, -⟩ := s.shuffle_spec (x := outgoing box st Round
    ((keptOnions box st.cfg Round onions).map Prod.snd)) rfl
  have hmixed : mixed box st Round onions s = shuffled := by rw [mixed, hsh]; rfl
  have hdrawn : (st.drawn s fillers).shuffler (outgoing box (st.drawn s fillers) Round
      ((keptOnions box st.cfg Round onions).map Prod.snd)).length = s := Function.update_self ..
  have hlast' : (st.drawn s fillers).cfg.lastServer = false := hlast
  rw [convoRound_forward hv hlast' hmake hfilter hf (by rw [hdrawn]; exact hsh), hdrawn, hmixed,
    asked]
  simp only []
  cases hnew : next.newConvoRound Round t with
  | error f t₁ => rfl
  | ok _ t₁ =>
      simp only []
      cases hrun : next.runConvoRound Round shuffled t₁ with
      | error f t₂ => rfl
      | ok replies t₂ =>
          simp only [Except.bind, returned]
          -- the shuffler drawn is for batches of the same length, under another name
          obtain ⟨w, hw⟩ : ∃ w, s.unshuffle replies = w := ⟨_, rfl⟩
          have hw' : Shuffler.unshuffle (n := (outgoing box (st.drawn s fillers) Round
              ((keptOnions box st.cfg Round onions).map Prod.snd)).length) s replies = w := hw
          rw [hw, hw']
          cases w with
          | none => rfl
          | some w =>
              simp only []
              split
              · rfl
              · rw [exposed, zip_hopReply s hlen]

/-- The law of what a round exposes. -/
theorem convoRoundLaw_exposed (hbox : box.Ideal) (hlast : st.cfg.lastServer = false)
    (hv : Vacant Round srv) (hmake : makeOk onions.length) (ν : PMF (Nat → UInt8))
    (next : NextServer σ) (t : σ) (hn : batchSize box st Round onions = n) :
    ∃ index, Filtered (fun p => msgKey p.2) (onions.map (opened box st.cfg Round))
        (keptOnions box st.cfg Round onions) index ∧
      (convoRoundLaw box st ν next Round onions (srv, t)).map (exposed onions) =
        (independentIndices n).bind fun s => (independent ν onions.length).map fun fillers =>
          ((asked next Round (mixed box st Round onions s) t).1.bind
            (returned box st Round onions index s fillers),
            (asked next Round (mixed box st Round onions s) t).2) := by
  obtain ⟨index, hf, h⟩ := exposed_convoRound hbox hlast hv hmake next t hn
  subst hn
  refine ⟨index, hf, ?_⟩
  rw [convoRoundLaw, PMF.map_bind]
  refine congrArg (independentIndices _).bind (funext fun s => ?_)
  rw [PMF.map_comp]
  exact map_congr_support fun fillers hmem => h s fillers (length_of_mem_independent ν hmem)

/-! ### Two orders of a batch -/

/-- What a server hands on before the shuffle: messages with their onions, and noise. -/
def tagged (box : NaclBox) (st : Station) (Round : UInt32) (onions : List Bytes) :
    List ((Bytes × Bytes) ⊕ Bytes) :=
  (keptOnions box st.cfg Round onions).map .inl ++
    (st.convoCoins.noise box st.cfg Round).map .inr

theorem length_tagged : (tagged box st Round onions).length = batchSize box st Round onions := by
  simp [tagged, batchSize]

theorem map_tagged : (tagged box st Round onions).map (Sum.elim Prod.snd id) =
    outgoing box st Round ((keptOnions box st.cfg Round onions).map Prod.snd) := by
  simp [tagged, outgoing, Function.comp_def]

/-- The entries of a list that are on the left, with what they are paired with. -/
theorem filterMap_zip_inl {α β γ : Type} (l : List α) (l' : List β) (w : List γ) :
    ((l.map Sum.inl ++ l'.map Sum.inr).zip w).filterMap
        (fun p : (α ⊕ β) × γ => p.1.getLeft?.map (·, p.2)) = l.zip w := by
  induction l generalizing w with
  | nil =>
      refine List.filterMap_eq_nil_iff.mpr fun p hp => ?_
      obtain ⟨b, -, hb⟩ := List.mem_map.mp (List.of_mem_zip hp).1
      rw [← hb]
      rfl
  | cons a l ih =>
      cases w with
      | nil => rfl
      | cons c w => exact congrArg ((a, c) :: ·) (ih w)

theorem zip_take {α β : Type} {l : List α} {w : List β} {m : Nat} (h : l.length ≤ m) :
    l.zip (w.take m) = l.zip w := by
  refine List.ext_getElem (by simp; omega) fun i hi _ => ?_
  simp

/-- **The replies do not depend on the order.**  Where two orders of a batch are answered alike,
onion by onion, what goes back has one law. -/
theorem returned_law {index index' : List Int} {s s' : Shuffler n} {replies w w' : List Bytes}
    (ν : PMF (Nat → UInt8)) (hperm : onions'.Perm onions)
    (hkept : (keptOnions box st.cfg Round onions').Perm (keptOnions box st.cfg Round onions))
    (hf : Filtered (fun p => msgKey p.2) (onions.map (opened box st.cfg Round))
      (keptOnions box st.cfg Round onions) index)
    (hf' : Filtered (fun p => msgKey p.2) (onions'.map (opened box st.cfg Round))
      (keptOnions box st.cfg Round onions') index')
    (hw : s.unshuffle replies = some w) (hw' : s'.unshuffle replies = some w')
    (hlen : w'.length = w.length)
    (hzip : ((keptOnions box st.cfg Round onions').zip w').Perm
      ((keptOnions box st.cfg Round onions).zip w)) :
    (independent ν onions'.length).map
        (fun fillers => returned box st Round onions' index' s' fillers replies) =
      (independent ν onions.length).map
        (fun fillers => returned box st Round onions index s fillers replies) := by
  have hcard : onions'.length = onions.length := hperm.length_eq
  by_cases hshort : (w.length : Int) < onions.length
  · have hshort' : (w'.length : Int) < onions'.length := by rw [hlen, hcard]; exact hshort
    simp only [returned, hw, hw', if_pos hshort, if_pos hshort']
    rw [hcard]
  · have hle : onions.length ≤ w.length := by omega
    have hshort' : ¬ (w'.length : Int) < onions'.length := by rw [hlen, hcard]; exact hshort
    -- what goes back is made entry by entry of the answers and the filler
    have hmade : ∀ (l : List (Bytes × Option Bytes)) (m : Nat), l.length = m →
        (independent ν m).map (fun fillers => (Except.ok ((l.zip fillers).map
          (wrapped box st Round)) : Except Fault (Multiset (Bytes × Bytes)))) =
        ((independent ν l.length).map fun fillers =>
          (l.zip fillers : Multiset ((Bytes × Option Bytes) × (Nat → UInt8)))).map
            fun entries => .ok (entries.map (wrapped box st Round)) := by
      rintro l _ rfl
      rw [PMF.map_comp]
      rfl
    simp only [returned, hw, hw', if_neg hshort, if_neg hshort']
    rw [hmade _ _ (by simp [answers]), hmade _ _ (by simp [answers]), independent_zip ν]
    have hsize := hf.length_valid_le
    have hsize' := hf'.length_valid_le
    rw [List.length_map] at hsize hsize'
    obtain ⟨dropped, hsplit, hanswers⟩ := answers_perm hf
    obtain ⟨dropped', hsplit', hanswers'⟩ := answers_perm hf'
    have hdropped : dropped'.Perm dropped := by
      refine (List.perm_append_left_iff ((keptOnions box st.cfg Round onions).map Prod.fst)).mp ?_
      exact ((hkept.map Prod.fst).symm.append_right _).trans
        (hsplit'.symm.trans (hperm.trans hsplit))
    refine (hanswers' _ ?_).trans (.trans ?_ (hanswers _ ?_).symm)
    · rw [List.length_take]
      omega
    · rw [zip_take hsize, zip_take hsize']
      exact (hzip.map _).append (hdropped.map _)
    · rw [List.length_take]
      omega

/-- **Nobody sees the order of a batch.**  Whatever servers come next, what a round leaves with
everyone else, the state of the next servers and each onion with its reply, has the same law in
whichever order the onions came. -/
theorem order_hidden (hbox : box.Ideal) (hlast : st.cfg.lastServer = false)
    (hv : Vacant Round srv) (hmake : makeOk onions.length)
    (hdistinct : Distinct box st.cfg Round onions) (hperm : onions'.Perm onions)
    (ν : PMF (Nat → UInt8)) (t : σ) :
    (convoRoundLaw box st ν next Round onions' (srv, t)).map (exposed onions') =
      (convoRoundLaw box st ν next Round onions (srv, t)).map (exposed onions) := by
  have hkept := keptOnions_perm hdistinct hperm
  have hsize : batchSize box st Round onions' = batchSize box st Round onions := by
    rw [batchSize, batchSize, hkept.length_eq]
  obtain ⟨index, hf, hlaw⟩ := convoRoundLaw_exposed hbox hlast hv hmake ν next t rfl
  obtain ⟨index', hf', hlaw'⟩ :=
    convoRoundLaw_exposed hbox hlast hv (hperm.length_eq ▸ hmake) ν next t hsize
  rw [hlaw, hlaw']
  -- for each shuffler of the batch, the one that makes the same of the other order
  have htagged : (tagged box st Round onions').Perm (tagged box st Round onions) :=
    (hkept.map _).append_right _
  have hlen : (tagged box st Round onions).length = batchSize box st Round onions := length_tagged
  obtain ⟨e, he⟩ := Shuffler.exists_relabel (β := Bytes) hlen htagged
  refine (bind_eq_of_equiv independentIndices_apply e fun s => ?_).symm
  obtain ⟨hsame, hback⟩ := he s
  have hmixed : mixed box st Round onions' (e s) = mixed box st Round onions s := by
    rw [mixed, mixed, ← map_tagged, ← map_tagged,
      Shuffler.shuffle_map _ _ (length_tagged.trans hsize), Shuffler.shuffle_map _ _ length_tagged,
      hsame]
  rw [hmixed]
  obtain ⟨⟨r, t'⟩, hasked⟩ : ∃ r, asked next Round (mixed box st Round onions s) t = r := ⟨_, rfl⟩
  rw [hasked]
  cases r with
  | error f => simp only [Except.bind, hperm.length_eq]
  | ok replies =>
      have hreplies : replies.length = batchSize box st Round onions := by
        obtain ⟨y, hy, hlen⟩ := s.shuffle_spec
          (x := outgoing box st Round ((keptOnions box st.cfg Round onions).map Prod.snd))
          (by rw [← map_tagged, List.length_map, length_tagged])
        rw [length_of_asked hasked, mixed, hy, Option.getD_some, hlen.length_eq, ← map_tagged,
          List.length_map, length_tagged]
      obtain ⟨w, hw, hwlen⟩ := s.unshuffle_isSome hreplies
      obtain ⟨w', hw', hwlen'⟩ := (e s).unshuffle_isSome hreplies
      have hzip := (hback replies w w' hreplies hw hw').filterMap
        fun p : ((Bytes × Bytes) ⊕ Bytes) × Bytes => p.1.getLeft?.map (·, p.2)
      rw [tagged, tagged, filterMap_zip_inl, filterMap_zip_inl] at hzip
      have hreturned := returned_law ν hperm hkept hf hf' hw hw' (hwlen'.trans hwlen.symm) hzip
      have hboth := congrArg (PMF.map (·, t')) hreturned
      rw [PMF.map_comp, PMF.map_comp] at hboth
      exact hboth

end Round

/-- Two requests of one batch, in either order, before a next server that answers with what it
gets. -/
theorem order_hidden_sample :
    (sampleOnion 3).1 ≠ (sampleOnion 4).1 ∧
    (convoRoundLaw tagBox (sampleStation "first" 1 40) (PMF.pure fun _ => 0) echoServer 1
        [(sampleOnion 4).1, (sampleOnion 3).1] (Server.start, ())).map
          (exposed [(sampleOnion 4).1, (sampleOnion 3).1]) =
      (convoRoundLaw tagBox (sampleStation "first" 1 40) (PMF.pure fun _ => 0) echoServer 1
        [(sampleOnion 3).1, (sampleOnion 4).1] (Server.start, ())).map
          (exposed [(sampleOnion 3).1, (sampleOnion 4).1]) :=
  ⟨by decide +kernel, order_hidden tagBox_ideal (by decide +kernel) ⟨rfl, rfl⟩ (by decide)
    (by decide +kernel) (.swap ..) _ _⟩

end Vuvuzela
