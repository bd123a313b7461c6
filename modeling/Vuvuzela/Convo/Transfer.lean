import Vuvuzela.Convo.Adds

/-!
# Convo — a batch sent in pieces

`RunConvoRound` sends the onions of a batch and fetches the replies in spans, each with a call of
its own, and the calls end in any order.  That is no different from one call.

**Pieces** (`batched_transfer`).  Whatever the span size and the order of the calls, the server is
left before `Close` as one `Add` of the whole batch at offset 0 would leave it, and if the round
succeeds, the reply at each position is what a `Get` of that position returns after the `Close`.
-/

namespace Vuvuzela
open Support ConvoService

variable {σ : Type} {box : NaclBox} {st : Station} {next : NextServer σ} {Round : UInt32}
  {onions : List Bytes}

/-! ### One `Add` -/

theorem addedAt_whole (i : Nat) : addedAt [⟨Round, 0, onions⟩] i = (onions[i]?).toList := by
  have h := addedAt_concat [] ⟨Round, 0, onions⟩ i
  simpa [addedAt, landing] using h

/-- One `Add` of the whole batch loads it. -/
theorem filledBy_whole (cfg : Config) (round : ConvoRound) :
    filledBy box cfg Round round onions.length [⟨Round, 0, onions⟩] =
      loaded box cfg Round onions round := by
  have hK : ((List.range onions.length).map fun i => lastKey box cfg (forwardNonce Round)
      (addedAt [⟨Round, 0, onions⟩] i)) = onions.map fun onion =>
        some (peel box cfg sizeConvoExchange (forwardNonce Round) onion).1 := by
    refine List.ext_getElem? fun i => ?_
    by_cases hi : i < onions.length
    · simpa [hi, addedAt_whole] using lastKey_append box cfg (forwardNonce Round) [] onions[i]?
    · simp [hi]
  have hM : ((List.range onions.length).map fun i => lastMessage box cfg (forwardNonce Round)
      (addedAt [⟨Round, 0, onions⟩] i)) = onions.map fun onion =>
        (peel box cfg sizeConvoExchange (forwardNonce Round) onion).2 := by
    refine List.ext_getElem? fun i => ?_
    by_cases hi : i < onions.length
    · have hone := lastMessage_append box cfg (forwardNonce Round) [] onions[i]?
      rw [show lastMessage box cfg (forwardNonce Round) [] = none from rfl, Option.or_none] at hone
      simpa [hi, addedAt_whole] using hone
    · simp [hi]
  simp only [filledBy, tabled, hK, hM]
  rfl

/-- The calls in pieces and the one call leave the same server. -/
theorem adds_eq_add {spanSize : Nat} (hs : 0 < spanSize) {srv srv₁ : Server}
    (hopen : ConvoService.open ⟨Round, onions.length⟩ srv = .ok () srv₁) (t : σ) :
    ∃ srv₂, callMany st.addOrder ((spans onions.length spanSize).map fun span =>
        (serverClient box st next).convoAdd
          ⟨Round, span.start, (onions.drop span.start).take span.count⟩) (srv₁, t) =
      .ok ((List.range (numSpans onions.length spanSize)).map fun _ => ()) (srv₂, t) ∧
      ConvoService.add box st.cfg ⟨Round, 0, onions⟩ srv₁ = .ok () srv₂ := by
  have hmake := makeOk_of_open hopen
  obtain ⟨round, -, -, rfl⟩ := open_eq_ok hopen
  refine ⟨_, adds_eq box st next round hs hmake srv t, ?_⟩
  have hin : ∀ args ∈ [(⟨Round, 0, onions⟩ : ConvoAddArgs)], args.round = Round ∧
      0 ≤ args.offset ∧ args.offset + args.onions.length ≤ onions.length := by simp
  have hone := addAll_filledBy box st.cfg (lt_of_makeOk hmake) srv round _ [] hin
  rw [filledBy_nil, List.nil_append, filledBy_whole, addAll] at hone
  obtain ⟨u, s, hadd, hrest⟩ := bind_eq_ok.mp hone
  cases hrest
  exact hadd

/-! ### Calls that only read -/

/-- Calls that leave the state as it is, and all succeeded: each of them succeeds on the state. -/
theorem callMany_reads {α : Type} [Inhabited α] {schedule : Schedule} {calls : List (Rpc σ α)}
    (hreads : ∀ call ∈ calls, ∀ s a s', call s = .ok a s' → s' = s) {s s' : σ} {replies : List α}
    (h : callMany schedule calls s = .ok replies s') :
    s' = s ∧ ∀ call ∈ calls, ∃ a, call s = .ok a s := by
  have hloop : ∀ (order : List Nat) (acc : List α), (∀ j ∈ order, j < calls.length) →
      order.foldlM (callOne calls) acc s = .ok replies s' →
        s' = s ∧ ∀ j ∈ order, ∀ call, calls[j]? = some call → ∃ a, call s = .ok a s := by
    intro order
    induction order with
    | nil =>
        intro acc _ hfold
        cases hfold
        exact ⟨rfl, nofun⟩
    | cons j order ih =>
        intro acc hlt hfold
        rw [List.foldlM_cons] at hfold
        obtain ⟨acc', s₁, hone, hrest⟩ := bind_eq_ok.mp hfold
        obtain ⟨a, s₂, hcall, hset⟩ := bind_eq_ok.mp hone
        cases hset
        have hj := hlt j List.mem_cons_self
        have hget : calls.getD j (pure default) = calls[j] := by simp [hj]
        rw [hget] at hcall
        obtain rfl := hreads _ (List.getElem_mem hj) _ _ _ hcall
        obtain ⟨hs, hall⟩ := ih _ (fun i hi => hlt i (List.mem_cons_of_mem _ hi)) hrest
        refine ⟨hs, fun i hi call hc => ?_⟩
        rcases List.mem_cons.mp hi with rfl | hi
        · rw [List.getElem?_eq_getElem hj] at hc
          cases hc
          exact ⟨a, hcall⟩
        · exact hall i hi call hc
  have hperm := (schedule calls.length).2
  obtain ⟨hs, hall⟩ := hloop _ _ (fun j hj => List.mem_range.mp (hperm.mem_iff.mp hj)) h
  refine ⟨hs, fun call hc => ?_⟩
  obtain ⟨j, hj⟩ := List.mem_iff_getElem?.mp hc
  have hlt := (List.getElem?_eq_some_iff.mp hj).1
  exact hall j (hperm.mem_iff.mpr (List.mem_range.mpr hlt)) call hj

/-- `Get` leaves the server as it is. -/
theorem get_reads {cfg : Config} {filler : Nat → Nat → UInt8} {args : ConvoGetArgs}
    {srv srv' : Server} {replies : List Bytes}
    (h : ConvoService.get box cfg filler args srv = .ok replies srv') :
    srv' = srv ∧ ∃ round, srv.convoRounds args.round = some round ∧
      round.status = .roundClosed ∧ (List.range args.count.toNat).mapM (fun k : Nat =>
        getOnion box (backwardNonce args.round) cfg.outgoingOnionSize filler round
          (wrapInt (args.offset + k))) = .ok replies := by
  rw [ConvoService.get_eq] at h
  cases hget : getRound args.round .roundClosed srv with
  | error f s => rw [hget] at h; cases h
  | ok round s =>
      obtain ⟨rfl, hround, hs⟩ := getRound_eq_ok.mp hget
      rw [hget] at h
      simp only [] at h
      split at h
      · split at h
        · cases h
        · rename_i onions honions
          cases h
          exact ⟨rfl, round, hround, hs, honions⟩
      · cases h

/-- The elements of a `mapM` that succeeded. -/
theorem ok_of_mapM {ε α β : Type} {f : α → Except ε β} {l : List α} {r : List β}
    (h : l.mapM f = .ok r) : ∀ a ∈ l, ∃ b, f a = .ok b := by
  induction l generalizing r with
  | nil => exact nofun
  | cons a l ih =>
      rw [List.mapM_cons] at h
      cases ha : f a with
      | error e => rw [ha] at h; cases h
      | ok b =>
          cases hl : l.mapM f with
          | error e => rw [ha, hl] at h; cases h
          | ok bs =>
              intro x hx
              rcases List.mem_cons.mp hx with rfl | hx
              · exact ⟨b, ha⟩
              · exact ih hl x hx

/-- A `Get` whose onions can all be made. -/
theorem get_of_onions {cfg : Config} {filler : Nat → Nat → UInt8} {srv : Server}
    {round : ConvoRound} {offset count : Int} {replies : List Bytes} (hmake : makeOk count)
    (hround : srv.convoRounds Round = some round) (hs : round.status = .roundClosed)
    (honions : (List.range count.toNat).mapM (fun k : Nat =>
      getOnion box (backwardNonce Round) cfg.outgoingOnionSize filler round
        (wrapInt (offset + k))) = .ok replies) :
    ConvoService.get box cfg filler ⟨Round, offset, count⟩ srv = .ok replies srv := by
  simp only [ConvoService.get_eq, getRound_of_some hround hs, if_pos hmake, honions]

/-- A `Get` of positions that each have an onion. -/
theorem ConvoService.get_of_range {cfg : Config} {filler : Nat → Nat → UInt8} {srv : Server}
    {round : ConvoRound} {offset : Int} {count : Nat} {onion : Nat → Bytes}
    (hmake : makeOk count) (hround : srv.convoRounds Round = some round)
    (hs : round.status = .roundClosed)
    (honion : ∀ k < count, getOnion box (backwardNonce Round) cfg.outgoingOnionSize filler round
      (wrapInt (offset + k)) = .ok (onion k)) :
    ConvoService.get box cfg filler ⟨Round, offset, count⟩ srv =
      .ok ((List.range count).map onion) srv := by
  refine get_of_onions hmake hround hs ?_
  rw [Int.toNat_natCast]
  exact mapM_eq_ok fun k hk => honion k (List.mem_range.mp hk)

/-- A `Get` of one position. -/
theorem get_one {cfg : Config} {filler : Nat → Nat → UInt8} {srv : Server} {round : ConvoRound}
    {i : Nat} {onion : Bytes} (hi : i < 2 ^ 63) (hround : srv.convoRounds Round = some round)
    (hs : round.status = .roundClosed)
    (honion : getOnion box (backwardNonce Round) cfg.outgoingOnionSize filler round (i : Nat) =
      .ok onion) :
    ConvoService.get box cfg filler ⟨Round, i, 1⟩ srv = .ok [onion] srv := by
  have hzero : wrapInt ((i : Int) + (0 : Nat)) = (i : Nat) := by
    rw [← Int.natCast_add, Nat.add_zero, wrapInt_natCast hi]
  refine get_of_onions (by decide) hround hs ?_
  rw [show List.range (1 : Int).toNat = [0] from rfl, List.mapM_cons, hzero, honion]
  rfl

/-- Where every `Get` of a span succeeds, every position has an onion. -/
theorem getOnion_of_gets {spanSize n : Nat} (hs : 0 < spanSize) (hn : n < 2 ^ 63) {srv : Server}
    {t : σ} {s : Server × σ} {results : List (List Bytes)}
    (h : callMany st.getOrder ((spans n spanSize).map fun span =>
      (serverClient box st next).convoGet ⟨Round, span.start, span.count⟩) (srv, t) =
        .ok results s) {i : Nat} (hi : i < n) :
    ∃ round, srv.convoRounds Round = some round ∧ round.status = .roundClosed ∧
      ∃ onion, getOnion box (backwardNonce Round) st.cfg.outgoingOnionSize st.filler round
        (i : Nat) = .ok onion := by
  have hreads : ∀ call ∈ (spans n spanSize).map fun span =>
      (serverClient box st next).convoGet ⟨Round, span.start, span.count⟩,
      ∀ s a s', call s = .ok a s' → s' = s := by
    intro call hcall s a s' hok
    obtain ⟨span, -, rfl⟩ := List.mem_map.mp hcall
    obtain ⟨hget, hsnd⟩ := onFst_eq_ok.mp hok
    exact Prod.ext (get_reads hget).1 hsnd
  obtain ⟨-, hall⟩ := callMany_reads hreads h
  -- the span the position is in
  have hj : i / spanSize < numSpans n spanSize :=
    (lt_numSpans hs).mpr (lt_of_le_of_lt (Nat.div_mul_le_self i spanSize) hi)
  obtain ⟨h₁, h₂⟩ := (inSpan_spanAt (j := i / spanSize) hs hi).mpr rfl
  have hmem : spanAt n spanSize (i / spanSize) ∈ spans n spanSize := by
    rw [spans_eq hs]
    exact List.mem_map_of_mem (List.mem_range.mpr hj)
  obtain ⟨replies, hok⟩ := hall _ (List.mem_map_of_mem hmem)
  obtain ⟨-, round, hround, hclosed, hmap⟩ := get_reads (onFst_eq_ok.mp hok).1
  obtain ⟨onion, honion⟩ := ok_of_mapM hmap (i - (spanAt n spanSize (i / spanSize)).start)
    (List.mem_range.mpr (by simp only [Int.toNat_natCast]; omega))
  refine ⟨round, hround, hclosed, onion, ?_⟩
  rw [← Int.natCast_add, Nat.add_sub_cancel' h₁, wrapInt_natCast (by omega)] at honion
  exact honion

/-! ### The whole round -/

/-- A round that succeeded, call by call. -/
theorem runConvoRoundIn_ok_inv {spanSize : Nat} {client : Client σ} {t t' : σ}
    {replies : List Bytes} (h : runConvoRoundIn spanSize client Round onions t = .ok replies t') :
    ∃ t₁ units t₂ t₃ results t₄, client.convoOpen ⟨Round, onions.length⟩ t = .ok () t₁ ∧
      callMany client.addOrder ((spans onions.length spanSize).map fun span =>
        client.convoAdd ⟨Round, span.start, (onions.drop span.start).take span.count⟩) t₁ =
          .ok units t₂ ∧
      client.convoClose Round t₂ = .ok () t₃ ∧
      callMany client.getOrder ((spans onions.length spanSize).map fun span =>
        client.convoGet ⟨Round, span.start, span.count⟩) t₃ = .ok results t₄ ∧
      replies = ((spans onions.length spanSize).zip results).foldl
        (fun replies p => copyAt replies p.1.start (p.2.take p.1.count))
        (List.replicate onions.length []) := by
  simp only [runConvoRoundIn, named, bind_eq_ok, mapFault_eq_ok, pure_eq,
    EStateM.Result.ok.injEq] at h
  obtain ⟨_, t₁, hopen, units, t₂, hadds, _, t₃, hclose, results, t₄, hgets, _, t₅, -, rfl, -⟩ := h
  exact ⟨t₁, units, t₂, t₃, results, t₄, hopen, hadds, hclose, hgets, rfl⟩

/-- **A batch in pieces is a batch in one piece**: the same server before `Close`, and the reply of
each position is what a `Get` of the position returns after it. -/
theorem batched_transfer (box : NaclBox) (st : Station) (next : NextServer σ) (Round : UInt32)
    (onions : List Bytes) {spanSize : Nat} (hs : 1 ≤ spanSize) :
    (∀ (srv srv₁ : Server) (t : σ),
      ConvoService.open ⟨Round, onions.length⟩ srv = .ok () srv₁ →
      ∃ units srv₂, callMany st.addOrder ((spans onions.length spanSize).map fun span =>
          (serverClient box st next).convoAdd
            ⟨Round, span.start, (onions.drop span.start).take span.count⟩) (srv₁, t) =
        .ok units (srv₂, t) ∧
        ConvoService.add box st.cfg ⟨Round, 0, onions⟩ srv₁ = .ok () srv₂) ∧
    (∀ (srv : Server) (t : σ) (replies : List Bytes) (s : Server × σ),
      runConvoRoundIn spanSize (serverClient box st next) Round onions (srv, t) = .ok replies s →
      ∃ srv₁ srv₂ srv₃ t₃, ConvoService.open ⟨Round, onions.length⟩ srv = .ok () srv₁ ∧
        ConvoService.add box st.cfg ⟨Round, 0, onions⟩ srv₁ = .ok () srv₂ ∧
        ConvoService.close st.cfg next st.shuffler Round (srv₂, t) = .ok () (srv₃, t₃) ∧
        replies.length = onions.length ∧
        ∀ i < onions.length, ∃ onion, replies[i]? = some onion ∧
          ConvoService.get box st.cfg st.filler ⟨Round, i, 1⟩ srv₃ = .ok [onion] srv₃) := by
  refine ⟨fun srv srv₁ t hopen => ?_, fun srv t replies s h => ?_⟩
  · obtain ⟨srv₂, hadds, hadd⟩ := adds_eq_add hs hopen t
    exact ⟨_, srv₂, hadds, hadd⟩
  obtain ⟨⟨srv₁, t₁⟩, units, s₂, ⟨srv₃, t₃⟩, results, s₄, hopen, hadds, hclose, hgets, hreplies⟩ :=
    runConvoRoundIn_ok_inv h
  obtain ⟨hopen', ht⟩ := onFst_eq_ok.mp hopen
  obtain rfl : t₁ = t := ht
  clear hopen
  obtain ⟨srv₂, hadds', hadd⟩ := adds_eq_add hs hopen' t₁
  cases hadds.symm.trans hadds'
  have hmake := makeOk_of_open hopen'
  have hn := lt_of_makeOk hmake
  refine ⟨srv₁, srv₂, srv₃, t₃, hopen', hadd, hclose, length_runConvoRoundIn h, fun i hi => ?_⟩
  -- every position has an onion, and the pieces put them in their places
  obtain ⟨round, hround, hclosed, -⟩ := getOnion_of_gets hs hn hgets hi
  have honions : ∀ k, ∃ onion, k < onions.length → getOnion box (backwardNonce Round)
      st.cfg.outgoingOnionSize st.filler round (k : Nat) = .ok onion := by
    intro k
    by_cases hk : k < onions.length
    · obtain ⟨round', hround', -, onion, honion⟩ := getOnion_of_gets hs hn hgets hk
      cases hround.symm.trans hround'
      exact ⟨onion, fun _ => honion⟩
    · exact ⟨[], fun h => absurd h hk⟩
  choose reply hreply using honions
  have heq := gets_eq box st next hs hmake hround hclosed hreply t₃
  cases hgets.symm.trans heq
  rw [foldl_copyAt_eq reply [] hs] at hreplies
  subst hreplies
  exact ⟨reply i, by simp [hi], get_one (by omega) hround hclosed (hreply i hi)⟩

/-- Two onions in spans of one, on the first server of the sample chain. -/
theorem batched_transfer_sample :
    ∃ replies s, runConvoRoundIn 1 (serverClient tagBox (sampleStation "first" 1 40) echoServer) 1
        [(sampleOnion 3).1, (sampleOnion 4).1] ({ sampleNew with idle := true }, ()) =
          .ok replies s ∧
      ∃ srv₁ srv₂ srv₃ t₃, ConvoService.open ⟨1, 2⟩ { sampleNew with idle := true } = .ok () srv₁ ∧
        ConvoService.add tagBox sampleConfig ⟨1, 0, [(sampleOnion 3).1, (sampleOnion 4).1]⟩ srv₁ =
          .ok () srv₂ ∧
        ConvoService.close sampleConfig echoServer sampleShuffler 1 (srv₂, ()) =
          .ok () (srv₃, t₃) ∧
        ∃ onion, replies[1]? = some onion ∧
          ConvoService.get tagBox sampleConfig (fun _ _ => 0) ⟨1, 1, 1⟩ srv₃ =
            .ok [onion] srv₃ := by
  have hends : endsOk (runConvoRoundIn 1
      (serverClient tagBox (sampleStation "first" 1 40) echoServer) 1
      [(sampleOnion 3).1, (sampleOnion 4).1] ({ sampleNew with idle := true }, ())) = true := by
    decide +kernel
  obtain ⟨replies, s, hrun⟩ := endsOk_iff.mp hends
  obtain ⟨srv₁, srv₂, srv₃, t₃, hopen, hadd, hclose, -, hall⟩ :=
    (batched_transfer tagBox (sampleStation "first" 1 40) echoServer 1
      [(sampleOnion 3).1, (sampleOnion 4).1] (Nat.le_refl 1)).2 _ _ replies s hrun
  obtain ⟨onion, honion, hget⟩ := hall 1 (by simp)
  exact ⟨replies, s, hrun, srv₁, srv₂, srv₃, t₃, hopen, hadd, hclose, onion, honion, hget⟩

end Vuvuzela
