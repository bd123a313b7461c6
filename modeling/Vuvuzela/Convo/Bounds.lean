import Vuvuzela.Convo.Exchange

/-!
# Convo — when a round brings a server down

An honest upstream drives a round on a server that is not the last one, and the next server
answers every call.  The replies that come back are as many as the onions that went out: the
messages that were kept, and the noise.  `Close` cuts them to the number of onions that came in,
so the server panics exactly when it rejected more onions than it drew noise
(`convoRound_panics_iff`).
-/

namespace Vuvuzela
open Support

variable {σ : Type} {box : NaclBox} {Round : UInt32} {onions : List Bytes}

/-- The onion of position `i` is rejected: it does not open (its size is wrong, or nothing was
sealed in it), or its message has the key of an earlier one. -/
def rejects (box : NaclBox) (cfg : Config) (Round : UInt32) (onions : List Bytes) (i : Nat) :
    Bool :=
  match convoMessage box cfg Round (onions.getD i []) with
  | none => true
  | some m => (List.range i).any fun j =>
      (convoMessage box cfg Round (onions.getD j [])).map msgKey = some (msgKey m)

/-- The number of onions a server rejects. -/
def numRejected (box : NaclBox) (cfg : Config) (Round : UInt32) (onions : List Bytes) : Nat :=
  (List.range onions.length).countP (rejects box cfg Round onions)

/-- The next server answers every call. -/
structure NextServer.Answers (next : NextServer σ) : Prop where
  new : ∀ (round : UInt32) (t : σ), ∃ t', next.newConvoRound round t = .ok () t'
  run : ∀ (round : UInt32) (onions : List Bytes) (t : σ),
    ∃ replies t', next.runConvoRound round onions t = .ok replies t'

theorem count_eq_countP_range {α : Type} [BEq α] [LawfulBEq α] [DecidableEq α] (a : α)
    (l : List α) : l.count a = (List.range l.length).countP fun i => l[i]? = some a := by
  induction l using List.reverseRecOn with
  | nil => rfl
  | append_singleton l b ih =>
      have hcongr : (List.range l.length).countP (fun i => decide ((l ++ [b])[i]? = some a)) =
          (List.range l.length).countP fun i => decide (l[i]? = some a) :=
        List.countP_congr fun i hi => by
          rw [List.getElem?_append_left (List.mem_range.mp hi)]
      rw [count_concat, List.length_append, List.length_singleton, List.range_succ,
        List.countP_append, hcongr, ← ih]
      simp [List.countP_cons]

/-- `filterIncoming` drops the rejected onions and no others. -/
theorem numRejected_eq {cfg : Config} {messages : List Bytes} {index : List Int}
    (hf : Filtered msgKey (onions.map (convoMessage box cfg Round)) messages index) :
    numRejected box cfg Round onions + messages.length = onions.length := by
  -- the positions with index -1 are the rejected ones, so they are counted there
  have hcount : numRejected box cfg Round onions = index.count (-1) := by
    rw [count_eq_countP_range, hf.length_index, List.length_map, numRejected]
    refine List.countP_congr fun i hi => ?_
    have hi' := List.mem_range.mp hi
    have hget : ∀ j < onions.length, (onions.map (convoMessage box cfg Round))[j]? =
        some (convoMessage box cfg Round (onions.getD j [])) := fun j hj => by simp [hj]
    rw [decide_eq_true_eq, hf.index_neg i, rejects, hget i hi']
    cases convoMessage box cfg Round (onions.getD i []) with
    | none => simp
    | some m =>
        simp only [List.any_eq_true, List.mem_range, decide_eq_true_eq, Option.some.injEq,
          reduceCtorEq, false_or, exists_eq_left']
        constructor
        · rintro ⟨j, hj, hkey⟩
          obtain ⟨m', hm', hkey⟩ := Option.map_eq_some_iff.mp hkey
          exact ⟨j, m', hj, by rw [hget j (by omega), hm'], hkey⟩
        · rintro ⟨j, m', hj, hm', hkey⟩
          rw [hget j (by omega), Option.some.injEq] at hm'
          exact ⟨j, hj, by rw [hm', Option.map_some, hkey]⟩
  have := hf.count_neg
  rw [List.length_map] at this
  omega

theorem ConvoCoins.length_noise (box : NaclBox) (cfg : Config) (coins : ConvoCoins)
    (Round : UInt32) :
    (coins.noise box cfg Round).length = coins.singles + coins.numFakeDoubles := by
  rw [ConvoCoins.noise_eq, List.length_map, ConvoCoins.draws, List.length_append, length_pairUp,
    ConvoCoins.numFakeDoubles_even, List.length_map, List.length_range]

/-- **A round driven by an honest upstream** on a server that is not the last one, with a next
server that answers, panics exactly when more onions are rejected than noise was drawn.  Then it
is in `replies[:round.numIncoming]`. -/
theorem convoRound_panics_iff (hbox : box.Ideal) {st : Station} {next : NextServer σ} {srv : Server}
    {t : σ} (hlast : st.cfg.lastServer = false) (hv : Vacant Round srv)
    (hmake : makeOk onions.length) (hnext : next.Answers) :
    (∀ p s', convoRound (serverClient box st next).next Round onions (srv, t) ≠
      .error (.panic p) s') ↔
    numRejected box st.cfg Round onions ≤ st.convoCoins.singles + st.convoCoins.numFakeDoubles := by
  obtain ⟨messages, index, hfilter, hf⟩ := filterIncoming_spec hbox st.cfg Round onions
  obtain ⟨shuffled, hsh, hperm⟩ :=
    (st.shuffler (outgoing box st Round messages).length).shuffle_spec
    (x := outgoing box st Round messages) rfl
  obtain ⟨t₁, hnew⟩ := hnext.new Round t
  obtain ⟨replies, t₂, hrun⟩ := hnext.run Round shuffled t₁
  have hlen : replies.length = (outgoing box st Round messages).length :=
    (next.length_replies hrun).trans hperm.length_eq
  obtain ⟨w, hw, hwlen⟩ :=
    (st.shuffler (outgoing box st Round messages).length).unshuffle_isSome hlen
  have hout : w.length =
      messages.length + (st.convoCoins.singles + st.convoCoins.numFakeDoubles) := by
    rw [hwlen, outgoing, List.length_append, ConvoCoins.length_noise]
  have hrej := numRejected_eq hf
  -- the replies are as many as were kept and drawn, the batch as many as were kept and rejected
  rw [convoRound_forward hv hlast hmake hfilter hf hsh]
  simp only [hnew, hrun, hw]
  by_cases hshort : (w.length : Int) < onions.length
  · rw [if_pos hshort]
    constructor
    · intro h
      exact absurd rfl (h .slice _)
    · intro h
      omega
  · rw [if_neg hshort]
    constructor
    · intro _
      omega
    · intro _ p s' h
      cases h

theorem echoServer_answers : echoServer.Answers where
  new _ _ := ⟨(), rfl⟩
  run _ onions _ := ⟨onions, (), rfl⟩

/-- Three onions of noise are enough for a request that is replayed and one of a wrong size. -/
theorem convoRound_panics_iff_sample :
    numRejected tagBox (sampleStation "first" 1 40).cfg 1
        [(sampleOnion 3).1, (sampleOnion 3).1, []] = 2 ∧
    ∀ p s', convoRound (serverClient tagBox (sampleStation "first" 1 40) echoServer).next 1
      [(sampleOnion 3).1, (sampleOnion 3).1, []] (Server.start, ()) ≠ .error (.panic p) s' := by
  have hrej : numRejected tagBox (sampleStation "first" 1 40).cfg 1
      [(sampleOnion 3).1, (sampleOnion 3).1, []] = 2 := by decide +kernel
  refine ⟨hrej, (convoRound_panics_iff tagBox_ideal (by decide +kernel) ⟨rfl, rfl⟩ (by decide)
    echoServer_answers).mpr ?_⟩
  rw [hrej]
  decide

/-- Without noise, one onion of a wrong size brings the server down. -/
theorem convoRound_panics_quiet :
    faultOf (convoRound (serverClient tagBox quietStation echoServer).next 1
      [(sampleOnion 3).1, []] (Server.start, ())) = some (.panic .slice) := by
  decide +kernel

end Vuvuzela
