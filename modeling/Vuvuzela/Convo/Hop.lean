import Vuvuzela.Convo.Round

/-!
# Convo — what a round does to a batch

The effect of a whole round on one server, without the handlers.  The onions of the batch are
peeled and filtered; the last server answers what is left itself (`convoRound_last`), any
other server appends its noise, shuffles, and answers with what its next server answers
(`convoRound_forward`).  A message at position `m` of the filtered batch gets reply `m`, and
the onion at position `i` of the batch gets the reply of the message its index points at.
-/

namespace Vuvuzela
open Support

variable {σ : Type}

/-- The key a server stores for an onion. -/
def convoKey (box : NaclBox) (cfg : Config) (Round : UInt32) (onion : Bytes) : BoxKey :=
  (peel box cfg sizeConvoExchange (forwardNonce Round) onion).1

/-- The message a server finds in an onion. -/
def convoMessage (box : NaclBox) (cfg : Config) (Round : UInt32) (onion : Bytes) : Option Bytes :=
  (peel box cfg sizeConvoExchange (forwardNonce Round) onion).2

/-- The reply for position `i`. -/
def replyAt (index : List Int) (replies : List Bytes) (i : Nat) : Option Bytes :=
  (index[i]?).bind fun v => if v < 0 then none else replies[v.toNat]?

/-- The onion for position `i`. -/
def hopReply (box : NaclBox) (st : Station) (Round : UInt32) (onions : List Bytes)
    (index : List Int) (replies : List Bytes) (i : Nat) : Bytes :=
  ConvoService.replyOnion box (backwardNonce Round) st.cfg.outgoingOnionSize st.filler
    (convoKey box st.cfg Round (onions.getD i [])) (replyAt index replies i) i

/-! ### The messages of a batch -/

theorem le_msg_length {box : NaclBox} (hbox : box.Ideal) {cfg : Config} {Round : UInt32}
    {onion m : Bytes} (h : convoMessage box cfg Round onion = some m) : 8 ≤ m.length := by
  have := peel_length hbox.sized h
  simp only [Config.expectedOnionSize, sizeConvoExchange, sizeEncryptedMessage, sizeMessage,
    boxOverhead, Onionbox.overhead] at this
  omega

/-- `filterIncoming` of a loaded batch. -/
theorem filterIncoming_spec {box : NaclBox} (hbox : box.Ideal) (cfg : Config) (Round : UInt32)
    (onions : List Bytes) :
    ∃ messages index,
      ConvoService.filterIncoming (onions.map (convoMessage box cfg Round)) =
        some (messages, index) ∧
      Filtered msgKey (onions.map (convoMessage box cfg Round)) messages index := by
  refine filterFirsts_spec fun m hm => ?_
  obtain ⟨onion, -, h⟩ := List.mem_map.mp hm
  rw [msgKey?, if_neg (Nat.not_lt.mpr (le_msg_length hbox h))]
  rfl

section Hop

variable {box : NaclBox} {st : Station} {next : NextServer σ} {Round : UInt32}
  {onions messages : List Bytes} {index : List Int}

/-- `Get` finds its way from every position. -/
theorem getOnion_closed {round : ConvoRound} {replies : List Bytes}
    (hf : Filtered msgKey (onions.map (convoMessage box st.cfg Round)) messages index)
    (hle : messages.length ≤ replies.length) (hindex : round.incomingIndex = index)
    (hreplies : round.replies = replies)
    (hkeys : round.sharedKeys = onions.map fun onion => some (convoKey box st.cfg Round onion)) :
    ∀ i < onions.length, ConvoService.getOnion box (backwardNonce Round) st.cfg.outgoingOnionSize
      st.filler round (i : Nat) = .ok (hopReply box st Round onions index replies i) := by
  intro i hi
  have hlen : i < index.length := by rw [hf.length_index, List.length_map]; exact hi
  have hget := List.getElem?_eq_getElem hlen
  -- an onion that was dropped has index -1 and gets filler, any other gets a reply
  rcases hf.index_range i _ hget with hv | ⟨m, hm, hv⟩
  · rw [hv] at hget
    have hrep : replyAt index replies i = none := by simp [replyAt, hget]
    rw [hopReply, hrep]
    exact ConvoService.getOnion_of_neg (hindex ▸ hget)
  · rw [hv] at hget
    have hmr : m < replies.length := lt_of_lt_of_le hm hle
    have hrep : replyAt index replies i = some replies[m] := by
      simp [replyAt, hget, hmr]
    rw [hopReply, hrep]
    refine ConvoService.getOnion_of_reply (hindex ▸ hget)
      (hreplies ▸ List.getElem?_eq_getElem hmr) ?_
    rw [hkeys, List.getElem?_map, List.getElem?_eq_getElem hi]
    simp [hi]

/-! ### Starting a round -/

/-- A server after `NewRound`. -/
def started (box : NaclBox) (st : Station) (Round : UInt32) (srv : Server) : Server :=
  Server.setConvo { srv with idle := true } Round (st.convoCoins.newRound box st.cfg Round)

/-- A server whose `Idle` is free, and which has no round of this number. -/
structure Vacant (Round : UInt32) (srv : Server) : Prop where
  idle : srv.idle = false
  absent : srv.convoRounds Round = none

/-- A round that was made on a vacant server and deleted leaves no trace. -/
theorem dropConvo_setConvo {srv : Server} (h : Vacant Round srv) (round : ConvoRound) :
    (srv.setConvo Round round).dropConvo Round = srv := by
  have : Function.update srv.convoRounds Round none = srv.convoRounds := by
    rw [← h.absent, Function.update_eq_self]
  simp [Server.setConvo, Server.dropConvo, this]

theorem newRound_of_vacant {srv : Server} (h : Vacant Round srv) :
    ConvoService.newRound box st.cfg st.convoCoins Round srv =
      .ok () (started box st Round srv) := by
  rw [ConvoService.newRound_eq]
  simp [h.idle, h.absent, started]

/-- On a vacant server, a round is `RunConvoRound` after `NewRound`. -/
theorem convoRound_of_vacant {srv : Server} (h : Vacant Round srv) (t : σ) :
    convoRound (serverClient box st next).next Round onions (srv, t) =
      runConvoRoundIn 4000 (serverClient box st next) Round onions (started box st Round srv, t) :=
  bind_of_ok (onFst_of_ok t (newRound_of_vacant h))

/-- A round that ends with replies was begun on a vacant server, with a batch that fits. -/
theorem convoRound_ok_inv {srv : Server} {t : σ} {replies : List Bytes} {s' : Server × σ}
    (h : convoRound (serverClient box st next).next Round onions (srv, t) = .ok replies s') :
    Vacant Round srv ∧ makeOk onions.length := by
  obtain ⟨_, s₁, hnew, hrun⟩ := bind_eq_ok.mp h
  have hnew := (onFst_eq_ok.mp hnew).1
  rw [ConvoService.newRound_eq] at hnew
  split at hnew
  · cases hnew
  split at hnew
  · cases hnew
  rename_i hidle habsent
  have hv : Vacant Round srv := ⟨by simpa using hidle, by simpa using habsent⟩
  refine ⟨hv, ?_⟩
  rw [convoRound_of_vacant hv] at h
  obtain ⟨_, _, hopen, -⟩ := bind_eq_ok.mp h
  exact ConvoService.makeOk_of_open (onFst_eq_ok.mp (mapFault_eq_ok.mp hopen)).1

/-! ### The last server -/

/-- **A round on the last server** answers the batch from the dead drops, and sends the counts. -/
theorem convoRound_last {srv : Server} (hlast : st.cfg.lastServer = true)
    (hv : Vacant Round srv) (hmake : makeOk onions.length)
    (hfilter : ConvoService.filterIncoming (onions.map (convoMessage box st.cfg Round)) =
      some (messages, index))
    (hf : Filtered msgKey (onions.map (convoMessage box st.cfg Round)) messages index) (t : σ) :
    convoRound (serverClient box st next).next Round onions (srv, t) =
      .ok ((List.range onions.length).map
          (hopReply box st Round onions index (dropReplies (readExchanges messages))))
        ({ srv with
          accessCounts := offer srv.accessCounts (accessCount (readExchanges messages)) }, t) := by
  -- The server after the round is named first: `simp` would otherwise open it in `hclose`.
  obtain ⟨srv₁, hsrv⟩ : ∃ srv₁ : Server, { srv with
      accessCounts := offer srv.accessCounts (accessCount (readExchanges messages)) } = srv₁ :=
    ⟨_, rfl⟩
  have hv₁ : Vacant Round srv₁ := hsrv ▸ ⟨hv.idle, hv.absent⟩
  have hclose : ConvoService.close st.cfg next st.shuffler Round
      ((started box st Round srv).setConvo Round (ConvoService.loaded box st.cfg Round onions
        (st.convoCoins.newRound box st.cfg Round)), t) =
      .ok () (srv₁.setConvo Round (ConvoService.exchanged (ConvoService.filtered
        (ConvoService.loaded box st.cfg Round onions (st.convoCoins.newRound box st.cfg Round))
        messages index) messages), t) := by
    rw [ConvoService.close_of_open st.cfg next st.shuffler (Server.setConvo_self ..) rfl hfilter,
      if_pos hlast]
    refine onFst_of_ok t ((ConvoService.closeLast_eq ..).trans ((if_pos rfl).trans ?_))
    simp [← hsrv, Server.setConvo, started, hv.idle]
  have hlen : (dropReplies (readExchanges messages)).length = messages.length := by
    simp [dropReplies, readExchanges]
  rw [convoRound_of_vacant hv, hsrv]
  refine (runConvoRoundIn_eq_ok (by decide) (Server.setConvo_self ..) rfl hmake hclose rfl
    (getOnion_closed hf hlen.ge rfl rfl rfl)).trans ?_
  rw [dropConvo_setConvo hv₁]

/-! ### Any other server -/

/-- The batch a server that is not the last one forwards, before the shuffle. -/
def outgoing (box : NaclBox) (st : Station) (Round : UInt32) (messages : List Bytes) : List Bytes :=
  messages ++ st.convoCoins.noise box st.cfg Round

section Forward

variable {shuffled : List Bytes} {srv : Server} {t : σ}

/-- The round of a server that handed its batch to the next one. -/
def handedOver (box : NaclBox) (st : Station) (Round : UInt32) (onions messages : List Bytes)
    (index : List Int) (shuffled : List Bytes) : ConvoRound :=
  ConvoService.drained (ConvoService.filtered (ConvoService.loaded box st.cfg Round onions
      (st.convoCoins.newRound box st.cfg Round)) messages index)
    onions.length messages (outgoing box st Round messages) shuffled

/-- `Idle` is free again once the round was handed over. -/
theorem setConvo_released (hv : Vacant Round srv) (round₀ round : ConvoRound) :
    Server.setConvo { (started box st Round srv).setConvo Round round₀ with idle := false } Round
      round = srv.setConvo Round round := by
  simp [Server.setConvo, started, hv.idle]

/-- `Close` of a loaded round. -/
theorem close_loaded (next : NextServer σ) (t : σ) (hv : Vacant Round srv)
    (hlast : st.cfg.lastServer = false)
    (hfilter : ConvoService.filterIncoming (onions.map (convoMessage box st.cfg Round)) =
      some (messages, index))
    (hsh : (st.shuffler (outgoing box st Round messages).length).shuffle
      (outgoing box st Round messages) = some shuffled) :
    ConvoService.close st.cfg next st.shuffler Round
        ((started box st Round srv).setConvo Round (ConvoService.loaded box st.cfg Round onions
          (st.convoCoins.newRound box st.cfg Round)), t) =
      let round := handedOver box st Round onions messages index shuffled
      match next.newConvoRound Round t with
      | .error f t₁ =>
          .error (f.remote.context "NewConvoRound")
            ((started box st Round srv).setConvo Round round, t₁)
      | .ok _ t₁ =>
          match next.runConvoRound Round shuffled t₁ with
          | .error f t₂ =>
              .error (f.remote.context "RunConvoRound") (srv.setConvo Round round, t₂)
          | .ok replies t₂ =>
              match (st.shuffler (outgoing box st Round messages).length).unshuffle replies with
              | none => .error (.panic .index) (srv.setConvo Round round, t₂)
              | some replies =>
                  if (replies.length : Int) < onions.length then
                    .error (.panic .slice) (srv.setConvo Round round, t₂)
                  else .ok () (srv.setConvo Round (ConvoService.answered round replies), t₂) := by
  have hout : messages ++ (ConvoService.filtered (ConvoService.loaded box st.cfg Round onions
      (st.convoCoins.newRound box st.cfg Round)) messages index).noise =
      outgoing box st Round messages := by
    simp [ConvoService.filtered, ConvoService.loaded, ConvoCoins.newRound, hlast, outgoing]
  rw [ConvoService.close_of_open st.cfg next st.shuffler (Server.setConvo_self ..) rfl hfilter,
    if_neg (by simp [hlast]), ConvoService.closeForward_eq _ _ _ _ _ _ _ _ hout hsh]
  -- the capacity `closeForward` compares the replies with is the size of the batch
  have hcap : (ConvoService.loaded box st.cfg Round onions
      (st.convoCoins.newRound box st.cfg Round)).incoming.length = onions.length :=
    List.length_map ..
  simp only [Server.setConvo_setConvo, setConvo_released hv, hcap]
  rfl

/-- **A round on any other server** ends as the calls of the next server end, and leaves the
server as it was; it panics when the batch it forwarded is shorter than the batch it was
given. -/
theorem convoRound_forward (hv : Vacant Round srv) (hlast : st.cfg.lastServer = false)
    (hmake : makeOk onions.length)
    (hfilter : ConvoService.filterIncoming (onions.map (convoMessage box st.cfg Round)) =
      some (messages, index))
    (hf : Filtered msgKey (onions.map (convoMessage box st.cfg Round)) messages index)
    (hsh : (st.shuffler (outgoing box st Round messages).length).shuffle
      (outgoing box st Round messages) = some shuffled) :
    convoRound (serverClient box st next).next Round onions (srv, t) =
      let round := handedOver box st Round onions messages index shuffled
      match next.newConvoRound Round t with
      | .error f t₁ =>
          .error ((f.remote.context "NewConvoRound").context "Close")
            ((started box st Round srv).setConvo Round round, t₁)
      | .ok _ t₁ =>
          match next.runConvoRound Round shuffled t₁ with
          | .error f t₂ =>
              .error ((f.remote.context "RunConvoRound").context "Close")
                (srv.setConvo Round round, t₂)
          | .ok replies t₂ =>
              match (st.shuffler (outgoing box st Round messages).length).unshuffle replies with
              | none => .error (.panic .index) (srv.setConvo Round round, t₂)
              | some replies =>
                  if (replies.length : Int) < onions.length then
                    .error (.panic .slice) (srv.setConvo Round round, t₂)
                  else .ok ((List.range onions.length).map (hopReply box st Round onions index
                    (replies.take onions.length))) (srv, t₂) := by
  have hclose := close_loaded next t hv hlast hfilter hsh
  -- Every way `Close` fails is a way the round fails, so only the last case has work to do.
  have herr : ∀ {f : Fault} {s : Server × σ}, ConvoService.close st.cfg next st.shuffler Round
      ((started box st Round srv).setConvo Round (ConvoService.loaded box st.cfg Round onions
        (st.convoCoins.newRound box st.cfg Round)), t) = .error f s →
      convoRound (serverClient box st next).next Round onions (srv, t) =
        .error (f.context "Close") s := fun h => by
    rw [convoRound_of_vacant hv]
    exact runConvoRoundIn_eq_error (by decide) (Server.setConvo_self ..) rfl hmake h
  have hle := hf.length_valid_le
  rw [List.length_map] at hle
  simp only [] at hclose ⊢
  cases hnew : next.newConvoRound Round t with
  | error f t₁ =>
      simp only [hnew] at hclose ⊢
      exact herr hclose
  | ok _ t₁ =>
      simp only [hnew] at hclose ⊢
      cases hrun : next.runConvoRound Round shuffled t₁ with
      | error f t₂ =>
          simp only [hrun] at hclose ⊢
          exact herr hclose
      | ok replies t₂ =>
          simp only [hrun] at hclose ⊢
          cases hun : (st.shuffler (outgoing box st Round messages).length).unshuffle replies with
          | none =>
              simp only [hun] at hclose ⊢
              exact herr hclose
          | some replies =>
              simp only [hun] at hclose ⊢
              by_cases hshort : (replies.length : Int) < onions.length
              · rw [if_pos hshort] at hclose
                simp only [if_pos hshort]
                exact herr hclose
              · rw [if_neg hshort] at hclose
                simp only [if_neg hshort]
                -- the filtered batch is no longer than the batch, so the cut keeps its replies
                have hlen : messages.length ≤ (replies.take onions.length).length := by
                  rw [List.length_take]; omega
                rw [convoRound_of_vacant hv]
                refine (runConvoRoundIn_eq_ok (by decide) (Server.setConvo_self ..) rfl hmake hclose
                  rfl (getOnion_closed hf hlen rfl rfl rfl)).trans ?_
                rw [dropConvo_setConvo hv]

end Forward

end Hop

end Vuvuzela
