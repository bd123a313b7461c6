import Vuvuzela.Dial.Handlers
import Vuvuzela.Source.Chain

/-!
# Dial — a round of dialing on one server

What a round that ends well does on one server, without the handlers.  The `Add` calls gather the
messages of the batch, each once, in whichever order the server gets to them (`dialAdds_eq`).
`Close` keeps the first message of each key, appends the noise and shuffles; the last server stores
the result, and any other server runs the round with it on its next server (`dialRound_eq_ok`).
-/

namespace Vuvuzela
open Support

variable {σ : Type} {box : NaclBox} {Round : UInt32}

/-- The message a server finds in an onion. -/
def dialMessage (box : NaclBox) (cfg : Config) (Round : UInt32) (onion : Bytes) : Option Bytes :=
  (peel box cfg sizeDialExchange (forwardNonce Round) onion).2

/-! ### Gathering the batch -/

/-- The part of a batch that a span covers. -/
def piece (onions : List Bytes) (spanSize j : Nat) : List Bytes :=
  (onions.drop (spanAt onions.length spanSize j).start).take
    (spanAt onions.length spanSize j).count

theorem flatMap_piece (onions : List Bytes) (spanSize : Nat) (k : Nat) :
    (List.range k).flatMap (piece onions spanSize) = onions.take (k * spanSize) := by
  induction k with
  | zero => simp
  | succ k ih =>
      have hpiece : piece onions spanSize k = (onions.drop (k * spanSize)).take spanSize := by
        rw [piece, spanAt, ← List.length_drop, ← List.take_eq_take_min]
      rw [List.range_succ, List.flatMap_append, ih, List.flatMap_singleton, hpiece, Nat.succ_mul,
        List.take_add]

/-- The spans of a batch, put together, are the batch. -/
theorem flatMap_piece_numSpans (onions : List Bytes) {spanSize : Nat} (hs : 0 < spanSize) :
    (List.range (numSpans onions.length spanSize)).flatMap (piece onions spanSize) = onions := by
  rw [flatMap_piece]
  refine List.take_of_length_le (Nat.not_lt.mp fun hlt => ?_)
  exact Nat.lt_irrefl _ ((lt_numSpans hs).mpr hlt)

namespace DialService

/-- A round after the `Add` calls for the spans `done`. -/
def gathered (box : NaclBox) (cfg : Config) (Round : UInt32) (onions : List Bytes) (spanSize : Nat)
    (round : DialRound) (done : List Nat) : DialRound :=
  { round with
    incoming := round.incoming ++
      (done.flatMap (piece onions spanSize)).filterMap (dialMessage box cfg Round) }

/-- The `Add` of one span. -/
theorem add_piece {cfg : Config} {onions : List Bytes} {spanSize : Nat} {round : DialRound}
    (hopen : round.status = .roundOpen) (srv : Server) (done : List Nat) (j : Nat) :
    add box cfg ⟨Round, piece onions spanSize j⟩
        (srv.setDial Round (gathered box cfg Round onions spanSize round done)) =
      .ok () (srv.setDial Round (gathered box cfg Round onions spanSize round (done ++ [j]))) := by
  have hget : getRound Round .roundOpen
      (srv.setDial Round (gathered box cfg Round onions spanSize round done)) =
      .ok (gathered box cfg Round onions spanSize round done) _ :=
    getRound_of_some (Server.setDial_self ..) hopen
  have hadded : added box cfg ⟨Round, piece onions spanSize j⟩
      (gathered box cfg Round onions spanSize round done) =
        gathered box cfg Round onions spanSize round (done ++ [j]) := by
    simp only [added, gathered, List.flatMap_append, List.flatMap_singleton, List.filterMap_append,
      List.append_assoc]
    rfl
  simp only [add_eq, hget, hadded, Server.setDial_setDial]

end DialService

/-- **Any order of the `Add` calls gathers the messages of the batch.** -/
theorem dialAdds_eq (box : NaclBox) (st : Station) (next : NextServer σ) (onions : List Bytes)
    {round : DialRound} (hopen : round.status = .roundOpen) (srv : Server) (t : σ) :
    ∃ replies incoming, incoming.Perm (onions.filterMap (dialMessage box st.cfg Round)) ∧
      callMany st.addOrder ((spans onions.length 4000).map fun span =>
          (serverClient box st next).dialAdd ⟨Round, (onions.drop span.start).take span.count⟩)
          (srv.setDial Round round, t) =
        .ok replies
          (srv.setDial Round { round with incoming := round.incoming ++ incoming }, t) := by
  have hs : 0 < 4000 := by decide
  -- the invariant of the calls: after those in `done`, the round has gathered their pieces
  obtain ⟨order, horder, h⟩ := callMany_spans st.addOrder hs
    (fun span => (serverClient box st next).dialAdd
      ⟨Round, (onions.drop span.start).take span.count⟩)
    (fun _ => ())
    (fun done => (srv.setDial Round
      (DialService.gathered box st.cfg Round onions 4000 round done), t))
    (fun done j _ => onFst_of_ok t (DialService.add_piece hopen srv done j))
  have hnil : DialService.gathered box st.cfg Round onions 4000 round [] = round := by
    simp [DialService.gathered]
  rw [hnil] at h
  refine ⟨_, (order.flatMap (piece onions 4000)).filterMap (dialMessage box st.cfg Round), ?_, h⟩
  refine List.Perm.filterMap _ ?_
  have hall := horder.flatMap_right (piece onions 4000)
  rwa [flatMap_piece_numSpans onions hs] at hall

/-! ### The whole round -/

section Round

variable {st : Station} {next : NextServer σ} {onions : List Bytes}

/-- A round that was started, and not yet filled. -/
def newDial (box : NaclBox) (st : Station) (Round : UInt32) : DialRound :=
  ⟨.roundOpen, [], st.dialCoins.noise box st.cfg Round⟩

/-- What `NewRound` leaves, where it returns. -/
theorem DialService.newRound_eq_ok {srv srv' : Server}
    (h : DialService.newRound box st.cfg st.dialCoins Round srv = .ok () srv') :
    srv' = Server.setDial { srv with idle := true } Round (newDial box st Round) := by
  rw [DialService.newRound_eq] at h
  split at h
  · cases h
  · split at h
    · cases h
    · cases h
      rfl

/-- `Close`, where it returns. -/
theorem DialService.close_eq_ok {srv : Server} {round : DialRound} {t : σ} {s' : Server × σ}
    (hround : srv.dialRounds Round = some round) (hopen : round.status = .roundOpen)
    (h : DialService.close st.cfg next st.shuffler Round (srv, t) = .ok () s') :
    ∃ shuffled, shuffled.Perm (firsts msgKey round.incoming ++ round.noise) ∧
      if st.cfg.lastServer then
        s'.1.dialRounds Round = some (DialService.closed shuffled)
      else dialRound next Round shuffled t = .ok () s'.2 := by
  cases hfilter : DialService.filterIncoming round.incoming with
  | none =>
      rw [DialService.close, bind_of_ok (onFst_of_ok t (DialService.getRound_of_some hround hopen)),
        hfilter] at h
      cases h
  | some messages =>
      obtain ⟨outgoing, hout⟩ : ∃ outgoing, messages ++ round.noise = outgoing := ⟨_, rfl⟩
      obtain ⟨shuffled, hsh, hperm⟩ :=
        (st.shuffler outgoing.length).shuffle_spec (x := outgoing) rfl
      rw [DialService.close_of_open st.cfg next st.shuffler hround hopen hfilter hout hsh] at h
      rw [← DialService.filterIncoming_eq_some hfilter, hout]
      refine ⟨shuffled, hperm, ?_⟩
      by_cases hlast : st.cfg.lastServer = true
      · simp only [if_pos hlast] at h ⊢
        split at h
        · cases h
          exact Server.setDial_self ..
        · cases h
      · simp only [if_neg hlast] at h ⊢
        -- both calls of the next server returned: together they are its round
        cases hnew : next.newDialRound Round t with
        | error f t₁ =>
            rw [hnew] at h
            cases h
        | ok _ t₁ =>
            rw [hnew] at h
            simp only [] at h
            split at h
            · cases hrun : next.runDialRound Round shuffled t₁ with
              | error f t₂ =>
                  rw [hrun] at h
                  cases h
              | ok _ t₂ =>
                  rw [hrun] at h
                  cases h
                  rw [dialRound, bind_of_ok hnew]
                  exact hrun
            · cases h

/-- **A round of dialing on one server**, where it ends well. -/
theorem dialRound_eq_ok {s s' : Server × σ}
    (h : dialRound (serverClient box st next).next Round onions s = .ok () s') :
    ∃ incoming shuffled, incoming.Perm (onions.filterMap (dialMessage box st.cfg Round)) ∧
      shuffled.Perm (firsts msgKey incoming ++ st.dialCoins.noise box st.cfg Round) ∧
      if st.cfg.lastServer then
        s'.1.dialRounds Round = some (DialService.closed shuffled)
      else dialRound next Round shuffled s.2 = .ok () s'.2 := by
  obtain ⟨srv, t⟩ := s
  obtain ⟨_, ⟨srv₁, t₁⟩, hnew, hrun⟩ := bind_eq_ok.mp h
  obtain ⟨hnew, ht⟩ := onFst_eq_ok.mp hnew
  cases DialService.newRound_eq_ok hnew
  cases ht
  -- the calls of `Add` end in the one way they can
  have hopen : (newDial box st Round).status = .roundOpen := rfl
  obtain ⟨replies, incoming, hincoming, hadds⟩ :=
    dialAdds_eq box st next onions hopen { srv with idle := true } t
  obtain ⟨_, s₂, hadd, hclose⟩ := bind_eq_ok.mp hrun
  have hadd := mapFault_eq_ok.mp hadd
  cases hadds.symm.trans hadd
  obtain ⟨shuffled, hperm, hend⟩ :=
    DialService.close_eq_ok (Server.setDial_self ..) rfl (mapFault_eq_ok.mp hclose)
  exact ⟨incoming, shuffled, hincoming, hperm, hend⟩

end Round

end Vuvuzela
