import Vuvuzela.Dial.Introductions
import Vuvuzela.Shuffle.Mixing

/-!
# Dial — what a server hides

A round of dialing has no replies, so its shuffle hides more than that of a convo round.  The order
of the batch does not show in anything the round leaves, neither with the next servers, whatever
they are, nor on the server itself, and that holds of every server, the last one included, whether
the round ends well or not (**`dial_order_hidden`**).  The buckets of the last server, which anyone
may fetch, are among what it leaves.
-/

namespace Vuvuzela
open Support

variable {σ : Type} {box : NaclBox} {Round : UInt32}

namespace DialService

variable {st : Station} {next : NextServer σ}

/-- Messages that a server found in onions can be filtered. -/
theorem filterLoop_isSome :
    ∀ {incoming : List Bytes} {seen : List UInt64} {valid : List Bytes},
      (∀ m ∈ incoming, 8 ≤ m.length) → (filterLoop incoming seen valid).isSome
  | [], _, _, _ => rfl
  | m :: incoming, seen, valid, h => by
      have hm : msgKey? m = some (msgKey m) := by
        rw [msgKey?, if_neg (Nat.not_lt.mpr (h m List.mem_cons_self))]
        rfl
      rw [filterLoop, hm]
      simp only []
      split
      · exact filterLoop_isSome fun m hm => h m (List.mem_cons_of_mem _ hm)
      · exact filterLoop_isSome fun m hm => h m (List.mem_cons_of_mem _ hm)

theorem filterIncoming_spec (hbox : box.Sized) {cfg : Config} {incoming onions : List Bytes}
    (h : incoming.Perm (onions.filterMap (dialMessage box cfg Round))) :
    filterIncoming incoming = some (firsts msgKey incoming) := by
  have hlong : ∀ m ∈ incoming, 8 ≤ m.length := by
    intro m hm
    obtain ⟨onion, -, hpeel⟩ := List.mem_filterMap.mp (h.mem_iff.mp hm)
    have hlen := peel_length hbox hpeel
    simp only [Config.expectedOnionSize, sizeDialExchange, sizeEncryptedIntro, sizeIntroduction,
      Onionbox.overhead, boxOverhead] at hlen
    omega
  have hsome : (filterLoop incoming [] []).isSome := filterLoop_isSome hlong
  obtain ⟨messages, hmessages⟩ := Option.isSome_iff_exists.mp hsome
  rw [filterIncoming, hmessages, ← filterIncoming_eq_some hmessages]

/-- `Close` makes nothing of the messages but the shuffled batch. -/
theorem close_congr (cfg : Config) (next : NextServer σ)
    {shuffler shuffler' : (n : Nat) → Shuffler n} {srv : Server}
    {incoming incoming' messages messages' noise shuffled : List Bytes}
    (hfilter : filterIncoming incoming = some messages)
    (hfilter' : filterIncoming incoming' = some messages')
    (hsh : (shuffler (messages ++ noise).length).shuffle (messages ++ noise) = some shuffled)
    (hsh' : (shuffler' (messages' ++ noise).length).shuffle (messages' ++ noise) = some shuffled)
    (t : σ) :
    close cfg next shuffler Round (srv.setDial Round ⟨.roundOpen, incoming, noise⟩, t) =
      close cfg next shuffler' Round (srv.setDial Round ⟨.roundOpen, incoming', noise⟩, t) := by
  rw [close_of_open cfg next shuffler (Server.setDial_self ..) rfl hfilter rfl hsh,
    close_of_open cfg next shuffler' (Server.setDial_self ..) rfl hfilter' rfl hsh']
  have hbatched : ∀ incoming : List Bytes, (srv.setDial Round ⟨.roundOpen, incoming, noise⟩).setDial
      Round (batched ⟨.roundOpen, incoming, noise⟩ shuffled) =
      srv.setDial Round ⟨.roundOpen, shuffled, noise⟩ := fun _ => Server.setDial_setDial ..
  have hclosed : ∀ incoming closing : List Bytes, Server.setDial
      { srv.setDial Round ⟨.roundOpen, incoming, noise⟩ with idle := false } Round
        (closed closing) =
      Server.setDial { srv with idle := false } Round (closed closing) := fun incoming closing =>
    Server.setDial_setDial { srv with idle := false } Round ⟨.roundOpen, incoming, noise⟩ _
  simp only [hbatched, hclosed]
  rfl

end DialService

/-- How many onions a server hands to its next one. -/
def dialBatchSize (box : NaclBox) (st : Station) (Round : UInt32) (onions : List Bytes) : Nat :=
  (firsts msgKey (onions.filterMap (dialMessage box st.cfg Round))).length +
    (st.dialCoins.noise box st.cfg Round).length

/-- A server that has drawn the shuffler for batches of `n`. -/
def Station.shuffling {n : Nat} (st : Station) (s : Shuffler n) : Station :=
  { st with shuffler := Function.update st.shuffler n s }

/-- A round of dialing on a server that draws its shuffler as `NewShuffler` does
(`newShuffler_law`). -/
noncomputable def dialRoundLaw (box : NaclBox) (st : Station) (next : NextServer σ) (Round : UInt32)
    (onions : List Bytes) (s : Server × σ) : PMF (EStateM.Result Fault (Server × σ) Unit) :=
  (independentIndices (dialBatchSize box st Round onions)).map fun shuffler =>
    dialRound (serverClient box (st.shuffling shuffler) next).next Round onions s

section Round

variable {st : Station} {next : NextServer σ} {onions onions' : List Bytes}

/-- A round on a server where it can start: the messages are gathered in some order, and `Close`
does the rest. -/
theorem dialRound_of_new (box : NaclBox) (st : Station) (next : NextServer σ) (Round : UInt32)
    (onions : List Bytes) {srv : Server} (t : σ)
    (hnew : DialService.newRound box st.cfg st.dialCoins Round srv =
      .ok () (Server.setDial { srv with idle := true } Round (newDial box st Round))) :
    ∃ incoming : List Bytes, incoming.Perm (onions.filterMap (dialMessage box st.cfg Round)) ∧
      ∀ {n : Nat} (s : Shuffler n),
        dialRound (serverClient box (st.shuffling s) next).next Round onions (srv, t) =
          named "Close" (DialService.close st.cfg next (st.shuffling s).shuffler Round)
            (Server.setDial { srv with idle := true } Round
              ⟨.roundOpen, incoming, st.dialCoins.noise box st.cfg Round⟩, t) := by
  have hopen : (newDial box st Round).status = .roundOpen := rfl
  obtain ⟨replies, incoming, hincoming, hadds⟩ :=
    dialAdds_eq box st next onions hopen { srv with idle := true } t
  refine ⟨incoming, hincoming, fun s => ?_⟩
  have hrun : dialRound (serverClient box (st.shuffling s) next).next Round onions (srv, t) =
      runDialRound (serverClient box (st.shuffling s) next) Round onions
        (Server.setDial { srv with idle := true } Round (newDial box st Round), t) :=
    bind_of_ok (onFst_of_ok t hnew)
  rw [hrun, runDialRound]
  exact bind_of_ok (named_of_ok hadds)

/-- **Nobody sees the order of a batch**, not even who seizes the server afterwards.  What a round
of dialing leaves has the same law in whichever order the onions came. -/
theorem dial_order_hidden (hbox : box.Sized)
    (hdistinct : ∀ m ∈ onions.filterMap (dialMessage box st.cfg Round),
      ∀ m' ∈ onions.filterMap (dialMessage box st.cfg Round), msgKey m = msgKey m' → m = m')
    (hperm : onions'.Perm onions) (s : Server × σ) :
    dialRoundLaw box st next Round onions' s = dialRoundLaw box st next Round onions s := by
  obtain ⟨srv, t⟩ := s
  have hmessages := hperm.filterMap (dialMessage box st.cfg Round)
  have hsize : dialBatchSize box st Round onions' = dialBatchSize box st Round onions := by
    rw [dialBatchSize, dialBatchSize, (firsts_perm hdistinct hmessages).length_eq]
  cases hnew : DialService.newRound box st.cfg st.dialCoins Round srv with
  | error f srv₁ =>
      -- a round that cannot start does not look at the batch
      have hfail : ∀ (onions : List Bytes) {n : Nat} (s : Shuffler n),
          dialRound (serverClient box (st.shuffling s) next).next Round onions (srv, t) =
            .error f (srv₁, t) := fun onions _ s => bind_of_error (onFst_of_error t hnew)
      simp only [dialRoundLaw, hfail]
      rw [hsize]
  | ok _ srv₁ =>
      obtain rfl := DialService.newRound_eq_ok hnew
      obtain ⟨incoming, hincoming, hround⟩ := dialRound_of_new box st next Round onions t hnew
      obtain ⟨incoming', hincoming', hround'⟩ :=
        dialRound_of_new box st next Round onions' t hnew
      have hfirsts := firsts_perm hdistinct hincoming
      have hfirsts' := firsts_perm hdistinct (hincoming'.trans hmessages)
      have hlen : (firsts msgKey incoming ++ st.dialCoins.noise box st.cfg Round).length =
          dialBatchSize box st Round onions := by
        rw [List.length_append, hfirsts.length_eq, dialBatchSize]
      have horders : (firsts msgKey incoming' ++ st.dialCoins.noise box st.cfg Round).Perm
          (firsts msgKey incoming ++ st.dialCoins.noise box st.cfg Round) :=
        (hfirsts'.trans hfirsts.symm).append_right _
      -- for each shuffler of the batch, the one that makes the same of the other order
      obtain ⟨e, he⟩ := Shuffler.exists_relabel (β := Unit) hlen horders
      rw [dialRoundLaw, dialRoundLaw, hsize]
      refine (bind_eq_of_equiv independentIndices_apply e fun s => ?_).symm
      obtain ⟨shuffled, hsh, -⟩ := s.shuffle_spec hlen
      have hsh' := ((he s).1).trans hsh
      rw [← Shuffler.update_shuffle st.shuffler hlen] at hsh
      rw [← Shuffler.update_shuffle st.shuffler (horders.length_eq.trans hlen)] at hsh'
      have hclose : DialService.close st.cfg next (st.shuffling (e s)).shuffler Round
          (Server.setDial { srv with idle := true } Round
            ⟨.roundOpen, incoming', st.dialCoins.noise box st.cfg Round⟩, t) =
          DialService.close st.cfg next (st.shuffling s).shuffler Round
            (Server.setDial { srv with idle := true } Round
              ⟨.roundOpen, incoming, st.dialCoins.noise box st.cfg Round⟩, t) :=
        DialService.close_congr st.cfg next (DialService.filterIncoming_spec hbox hincoming')
          (DialService.filterIncoming_spec hbox hincoming) hsh' hsh t
      refine congrArg PMF.pure ((hround' (e s)).trans (.trans ?_ (hround s).symm))
      simp only [named, mapFault, hclose]

end Round

/-- A dialer's request and cover traffic, the request first or last. -/
theorem dial_order_hidden_sample :
    sampleDialBatch.rotate 1 ≠ sampleDialBatch ∧
    dialRoundLaw tagBox (sampleStation "first" 1 40) echoServer 1 (sampleDialBatch.rotate 1)
        (Server.start, ()) =
      dialRoundLaw tagBox (sampleStation "first" 1 40) echoServer 1 sampleDialBatch
        (Server.start, ()) :=
  ⟨by decide +kernel, dial_order_hidden tagBox_ideal.sized (by decide +kernel)
    (List.rotate_perm _ _) _⟩

end Vuvuzela
