import Vuvuzela.Convo.Mix
import Vuvuzela.Convo.DeadDrops
import Vuvuzela.Chain.Sample

/-!
# Convo — the chain is a dead-drop exchange

The purpose of the chain, without servers, layers or positions: the accepted requests meet at
their dead drops, and each of two that meet gets the other's message (`idealReply`).  The chain
does this: a request that was sealed for it and accepted gets a reply that opens to what
`idealReply` says.
-/

namespace Vuvuzela
open Support

variable {box : NaclBox} {Round : UInt32}

/-- The exchange the last server reads in a message. -/
def readExchange (m : Bytes) : ConvoExchange := (ConvoExchange.unmarshal m).getD .zero

theorem readExchange_marshal (ex : ConvoExchange) : readExchange ex.marshal = ex := by
  rw [readExchange, ConvoExchange.unmarshal_marshal]
  rfl

/-- The accepted requests of a batch that arrived, with their exchanges. -/
def acceptedIn (final : List Tagged) : List (Nat × ConvoExchange) :=
  final.filterMap fun e => e.1.request?.map fun i => (i, readExchange e.2)

/-- The accepted requests: those no server on the way rejected or took for a duplicate. -/
def accepted (box : NaclBox) (Round : UInt32) (stations : List Station) (onions : List Bytes) :
    List (Nat × ConvoExchange) :=
  acceptedIn (deliver box Round stations (requests onions))

/-- The other requests at the dead drop of request `i`. -/
def partners (accepted : List (Nat × ConvoExchange)) (i : Nat) (d : DeadDrop) :
    List (Nat × ConvoExchange) :=
  accepted.filter fun p => p.1 ≠ i ∧ p.2.deadDrop = d

/-- **The ideal exchange.**  A request alone at its dead drop gets its own message back, one of
two gets the other's message; nothing is said of three or more. -/
def idealReply (accepted : List (Nat × ConvoExchange)) (i : Nat) (ex : ConvoExchange) :
    Option (Block sizeEncryptedMessage) :=
  match partners accepted i ex.deadDrop with
  | [] => some ex.encryptedMessage
  | [p] => some p.2.encryptedMessage
  | _ => none

/-- The dead drops of the noise of a server. -/
def ConvoCoins.deadDrops (coins : ConvoCoins) : List DeadDrop :=
  coins.exchanges.map (Block.copy 16)

theorem readExchange_deadDrop {m : Bytes} (h : m.length = sizeConvoExchange) :
    (readExchange m).deadDrop = Block.copy 16 m := by
  rw [readExchange, ConvoExchange.unmarshal, if_neg (by omega)]
  rfl

theorem nodup_numbers_requests (onions : List Bytes) : (numbers (requests onions)).Nodup := by
  have : numbers (requests onions) = onions.zipIdx.map Prod.snd := by
    simp [numbers, requests, List.filterMap_map, Origin.request?]
  rw [this, List.zipIdx_map_snd]
  exact List.nodup_range'

theorem mem_requests {onions : List Bytes} {i : Nat} {onion : Bytes} :
    (Origin.request i, onion) ∈ requests onions ↔ onions[i]? = some onion := by
  simp [requests, List.mem_zipIdx_iff_getElem?]

theorem map_snd_requests (onions : List Bytes) : (requests onions).map Prod.snd = onions := by
  simp [requests, Function.comp_def]

theorem mem_acceptedIn {final : List Tagged} {p : Nat × ConvoExchange} :
    p ∈ acceptedIn final ↔ ∃ m, (Origin.request p.1, m) ∈ final ∧ p.2 = readExchange m := by
  simp only [acceptedIn, List.mem_filterMap, Option.map_eq_some_iff, Origin.request?_eq_some]
  constructor
  · rintro ⟨⟨o, m⟩, hmem, i, rfl, rfl⟩
    exact ⟨m, hmem, rfl⟩
  · rintro ⟨m, hmem, hp⟩
    exact ⟨_, hmem, p.1, rfl, Prod.ext rfl hp.symm⟩

/-! ### From the positions of the last server to the ideal exchange -/

section Final

variable {final : List Tagged} {i q : Nat} {m : Bytes}

theorem getElem?_readExchanges (final : List Tagged) (q : Nat) :
    (readExchanges (final.map Prod.snd))[q]? = (final[q]?).map fun e => readExchange e.2 := by
  simp only [readExchanges, List.map_map, List.getElem?_map]
  rfl

/-- Whoever else is at the dead drop of request `i` is one of its partners, where no noise is. -/
theorem partner_of_position (hnodup : (numbers final).Nodup)
    (hq : final[q]? = some (.request i, m))
    (hfresh : ∀ m', (Origin.noise, m') ∈ final →
      (readExchange m').deadDrop ≠ (readExchange m).deadDrop)
    {q' : Nat} (hpos : q' ∈ positions (readExchanges (final.map Prod.snd))
      (readExchange m).deadDrop) (hne : q' ≠ q) :
    ∃ j m', final[q']? = some (.request j, m') ∧
      (j, readExchange m') ∈ partners (acceptedIn final) i (readExchange m).deadDrop := by
  obtain ⟨ex', hget, hd⟩ := mem_positions.mp hpos
  rw [getElem?_readExchanges] at hget
  obtain ⟨⟨o, m'⟩, hq', rfl⟩ := Option.map_eq_some_iff.mp hget
  have hmem := List.mem_of_getElem? hq'
  cases o with
  | noise => exact absurd hd (hfresh m' hmem)
  | request j =>
      refine ⟨j, m', hq', List.mem_filter.mpr ⟨mem_acceptedIn.mpr ⟨m', hmem, rfl⟩, ?_⟩⟩
      have hj : j ≠ i := fun e => hne (position_unique hnodup (e ▸ hq') hq)
      simp [hj, hd]

theorem mem_positions_self (hq : final[q]? = some (.request i, m)) :
    (readExchanges (final.map Prod.snd))[q]? = some (readExchange m) ∧
      q ∈ positions (readExchanges (final.map Prod.snd)) (readExchange m).deadDrop := by
  have hex : (readExchanges (final.map Prod.snd))[q]? = some (readExchange m) := by
    rw [getElem?_readExchanges, hq]
    rfl
  exact ⟨hex, mem_positions.mpr ⟨_, hex, rfl⟩⟩

/-- A request without partners is alone at its dead drop. -/
theorem positions_of_no_partner (hnodup : (numbers final).Nodup)
    (hq : final[q]? = some (.request i, m))
    (hfresh : ∀ m', (Origin.noise, m') ∈ final →
      (readExchange m').deadDrop ≠ (readExchange m).deadDrop)
    (hnone : partners (acceptedIn final) i (readExchange m).deadDrop = []) :
    positions (readExchanges (final.map Prod.snd)) (readExchange m).deadDrop = [q] := by
  refine List.perm_singleton.mp ?_
  rw [List.perm_ext_iff_of_nodup (nodup_positions ..) (List.nodup_singleton q)]
  intro q'
  rw [List.mem_singleton]
  refine ⟨fun hpos => ?_, fun e => e ▸ (mem_positions_self hq).2⟩
  by_contra hne
  obtain ⟨j, m', -, hpartner⟩ := partner_of_position hnodup hq hfresh hpos hne
  rw [hnone] at hpartner
  cases hpartner

/-- A request with one partner shares its dead drop with it, and with nobody else. -/
theorem positions_of_partner (hnodup : (numbers final).Nodup)
    (hq : final[q]? = some (.request i, m))
    (hfresh : ∀ m', (Origin.noise, m') ∈ final →
      (readExchange m').deadDrop ≠ (readExchange m).deadDrop)
    {p : Nat × ConvoExchange}
    (hone : partners (acceptedIn final) i (readExchange m).deadDrop = [p]) :
    ∃ q', q ≠ q' ∧ (readExchanges (final.map Prod.snd))[q']? = some p.2 ∧
      (positions (readExchanges (final.map Prod.snd)) (readExchange m).deadDrop).Perm [q, q'] := by
  have hp : p ∈ partners (acceptedIn final) i (readExchange m).deadDrop := by simp [hone]
  obtain ⟨hacc, hcond⟩ := List.mem_filter.mp hp
  obtain ⟨hj, hd⟩ : p.1 ≠ i ∧ p.2.deadDrop = (readExchange m).deadDrop := by simpa using hcond
  obtain ⟨m', hmem', hp₂⟩ := mem_acceptedIn.mp hacc
  obtain ⟨q', hq'⟩ := List.mem_iff_getElem?.mp hmem'
  have hne : q ≠ q' := fun e => by
    subst e
    rw [hq'] at hq
    simp at hq
    exact hj hq.1
  have hex' : (readExchanges (final.map Prod.snd))[q']? = some p.2 := by
    rw [getElem?_readExchanges, hq', hp₂]
    rfl
  refine ⟨q', hne, hex', ?_⟩
  rw [List.perm_ext_iff_of_nodup (nodup_positions ..) (by simp [hne])]
  intro q''
  simp only [List.mem_cons, List.not_mem_nil, or_false]
  constructor
  · intro hpos
    by_cases hqq : q'' = q
    · exact .inl hqq
    · -- a third position would be a second partner, or the partner's number twice
      obtain ⟨j, m'', hq'', hpartner⟩ := partner_of_position hnodup hq hfresh hpos hqq
      rw [hone, List.mem_singleton] at hpartner
      obtain rfl : j = p.1 := congrArg Prod.fst hpartner
      exact .inr (position_unique hnodup hq'' hq')
  · rintro (rfl | rfl)
    · exact (mem_positions_self hq).2
    · exact mem_positions.mpr ⟨_, hex', hd⟩

/-- The last server answers as the ideal exchange does. -/
theorem dropReplies_ideal (hnodup : (numbers final).Nodup)
    (hq : final[q]? = some (.request i, m))
    (hfresh : ∀ m', (Origin.noise, m') ∈ final →
      (readExchange m').deadDrop ≠ (readExchange m).deadDrop)
    {msg : Block sizeEncryptedMessage}
    (hideal : idealReply (acceptedIn final) i (readExchange m) = some msg) :
    (dropReplies (readExchanges (final.map Prod.snd)))[q]? = some msg.1 := by
  obtain ⟨hex, -⟩ := mem_positions_self hq
  rw [idealReply] at hideal
  split at hideal
  · rename_i hnone
    obtain rfl := Option.some.inj hideal
    exact dropReplies_alone hex (positions_of_no_partner hnodup hq hfresh hnone)
  · rename_i p hone
    obtain rfl := Option.some.inj hideal
    obtain ⟨q', hne, hex', hperm⟩ := positions_of_partner hnodup hq hfresh hone
    exact dropReplies_pair hex hex' hne hperm
  · -- three or more at a dead drop: the ideal exchange promises nothing
    cases hideal

end Final

/-! ### The chain -/

/-- Two exchanges that meet at a dead drop. -/
def sampleExchange (b : UInt8) : ConvoExchange :=
  ⟨Block.copy 16 [9], ⟨List.replicate _ b, List.length_replicate ..⟩⟩

/-- An exchange sealed for the sample chain. -/
def sampleOnion (b : UInt8) : Bytes × List BoxKey :=
  Onionbox.seal tagBox (sampleExchange b).marshal (forwardNonce 1) samplePki.serverKeys
    fun _ => sampleKey b

end Vuvuzela
