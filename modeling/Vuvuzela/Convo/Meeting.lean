import Vuvuzela.Convo.Exchange

/-!
# Convo — requests that arrive, and what comes back for them

A request that was sealed for a chain arrives when no server on the way rejects it or takes it for
a duplicate (`Arrives`).  What its reply opens to is then up to who else is at its dead drop
(`Arrives.opens`): nobody, and it is the own message (`Arrives.opens_alone`), or one other, and it
is the message of the other (`Meeting.opens`).
-/

namespace Vuvuzela
open Support

variable {box : NaclBox} {Round : UInt32} {d : Deployment box} {onions replies : List Bytes}
  {i j : Nat} {ex ex' : ConvoExchange} {keys keys' : Nat → BoxKey} {s s' : Servers d.stations}

/-- Request `i` of a batch was sealed for the servers of `d` from an exchange, and is accepted. -/
structure Arrives (d : Deployment box) (Round : UInt32) (onions : List Bytes) (i : Nat)
    (ex : ConvoExchange) (keys : Nat → BoxKey) : Prop where
  onion : onions[i]? = some
    (Onionbox.seal box ex.marshal (forwardNonce Round) d.pki.serverKeys keys).1
  kept : i ∈ (accepted box Round d.stations onions).map Prod.fst

/-- No server drew a dead drop for its noise. -/
def Undrawn (d : Deployment box) (drop : DeadDrop) : Prop :=
  ∀ st ∈ d.stations, st.cfg.lastServer = false → drop ∉ st.convoCoins.deadDrops

/-- No noise arrives at a dead drop that no server drew. -/
theorem Undrawn.noise (hbox : box.Ideal) {drop : DeadDrop} (h : Undrawn d drop) {m : Bytes}
    (hm : (Origin.noise, m) ∈ deliver box Round d.stations (requests onions)) :
    (readExchange m).deadDrop ≠ drop := by
  rcases mem_deliver hbox d.stations d.line hm with ⟨onion, hreq, -⟩ | ⟨-, st, hst, hl, hx⟩
  · simp [requests] at hreq
  · obtain ⟨⟨x, xkeys⟩, hdraw, rfl⟩ := List.mem_map.mp hx
    rw [readExchange_deadDrop (ConvoCoins.length_of_mem_draws hdraw)]
    exact fun e => h st hst hl (e ▸ List.mem_map_of_mem hx)

theorem nodup_accepted (onions : List Bytes) :
    ((accepted box Round d.stations onions).map Prod.fst).Nodup := by
  have hnumbers : (accepted box Round d.stations onions).map Prod.fst =
      numbers (deliver box Round d.stations (requests onions)) := by
    simp [accepted, acceptedIn, numbers, List.map_filterMap, Function.comp_def]
  rw [hnumbers]
  exact nodup_numbers_deliver d.stations (nodup_numbers_requests onions)

namespace Arrives

/-- What arrives for the request is the exchange it was sealed from. -/
theorem message_eq (hbox : box.Ideal) (h : Arrives d Round onions i ex keys) {m : Bytes}
    (hm : (Origin.request i, m) ∈ deliver box Round d.stations (requests onions)) :
    m = ex.marshal := by
  obtain ⟨onion, honion, hun⟩ := (mem_deliver hbox d.stations d.line hm).resolve_right (by simp)
  rw [mem_requests, h.onion, d.serverKeys_eq] at honion
  obtain rfl := Option.some.inj honion
  rw [unwrap_seal hbox ex.length_marshal _ d.line] at hun
  exact (Option.some.inj hun).symm

theorem exchange_eq (hbox : box.Ideal) (h : Arrives d Round onions i ex keys)
    {p : Nat × ConvoExchange} (hp : p ∈ accepted box Round d.stations onions) (hi : p.1 = i) :
    p.2 = ex := by
  obtain ⟨m, hm, hp₂⟩ := mem_acceptedIn.mp hp
  rw [hi] at hm
  rw [hp₂, h.message_eq hbox hm, readExchange_marshal]

theorem mem (hbox : box.Ideal) (h : Arrives d Round onions i ex keys) :
    (i, ex) ∈ accepted box Round d.stations onions := by
  obtain ⟨p, hp, rfl⟩ := List.mem_map.mp h.kept
  rw [← h.exchange_eq hbox hp rfl]
  exact hp

theorem position (hbox : box.Ideal) (h : Arrives d Round onions i ex keys) :
    ∃ q : Nat, (deliver box Round d.stations (requests onions))[q]? =
      some (.request i, ex.marshal) := by
  obtain ⟨m, hm, -⟩ := mem_acceptedIn.mp (h.mem hbox)
  rw [h.message_eq hbox hm] at hm
  exact List.mem_iff_getElem?.mp hm

/-- The reply opens to what the ideal exchange gives the request. -/
theorem opens (hbox : box.Ideal) (h : Arrives d Round onions i ex keys)
    (hdrop : Undrawn d ex.deadDrop)
    (hrun : convoRound (chain box d.stations) Round onions s = .ok replies s')
    {msg : Block sizeEncryptedMessage}
    (hideal : idealReply (accepted box Round d.stations onions) i ex = some msg) {reply : Bytes}
    (hreply : replies[i]? = some reply) :
    Onionbox.open box (backwardNonce Round)
        (Onionbox.seal box ex.marshal (forwardNonce Round) d.pki.serverKeys keys).2 reply =
      some msg.1 := by
  have hback := replies_open hbox d.stations d.line d.nonempty (nodup_numbers_requests onions)
    (by rw [map_snd_requests]; exact hrun)
  have hnodup : (numbers (deliver box Round d.stations (requests onions))).Nodup :=
    nodup_numbers_deliver d.stations (nodup_numbers_requests onions)
  obtain ⟨q, hq⟩ := h.position hbox
  have hlast := dropReplies_ideal hnodup hq
    (fun m hm => by rw [readExchange_marshal]; exact hdrop.noise hbox hm)
    (by rw [readExchange_marshal]; exact hideal)
  have hreq : (requests onions)[i]? = some (.request i,
      (Onionbox.seal box ex.marshal (forwardNonce Round) d.pki.serverKeys keys).1) := by
    simp [requests, h.onion]
  obtain ⟨hopen, -⟩ :=
    (forall₂_iff_getElem?.mp hback).2 i _ _ hreq hreply i q _ _ rfl hq hlast msg.2
  rw [d.serverKeys_eq] at hopen ⊢
  rw [layerKeys_seal hbox ex.length_marshal _ d.line] at hopen
  exact hopen

/-- Alone at its dead drop, a request gets its own message back. -/
theorem opens_alone (hbox : box.Ideal) (h : Arrives d Round onions i ex keys)
    (hdrop : Undrawn d ex.deadDrop)
    (halone : ∀ p ∈ accepted box Round d.stations onions, p.2.deadDrop = ex.deadDrop → p.1 = i)
    (hrun : convoRound (chain box d.stations) Round onions s = .ok replies s') {reply : Bytes}
    (hreply : replies[i]? = some reply) :
    Onionbox.open box (backwardNonce Round)
        (Onionbox.seal box ex.marshal (forwardNonce Round) d.pki.serverKeys keys).2 reply =
      some ex.encryptedMessage.1 := by
  have hnone : partners (accepted box Round d.stations onions) i ex.deadDrop = [] := by
    refine List.filter_eq_nil_iff.mpr fun p hp hcond => ?_
    obtain ⟨hne, hd⟩ : p.1 ≠ i ∧ p.2.deadDrop = ex.deadDrop := by simpa using hcond
    exact hne (halone p hp hd)
  exact h.opens hbox hdrop hrun (by rw [idealReply, hnone]) hreply

end Arrives

/-- Two requests arrive at one dead drop, and no other does, nor any noise. -/
structure Meeting (d : Deployment box) (Round : UInt32) (onions : List Bytes) (i j : Nat)
    (ex ex' : ConvoExchange) (keys keys' : Nat → BoxKey) : Prop where
  left : Arrives d Round onions i ex keys
  right : Arrives d Round onions j ex' keys'
  ne : i ≠ j
  drop : ex.deadDrop = ex'.deadDrop
  only : ∀ p ∈ accepted box Round d.stations onions, p.2.deadDrop = ex.deadDrop →
    p.1 = i ∨ p.1 = j
  undrawn : Undrawn d ex.deadDrop

namespace Meeting

theorem symm (h : Meeting d Round onions i j ex ex' keys keys') :
    Meeting d Round onions j i ex' ex keys' keys where
  left := h.right
  right := h.left
  ne := h.ne.symm
  drop := h.drop.symm
  only := fun p hp hd => (h.only p hp (hd.trans h.drop.symm)).symm
  undrawn := h.drop ▸ h.undrawn

theorem partners_eq (hbox : box.Ideal) (h : Meeting d Round onions i j ex ex' keys keys') :
    partners (accepted box Round d.stations onions) i ex.deadDrop = [(j, ex')] := by
  have hnodup : (accepted box Round d.stations onions).Nodup :=
    List.Nodup.of_map _ (nodup_accepted onions)
  refine List.perm_singleton.mp ?_
  rw [partners, List.perm_ext_iff_of_nodup (hnodup.filter _) (List.nodup_singleton _)]
  intro p
  simp only [List.mem_filter, decide_eq_true_eq, List.mem_singleton]
  constructor
  · rintro ⟨hp, hne, hd⟩
    have hj := (h.only p hp hd).resolve_left hne
    exact Prod.ext hj (h.right.exchange_eq hbox hp hj)
  · rintro rfl
    exact ⟨h.right.mem hbox, h.ne.symm, h.drop.symm⟩

/-- The reply opens to the message of the other. -/
theorem opens (hbox : box.Ideal) (h : Meeting d Round onions i j ex ex' keys keys')
    (hrun : convoRound (chain box d.stations) Round onions s = .ok replies s') {reply : Bytes}
    (hreply : replies[i]? = some reply) :
    Onionbox.open box (backwardNonce Round)
        (Onionbox.seal box ex.marshal (forwardNonce Round) d.pki.serverKeys keys).2 reply =
      some ex'.encryptedMessage.1 :=
  h.left.opens hbox h.undrawn hrun (by rw [idealReply, h.partners_eq hbox]) hreply

end Meeting

end Vuvuzela
