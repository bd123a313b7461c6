import Vuvuzela.Chain.Sample

/-!
# Chain — the layers of an onion

`onionbox` without the servers around it.  `Seal` puts the layers on from the last key to the
first.  Whoever holds the private keys takes them off from the first to the last, each layer as
`Add` does it, and derives on the way the shared keys that `Seal` returned.  A reply is wrapped
under these keys from the last to the first, as `Get` does it, and `Open` takes it out
(`onion_round_trip`).
-/

namespace Vuvuzela

variable {box : NaclBox}

/-- The layers off, one after the other: the keys derived for them, and what is inside. -/
def peelLayers (box : NaclBox) (nonce : Nonce) : List BoxKey → Bytes → Option (List BoxKey × Bytes)
  | [], onion => some ([], onion)
  | privateKey :: privateKeys, onion => do
      let (sharedKey, inner) := peelLayer box nonce privateKey onion
      let (sharedKeys, message) ← peelLayers box nonce privateKeys (← inner)
      return (sharedKey :: sharedKeys, message)

/-- A reply on its way back: the last server wraps it first, as `Get` does it. -/
def wrapReply (box : NaclBox) (nonce : Nonce) (sharedKeys : List BoxKey) (reply : Bytes) : Bytes :=
  sharedKeys.foldr (fun sharedKey onion => box.sealAfterPrecomputation onion nonce sharedKey) reply

theorem peelLayers_seal (hbox : box.Ideal) (m : Bytes) (nonce : Nonce) :
    ∀ (privateKeys : List BoxKey) (keys : Nat → BoxKey),
      peelLayers box nonce privateKeys
          (Onionbox.seal box m nonce (privateKeys.map box.publicKey) keys).1 =
        some ((Onionbox.seal box m nonce (privateKeys.map box.publicKey) keys).2, m)
  | [], _ => rfl
  | privateKey :: privateKeys, keys => by
      have ih := peelLayers_seal hbox m nonce privateKeys fun i => keys (i + 1)
      rw [List.map_cons, peelLayers, peelLayer_seal hbox]
      simp only [Option.bind_eq_bind, Option.bind_some, ih]
      rfl

theorem open_wrapReply (hbox : box.Ideal) (nonce : Nonce) (reply : Bytes) :
    ∀ sharedKeys : List BoxKey,
      Onionbox.open box nonce sharedKeys (wrapReply box nonce sharedKeys reply) = some reply
  | [] => rfl
  | sharedKey :: sharedKeys => by
      rw [Onionbox.open, wrapReply, List.foldr_cons, hbox.open_seal]
      exact open_wrapReply hbox nonce reply sharedKeys

/-- `Open` fails exactly when a layer fails, after those before it came off. -/
theorem open_eq_none_iff (nonce : Nonce) :
    ∀ (sharedKeys : List BoxKey) (onion : Bytes),
      Onionbox.open box nonce sharedKeys onion = none ↔
        ∃ pre sharedKey post message, sharedKeys = pre ++ sharedKey :: post ∧
          Onionbox.open box nonce pre onion = some message ∧
          box.openAfterPrecomputation message nonce sharedKey = none
  | [], onion => by simp [Onionbox.open]
  | key :: sharedKeys, onion => by
      rw [Onionbox.open]
      cases hopen : box.openAfterPrecomputation onion nonce key with
      | none => exact ⟨fun _ => ⟨[], key, sharedKeys, onion, rfl, rfl, hopen⟩, fun _ => rfl⟩
      | some inner =>
          refine (open_eq_none_iff nonce sharedKeys inner).trans ?_
          constructor
          · rintro ⟨pre, sharedKey, post, message, rfl, hpre, hfail⟩
            refine ⟨key :: pre, sharedKey, post, message, rfl, ?_, hfail⟩
            rw [Onionbox.open, hopen]
            exact hpre
          · rintro ⟨pre, sharedKey, post, message, hsplit, hpre, hfail⟩
            -- the first layer came off, so it is not the one that fails
            cases pre with
            | nil =>
                cases hsplit
                cases hpre
                cases hfail.symm.trans hopen
            | cons k pre =>
                cases hsplit
                rw [Onionbox.open, hopen] at hpre
                exact ⟨pre, sharedKey, post, message, rfl, hpre, hfail⟩

/-- **Onions in both directions**, for any number of layers.  Taking the layers off what `Seal` made
succeeds, ends with the message and derives the keys that `Seal` returned; a layer adds
`onionbox.Overhead` bytes; a reply that was wrapped under these keys, with any nonce, is what `Open`
returns; and `Open` fails where a layer fails. -/
theorem onion_round_trip (hbox : box.Ideal) (m : Bytes) (nonce : Nonce) (privateKeys : List BoxKey)
    (keys : Nat → BoxKey) :
    peelLayers box nonce privateKeys
        (Onionbox.seal box m nonce (privateKeys.map box.publicKey) keys).1 =
      some ((Onionbox.seal box m nonce (privateKeys.map box.publicKey) keys).2, m) ∧
    (Onionbox.seal box m nonce (privateKeys.map box.publicKey) keys).1.length =
      m.length + privateKeys.length * Onionbox.overhead ∧
    (∀ (nonce' : Nonce) (reply : Bytes),
      Onionbox.open box nonce' (Onionbox.seal box m nonce (privateKeys.map box.publicKey) keys).2
          (wrapReply box nonce'
            (Onionbox.seal box m nonce (privateKeys.map box.publicKey) keys).2 reply) =
        some reply) ∧
    ∀ (nonce' : Nonce) (sharedKeys : List BoxKey) (onion : Bytes),
      Onionbox.open box nonce' sharedKeys onion = none ↔
        ∃ pre sharedKey post message, sharedKeys = pre ++ sharedKey :: post ∧
          Onionbox.open box nonce' pre onion = some message ∧
          box.openAfterPrecomputation message nonce' sharedKey = none := by
  refine ⟨peelLayers_seal hbox m nonce privateKeys keys, ?_, ?_, ?_⟩
  · rw [Onionbox.length_seal hbox.sized, List.length_map]
  · exact fun nonce' reply => open_wrapReply hbox nonce' reply _
  · exact fun nonce' sharedKeys onion => open_eq_none_iff nonce' sharedKeys onion

/-- Three layers. -/
theorem onion_round_trip_three :
    ∃ sharedKeys, peelLayers tagBox (forwardNonce 7) [sampleKey 1, sampleKey 2, sampleKey 3]
        (Onionbox.seal tagBox [104, 105] (forwardNonce 7) [sampleKey 1, sampleKey 2, sampleKey 3]
          fun i => sampleKey (UInt8.ofNat (4 + i))).1 = some (sharedKeys, [104, 105]) :=
  ⟨_, (onion_round_trip tagBox_ideal [104, 105] (forwardNonce 7)
    [sampleKey 1, sampleKey 2, sampleKey 3] fun i => sampleKey (UInt8.ofNat (4 + i))).1⟩

end Vuvuzela
