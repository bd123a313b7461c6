import Vuvuzela.Source.Bytes

/-!
# Source — `nacl/box` and `onionbox`

`nacl/box` is a parameter: a `NaclBox` gives its functions, and `NaclBox.Ideal` says what the
program relies on.  Opening under a key and a nonce succeeds on what sealing under them made and
on nothing else; a sealed message is `box.Overhead` bytes longer than the message; the key two
parties precompute is the same from either side.

`Onionbox.seal` wraps a message in one layer for each public key, the first key's layer
outermost.  Each layer is the ephemeral public key of the layer followed by the sealed rest.
`Onionbox.open` takes a reply that went back through the servers out of its layers, the first
server's layer first.
-/

namespace Vuvuzela

/-- `BoxKey`, and nacl's public, private and shared keys. -/
abbrev BoxKey := Block 32

/-- nacl's nonces. -/
abbrev Nonce := Block 24

/-- `box.Overhead`. -/
def boxOverhead : Nat := 16

/-- The functions of `nacl/box`.  The `out` argument, a prefix of the result, is left to the
caller. -/
structure NaclBox where
  /-- The public key `GenerateKey` returns with a private key. -/
  publicKey : BoxKey → BoxKey
  /-- `Precompute`: their public key, our private key. -/
  precompute : BoxKey → BoxKey → BoxKey
  sealAfterPrecomputation : Bytes → Nonce → BoxKey → Bytes
  openAfterPrecomputation : Bytes → Nonce → BoxKey → Option Bytes

/-- `box.Seal`. -/
def NaclBox.seal (box : NaclBox) (message : Bytes) (nonce : Nonce)
    (peersPublicKey privateKey : BoxKey) : Bytes :=
  box.sealAfterPrecomputation message nonce (box.precompute peersPublicKey privateKey)

/-- `box.Open`. -/
def NaclBox.open (box : NaclBox) (ctxt : Bytes) (nonce : Nonce)
    (peersPublicKey privateKey : BoxKey) : Option Bytes :=
  box.openAfterPrecomputation ctxt nonce (box.precompute peersPublicKey privateKey)

/-- What the program relies on. -/
structure NaclBox.Ideal (box : NaclBox) : Prop where
  open_seal : ∀ (m : Bytes) (n : Nonce) (k : BoxKey),
    box.openAfterPrecomputation (box.sealAfterPrecomputation m n k) n k = some m
  seal_of_open : ∀ {c : Bytes} {n : Nonce} {k : BoxKey} {m : Bytes},
    box.openAfterPrecomputation c n k = some m → c = box.sealAfterPrecomputation m n k
  seal_length : ∀ (m : Bytes) (n : Nonce) (k : BoxKey),
    (box.sealAfterPrecomputation m n k).length = m.length + boxOverhead
  precompute_comm : ∀ a b : BoxKey,
    box.precompute (box.publicKey a) b = box.precompute (box.publicKey b) a

/-- A sealed message is `box.Overhead` bytes longer than the message. -/
structure NaclBox.Sized (box : NaclBox) : Prop where
  seal_length : ∀ (m : Bytes) (n : Nonce) (k : BoxKey),
    (box.sealAfterPrecomputation m n k).length = m.length + boxOverhead
  open_length : ∀ {c : Bytes} {n : Nonce} {k : BoxKey} {m : Bytes},
    box.openAfterPrecomputation c n k = some m → c.length = m.length + boxOverhead

theorem NaclBox.Ideal.sized {box : NaclBox} (h : box.Ideal) : box.Sized where
  seal_length := h.seal_length
  open_length ho := by rw [h.seal_of_open ho, h.seal_length]

/-! ### Onions -/

/-- `onionbox.Overhead`, of one layer. -/
def Onionbox.overhead : Nat := 32 + boxOverhead

/-- `onionbox.Seal`: the onion and the shared keys, one for each layer.  `keys i` is the private
key `GenerateKey` draws for layer `i`. -/
def Onionbox.seal (box : NaclBox) (message : Bytes) (nonce : Nonce) :
    List BoxKey → (keys : Nat → BoxKey) → Bytes × List BoxKey
  | [], _ => (message, [])
  | publicKey :: publicKeys, keys =>
      let inner := Onionbox.seal box message nonce publicKeys fun i => keys (i + 1)
      let sharedKey := box.precompute publicKey (keys 0)
      ((box.publicKey (keys 0)).1 ++ box.sealAfterPrecomputation inner.1 nonce sharedKey,
        sharedKey :: inner.2)

/-- The shared keys are those of the layers, whatever is in them. -/
theorem Onionbox.seal_keys (box : NaclBox) (m m' : Bytes) (nonce nonce' : Nonce) :
    ∀ (pks : List BoxKey) (keys : Nat → BoxKey),
      (Onionbox.seal box m nonce pks keys).2 = (Onionbox.seal box m' nonce' pks keys).2
  | [], _ => rfl
  | pk :: pks, keys => by
      rw [Onionbox.seal, Onionbox.seal, seal_keys box m m' nonce nonce' pks]

/-- `onionbox.Open`. -/
def Onionbox.open (box : NaclBox) (nonce : Nonce) : List BoxKey → Bytes → Option Bytes
  | [], onion => some onion
  | sharedKey :: sharedKeys, onion =>
      match box.openAfterPrecomputation onion nonce sharedKey with
      | none => none
      | some message => Onionbox.open box nonce sharedKeys message

theorem Onionbox.length_seal {box : NaclBox} (h : box.Sized) (m : Bytes) (nonce : Nonce) :
    ∀ (pks : List BoxKey) (keys : Nat → BoxKey),
      (Onionbox.seal box m nonce pks keys).1.length = m.length + pks.length * Onionbox.overhead
  | [], _ => by simp [Onionbox.seal]
  | pk :: pks, keys => by
      simp only [Onionbox.seal, List.length_append, h.seal_length, (box.publicKey (keys 0)).2,
        length_seal h m nonce pks, List.length_cons, overhead, Nat.add_mul, Nat.one_mul]
      omega

end Vuvuzela
