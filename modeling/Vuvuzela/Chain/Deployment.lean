import Vuvuzela.Source.Chain

/-!
# Chain — servers in their places

A `Deployment` is a PKI whose order names each server once, with the servers `main` starts from
it.  What a server knows of its place is what the PKI tells it: how many layers an onion still
has when it arrives, the keys of the servers after it, and whether there are any (`Place`).  A
`Line` is a list of servers each of which is in its place; the servers of a deployment are one
(`Deployment.line`), and so is what is left of a line after its first server, which is what
makes induction along the chain work.

`unwrap` and `layerKeys` are what the servers of a line make of one onion.  On an onion that was
sealed for the line they are the message and the keys that sealing returned (`unwrap_seal`,
`layerKeys_seal`).
-/

namespace Vuvuzela
open Support

variable {box : NaclBox}

/-- The public keys of the servers of a list. -/
def lineKeys (box : NaclBox) (stations : List Station) : List BoxKey :=
  stations.map fun st => box.publicKey st.cfg.privateKey

/-- `st` is in its place before the servers `post`. -/
structure Place (box : NaclBox) (st : Station) (post : List Station) : Prop where
  incoming : st.cfg.pki.incomingOnionOverhead st.cfg.serverName =
    (post.length + 1) * Onionbox.overhead
  outgoing : st.cfg.pki.outgoingOnionOverhead st.cfg.serverName = (post.length + 1) * boxOverhead
  nextKeys : st.cfg.pki.nextServerKeys st.cfg.serverName = lineKeys box post
  last : st.cfg.lastServer = true ↔ post = []

/-- Servers one after the other, each in its place. -/
def Line (box : NaclBox) : List Station → Prop
  | [] => True
  | st :: post => Place box st post ∧ Line box post

/-! ### From the PKI -/

/-- A PKI and the servers it names, as `main` starts them. -/
structure Deployment (box : NaclBox) where
  pki : PKI
  stations : List Station
  nodup : pki.serverOrder.Nodup
  nonempty : stations ≠ []
  names : stations.map (·.cfg.serverName) = pki.serverOrder
  address : ∀ s ∈ pki.serverOrder, (pki.serverInfo s).address ≠ ""
  config : ∀ st ∈ stations, st.cfg =
    mainConfig pki st.cfg.serverName st.cfg.privateKey st.cfg.dialBuckets
  key : ∀ st ∈ stations, pki.publicKey st.cfg.serverName = box.publicKey st.cfg.privateKey

namespace Deployment

variable (d : Deployment box)

theorem serverKeys_eq : d.pki.serverKeys = lineKeys box d.stations := by
  rw [PKI.serverKeys, ← d.names, List.map_map, lineKeys]
  exact List.map_congr_left d.key

/-- A server is in its place before the servers after it. -/
theorem place {pre post : List Station} {st : Station} (h : d.stations = pre ++ st :: post) :
    Place box st post := by
  have hst : st ∈ d.stations := by simp [h]
  have hcfg := d.config st hst
  have hpki : st.cfg.pki = d.pki := by rw [hcfg]; rfl
  have horder : d.pki.serverOrder = pre.map (·.cfg.serverName) ++
      st.cfg.serverName :: post.map (·.cfg.serverName) := by
    rw [← d.names, h]; simp
  -- the position of the server in `ServerOrder` gives the sizes, the keys and the next server
  refine ⟨?_, ?_, ?_, ?_⟩
  · rw [hpki, PKI.incomingOnionOverhead_eq horder d.nodup, List.length_map]
  · rw [hpki, PKI.outgoingOnionOverhead_eq horder d.nodup, List.length_map]
  · rw [hpki, PKI.nextServerKeys_eq horder d.nodup, List.map_map, lineKeys]
    exact List.map_congr_left fun st' hst' => d.key st' (by simp [h, hst'])
  · rw [hcfg, mainConfig]
    simp only [decide_eq_true_eq, PKI.nextServer, PKI.index_eq horder d.nodup, List.length_map]
    have hlen : d.pki.serverOrder.length = pre.length + (post.length + 1) := by
      rw [horder]; simp
    cases post with
    | nil => simp [hlen]
    | cons st' post =>
        have hnext : d.pki.serverOrder.getD (pre.length + 1) "" = st'.cfg.serverName := by
          rw [horder, List.getD_eq_getElem?_getD, List.getElem?_append_right (by simp)]
          simp
        have hmem : st'.cfg.serverName ∈ d.pki.serverOrder := by rw [horder]; simp
        rw [if_pos (by rw [hlen, List.length_cons]; omega), hnext]
        simp [d.address _ hmem]

theorem line : Line box d.stations := by
  suffices ∀ post pre : List Station, d.stations = pre ++ post → Line box post from
    this d.stations [] rfl
  intro post
  induction post with
  | nil => intro _ _; trivial
  | cons st post ih =>
      intro pre h
      exact ⟨d.place h, ih (pre ++ [st]) (by simp [h])⟩

end Deployment

/-! ### One layer -/

/-- One layer off, as `Add` takes it off: the first 32 bytes are the public key of the layer. -/
def peelLayer (box : NaclBox) (nonce : Nonce) (privateKey : BoxKey) (onion : Bytes) :
    BoxKey × Option Bytes :=
  let sharedKey := box.precompute (Block.copy 32 onion) privateKey
  (sharedKey, box.openAfterPrecomputation (onion.drop 32) nonce sharedKey)

/-- `Add` takes the layer off every onion of the size it expects. -/
theorem peel_eq_peelLayer {cfg : Config} {size : Nat} {nonce : Nonce} {onion : Bytes}
    (h : onion.length = cfg.expectedOnionSize size) :
    peel box cfg size nonce onion = peelLayer box nonce cfg.privateKey onion :=
  if_pos h

/-- The outermost layer of an onion comes off with the private key it was made for. -/
theorem peelLayer_seal (hbox : box.Ideal) (m : Bytes) (nonce : Nonce) (privateKey : BoxKey)
    (publicKeys : List BoxKey) (keys : Nat → BoxKey) :
    peelLayer box nonce privateKey
        (Onionbox.seal box m nonce (box.publicKey privateKey :: publicKeys) keys).1 =
      (box.precompute (box.publicKey privateKey) (keys 0),
        some (Onionbox.seal box m nonce publicKeys fun i => keys (i + 1)).1) := by
  have hlen : (box.publicKey (keys 0)).1.length = 32 := (box.publicKey (keys 0)).2
  rw [Onionbox.seal, peelLayer, Block.copy_append, hbox.precompute_comm (keys 0),
    List.drop_append_of_le_length hlen.ge, List.drop_of_length_le hlen.le, List.nil_append,
    hbox.open_seal]

/-! ### One onion along the line -/

/-- What the servers find inside an onion, one after the other. -/
def unwrap (box : NaclBox) (size : Nat) (nonce : Nonce) : List Station → Bytes → Option Bytes
  | [], onion => some onion
  | st :: post, onion => (peel box st.cfg size nonce onion).2.bind (unwrap box size nonce post)

/-- The keys the servers store for an onion, one after the other. -/
def layerKeys (box : NaclBox) (size : Nat) (nonce : Nonce) : List Station → Bytes → List BoxKey
  | [], _ => []
  | st :: post, onion =>
      (peel box st.cfg size nonce onion).1 ::
        layerKeys box size nonce post ((peel box st.cfg size nonce onion).2.getD [])

/-- A server takes its own layer off an onion that was sealed for the line. -/
theorem peel_seal (hbox : box.Ideal) {st : Station} {post : List Station}
    (hplace : Place box st post) {m : Bytes} {size : Nat} (hm : m.length = size) (nonce : Nonce)
    (keys : Nat → BoxKey) :
    peel box st.cfg size nonce (Onionbox.seal box m nonce (lineKeys box (st :: post)) keys).1 =
      (box.precompute (box.publicKey st.cfg.privateKey) (keys 0),
        some (Onionbox.seal box m nonce (lineKeys box post) fun i => keys (i + 1)).1) := by
  have hlen : (Onionbox.seal box m nonce (lineKeys box (st :: post)) keys).1.length =
      st.cfg.expectedOnionSize size := by
    rw [Onionbox.length_seal hbox.sized, Config.expectedOnionSize, hplace.incoming, hm]
    simp [lineKeys, Nat.add_comm]
  rw [peel_eq_peelLayer hlen]
  exact peelLayer_seal hbox m nonce st.cfg.privateKey (lineKeys box post) keys

theorem unwrap_seal (hbox : box.Ideal) {m : Bytes} {size : Nat} (hm : m.length = size)
    (nonce : Nonce) :
    ∀ {stations : List Station}, Line box stations → ∀ keys : Nat → BoxKey,
      unwrap box size nonce stations
        (Onionbox.seal box m nonce (lineKeys box stations) keys).1 = some m
  | [], _, _ => rfl
  | _ :: _, hline, keys => by
      rw [unwrap, peel_seal hbox hline.1 hm]
      exact unwrap_seal hbox hm nonce hline.2 _

theorem layerKeys_seal (hbox : box.Ideal) {m : Bytes} {size : Nat} (hm : m.length = size)
    (nonce : Nonce) :
    ∀ {stations : List Station}, Line box stations → ∀ keys : Nat → BoxKey,
      layerKeys box size nonce stations
          (Onionbox.seal box m nonce (lineKeys box stations) keys).1 =
        (Onionbox.seal box m nonce (lineKeys box stations) keys).2
  | [], _, _ => rfl
  | _ :: _, hline, keys => by
      rw [layerKeys, peel_seal hbox hline.1 hm]
      exact congrArg₂ _ rfl (layerKeys_seal hbox hm nonce hline.2 _)

/-- What is left when every layer is off has the size of a message. -/
theorem unwrap_length (hbox : box.Ideal) {size : Nat} {nonce : Nonce} :
    ∀ {stations : List Station}, Line box stations → stations ≠ [] → ∀ {onion m : Bytes},
      unwrap box size nonce stations onion = some m → m.length = size
  | [st], hline, _, onion, m, h => by
      have hp : (peel box st.cfg size nonce onion).2 = some m := by
        simpa [unwrap] using h
      have := peel_length hbox.sized hp
      rw [Config.expectedOnionSize, hline.1.incoming] at this
      simp only [List.length_nil] at this
      omega
  | st :: st' :: post, hline, _, onion, m, h => by
      obtain ⟨m', -, hm'⟩ := Option.bind_eq_some_iff.mp h
      exact unwrap_length hbox hline.2 (List.cons_ne_nil _ _) hm'

end Vuvuzela
