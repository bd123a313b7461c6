import Vuvuzela.Source.Dial

/-!
# Source — the dialer of a client

`dialer.go`: the request a client sends in a round of dialing, and what it makes of the bucket it
gets back.  What `GenerateKey` and `rand.Read` give is an argument (`DialRequestCoins`).
-/

namespace Vuvuzela

/-- `Dialer`.  `userDialRequests` is what waits in the channel. -/
structure Dialer where
  pki : PKI
  myPublicKey : BoxKey
  myPrivateKey : BoxKey
  userDialRequests : List BoxKey

structure DialRequest where
  round : UInt32
  onion : Bytes

structure DialBucket where
  round : UInt32
  intros : Bucket

/-- The random draws of a `NextDialRequest`: the private key of the introduction, the bytes that
stand for an introduction, and the private key of each layer. -/
structure DialRequestCoins where
  introKeys : Nat → BoxKey
  filler : Nat → UInt8
  keys : Nat → BoxKey

/-- What the client shows of an introduction: a name of the PKI, or the key. -/
inductive IntroWarning where
  | known (name : String)
  | unknown (longTermKey : BoxKey)
  deriving DecidableEq

/-- The text of the line. -/
def IntroWarning.text (base32 : BoxKey → String) : IntroWarning → String
  | .known name => s!"Received introduction: {name}\n"
  | .unknown longTermKey => s!"Received introduction: ({base32 longTermKey})\n"

namespace Dialer

/-- `Init`. -/
def init (pki : PKI) (myPublicKey myPrivateKey : BoxKey) : Dialer :=
  ⟨pki, myPublicKey, myPrivateKey, []⟩

/-- `QueueRequest`; it blocks while four keys wait. -/
def queueRequest (publicKey : BoxKey) (d : Dialer) : Option Dialer :=
  if d.userDialRequests.length < 4 then
    some { d with userDialRequests := d.userDialRequests ++ [publicKey] }
  else none

/-- The introduction a dialer sends in a round. -/
def introduction (round : UInt32) (d : Dialer) : Introduction := ⟨round + 4, d.myPublicKey⟩

/-- An introduction sealed for the holder of `pk`. -/
def sealIntro (box : NaclBox) (introKeys : Nat → BoxKey) (round : UInt32) (pk : BoxKey)
    (d : Dialer) : Block sizeEncryptedIntro :=
  Block.copy sizeEncryptedIntro
    (Onionbox.seal box (d.introduction round).marshal (forwardNonce round) [pk] introKeys).1

/-- The `select` of `NextDialRequest`: the key that waits longest, or cover traffic.  No value is
Go's division by zero. -/
def nextExchange (box : NaclBox) (coins : DialRequestCoins) (round buckets : UInt32) (d : Dialer) :
    Option (DialExchange × Dialer) :=
  match d.userDialRequests with
  | pk :: userDialRequests => do
      let bucket ← keyDialBucket pk buckets
      return (⟨bucket, d.sealIntro box coins.introKeys round pk⟩,
        { d with userDialRequests := userDialRequests })
  | [] => some (⟨~~~0, Block.copy _ (randRead coins.filler sizeEncryptedIntro)⟩, d)

def nextDialRequest (box : NaclBox) (coins : DialRequestCoins) (round buckets : UInt32)
    (d : Dialer) : Option (DialRequest × Dialer) := do
  let (ex, d') ← d.nextExchange box coins round buckets
  let onion := Onionbox.seal box ex.marshal (forwardNonce round) d.pki.serverKeys coins.keys
  return (⟨round, onion.1⟩, d')

/-- The introduction in an entry of a bucket, if it is for the dialer. -/
def openIntro (box : NaclBox) (round : UInt32) (d : Dialer) (b : Block sizeEncryptedIntro) :
    Option Introduction := do
  let pk := Block.copy 32 b.1
  let data ← box.open (b.1.drop 32) (forwardNonce round) pk d.myPrivateKey
  Introduction.unmarshal data

/-- The loop over `people`, in the order Go ranges over the map. -/
def introWarning (people : List (String × BoxKey)) (intro : Introduction) : IntroWarning :=
  match people.find? fun p => p.2 = intro.longTermKey with
  | some p => .known p.1
  | none => .unknown intro.longTermKey

/-- `HandleDialBucket`, as the lines it shows.  `people i` are the people of the PKI in the order
in which the loop for entry `i` meets them. -/
def handleDialBucket (box : NaclBox) (people : Nat → List (String × BoxKey)) (db : DialBucket)
    (d : Dialer) : List IntroWarning :=
  db.intros.zipIdx.filterMap fun b =>
    (d.openIntro box db.round b.1).map (introWarning (people b.2))

end Dialer

end Vuvuzela
