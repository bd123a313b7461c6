import Vuvuzela.Source.Convo

/-!
# Source — the dialing service

The handlers of `dial.go`.  Unlike in the conversation service, a round is open from the start,
messages have no position, and every server adds noise, the last one included.
-/

namespace Vuvuzela
open Support

/-- The random draws of `NewRound`: a Laplace draw for each bucket and the fake onions. -/
structure DialCoins where
  counts : Nat → Nat
  intro : Nat → FakeCoins

structure DialAddArgs where
  round : UInt32
  onions : List Bytes

/-- `getRound`. -/
def DialService.getRound (round : UInt32) (expectedStatus : DialStatus) :
    Rpc Server DialRound := do
  let srv ← get
  match srv.dialRounds round with
  | none => throw (.err (.roundNotFound round))
  | some r =>
      if r.status = expectedStatus then return r
      else throw (.err (.unexpectedStatus round r.status.toNat expectedStatus.toNat))

/-- The draws for the buckets. -/
def DialCoins.noiseCounts (cfg : Config) (coins : DialCoins) : List Nat :=
  (List.range cfg.dialBuckets.toNat).map coins.counts

/-- The noise of a round. -/
def DialCoins.noise (box : NaclBox) (cfg : Config) (coins : DialCoins) (Round : UInt32) :
    List Bytes :=
  let noiseCounts := coins.noiseCounts cfg
  fillWithFakeIntroductions box (forwardNonce Round) (cfg.pki.nextServerKeys cfg.serverName)
    (List.replicate noiseCounts.sum []) noiseCounts coins.intro

def DialService.newRound (box : NaclBox) (cfg : Config) (coins : DialCoins) (Round : UInt32) :
    Rpc Server Unit := do
  lockIdle
  let srv ← get
  if (srv.dialRounds Round).isSome then throw (.err (.alreadyExists Round))
  else putDial Round ⟨.roundOpen, [], coins.noise box cfg Round⟩

/-- The messages of the onions that open. -/
def peelAll (box : NaclBox) (cfg : Config) (size : Nat) (nonce : Nonce) (onions : List Bytes) :
    List Bytes :=
  onions.filterMap fun onion => (peel box cfg size nonce onion).2

def DialService.add (box : NaclBox) (cfg : Config) (args : DialAddArgs) : Rpc Server Unit := do
  let round ← DialService.getRound args.round .roundOpen
  let messages := peelAll box cfg sizeDialExchange (forwardNonce args.round) args.onions
  putDial args.round { round with incoming := round.incoming ++ messages }

/-- The loop of `filterIncoming`; no value for a message of less than 8 bytes. -/
def DialService.filterLoop : List Bytes → List UInt64 → List Bytes → Option (List Bytes)
  | [], _, incomingValid => some incomingValid
  | msg :: incoming, seen, incomingValid =>
      match msgKey? msg with
      | none => none
      | some msgkey =>
          if msgkey ∈ seen then filterLoop incoming seen incomingValid
          else filterLoop incoming (msgkey :: seen) (incomingValid ++ [msg])

def DialService.filterIncoming (incoming : List Bytes) : Option (List Bytes) :=
  DialService.filterLoop incoming [] []

/-- `Close`.  The batch, noise included, stays in `round.incoming` until the next server took
it. -/
def DialService.close {σ : Type} (cfg : Config) (next : NextServer σ)
    (shuffler : (n : Nat) → Shuffler n) (Round : UInt32) : Rpc (Server × σ) Unit := do
  let round ← onFst (DialService.getRound Round .roundOpen)
  match DialService.filterIncoming round.incoming with
  | none => throw (.panic .slice)
  | some messages =>
      let incoming := messages ++ round.noise
      match (shuffler incoming.length).shuffle incoming with
      | none => throw (.panic .index)
      | some shuffled =>
          onFst (putDial Round { round with incoming := shuffled })
          if cfg.lastServer then do
            onFst unlockIdle
            onFst (putDial Round { round with
              incoming := shuffled, noise := [], status := .roundClosed })
          else do
            onSnd (calling "NewDialRound" (next.newDialRound Round))
            onFst unlockIdle
            onSnd (calling "RunDialRound" (next.runDialRound Round shuffled))
            onFst (putDial Round { round with
              incoming := [], noise := [], status := .roundClosed })

/-- The introductions of a bucket. -/
abbrev Bucket := List (Block sizeEncryptedIntro)

/-- The body of the loop of `Buckets`. -/
def fileIntro (buckets : List Bucket) (m : Bytes) : List Bucket :=
  if m.length ≠ sizeDialExchange then buckets
  else
    match DialExchange.unmarshal m with
    | none => buckets
    | some ex =>
        if UInt32.ofNat buckets.length ≤ ex.bucket then buckets
        else buckets.modify ex.bucket.toNat (· ++ [ex.encryptedIntro])

/-- The buckets of the messages of a round. -/
def fileIntros (cfg : Config) (incoming : List Bytes) : List Bucket :=
  incoming.foldl fileIntro (List.replicate cfg.dialBuckets.toNat [])

def DialService.buckets (cfg : Config) (Round : UInt32) : Rpc Server (List Bucket) :=
  if cfg.lastServer then do
    let round ← DialService.getRound Round .roundClosed
    return fileIntros cfg round.incoming
  else throw (.err .notLastServer)

end Vuvuzela
