import Vuvuzela.Source.Server
import Vuvuzela.Support.Firsts

/-!
# Source — the conversation service

The handlers of `convo.go`, in the order of the file.  Random draws are arguments: `ConvoCoins`
for the noise of a round, a `Shuffler` of every length for the batch, the filler bytes of `Get`.
-/

namespace Vuvuzela
open Support

/-- The random draws of `NewRound`: the two Laplace draws and the fake onions. -/
structure ConvoCoins where
  singles : Nat
  doubles : Nat
  single : Nat → FakeCoins
  double : Nat → FakeCoins × FakeCoins

structure ConvoOpenArgs where
  round : UInt32
  numIncoming : Int

structure ConvoAddArgs where
  round : UInt32
  offset : Int
  onions : List Bytes

structure ConvoGetArgs where
  round : UInt32
  offset : Int
  count : Int

/-- `getRound`. -/
def ConvoService.getRound (round : UInt32) (expectedStatus : ConvoStatus) :
    Rpc Server ConvoRound := do
  let srv ← get
  match srv.convoRounds round with
  | none => throw (.err (.roundNotFound round))
  | some r =>
      if r.status = expectedStatus then return r
      else throw (.err (.unexpectedStatus round r.status.toNat expectedStatus.toNat))

/-! ### `NewRound` -/

/-- The even number `NewRound` makes of its second draw. -/
def ConvoCoins.numFakeDoubles (coins : ConvoCoins) : Nat := coins.doubles + coins.doubles % 2

/-- The noise of a round: the slice is made first, then its two parts are filled. -/
def ConvoCoins.noise (box : NaclBox) (cfg : Config) (coins : ConvoCoins) (Round : UInt32) :
    List Bytes :=
  let noise := List.replicate (coins.singles + coins.numFakeDoubles) []
  let nonce := forwardNonce Round
  let nextKeys := cfg.pki.nextServerKeys cfg.serverName
  fillWithFakeSingles box nonce nextKeys (noise.take coins.singles) coins.single ++
    fillWithFakeDoubles box nonce nextKeys (noise.drop coins.singles) coins.double

/-- The noise, one onion after the other: its exchange, and the private keys of its layers. -/
def ConvoCoins.draws (coins : ConvoCoins) : List (Bytes × (Nat → BoxKey)) :=
  ((List.range coins.singles).map fun i =>
      (singleExchange (coins.single i), (coins.single i).keys)) ++
    pairUp (fun i => ((doubleExchanges (coins.double i)).1, (coins.double i).1.keys))
      (fun i => ((doubleExchanges (coins.double i)).2, (coins.double i).2.keys))
      (coins.numFakeDoubles / 2)

/-- The exchanges of the noise. -/
def ConvoCoins.exchanges (coins : ConvoCoins) : List Bytes := coins.draws.map Prod.fst

theorem ConvoCoins.numFakeDoubles_even (coins : ConvoCoins) :
    coins.numFakeDoubles / 2 * 2 = coins.numFakeDoubles := by
  rw [numFakeDoubles]
  omega

/-- Every slot of the noise is filled with an onion for the later servers. -/
theorem ConvoCoins.noise_eq (box : NaclBox) (cfg : Config) (coins : ConvoCoins) (Round : UInt32) :
    coins.noise box cfg Round = coins.draws.map fun p =>
      (Onionbox.seal box p.1 (forwardNonce Round) (cfg.pki.nextServerKeys cfg.serverName)
        p.2).1 := by
  have hd : ((List.replicate (coins.singles + coins.numFakeDoubles) ([] : Bytes)).drop
      coins.singles).length = coins.numFakeDoubles / 2 * 2 := by
    rw [numFakeDoubles_even]; simp
  simp only [noise, draws, fillWithFakeSingles_eq, fillWithFakeDoubles_eq _ _ _ hd,
    List.map_append, List.map_map, pairUp, List.map_flatMap]
  simp [fakeOnion, Function.comp_def]

theorem ConvoCoins.length_of_mem_draws {coins : ConvoCoins} {x : Bytes} {keys : Nat → BoxKey}
    (h : (x, keys) ∈ coins.draws) : x.length = sizeConvoExchange := by
  rcases List.mem_append.mp h with h | h
  · obtain ⟨i, -, e⟩ := List.mem_map.mp h
    obtain ⟨rfl, -⟩ := Prod.mk.inj e
    simp [singleExchange]
  · obtain ⟨i, -, e⟩ := List.mem_flatMap.mp h
    simp only [List.mem_cons, Prod.mk.injEq, List.not_mem_nil, or_false] at e
    rcases e with ⟨rfl, -⟩ | ⟨rfl, -⟩
    · simp [doubleExchanges]
    · simp [doubleExchanges, sizeConvoExchange]

/-- The round `NewRound` makes. -/
def ConvoCoins.newRound (box : NaclBox) (cfg : Config) (coins : ConvoCoins) (Round : UInt32) :
    ConvoRound where
  status := .roundNew
  numIncoming := 0
  sharedKeys := []
  incoming := []
  incomingIndex := []
  replies := []
  numFakeSingles := if cfg.lastServer then 0 else coins.singles
  numFakeDoubles := if cfg.lastServer then 0 else coins.numFakeDoubles
  noise := if cfg.lastServer then [] else coins.noise box cfg Round

def ConvoService.newRound (box : NaclBox) (cfg : Config) (coins : ConvoCoins) (Round : UInt32) :
    Rpc Server Unit := do
  lockIdle
  let srv ← get
  if (srv.convoRounds Round).isSome then throw (.err (.alreadyExists Round))
  else putConvo Round (coins.newRound box cfg Round)

/-! ### `Open` and `Add` -/

def ConvoService.open (args : ConvoOpenArgs) : Rpc Server Unit := do
  let round ← ConvoService.getRound args.round .roundNew
  if makeOk args.numIncoming then
    putConvo args.round { round with
      numIncoming := args.numIncoming
      sharedKeys := List.replicate args.numIncoming.toNat none
      incoming := List.replicate args.numIncoming.toNat none
      status := .roundOpen }
  else throw (.panic .make)

/-- The size `Add` expects of an onion around a message of size `size`. -/
def Config.expectedOnionSize (cfg : Config) (size : Nat) : Nat :=
  cfg.pki.incomingOnionOverhead cfg.serverName + size

/-- What `Add` makes of an onion: the key it stores, and the message if the onion opens. -/
def peel (box : NaclBox) (cfg : Config) (size : Nat) (nonce : Nonce) (onion : Bytes) :
    BoxKey × Option Bytes :=
  if onion.length = cfg.expectedOnionSize size then
    let sharedKey := box.precompute (Block.copy 32 onion) cfg.privateKey
    (sharedKey, box.openAfterPrecomputation (onion.drop 32) nonce sharedKey)
  else (Block.zero 32, none)

/-- What an onion opens to is one layer shorter than the onion. -/
theorem peel_length {box : NaclBox} (hbox : box.Sized) {cfg : Config} {size : Nat} {nonce : Nonce}
    {onion m : Bytes} (h : (peel box cfg size nonce onion).2 = some m) :
    m.length + Onionbox.overhead = cfg.expectedOnionSize size := by
  rw [peel] at h
  split at h
  · rename_i hlen
    have hopen := hbox.open_length h
    rw [List.length_drop, hlen] at hopen
    by_cases hle : 32 ≤ cfg.expectedOnionSize size
    · simp only [Onionbox.overhead]; omega
    · simp only [boxOverhead] at hopen; omega
  · cases h

/-- The loop of `Add`, from the `k`-th onion on; no value where Go would index out of range. -/
def ConvoService.addLoop (box : NaclBox) (cfg : Config) (nonce : Nonce) (offset : Int) :
    Nat → List Bytes → ConvoRound → Option ConvoRound
  | _, [], round => some round
  | k, onion :: onions, round => do
      let i := wrapInt (offset + k)
      let slot := peel box cfg sizeConvoExchange nonce onion
      let sharedKeys ← setAt? round.sharedKeys i (some slot.1)
      let incoming ←
        match slot.2 with
        | none => some round.incoming
        | some message => setAt? round.incoming i (some message)
      addLoop box cfg nonce offset (k + 1) onions
        { round with sharedKeys := sharedKeys, incoming := incoming }

def ConvoService.add (box : NaclBox) (cfg : Config) (args : ConvoAddArgs) : Rpc Server Unit := do
  let round ← ConvoService.getRound args.round .roundOpen
  if round.numIncoming < wrapInt (args.offset + args.onions.length) then
    throw (.err (.overflowingOnions args.offset args.onions.length round.numIncoming))
  else
    match ConvoService.addLoop box cfg (forwardNonce args.round) args.offset 0 args.onions
        round with
    | none => throw (.panic .index)
    | some round => putConvo args.round round

/-! ### `Close` -/

/-- `binary.BigEndian.Uint64(msg[len(msg)-8:])`; no value for a message of less than 8 bytes. -/
def msgKey? (msg : Bytes) : Option UInt64 :=
  if msg.length < 8 then none else some (uint64 (msg.drop (msg.length - 8)))

/-- The key of a message of 8 bytes or more. -/
def msgKey (msg : Bytes) : UInt64 := uint64 (msg.drop (msg.length - 8))

/-- `filterIncoming`: the messages kept, and where each position went. -/
def ConvoService.filterIncoming (incoming : List (Option Bytes)) :
    Option (List Bytes × List Int) :=
  filterFirsts msgKey? incoming [] [] []

/-- The dead drops seen so far, with at most two positions each, and the two counts. -/
structure DropTable where
  deadDrops : DeadDrop → List Nat
  singles : Int
  doubles : Int

/-- The body of the counting loop, at the exchange of position `i`. -/
def DropTable.access (t : DropTable) (ex : ConvoExchange) (i : Nat) : DropTable :=
  let drop := t.deadDrops ex.deadDrop
  if drop.length = 0 then
    { deadDrops := Function.update t.deadDrops ex.deadDrop (drop ++ [i])
      singles := t.singles + 1
      doubles := t.doubles }
  else if drop.length = 1 then
    { deadDrops := Function.update t.deadDrops ex.deadDrop (drop ++ [i])
      singles := t.singles - 1
      doubles := t.doubles + 1 }
  else t

/-- The table after the counting loop. -/
def dropTable (exchanges : List ConvoExchange) : DropTable :=
  exchanges.zipIdx.foldl (fun t p => t.access p.1 p.2) ⟨fun _ => [], 0, 0⟩

/-- The reply of position `i`, whose exchange is `ex`. -/
def dropReply (exchanges : List ConvoExchange) (t : DropTable) (ex : ConvoExchange) (i : Nat) :
    Bytes :=
  match t.deadDrops ex.deadDrop with
  | [_] => ex.encryptedMessage.1
  | [a, b] => (exchanges.getD (if i = a then b else a) .zero).encryptedMessage.1
  | _ => []

/-- The replies of the last server. -/
def dropReplies (exchanges : List ConvoExchange) : List Bytes :=
  exchanges.zipIdx.map fun p => dropReply exchanges (dropTable exchanges) p.1 p.2

/-- The exchanges the last server reads; a message that does not decode leaves a zero one. -/
def readExchanges (messages : List Bytes) : List ConvoExchange :=
  messages.map fun m => (ConvoExchange.unmarshal m).getD .zero

/-- The counts of the last server. -/
def accessCount (exchanges : List ConvoExchange) : AccessCount :=
  ⟨(dropTable exchanges).singles, (dropTable exchanges).doubles⟩

/-- The send on `AccessCounts`, a channel of capacity 8, with a default that drops the value. -/
def offer (chan : List AccessCount) (ac : AccessCount) : List AccessCount :=
  if chan.length < 8 then chan ++ [ac] else chan

/-- `Close` on the last server, after `filterIncoming`. -/
def ConvoService.closeLast (Round : UInt32) (round : ConvoRound) (messages : List Bytes) :
    Rpc Server Unit := do
  let exchanges := readExchanges messages
  let round := { round with replies := dropReplies exchanges }
  unlockIdle
  modify fun srv => { srv with accessCounts := offer srv.accessCounts (accessCount exchanges) }
  putConvo Round { round with status := .roundClosed }

/-- The prefix of the shuffled batch that `round.incoming` sees: `append` writes the noise into
the array of `round.incoming` where it has the room, and `Shuffle` then moves that array. -/
def aliasedIncoming (capacity : Nat) (messages outgoing shuffled : List Bytes) : List Bytes :=
  if outgoing.length ≤ capacity then shuffled.take messages.length else messages

/-- `Close` on any other server, after `filterIncoming`.  `capacity` is that of
`round.incoming`. -/
def ConvoService.closeForward {σ : Type} (next : NextServer σ) (shuffler : (n : Nat) → Shuffler n)
    (Round : UInt32) (round : ConvoRound) (capacity : Nat) (messages : List Bytes) :
    Rpc (Server × σ) Unit := do
  let outgoing := messages ++ round.noise
  match (shuffler outgoing.length).shuffle outgoing with
  | none => throw (.panic .index)
  | some shuffled =>
      let round := { round with
        incoming := (aliasedIncoming capacity messages outgoing shuffled).map some
        noise := [] }
      onFst (putConvo Round round)
      onSnd (calling "NewConvoRound" (next.newConvoRound Round))
      onFst unlockIdle
      let replies ← onSnd (calling "RunConvoRound" (next.runConvoRound Round shuffled))
      match (shuffler outgoing.length).unshuffle replies with
      | none => throw (.panic .index)
      | some replies =>
          if (replies.length : Int) < round.numIncoming then throw (.panic .slice)
          else onFst (putConvo Round { round with
            replies := replies.take round.numIncoming.toNat
            status := .roundClosed })

def ConvoService.close {σ : Type} (cfg : Config) (next : NextServer σ)
    (shuffler : (n : Nat) → Shuffler n) (Round : UInt32) : Rpc (Server × σ) Unit := do
  let round ← onFst (ConvoService.getRound Round .roundOpen)
  match ConvoService.filterIncoming round.incoming with
  | none => throw (.panic .slice)
  | some (messages, incomingIndex) =>
      let capacity := round.incoming.length
      let round := { round with
        incoming := messages.map some
        incomingIndex := incomingIndex }
      if cfg.lastServer then onFst (ConvoService.closeLast Round round messages)
      else ConvoService.closeForward next shuffler Round round capacity messages

/-! ### `Get` and `Delete` -/

/-- The onion `Get` returns for position `i`. -/
def ConvoService.getOnion (box : NaclBox) (nonce : Nonce) (outgoingOnionSize : Nat)
    (filler : Nat → Nat → UInt8) (round : ConvoRound) (i : Int) : Except Panic Bytes := do
  let v ← getAt round.incomingIndex i
  let onion ←
    if -1 < v then do
      let reply ← getAt round.replies v
      let sharedKey ← getAt round.sharedKeys i
      match sharedKey with
      | none => .error .nil
      | some sharedKey => .ok (box.sealAfterPrecomputation reply nonce sharedKey)
    else .ok []
  if onion.length ≠ outgoingOnionSize then .ok (randRead (filler i.toNat) outgoingOnionSize)
  else .ok onion

def Config.outgoingOnionSize (cfg : Config) : Nat :=
  cfg.pki.outgoingOnionOverhead cfg.serverName + sizeEncryptedMessage

def ConvoService.get (box : NaclBox) (cfg : Config) (filler : Nat → Nat → UInt8)
    (args : ConvoGetArgs) : Rpc Server (List Bytes) := do
  let round ← ConvoService.getRound args.round .roundClosed
  if makeOk args.count then
    let onions := (List.range args.count.toNat).mapM fun k : Nat =>
      ConvoService.getOnion box (backwardNonce args.round) cfg.outgoingOnionSize filler round
        (wrapInt (args.offset + k))
    match onions with
    | .error p => throw (.panic p)
    | .ok onions => return onions
  else throw (.panic .make)

def ConvoService.delete (Round : UInt32) : Rpc Server Unit :=
  modify fun srv => { srv with convoRounds := Function.update srv.convoRounds Round none }

end Vuvuzela
