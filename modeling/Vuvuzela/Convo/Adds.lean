import Vuvuzela.Convo.Exchange

/-!
# Convo — the slots of an open round

What `Add` calls leave in the slots of a round, for any calls whose onions fall into the round:
they may overlap, and write one position many times.  A position ends with the key of the last
onion that was added there (`lastKey`) and with the message of the last one that opened
(`lastMessage`), so `addAll_eq`.

The two need not be the same onion.  `Add` writes the key before it tries to open the onion, so an
onion that does not open leaves the message of an earlier one under its own key, all zeroes for an
onion of a wrong size (`key_overwritten`).  **Keys and messages belong together** exactly when at
every position the onions added there agree (`slots_matched_iff`).
-/

namespace Vuvuzela
open Support

variable {box : NaclBox} {cfg : Config} {Round : UInt32}

namespace ConvoService

/-! ### Calls whose onions fall into the round -/

/-- The onion that an `Add` puts at position `i`. -/
def landing (offset : Nat) (onions : List Bytes) (i : Nat) : Option Bytes :=
  if offset ≤ i then onions[i - offset]? else none

theorem landing_of_inSpan {offset i : Nat} {onions : List Bytes}
    (h : inSpan offset onions.length i) :
    landing offset onions i = some (onions.getD (i - offset) []) := by
  obtain ⟨h₁, h₂⟩ := h
  have hlt : i - offset < onions.length := by omega
  rw [landing, if_pos h₁, List.getD_eq_getElem?_getD, List.getElem?_eq_getElem hlt]
  rfl

theorem landing_of_not_inSpan {offset i : Nat} {onions : List Bytes}
    (h : ¬ inSpan offset onions.length i) : landing offset onions i = none := by
  rw [landing]
  split
  · exact List.getElem?_eq_none (by simp only [inSpan] at h; omega)
  · rfl

/-- The loop of `Add` on a round given by its keys and messages. -/
theorem addLoop_tabled (box : NaclBox) (cfg : Config) (nonce : Nonce) (round : ConvoRound)
    {n offset : Nat} (hn : n < 2 ^ 63) {onions : List Bytes} (hle : offset + onions.length ≤ n)
    (K : Nat → Option BoxKey) (M : Nat → Option Bytes) :
    addLoop box cfg nonce offset 0 onions (tabled round n K M) =
      some (tabled round n
        (fun i => ((landing offset onions i).map fun onion =>
          (peel box cfg sizeConvoExchange nonce onion).1).or (K i))
        (fun i => ((landing offset onions i).bind fun onion =>
          (peel box cfg sizeConvoExchange nonce onion).2).or (M i))) := by
  rw [addLoop_eq box cfg nonce round hn offset onions 0 K M (by simpa using hle), Nat.add_zero]
  congr 2
  · funext i
    by_cases h : inSpan offset onions.length i
    · simp [h, landing_of_inSpan h]
    · simp [h, landing_of_not_inSpan h]
  · funext i
    by_cases h : inSpan offset onions.length i
    · simp [h, landing_of_inSpan h]
    · simp [h, landing_of_not_inSpan h]

/-- A round with its slots is the table of them. -/
theorem tabled_self {round : ConvoRound} {n : Nat} (hkeys : round.sharedKeys.length = n)
    (hin : round.incoming.length = n) :
    tabled round n (fun i => (round.sharedKeys[i]?).join) (fun i => (round.incoming[i]?).join) =
      round := by
  have htable : ∀ {α : Type} {l : List (Option α)}, l.length = n →
      (List.range n).map (fun i => (l[i]?).join) = l := by
    intro α l hl
    refine List.ext_getElem? fun i => ?_
    by_cases hi : i < n
    · simp [hi, hl]
    · simp [hi, hl]
  simp only [tabled, htable hkeys, htable hin]

/-- An `Add` whose onions fall into the round succeeds. -/
theorem add_in_range {srv : Server} {round : ConvoRound} {n offset : Nat} {onions : List Bytes}
    (hround : srv.convoRounds Round = some round) (hs : round.status = .roundOpen)
    (hnum : round.numIncoming = n) (hn : n < 2 ^ 63) (hle : offset + onions.length ≤ n)
    {round' : ConvoRound}
    (hadd : addLoop box cfg (forwardNonce Round) offset 0 onions round = some round') :
    add box cfg ⟨Round, offset, onions⟩ srv = .ok () (srv.setConvo Round round') := by
  have hbound : ¬ round.numIncoming < wrapInt ((offset : Int) + onions.length) := by
    rw [hnum, ← Int.natCast_add, wrapInt_natCast (by omega)]
    exact Int.not_lt.mpr (Int.ofNat_le.mpr hle)
  simp only [add_eq, getRound_of_some hround hs, if_neg hbound, hadd]

end ConvoService

/-- An open round has its slots. -/
structure ConvoRound.Slots (round : ConvoRound) : Prop where
  makes : makeOk round.numIncoming
  incoming_length : (round.incoming.length : Int) = round.numIncoming
  keys_length : (round.sharedKeys.length : Int) = round.numIncoming

theorem ConvoRound.Slots.opened {n : Int} (round : ConvoRound) (hmake : makeOk n) :
    (ConvoService.opened round n).Slots where
  makes := hmake
  incoming_length := by
    rw [ConvoService.opened, List.length_replicate]
    exact Int.toNat_of_nonneg hmake.1
  keys_length := by
    rw [ConvoService.opened, List.length_replicate]
    exact Int.toNat_of_nonneg hmake.1

theorem ConvoRound.Slots.stored {round : ConvoRound} (hslots : round.Slots) {nonce : Nonce}
    {i : Nat} {onion : Bytes} : (ConvoService.stored box cfg nonce i onion round).Slots where
  makes := hslots.makes
  incoming_length := by
    simp only [ConvoService.stored]
    split
    · exact hslots.incoming_length
    · rw [List.length_set]
      exact hslots.incoming_length
  keys_length := by
    rw [ConvoService.stored, List.length_set]
    exact hslots.keys_length

/-- An `Add` within the round succeeds, and writes only the positions its onions are for. -/
theorem ConvoRound.Slots.add {srv : Server} {round : ConvoRound} (hslots : round.Slots)
    (hround : srv.convoRounds Round = some round) (hs : round.status = .roundOpen)
    {offset : Nat} {onions : List Bytes}
    (hle : (offset : Int) + onions.length ≤ round.numIncoming) :
    ∃ round', ConvoService.add box cfg ⟨Round, offset, onions⟩ srv =
        .ok () (srv.setConvo Round round') ∧
      round' = { round with sharedKeys := round'.sharedKeys, incoming := round'.incoming } ∧
      ∀ i : Nat, ¬ ((offset : Int) ≤ i ∧ (i : Int) < offset + onions.length ∧
          i < round.numIncoming) →
        round'.sharedKeys[i]? = round.sharedKeys[i]? ∧
          round'.incoming[i]? = round.incoming[i]? := by
  obtain ⟨n, hn⟩ := Int.eq_ofNat_of_zero_le hslots.makes.1
  have hkeys : round.sharedKeys.length = n := by have := hslots.keys_length; omega
  have hin : round.incoming.length = n := by have := hslots.incoming_length; omega
  have hlt : n < 2 ^ 63 := lt_of_makeOk (hn ▸ hslots.makes)
  have hle' : offset + onions.length ≤ n := by omega
  have hself := ConvoService.tabled_self hkeys hin
  have hadd := ConvoService.addLoop_tabled box cfg (forwardNonce Round) round hlt hle'
    (fun i => (round.sharedKeys[i]?).join) (fun i => (round.incoming[i]?).join)
  rw [hself] at hadd
  refine ⟨_, ConvoService.add_in_range hround hs hn hlt hle' hadd, rfl, fun i hi => ?_⟩
  -- no onion lands outside of the span of the call
  have hland : i < n → ConvoService.landing offset onions i = none := by
    intro hin
    refine ConvoService.landing_of_not_inSpan fun hspan => hi ?_
    obtain ⟨h₁, h₂⟩ := hspan
    rw [hn]
    omega
  have hkeysSelf := congrArg (fun r => r.sharedKeys[i]?) hself
  have hinSelf := congrArg (fun r => r.incoming[i]?) hself
  simp only [ConvoService.tabled] at hkeysSelf hinSelf ⊢
  rw [← hkeysSelf, ← hinSelf]
  by_cases hlt : i < n
  · simp [hlt, hland hlt]
  · simp [hlt]

namespace ConvoService

/-- What `Open` does, where it succeeds. -/
theorem open_eq_ok {args : ConvoOpenArgs} {srv srv' : Server}
    (h : ConvoService.open args srv = .ok () srv') :
    ∃ round, srv.convoRounds args.round = some round ∧ round.status = .roundNew ∧
      srv' = srv.setConvo args.round (opened round args.numIncoming) := by
  have hmake := makeOk_of_open h
  rw [open_eq] at h
  cases hget : getRound args.round .roundNew srv with
  | error f s => rw [hget] at h; cases h
  | ok round s =>
      obtain ⟨rfl, hround, hs⟩ := getRound_eq_ok.mp hget
      simp only [hget, if_pos hmake] at h
      cases h
      exact ⟨round, hround, hs, rfl⟩

/-! ### Many calls -/

/-- `Add` calls, one after the other. -/
def addAll (box : NaclBox) (cfg : Config) : List ConvoAddArgs → Rpc Server Unit
  | [] => pure ()
  | args :: adds => do
      add box cfg args
      addAll box cfg adds

/-- The onions added at position `i`, in order. -/
def addedAt (adds : List ConvoAddArgs) (i : Nat) : List Bytes :=
  adds.filterMap fun args => landing args.offset.toNat args.onions i

theorem addedAt_concat (adds : List ConvoAddArgs) (args : ConvoAddArgs) (i : Nat) :
    addedAt (adds ++ [args]) i =
      addedAt adds i ++ (landing args.offset.toNat args.onions i).toList := by
  rw [addedAt, List.filterMap_append]
  rfl

section Last

variable (box cfg) (nonce : Nonce)

/-- The key of the last onion. -/
def lastKey (onions : List Bytes) : Option BoxKey :=
  onions.getLast?.map fun onion => (peel box cfg sizeConvoExchange nonce onion).1

/-- The message of the last onion that opens. -/
def lastMessage (onions : List Bytes) : Option Bytes :=
  onions.reverse.findSome? fun onion => (peel box cfg sizeConvoExchange nonce onion).2

theorem lastKey_append (onions : List Bytes) (x : Option Bytes) :
    lastKey box cfg nonce (onions ++ x.toList) =
      (x.map fun onion => (peel box cfg sizeConvoExchange nonce onion).1).or
        (lastKey box cfg nonce onions) := by
  cases x <;> simp [lastKey]

theorem lastMessage_append (onions : List Bytes) (x : Option Bytes) :
    lastMessage box cfg nonce (onions ++ x.toList) =
      (x.bind fun onion => (peel box cfg sizeConvoExchange nonce onion).2).or
        (lastMessage box cfg nonce onions) := by
  cases x with
  | none => simp [lastMessage]
  | some onion =>
      simp only [lastMessage, Option.toList_some, List.reverse_append, List.reverse_singleton,
        List.singleton_append, Option.bind_some]
      cases h : (peel box cfg sizeConvoExchange nonce onion).2 <;> simp [List.findSome?, h]

end Last

/-- A round with `n` slots after the calls `adds`. -/
def filledBy (box : NaclBox) (cfg : Config) (Round : UInt32) (round : ConvoRound) (n : Nat)
    (adds : List ConvoAddArgs) : ConvoRound :=
  tabled (opened round n) n
    (fun i => lastKey box cfg (forwardNonce Round) (addedAt adds i))
    (fun i => lastMessage box cfg (forwardNonce Round) (addedAt adds i))

theorem filledBy_nil (round : ConvoRound) (n : Nat) :
    filledBy box cfg Round round n [] = opened round n := by
  simp [filledBy, tabled, opened, addedAt, lastKey, lastMessage]

/-- **Any calls**, from a round with some calls already made. -/
theorem addAll_filledBy (box : NaclBox) (cfg : Config) {n : Nat} (hn : n < 2 ^ 63)
    (srv : Server) (round : ConvoRound) (adds done : List ConvoAddArgs)
    (h : ∀ args ∈ adds, args.round = Round ∧ 0 ≤ args.offset ∧
      args.offset + args.onions.length ≤ n) :
    addAll box cfg adds (srv.setConvo Round (filledBy box cfg Round round n done)) =
      .ok () (srv.setConvo Round (filledBy box cfg Round round n (done ++ adds))) := by
  induction adds generalizing done with
  | nil =>
      rw [List.append_nil]
      rfl
  | cons args adds ih =>
      obtain ⟨Round', offset, onions⟩ := args
      obtain ⟨hr, hoff, hle⟩ := h _ List.mem_cons_self
      obtain rfl : Round = Round' := hr.symm
      lift offset to Nat using hoff
      have hle' : offset + onions.length ≤ n := by
        simp only [] at hle
        omega
      -- the table after this call is that of the calls with it
      have hadd : addLoop box cfg (forwardNonce Round) offset 0 onions
          (filledBy box cfg Round round n done) =
          some (filledBy box cfg Round round n (done ++ [⟨Round, offset, onions⟩])) := by
        rw [filledBy, addLoop_tabled box cfg _ _ hn hle']
        simp only [filledBy, addedAt_concat, Int.toNat_natCast, lastKey_append, lastMessage_append]
      have hround : (srv.setConvo Round (filledBy box cfg Round round n done)).convoRounds Round =
          some (filledBy box cfg Round round n done) := Server.setConvo_self ..
      have hok := add_in_range hround rfl rfl hn hle' hadd
      rw [addAll, bind_of_ok hok, Server.setConvo_setConvo,
        ih _ fun a ha => h a (List.mem_cons_of_mem _ ha), List.append_assoc,
        List.singleton_append]

/-- The slots after any calls on a round that `Open` just opened. -/
theorem addAll_eq (box : NaclBox) (cfg : Config) {n : Int} {srv srv₁ : Server}
    {adds : List ConvoAddArgs} (hopen : ConvoService.open ⟨Round, n⟩ srv = .ok () srv₁)
    (hadds : ∀ args ∈ adds, args.round = Round ∧ 0 ≤ args.offset ∧
      args.offset + args.onions.length ≤ n) :
    ∃ round, addAll box cfg adds srv₁ =
      .ok () (srv₁.setConvo Round (filledBy box cfg Round round n.toNat adds)) := by
  obtain ⟨round, -, -, rfl⟩ := open_eq_ok hopen
  have hmake := makeOk_of_open hopen
  simp only [] at hmake ⊢
  lift n to Nat using hmake.1
  refine ⟨round, ?_⟩
  have h := addAll_filledBy box cfg (lt_of_makeOk hmake) srv round adds [] hadds
  rw [filledBy_nil] at h
  rw [h, Int.toNat_natCast, Server.setConvo_setConvo]
  rfl

end ConvoService

open ConvoService

/-! ### Keys and messages -/

/-- The message is what the onion opens to, under the key, and the key is that of the onion's own
public key. -/
structure Opens (box : NaclBox) (cfg : Config) (Round : UInt32) (onion : Bytes) (key : BoxKey)
    (message : Bytes) : Prop where
  size : onion.length = cfg.expectedOnionSize sizeConvoExchange
  key_eq : key = box.precompute (Block.copy 32 onion) cfg.privateKey
  opens : box.openAfterPrecomputation (onion.drop 32) (forwardNonce Round) key = some message

theorem opens_iff_peel {onion m : Bytes} {key : BoxKey} :
    Opens box cfg Round onion key m ↔
      peel box cfg sizeConvoExchange (forwardNonce Round) onion = (key, some m) := by
  rw [peel]
  split
  · rename_i hlen
    constructor
    · rintro ⟨-, rfl, ho⟩
      simp [ho]
    · intro h
      obtain ⟨rfl, ho⟩ := Prod.mk.inj h
      exact ⟨hlen, rfl, ho⟩
  · rename_i hlen
    constructor
    · exact fun h => absurd h.size hlen
    · intro h
      cases h

/-- What is sealed under the key of an onion opens for the sender of the onion. -/
theorem Opens.reply (hbox : box.Ideal) {onion m : Bytes} {key : BoxKey}
    (h : Opens box cfg Round onion key m) {privateKey : BoxKey}
    (hpublic : Block.copy 32 onion = box.publicKey privateKey) (reply : Bytes) (nonce : Nonce) :
    box.open (box.sealAfterPrecomputation reply nonce key) nonce (box.publicKey cfg.privateKey)
      privateKey = some reply := by
  rw [NaclBox.open, h.key_eq, hpublic, hbox.precompute_comm privateKey]
  exact hbox.open_seal ..

/-- Every message is stored with the key of an onion that was added at its position and opens to
it. -/
def Matched (box : NaclBox) (cfg : Config) (Round : UInt32) (adds : List ConvoAddArgs)
    (round : ConvoRound) : Prop :=
  ∀ i m, round.incoming[i]? = some (some m) → ∃ key onion,
    round.sharedKeys[i]? = some (some key) ∧ onion ∈ addedAt adds i ∧
      Opens box cfg Round onion key m

/-- The onions added at a position leave a key that belongs to its message: the last one opens,
none does, or the last one comes with the key of one of them that opens to the message kept. -/
def Agree (box : NaclBox) (cfg : Config) (Round : UInt32) (onions : List Bytes) : Prop :=
  ∀ last m, onions.getLast? = some last →
    (peel box cfg sizeConvoExchange (forwardNonce Round) last).2 = none →
    lastMessage box cfg (forwardNonce Round) onions = some m →
    ∃ onion ∈ onions, Opens box cfg Round onion
      (peel box cfg sizeConvoExchange (forwardNonce Round) last).1 m

/-- A message that was kept is that of the last onion, where the last onion opens. -/
theorem lastMessage_of_last {nonce : Nonce} {onions : List Bytes} {last m m' : Bytes}
    (hlast : onions.getLast? = some last)
    (hm : (peel box cfg sizeConvoExchange nonce last).2 = some m)
    (hkept : lastMessage box cfg nonce onions = some m') : m' = m := by
  obtain ⟨init, rfl⟩ := List.getLast?_eq_some_iff.mp hlast
  have h := lastMessage_append box cfg nonce init (some last)
  rw [Option.toList_some, hkept, Option.bind_some, hm, Option.some_or] at h
  exact Option.some.inj h

theorem agree_iff {onions : List Bytes} :
    Agree box cfg Round onions ↔
      ∀ m, lastMessage box cfg (forwardNonce Round) onions = some m →
        ∃ key onion, lastKey box cfg (forwardNonce Round) onions = some key ∧ onion ∈ onions ∧
          Opens box cfg Round onion key m := by
  constructor
  · intro h m hm
    obtain ⟨last, hlast⟩ : ∃ last, onions.getLast? = some last := by
      rw [← Option.isSome_iff_exists, List.getLast?_isSome]
      rintro rfl
      cases hm
    refine ⟨(peel box cfg sizeConvoExchange (forwardNonce Round) last).1, ?_⟩
    rw [lastKey, hlast, Option.map_some]
    cases hopen : (peel box cfg sizeConvoExchange (forwardNonce Round) last).2 with
    | none =>
        obtain ⟨onion, hmem, ho⟩ := h last m hlast hopen hm
        exact ⟨onion, rfl, hmem, ho⟩
    | some m' =>
        obtain rfl := lastMessage_of_last hlast hopen hm
        exact ⟨last, rfl, List.mem_of_getLast? hlast, opens_iff_peel.mpr (Prod.ext rfl hopen)⟩
  · intro h last m hlast _ hm
    obtain ⟨key, onion, hkey, hmem, ho⟩ := h m hm
    rw [lastKey, hlast] at hkey
    cases hkey
    exact ⟨onion, hmem, ho⟩

/-- A position written at most once. -/
theorem agree_of_length_le {onions : List Bytes} (h : onions.length ≤ 1) :
    Agree box cfg Round onions := by
  intro last m hlast hnone hm
  obtain ⟨init, rfl⟩ := List.getLast?_eq_some_iff.mp hlast
  obtain rfl : init = [] := by
    rw [List.length_append, List.length_singleton] at h
    exact List.length_eq_zero_iff.mp (by omega)
  simp [lastMessage, List.findSome?, hnone] at hm

/-- **Keys and messages belong together**, after any calls on a round just opened, exactly when the
onions added at each position agree.  A reply sealed under the key of a position then opens for
whoever made an onion of that position that holds its message. -/
theorem slots_matched_iff (box : NaclBox) (cfg : Config) {n : Int} {srv srv₁ : Server}
    {adds : List ConvoAddArgs}
    (hopen : ConvoService.open ⟨Round, n⟩ srv = .ok () srv₁)
    (hadds : ∀ args ∈ adds, args.round = Round ∧ 0 ≤ args.offset ∧
      args.offset + args.onions.length ≤ n) :
    (∃ srv₂ round, addAll box cfg adds srv₁ = .ok () srv₂ ∧
      srv₂.convoRounds Round = some round ∧
      (Matched box cfg Round adds round ↔ ∀ i : Nat, Agree box cfg Round (addedAt adds i))) ∧
    (box.Ideal → ∀ onion key m privateKey reply, Opens box cfg Round onion key m →
      Block.copy 32 onion = box.publicKey privateKey →
      box.open (box.sealAfterPrecomputation reply (backwardNonce Round) key) (backwardNonce Round)
        (box.publicKey cfg.privateKey) privateKey = some reply) := by
  refine ⟨?_, fun hbox onion key m privateKey reply h hpublic => h.reply hbox hpublic reply _⟩
  obtain ⟨round, hadd⟩ := addAll_eq box cfg hopen hadds
  refine ⟨_, _, hadd, Server.setConvo_self .., ?_⟩
  -- nothing is added at a position outside the round
  have hout : ∀ {i : Nat}, ¬ i < n.toNat → addedAt adds i = [] := by
    intro i hi
    refine List.filterMap_eq_nil_iff.mpr fun args hargs => landing_of_not_inSpan fun hin => ?_
    obtain ⟨-, hoff, hle⟩ := hadds args hargs
    obtain ⟨-, hin⟩ := hin
    omega
  constructor
  · intro h i
    refine agree_iff.mpr fun m hm => ?_
    by_cases hi : i < n.toNat
    · obtain ⟨key, onion, hkey, hmem, ho⟩ := h i m (by simp [filledBy, tabled, hi, hm])
      refine ⟨key, onion, ?_, hmem, ho⟩
      simpa [filledBy, tabled, hi] using hkey
    · rw [hout hi] at hm
      cases hm
  · intro h i m hm
    have hi : i < n.toNat := by
      have := (List.getElem?_eq_some_iff.mp hm).1
      simpa [filledBy, tabled] using this
    have hm' : lastMessage box cfg (forwardNonce Round) (addedAt adds i) = some m := by
      simpa [filledBy, tabled, hi] using hm
    obtain ⟨key, onion, hkey, hmem, ho⟩ := agree_iff.mp (h i) m hm'
    exact ⟨key, onion, by simp [filledBy, tabled, hi, hkey], hmem, ho⟩

/-! ### A position written once, and one written twice -/

/-- The first server of the sample chain, with a new round. -/
def sampleNew : Server := Server.start.setConvo 1 (sampleCoins.newRound tagBox sampleConfig 1)

/-- The same server, with two slots opened. -/
def sampleOpened : Server :=
  sampleNew.setConvo 1 (opened (sampleCoins.newRound tagBox sampleConfig 1) (2 : Nat))

theorem sampleOpened_eq : ConvoService.open ⟨1, 2⟩ sampleNew = .ok () sampleOpened :=
  open_of_new (n := 2) (Server.setConvo_self ..) rfl (by decide)

/-- An onion that opens and one of a wrong size, each at a position of its own. -/
theorem slots_matched_iff_sample :
    ∃ srv round,
      addAll tagBox sampleConfig [⟨1, 0, [(sampleOnion 3).1, []]⟩] sampleOpened = .ok () srv ∧
      srv.convoRounds 1 = some round ∧
      Matched tagBox sampleConfig 1 [⟨1, 0, [(sampleOnion 3).1, []]⟩] round := by
  have hadds : ∀ args ∈ [(⟨1, 0, [(sampleOnion 3).1, []]⟩ : ConvoAddArgs)],
      args.round = 1 ∧ 0 ≤ args.offset ∧ args.offset + args.onions.length ≤ 2 := by simp
  obtain ⟨⟨srv, round, hadd, hround, hiff⟩, -⟩ :=
    slots_matched_iff tagBox sampleConfig sampleOpened_eq hadds
  refine ⟨srv, round, hadd, hround, hiff.mpr fun i => agree_of_length_le ?_⟩
  exact List.length_filterMap_le ..

/-- Whether position 0 holds a message, under the zero key, that no onion opens to with that
key. -/
def orphaned (onions : List Bytes) : EStateM.Result Fault Server Unit → Bool
  | .ok _ srv =>
      match srv.convoRounds 1 with
      | none => false
      | some round =>
          match round.incoming[0]?, round.sharedKeys[0]? with
          | some (some m), some (some key) =>
              key = Block.zero 32 && onions.all fun onion =>
                tagBox.openAfterPrecomputation (onion.drop 32) (forwardNonce 1) key ≠ some m
          | _, _ => false
  | .error _ _ => false

/-- An onion of a wrong size is added where one opened: the message stays and its key is zero. -/
theorem key_overwritten :
    ∃ srv round m,
      addAll tagBox sampleConfig [⟨1, 0, [(sampleOnion 3).1]⟩, ⟨1, 0, [[]]⟩] sampleOpened =
        .ok () srv ∧
      srv.convoRounds 1 = some round ∧ round.incoming[0]? = some (some m) ∧
      round.sharedKeys[0]? = some (some (Block.zero 32)) ∧
      ∀ onion ∈ addedAt [⟨1, 0, [(sampleOnion 3).1]⟩, ⟨1, 0, [[]]⟩] 0,
        tagBox.openAfterPrecomputation (onion.drop 32) (forwardNonce 1) (Block.zero 32) ≠
          some m := by
  have h : orphaned (addedAt [⟨1, 0, [(sampleOnion 3).1]⟩, ⟨1, 0, [[]]⟩] 0)
      (addAll tagBox sampleConfig [⟨1, 0, [(sampleOnion 3).1]⟩, ⟨1, 0, [[]]⟩] sampleOpened) =
        true := by decide +kernel
  cases hadd : addAll tagBox sampleConfig [⟨1, 0, [(sampleOnion 3).1]⟩, ⟨1, 0, [[]]⟩]
      sampleOpened with
  | error f srv => rw [hadd] at h; cases h
  | ok u srv =>
      rw [hadd] at h
      simp only [orphaned] at h
      split at h
      · cases h
      · rename_i round hround
        split at h
        · rename_i m key hm hkey
          simp only [Bool.and_eq_true, decide_eq_true_eq, List.all_eq_true] at h
          obtain ⟨rfl, hall⟩ := h
          exact ⟨srv, round, m, rfl, hround, hm, hkey, hall⟩
        · cases h

end Vuvuzela
