import Vuvuzela.Chain.Deployment

/-!
# Chain — a deployment one can run

A box that is ideal and computes: sealing puts a tag of the key and the nonce before the message,
opening checks it.  It hides nothing, and it has every property the program relies on, so what is
proved of ideal boxes is not proved of none (`tagBox_ideal`).  With it the whole chain runs on
concrete batches; `sampleDeployment` is a chain of two servers to run them on.
-/

namespace Vuvuzela
open Support

/-! ### A box -/

/-- The tag of a sealed message. -/
def boxTag (n : Nonce) (k : BoxKey) : Bytes := (List.zipWith (· + ·) k.1 n.1).take 16

@[simp] theorem length_boxTag (n : Nonce) (k : BoxKey) : (boxTag n k).length = 16 := by
  simp [boxTag, n.2, k.2]

/-- A box that puts a tag of the key and the nonce before the message, and checks it. -/
theorem NaclBox.Ideal.of_tag {box : NaclBox} {tag : Nonce → BoxKey → Bytes}
    (hlen : ∀ n k, (tag n k).length = boxOverhead)
    (hseal : ∀ m n k, box.sealAfterPrecomputation m n k = tag n k ++ m)
    (hopen : ∀ c n k, box.openAfterPrecomputation c n k =
      if c.take boxOverhead = tag n k then some (c.drop boxOverhead) else none)
    (hcomm : ∀ a b, box.precompute (box.publicKey a) b = box.precompute (box.publicKey b) a) :
    box.Ideal where
  open_seal m n k := by
    rw [hseal, hopen, ← hlen n k, List.take_left, List.drop_left, if_pos rfl]
  seal_of_open {c n k m} h := by
    rw [hopen] at h
    split at h
    · rename_i htag
      rw [hseal, ← htag, ← Option.some.inj h, List.take_append_drop]
    · cases h
  seal_length m n k := by rw [hseal, List.length_append, hlen, Nat.add_comm]
  precompute_comm := hcomm

/-- Public keys are the private ones, and two keys are added. -/
def tagBox : NaclBox where
  publicKey := id
  precompute := fun a b => ⟨List.zipWith (· + ·) a.1 b.1, by simp [a.2, b.2]⟩
  sealAfterPrecomputation := fun m n k => boxTag n k ++ m
  openAfterPrecomputation := fun c n k => if c.take 16 = boxTag n k then some (c.drop 16) else none

theorem tagBox_ideal : tagBox.Ideal :=
  .of_tag length_boxTag (fun _ _ _ => rfl) (fun _ _ _ => rfl) fun _ _ =>
    Subtype.ext (List.zipWith_comm_of_comm UInt8.add_comm)

/-! ### A chain of two servers -/

/-- A key, from its first byte. -/
def sampleKey (b : UInt8) : BoxKey := Block.copy 32 [b]

/-- The fake onions of the first server: one single, and one double. -/
def sampleCoins : ConvoCoins where
  singles := 1
  doubles := 1
  single := fun i => ⟨fun _ => UInt8.ofNat (10 + i), fun _ => sampleKey 5⟩
  double := fun i =>
    (⟨fun _ => UInt8.ofNat (20 + i), fun _ => sampleKey 6⟩,
      ⟨fun _ => UInt8.ofNat (30 + i), fun _ => sampleKey 7⟩)

/-- One fake introduction for each bucket. -/
def sampleDialCoins (b : UInt8) : DialCoins where
  counts := fun _ => 1
  intro := fun i => ⟨fun _ => b + UInt8.ofNat i, fun _ => sampleKey 8⟩

/-- A shuffler that swaps every position with the first. -/
def sampleShuffler (n : Nat) : Shuffler n :=
  ⟨List.replicate n 0, by simp, fun i j h => by
    obtain rfl : j = 0 := by simp [List.getElem?_replicate] at h; omega
    exact Nat.zero_le i⟩

/-- Calls are handled in the opposite order. -/
def sampleSchedule : Schedule := fun n => ⟨(List.range n).reverse, List.reverse_perm _⟩

def samplePki : PKI where
  people := []
  servers := [("first", ⟨"first:2718", sampleKey 1⟩), ("last", ⟨"last:2718", sampleKey 2⟩)]
  serverOrder := ["first", "last"]
  entryServer := ""

def sampleStation (name : String) (key noise : UInt8) : Station where
  cfg := mainConfig samplePki name (sampleKey key) 2
  convoCoins := sampleCoins
  dialCoins := sampleDialCoins noise
  shuffler := sampleShuffler
  filler := fun _ _ => 0
  addOrder := sampleSchedule
  getOrder := sampleSchedule

/-- The first server, in a round in which it draws no noise. -/
def quietStation : Station :=
  { sampleStation "first" 1 40 with convoCoins := { sampleCoins with singles := 0, doubles := 0 } }

/-- The first server of the sample chain. -/
def sampleConfig : Config := (sampleStation "first" 1 40).cfg

def sampleDeployment : Deployment tagBox where
  pki := samplePki
  stations := [sampleStation "first" 1 40, sampleStation "last" 2 50]
  nodup := by decide
  nonempty := by simp
  names := rfl
  address := by decide
  config := by simp [sampleStation, mainConfig]
  key := by
    intro st hst
    simp only [List.mem_cons, List.not_mem_nil, or_false] at hst
    rcases hst with rfl | rfl <;> decide

/-- The two servers, just started. -/
def sampleServers : Servers sampleDeployment.stations := (Server.start, Server.start, ())

/-- A next server that sends every onion back. -/
def echoServer : NextServer Unit where
  newConvoRound := fun _ => pure ()
  runConvoRound := fun _ onions => pure onions
  newDialRound := fun _ => pure ()
  runDialRound := fun _ _ => pure ()
  length_replies := by
    intro _ _ _ _ _ h
    cases h
    rfl

/-- A call of a server that follows a script: it fails where the script has `false`. -/
def scripted {α : Type} (a : α) : Rpc (List Bool) α
  | false :: script => .error (.err (.remote "unavailable")) script
  | true :: script => .ok a script
  | [] => .ok a []

/-- A next server that follows a script, and sends every onion back where it answers. -/
def scriptedServer : NextServer (List Bool) where
  newConvoRound := fun _ => scripted ()
  runConvoRound := fun _ onions => scripted onions
  newDialRound := fun _ => scripted ()
  runDialRound := fun _ _ => scripted ()
  length_replies := by
    intro _ onions replies script script' h
    rcases script with - | ⟨- | -, script⟩ <;> cases h <;> rfl

/-- The fault a program ends with. -/
def faultOf {τ α : Type} : EStateM.Result Fault τ α → Option Fault
  | .ok _ _ => none
  | .error f _ => some f

/-- Whether a program ends with a result. -/
def endsOk {ε τ α : Type} : EStateM.Result ε τ α → Bool
  | .ok _ _ => true
  | .error _ _ => false

theorem endsOk_iff {ε τ α : Type} {r : EStateM.Result ε τ α} :
    endsOk r = true ↔ ∃ a s, r = .ok a s := by
  cases r with
  | ok a s => simp [endsOk]
  | error e s => simp [endsOk]

end Vuvuzela
