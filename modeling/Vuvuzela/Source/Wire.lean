import Vuvuzela.Source.Box

/-!
# Source — the exchanges and their wire formats

`params.go` and `vuvuzela.go`: the sizes, the three records the clients send, their encodings,
the two nonces of a round and the bucket of a key.
-/

namespace Vuvuzela

/-! ### Sizes -/

/-- `SizeMessage`. -/
def sizeMessage : Nat := 240

/-- `SizeEncryptedMessage`. -/
def sizeEncryptedMessage : Nat := sizeMessage + boxOverhead

/-- `SizeConvoExchange`: a dead drop and an encrypted message. -/
def sizeConvoExchange : Nat := 16 + sizeEncryptedMessage

/-- The size of an `Introduction`: a `uint32` and a key. -/
def sizeIntroduction : Nat := 4 + 32

/-- `SizeEncryptedIntro`. -/
def sizeEncryptedIntro : Nat := sizeIntroduction + Onionbox.overhead

/-- `SizeDialExchange`: a `uint32` and an encrypted introduction. -/
def sizeDialExchange : Nat := 4 + sizeEncryptedIntro

/-- `TotalDialBuckets`. -/
def totalDialBuckets : Nat := 1

/-! ### Records -/

/-- `DeadDrop`. -/
abbrev DeadDrop := Block 16

structure ConvoExchange where
  deadDrop : DeadDrop
  encryptedMessage : Block sizeEncryptedMessage
  deriving DecidableEq

structure Introduction where
  rendezvous : UInt32
  longTermKey : BoxKey
  deriving DecidableEq

structure DialExchange where
  bucket : UInt32
  encryptedIntro : Block sizeEncryptedIntro
  deriving DecidableEq

/-- `new(ConvoExchange)`. -/
def ConvoExchange.zero : ConvoExchange := ⟨Block.zero 16, Block.zero sizeEncryptedMessage⟩

def ConvoExchange.marshal (e : ConvoExchange) : Bytes := e.deadDrop.1 ++ e.encryptedMessage.1

/-- `Unmarshal` reads a prefix of the data, and fails on less than a whole record. -/
def ConvoExchange.unmarshal (data : Bytes) : Option ConvoExchange :=
  if data.length < sizeConvoExchange then none
  else some ⟨Block.copy 16 data, Block.copy sizeEncryptedMessage (data.drop 16)⟩

def Introduction.marshal (i : Introduction) : Bytes := putUint32 i.rendezvous ++ i.longTermKey.1

def Introduction.unmarshal (data : Bytes) : Option Introduction :=
  if data.length < sizeIntroduction then none
  else some ⟨uint32 data, Block.copy 32 (data.drop 4)⟩

def DialExchange.marshal (e : DialExchange) : Bytes := putUint32 e.bucket ++ e.encryptedIntro.1

def DialExchange.unmarshal (data : Bytes) : Option DialExchange :=
  if data.length < sizeDialExchange then none
  else some ⟨uint32 data, Block.copy sizeEncryptedIntro (data.drop 4)⟩

@[simp] theorem ConvoExchange.length_marshal (e : ConvoExchange) :
    e.marshal.length = sizeConvoExchange := by
  simp [marshal, e.deadDrop.2, e.encryptedMessage.2, sizeConvoExchange]

@[simp] theorem Introduction.length_marshal (i : Introduction) :
    i.marshal.length = sizeIntroduction := by
  simp [marshal, i.longTermKey.2, sizeIntroduction]

@[simp] theorem DialExchange.length_marshal (e : DialExchange) :
    e.marshal.length = sizeDialExchange := by
  simp [marshal, e.encryptedIntro.2, sizeDialExchange]

theorem ConvoExchange.unmarshal_marshal (e : ConvoExchange) : unmarshal e.marshal = some e := by
  have hd : e.marshal.drop 16 = e.encryptedMessage.1 := by simp [marshal, e.deadDrop.2]
  rw [unmarshal, if_neg (by simp), hd, Block.copy_self]
  simp only [marshal, Block.copy_append]

theorem Introduction.unmarshal_marshal (i : Introduction) : unmarshal i.marshal = some i := by
  have hd : i.marshal.drop 4 = i.longTermKey.1 := by simp [marshal]
  rw [unmarshal, if_neg (by simp), hd, Block.copy_self]
  simp only [marshal, uint32_putUint32]

theorem DialExchange.unmarshal_marshal (e : DialExchange) : unmarshal e.marshal = some e := by
  have hd : e.marshal.drop 4 = e.encryptedIntro.1 := by simp [marshal]
  rw [unmarshal, if_neg (by simp), hd, Block.copy_self]
  simp only [marshal, uint32_putUint32]

/-- `Unmarshal` tells whole records apart. -/
theorem ConvoExchange.marshal_of_unmarshal {data : Bytes} {e : ConvoExchange}
    (hl : data.length = sizeConvoExchange) (h : unmarshal data = some e) : e.marshal = data := by
  rw [unmarshal, if_neg (by omega)] at h
  obtain rfl := Option.some.inj h
  have h₁ : 16 ≤ data.length := by rw [hl]; decide
  have h₂ : (data.drop 16).length = sizeEncryptedMessage := by rw [List.length_drop, hl]; rfl
  rw [marshal, Block.copy_take h₁, Block.copy_take h₂.ge, List.take_of_length_le h₂.le,
    List.take_append_drop]

/-- A record that is a `uint32` and an array is written back as it was read. -/
theorem putUint32_append_copy {n : Nat} {data : Bytes} (hl : data.length = 4 + n) :
    putUint32 (uint32 data) ++ (Block.copy n (data.drop 4)).1 = data := by
  have hrest : (data.drop 4).length = n := by rw [List.length_drop, hl]; omega
  rw [putUint32_uint32 (by omega), Block.copy_take hrest.ge, List.take_of_length_le hrest.le,
    List.take_append_drop]

theorem Introduction.marshal_of_unmarshal {data : Bytes} {i : Introduction}
    (hl : data.length = sizeIntroduction) (h : unmarshal data = some i) : i.marshal = data := by
  rw [unmarshal, if_neg (by omega)] at h
  obtain rfl := Option.some.inj h
  exact putUint32_append_copy hl

theorem DialExchange.marshal_of_unmarshal {data : Bytes} {e : DialExchange}
    (hl : data.length = sizeDialExchange) (h : unmarshal data = some e) : e.marshal = data := by
  rw [unmarshal, if_neg (by omega)] at h
  obtain rfl := Option.some.inj h
  exact putUint32_append_copy hl

/-! ### Nonces and buckets -/

/-- The nonce with `round` in its first four bytes and `direction` in its fifth. -/
def roundNonce (round : UInt32) (direction : UInt8) : Nonce :=
  ⟨putUint32 round ++ direction :: List.replicate 19 0, by simp⟩

def forwardNonce (round : UInt32) : Nonce := roundNonce round 0

def backwardNonce (round : UInt32) : Nonce := roundNonce round 1

/-- `KeyDialBucket`; no value is Go's division by zero. -/
def keyDialBucket (key : BoxKey) (buckets : UInt32) : Option UInt32 :=
  if buckets = 0 then none else some (uint32 (key.1.drop 28) % buckets)

end Vuvuzela
