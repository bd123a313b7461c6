import Mathlib.Data.List.Basic
import Mathlib.Tactic.Ring

/-!
# Source — byte strings

Byte strings, arrays of a fixed length, Go's `copy` into an array, big-endian integers and the
order of `bytes.Compare`.
-/

namespace Vuvuzela

/-- A Go `[]byte`. -/
abbrev Bytes := List UInt8

/-- A Go `[n]byte`. -/
abbrev Block (n : Nat) := { b : Bytes // b.length = n }

/-- `copy(a[:], b)` into a zeroed `[n]byte`: the first `n` bytes of `b`, then zeroes. -/
def Block.copy (n : Nat) (b : Bytes) : Block n :=
  ⟨(b ++ List.replicate n 0).take n, by simp⟩

/-- The zeroed array. -/
def Block.zero (n : Nat) : Block n := ⟨List.replicate n 0, by simp⟩

theorem Block.copy_take {n : Nat} {b : Bytes} (h : n ≤ b.length) :
    (Block.copy n b).1 = b.take n := by
  simp only [Block.copy]
  rw [List.take_append_of_le_length h]

theorem Block.copy_append {n : Nat} (a : Block n) (b : Bytes) : Block.copy n (a.1 ++ b) = a := by
  refine Subtype.ext ?_
  rw [Block.copy_take (by simp [a.2])]
  simp [a.2]

theorem Block.copy_self {n : Nat} (a : Block n) : Block.copy n a.1 = a := by
  simpa using Block.copy_append a []

/-- The `n` bytes a random source gives: byte `i` is `r i`. -/
def randRead (r : Nat → UInt8) (n : Nat) : Bytes := (List.range n).map r

@[simp] theorem length_randRead (r : Nat → UInt8) (n : Nat) : (randRead r n).length = n := by
  simp [randRead]

/-! ### Big-endian integers -/

/-- The number a byte string spells, most significant byte first. -/
def beNat : Bytes → Nat
  | [] => 0
  | b :: bs => b.toNat * 256 ^ bs.length + beNat bs

/-- `n` in `k` bytes, most significant byte first. -/
def beBytes : Nat → Nat → Bytes
  | 0, _ => []
  | k + 1, n => UInt8.ofNat (n / 256 ^ k) :: beBytes k (n % 256 ^ k)

@[simp] theorem length_beBytes : ∀ k n : Nat, (beBytes k n).length = k
  | 0, _ => rfl
  | k + 1, n => by simp [beBytes, length_beBytes k]

theorem beNat_beBytes : ∀ {k n : Nat}, n < 256 ^ k → beNat (beBytes k n) = n
  | 0, n, h => by simp at h; simp [beBytes, beNat, h]
  | k + 1, n, h => by
      have hk : 0 < 256 ^ k := Nat.pow_pos (by omega)
      have hd : n / 256 ^ k < 256 := by
        rw [Nat.div_lt_iff_lt_mul hk, ← Nat.pow_succ']; exact h
      have hb : (UInt8.ofNat (n / 256 ^ k)).toNat = n / 256 ^ k := by
        rw [UInt8.toNat_ofNat', Nat.mod_eq_of_lt hd]
      simp only [beBytes, beNat, length_beBytes, hb, beNat_beBytes (Nat.mod_lt n hk)]
      exact Nat.div_add_mod' n (256 ^ k)

theorem beNat_lt : ∀ b : Bytes, beNat b < 256 ^ b.length
  | [] => by simp [beNat]
  | a :: b => by
      have ha : a.toNat + 1 ≤ 256 := a.toNat_lt
      have hb := beNat_lt b
      calc beNat (a :: b) < a.toNat * 256 ^ b.length + 256 ^ b.length := by
            simp only [beNat]; omega
        _ = (a.toNat + 1) * 256 ^ b.length := by ring
        _ ≤ 256 * 256 ^ b.length := Nat.mul_le_mul_right _ ha
        _ = 256 ^ (a :: b).length := by rw [List.length_cons, Nat.pow_succ']

/-- Two byte strings of one length that spell one number are equal. -/
theorem beNat_inj : ∀ {a b : Bytes}, a.length = b.length → beNat a = beNat b → a = b
  | [], [], _, _ => rfl
  | [], _ :: _, h, _ => by simp at h
  | _ :: _, [], h, _ => by simp at h
  | x :: a, y :: b, h, e => by
      have hl : a.length = b.length := by simpa using h
      have ha := beNat_lt a
      have hb := beNat_lt b
      simp only [beNat, hl] at e ha
      have hk : 0 < 256 ^ b.length := Nat.pow_pos (by omega)
      have hx : x.toNat = y.toNat := by
        have hdiv : ∀ n c : Nat, c < 256 ^ b.length →
            (n * 256 ^ b.length + c) / 256 ^ b.length = n :=
          fun n c hc => by
            rw [Nat.add_comm, Nat.add_mul_div_right _ _ hk, Nat.div_eq_of_lt hc, Nat.zero_add]
        rw [← hdiv x.toNat _ ha, ← hdiv y.toNat _ hb, e]
      rw [hx] at e
      rw [UInt8.toNat_inj.mp hx, beNat_inj hl (by omega)]

/-- `binary.BigEndian.PutUint32`. -/
def putUint32 (n : UInt32) : Bytes := beBytes 4 n.toNat

/-- `binary.BigEndian.PutUint64`. -/
def putUint64 (n : UInt64) : Bytes := beBytes 8 n.toNat

/-- `binary.BigEndian.Uint32`, of the first four bytes. -/
def uint32 (b : Bytes) : UInt32 := UInt32.ofNat (beNat (b.take 4))

/-- `binary.BigEndian.Uint64`, of the first eight bytes. -/
def uint64 (b : Bytes) : UInt64 := UInt64.ofNat (beNat (b.take 8))

@[simp] theorem length_putUint32 (n : UInt32) : (putUint32 n).length = 4 := by simp [putUint32]

theorem uint32_putUint32 (n : UInt32) (b : Bytes) : uint32 (putUint32 n ++ b) = n := by
  have hn : n.toNat < 256 ^ 4 := n.toNat_lt
  rw [uint32, List.take_append_of_le_length (by simp), List.take_of_length_le (by simp), putUint32,
    beNat_beBytes hn, UInt32.ofNat_toNat]

/-- Four bytes are read and written back as they were. -/
theorem putUint32_uint32 {b : Bytes} (h : 4 ≤ b.length) : putUint32 (uint32 b) = b.take 4 := by
  have hlen : (b.take 4).length = 4 := List.length_take_of_le h
  have hlt := beNat_lt (b.take 4)
  rw [hlen] at hlt
  refine beNat_inj (by rw [length_putUint32, hlen]) ?_
  rw [putUint32, uint32, UInt32.toNat_ofNat_of_lt' (by exact hlt), beNat_beBytes (by exact hlt)]

theorem putUint32_inj {m n : UInt32} (h : putUint32 m = putUint32 n) : m = n := by
  have := congrArg uint32 h
  simpa using (uint32_putUint32 m []).symm.trans (by simpa using this.trans (by
    simpa using uint32_putUint32 n []))

/-! ### `bytes.Compare` -/

/-- `bytes.Compare`: the lexicographic order, `-1`, `0` or `1`. -/
def compareBytes : Bytes → Bytes → Int
  | [], [] => 0
  | [], _ :: _ => -1
  | _ :: _, [] => 1
  | a :: as, b :: bs => if a < b then -1 else if b < a then 1 else compareBytes as bs

theorem compareBytes_swap : ∀ a b : Bytes, compareBytes b a = -compareBytes a b
  | [], [] => rfl
  | [], _ :: _ => rfl
  | _ :: _, [] => rfl
  | a :: as, b :: bs => by
      simp only [compareBytes]
      by_cases h : a < b
      · have h' : ¬ b < a := fun h' => absurd (UInt8.lt_trans h h') (UInt8.lt_irrefl a)
        simp [h, h']
      · by_cases h' : b < a
        · simp [h, h']
        · simp [h, h', compareBytes_swap as bs]

theorem compareBytes_eq_zero : ∀ {a b : Bytes}, compareBytes a b = 0 ↔ a = b
  | [], [] => by simp [compareBytes]
  | [], _ :: _ => by simp [compareBytes]
  | _ :: _, [] => by simp [compareBytes]
  | a :: as, b :: bs => by
      simp only [compareBytes]
      by_cases h : a < b
      · simp only [h, if_true, List.cons.injEq]
        exact ⟨fun h' => by omega, fun h' => absurd h (h'.1 ▸ UInt8.lt_irrefl a)⟩
      · by_cases h' : b < a
        · simp only [h, h', if_true, if_false, List.cons.injEq]
          exact ⟨fun h' => by omega, fun h'' => absurd h' (h''.1 ▸ UInt8.lt_irrefl a)⟩
        · have e : a = b := UInt8.le_antisymm (UInt8.not_lt.mp h') (UInt8.not_lt.mp h)
          rw [if_neg h, if_neg h', compareBytes_eq_zero, e]
          simp

end Vuvuzela
