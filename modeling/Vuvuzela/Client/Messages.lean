import Vuvuzela.Source.Conversation

/-!
# Client — messages and their blocks

What comes out of the block a message is sent in.  A text comes out padded with zeroes, and what
is shown of it are its first 239 bytes without the zeroes at their end (`rdropWhile_copy`), which
is the text itself exactly when it is not longer and does not end in a zero
(`shown_eq_text_iff`).  A time comes out as it was (`unmarshal_timestamp`).  `convoMessage_codec`
has both, and what becomes of the blocks that are neither.
-/

namespace Vuvuzela

/-! ### Texts -/

theorem Block.copy_cons (n : Nat) (a : UInt8) (b : Bytes) :
    (Block.copy (n + 1) (a :: b)).1 = a :: (Block.copy n b).1 := by
  simp only [Block.copy, List.cons_append, List.take_succ_cons, List.take_append]
  simp
  omega

theorem rdropWhile_append_zeroes (b : Bytes) (n : Nat) :
    (b ++ List.replicate n 0).rdropWhile (· = 0) = b.rdropWhile (· = 0) := by
  induction n with
  | zero => simp
  | succ n ih =>
      rw [List.replicate_succ', ← List.append_assoc, List.rdropWhile_concat_pos _ _ _ (by simp), ih]

theorem Block.copy_eq (n : Nat) (b : Bytes) :
    (Block.copy n b).1 = b.take n ++ List.replicate (n - b.length) 0 := by
  simp [Block.copy, List.take_append]

/-- The padding of a text does not show. -/
theorem rdropWhile_copy (n : Nat) (b : Bytes) :
    (Block.copy n b).1.rdropWhile (· = 0) = (b.take n).rdropWhile (· = 0) := by
  rw [Block.copy_eq, rdropWhile_append_zeroes]

/-- What comes as a text was sent as one. -/
theorem text_of_unmarshal {msg : ConvoMessage} {text : Bytes}
    (h : ConvoMessage.unmarshal msg.marshal.1 = .ok (some (.text text))) :
    ∃ sent, msg = .text sent ∧ text.rdropWhile (· = 0) = (sent.take 239).rdropWhile (· = 0) := by
  cases msg with
  | timestamp unix =>
      rw [ConvoMessage.marshal, sizeMessage, Block.copy_cons] at h
      cases h
  | text sent =>
      rw [ConvoMessage.marshal, sizeMessage, Block.copy_cons] at h
      cases h
      exact ⟨sent, rfl, rdropWhile_copy 239 sent⟩

/-- A text comes out with its padding. -/
theorem unmarshalInto_text (body : Option ConvoMessage) (sent : Bytes) :
    ConvoMessage.unmarshalInto body (ConvoMessage.text sent).marshal.1 =
      .ok (none, some (.text (Block.copy 239 sent).1)) := by
  rw [ConvoMessage.marshal, sizeMessage, Block.copy_cons]
  rfl

theorem unmarshal_text (sent : Bytes) :
    ConvoMessage.unmarshal (ConvoMessage.text sent).marshal.1 =
      .ok (some (.text (Block.copy 239 sent).1)) := by
  rw [ConvoMessage.unmarshal_eq none, unmarshalInto_text]
  rfl

/-- The texts that are shown as they were sent. -/
theorem shown_eq_text_iff {n : Nat} {sent : Bytes} :
    (sent.take n).rdropWhile (· = 0) = sent ↔ sent.length ≤ n ∧ sent.getLast? ≠ some 0 := by
  constructor
  · intro h
    have hlen : sent.length ≤ n := by
      have hle := (List.rdropWhile_prefix (· = (0 : UInt8)) (l := sent.take n)).length_le
      rw [h, List.length_take] at hle
      omega
    rw [List.take_of_length_le hlen] at h
    refine ⟨hlen, fun hlast => ?_⟩
    obtain ⟨front, rfl⟩ := List.getLast?_eq_some_iff.mp hlast
    rw [List.rdropWhile_concat_pos _ _ _ (by simp)] at h
    have hle := (List.rdropWhile_prefix (· = (0 : UInt8)) (l := front)).length_le
    rw [h, List.length_append, List.length_singleton] at hle
    omega
  · rintro ⟨hlen, hlast⟩
    rw [List.take_of_length_le hlen]
    rcases List.eq_nil_or_concat sent with rfl | ⟨front, last, rfl⟩
    · rfl
    · rw [List.concat_eq_append] at hlast ⊢
      refine List.rdropWhile_concat_neg _ _ _ ?_
      simpa using hlast

/-! ### Times -/

theorem toNat_ofNat_of_lt {n : Nat} (h : n < 256) : (UInt8.ofNat n).toNat = n := by
  rw [UInt8.toNat_ofNat', Nat.mod_eq_of_lt h]

theorem length_putUvarint_le : ∀ k x : Nat, (putUvarint k x).length ≤ k + 1
  | 0, _ => Nat.le_refl 1
  | k + 1, x => by
      rw [putUvarint]
      split
      · simp
      · exact Nat.succ_le_succ (length_putUvarint_le k (x / 128))

/-- `Uvarint` from byte `i` on reads back what `PutUvarint` wrote there, whatever follows. -/
theorem uvarint_putUvarint (rest : Bytes) :
    ∀ {k i x acc : Nat}, i + k = 9 → x < 2 ^ (64 - 7 * i) →
      uvarint i acc (putUvarint k x ++ rest) = acc + x * 2 ^ (7 * i)
  | 0, i, x, acc, hi, hx => by
      -- the tenth byte holds the last of the 64 bits
      obtain rfl : i = 9 := hi
      have hb : (UInt8.ofNat x).toNat = x := toNat_ofNat_of_lt (by omega)
      rw [putUvarint, List.singleton_append, uvarint, hb, if_pos (by omega), if_neg (by omega)]
  | k + 1, i, x, acc, hi, hx => by
      rw [putUvarint]
      split
      · rename_i hsmall
        have hb : (UInt8.ofNat x).toNat = x := toNat_ofNat_of_lt (by omega)
        rw [List.singleton_append, uvarint, hb, if_pos hsmall, if_neg (by omega)]
      · rename_i hlarge
        have hb : (UInt8.ofNat (x % 128 + 128)).toNat = x % 128 + 128 :=
          toNat_ofNat_of_lt (by omega)
        have hdiv : x / 128 < 2 ^ (64 - 7 * (i + 1)) := by
          rw [Nat.div_lt_iff_lt_mul (by decide), show 128 = 2 ^ 7 from rfl, ← Nat.pow_add]
          rwa [show 64 - 7 * (i + 1) + 7 = 64 - 7 * i by omega]
        rw [List.cons_append, uvarint, hb, if_neg (by omega),
          uvarint_putUvarint rest (by omega) hdiv, Nat.add_sub_cancel, Nat.add_assoc]
        congr 1
        calc x % 128 * 2 ^ (7 * i) + x / 128 * 2 ^ (7 * (i + 1))
            = (x % 128 + 128 * (x / 128)) * 2 ^ (7 * i) := by
              rw [Nat.mul_add 7, Nat.pow_add]
              ring
          _ = x * 2 ^ (7 * i) := by rw [Nat.mod_add_div]

/-- `Varint` reads back what `PutVarint` wrote, whatever follows. -/
theorem varint_putVarint {x : Int} (hx : IsInt x) (rest : Bytes) :
    varint (putVarint x ++ rest) = x := by
  obtain ⟨hlo, hhi⟩ := hx
  rw [varint, putVarint, uvarint_putUvarint rest rfl (by split <;> omega)]
  simp only [Nat.mul_zero, Nat.pow_zero, Nat.mul_one, Nat.zero_add]
  split <;> split <;> omega

/-- A time comes out as a time. -/
theorem unmarshalInto_timestamp (body : Option ConvoMessage) (unix : Int) :
    ConvoMessage.unmarshalInto body (ConvoMessage.timestamp unix).marshal.1 =
      .ok (none, some (.timestamp (varint (Block.copy 239 (putVarint unix)).1))) := by
  rw [ConvoMessage.marshal, sizeMessage, Block.copy_cons]
  rfl

/-- The zeroes after a time are not read. -/
theorem varint_copy {unix : Int} (hunix : IsInt unix) :
    varint (Block.copy 239 (putVarint unix)).1 = unix := by
  have hlen : (putVarint unix).length ≤ 239 := (length_putUvarint_le 9 _).trans (by decide)
  rw [Block.copy_eq, List.take_of_length_le hlen, varint_putVarint hunix]

/-- A time comes out as it was. -/
theorem unmarshal_timestamp {unix : Int} (hunix : IsInt unix) :
    ConvoMessage.unmarshal (ConvoMessage.timestamp unix).marshal.1 =
      .ok (some (.timestamp unix)) := by
  rw [ConvoMessage.unmarshal_eq none, unmarshalInto_timestamp, varint_copy hunix]
  rfl

/-! ### Blocks -/

/-- A block of an unknown type is refused, and leaves the message as it was. -/
theorem unmarshalInto_unknown (body : Option ConvoMessage) {t : UInt8} (msg : Bytes)
    (hzero : t ≠ 0) (hone : t ≠ 1) :
    ConvoMessage.unmarshalInto body (t :: msg) =
      .ok (some s!"unexpected message type: {t}", body) := by
  rw [ConvoMessage.unmarshalInto.eq_def]
  split
  · rename_i heq
    cases heq
  · rename_i heq
    exact absurd (List.cons.inj heq).1 hzero
  · rename_i heq
    exact absurd (List.cons.inj heq).1 hone
  · rename_i heq
    rw [(List.cons.inj heq).1]

/-- **The codec of the messages.**  What a text shows as, a time that comes back, no text read as
a time or the reverse, and the blocks that are refused. -/
theorem convoMessage_codec :
    (∀ (body : Option ConvoMessage) (m : Bytes), ∃ text,
      ConvoMessage.unmarshalInto body (ConvoMessage.text m).marshal.1 =
        .ok (none, some (.text text)) ∧
      ∀ (now : Time) (c : Conversation), ∃ shown, (c.receive now (.text text)).1 = some shown ∧
        shown = (m.take (sizeMessage - 1)).rdropWhile (· = 0) ∧
        (shown = m ↔ m.length ≤ sizeMessage - 1 ∧ m.getLast? ≠ some 0)) ∧
    (∀ (body : Option ConvoMessage) (t : Int), IsInt t →
      ConvoMessage.unmarshalInto body (ConvoMessage.timestamp t).marshal.1 =
        .ok (none, some (.timestamp t))) ∧
    (∀ (body : Option ConvoMessage) (m : Bytes) (err : Option String) (t : Int),
      ConvoMessage.unmarshalInto body (ConvoMessage.text m).marshal.1 ≠
        .ok (err, some (.timestamp t))) ∧
    (∀ (body : Option ConvoMessage) (t : Int) (err : Option String) (m : Bytes),
      ConvoMessage.unmarshalInto body (ConvoMessage.timestamp t).marshal.1 ≠
        .ok (err, some (.text m))) ∧
    ∀ (body : Option ConvoMessage) (block : Block sizeMessage), block.1.head? ≠ some 0 →
      block.1.head? ≠ some 1 →
      ∃ err, ConvoMessage.unmarshalInto body block.1 = .ok (some err, body) := by
  refine ⟨?_, ?_, ?_, ?_, ?_⟩
  · intro body m
    refine ⟨_, unmarshalInto_text body m, fun now c => ⟨_, rfl, rdropWhile_copy 239 m, ?_⟩⟩
    rw [rdropWhile_copy]
    exact shown_eq_text_iff
  · intro body t ht
    rw [unmarshalInto_timestamp, varint_copy ht]
  · intro body m err t h
    cases (unmarshalInto_text body m).symm.trans h
  · intro body t err m h
    cases (unmarshalInto_timestamp body t).symm.trans h
  · rintro body ⟨block, hlen⟩ hzero hone
    cases block with
    | nil => cases hlen
    | cons t msg =>
        exact ⟨_, unmarshalInto_unknown body msg (fun e => hzero (congrArg some e))
          fun e => hone (congrArg some e)⟩

end Vuvuzela
