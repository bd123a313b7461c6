import Vuvuzela.Source.Noise

/-!
# Wire — three descriptions of each record

The sizes of the records come from their layout in memory (`sizeof`), their bytes from a writer
that goes field by field, and the noise is written at offsets by hand.  The records have no
padding, so the first two agree (`sizeof_of_unpadded`), each record has the four laws of a format
of one size (`FixedFormat`), and what the noise generators write decodes to what they mean.
`wire_formats` puts these together.
-/

namespace Vuvuzela

/-! ### The layout in memory -/

/-- The types of the fields: a `uint32` or a `[n]byte`. -/
inductive FieldType where
  | uint32
  | bytes (n : Nat)

def FieldType.size : FieldType → Nat
  | .uint32 => 4
  | .bytes n => n

def FieldType.align : FieldType → Nat
  | .uint32 => 4
  | .bytes _ => 1

/-- The least multiple of `a` that is not below `n`. -/
def roundUp (n a : Nat) : Nat := (n + a - 1) / a * a

/-- Where the last field ends when the first may start at `offset`: each field starts at a
multiple of its alignment. -/
def layoutEnd : Nat → List FieldType → Nat
  | offset, [] => offset
  | offset, f :: fields => layoutEnd (roundUp offset f.align + f.size) fields

/-- The alignment of a struct is the largest of its fields'. -/
def structAlign (fields : List FieldType) : Nat := (fields.map FieldType.align).foldr max 1

/-- `unsafe.Sizeof` of a struct with these fields. -/
def sizeof (fields : List FieldType) : Nat := roundUp (layoutEnd 0 fields) (structAlign fields)

/-- What `encoding/binary` writes of a struct with these fields. -/
def encodedSize (fields : List FieldType) : Nat := (fields.map FieldType.size).sum

def ConvoExchange.fields : List FieldType := [.bytes 16, .bytes sizeEncryptedMessage]

def Introduction.fields : List FieldType := [.uint32, .bytes 32]

def DialExchange.fields : List FieldType := [.uint32, .bytes sizeEncryptedIntro]

/-- Every field starts where the one before it ends. -/
def Unpadded : Nat → List FieldType → Prop
  | _, [] => True
  | offset, f :: fields => f.align ∣ offset ∧ Unpadded (offset + f.size) fields

theorem roundUp_of_dvd {n a : Nat} (ha : 0 < a) (h : a ∣ n) : roundUp n a = n := by
  obtain ⟨k, rfl⟩ := h
  have hdiv : (a * k + a - 1) / a = k := by
    rw [Nat.add_sub_assoc ha, Nat.mul_add_div ha, Nat.div_eq_of_lt (by omega), Nat.add_zero]
  rw [roundUp, hdiv, Nat.mul_comm]

theorem FieldType.align_pos (f : FieldType) : 0 < f.align := by
  cases f with
  | uint32 => exact Nat.succ_pos 3
  | bytes n => exact Nat.one_pos

theorem layoutEnd_of_unpadded :
    ∀ {offset : Nat} {fields : List FieldType}, Unpadded offset fields →
      layoutEnd offset fields = offset + encodedSize fields
  | _, [], _ => rfl
  | offset, f :: fields, ⟨halign, hrest⟩ => by
      rw [layoutEnd, roundUp_of_dvd f.align_pos halign, layoutEnd_of_unpadded hrest, encodedSize,
        encodedSize, List.map_cons, List.sum_cons, Nat.add_assoc]

/-- Without padding between the fields or after the last, a struct takes in memory what it takes
on the wire. -/
theorem sizeof_of_unpadded {fields : List FieldType} (h : Unpadded 0 fields)
    (hend : structAlign fields ∣ encodedSize fields) : sizeof fields = encodedSize fields := by
  have hpos : 0 < structAlign fields := by
    cases fields with
    | nil => exact Nat.one_pos
    | cons f fields => exact lt_max_of_lt_left f.align_pos
  rw [sizeof, layoutEnd_of_unpadded h, Nat.zero_add, roundUp_of_dvd hpos hend]

theorem ConvoExchange.sizeof_fields : sizeof ConvoExchange.fields = sizeConvoExchange :=
  sizeof_of_unpadded ⟨one_dvd _, one_dvd _, trivial⟩ (one_dvd _)

theorem Introduction.sizeof_fields : sizeof Introduction.fields = sizeIntroduction :=
  sizeof_of_unpadded ⟨dvd_zero 4, one_dvd _, trivial⟩ (by decide)

theorem DialExchange.sizeof_fields : sizeof DialExchange.fields = sizeDialExchange :=
  sizeof_of_unpadded ⟨dvd_zero 4, one_dvd _, trivial⟩ (by decide)

/-! ### Formats of one size -/

/-- The laws of an encoding in which every value takes `size` bytes. -/
structure FixedFormat {α : Type} (size : Nat) (marshal : α → Bytes)
    (unmarshal : Bytes → Option α) : Prop where
  length_marshal : ∀ a, (marshal a).length = size
  unmarshal_marshal : ∀ a, unmarshal (marshal a) = some a
  marshal_unmarshal : ∀ data, data.length = size → ∃ a, unmarshal data = some a ∧ marshal a = data
  short : ∀ data, data.length < size → unmarshal data = none

theorem ConvoExchange.format :
    FixedFormat sizeConvoExchange ConvoExchange.marshal ConvoExchange.unmarshal where
  length_marshal := ConvoExchange.length_marshal
  unmarshal_marshal := ConvoExchange.unmarshal_marshal
  marshal_unmarshal data hl :=
    have h := if_neg (by omega)
    ⟨_, h, ConvoExchange.marshal_of_unmarshal hl h⟩
  short _ hl := if_pos hl

theorem Introduction.format :
    FixedFormat sizeIntroduction Introduction.marshal Introduction.unmarshal where
  length_marshal := Introduction.length_marshal
  unmarshal_marshal := Introduction.unmarshal_marshal
  marshal_unmarshal data hl :=
    have h := if_neg (by omega)
    ⟨_, h, Introduction.marshal_of_unmarshal hl h⟩
  short _ hl := if_pos hl

theorem DialExchange.format :
    FixedFormat sizeDialExchange DialExchange.marshal DialExchange.unmarshal where
  length_marshal := DialExchange.length_marshal
  unmarshal_marshal := DialExchange.unmarshal_marshal
  marshal_unmarshal data hl :=
    have h := if_neg (by omega)
    ⟨_, h, DialExchange.marshal_of_unmarshal hl h⟩
  short _ hl := if_pos hl

/-! ### Blocks written by hand -/

/-- A block is read as the dead drop in its first 16 bytes. -/
theorem unmarshal_of_deadDrop {data : Bytes} {x : DeadDrop} (hl : data.length = sizeConvoExchange)
    (hx : data.take 16 = x.1) :
    ∃ e, ConvoExchange.unmarshal data = some e ∧ e.deadDrop = x := by
  obtain ⟨e, he, hm⟩ := ConvoExchange.format.marshal_unmarshal data hl
  refine ⟨e, he, Subtype.ext ?_⟩
  rw [← hx, ← hm, ConvoExchange.marshal, List.take_left' e.deadDrop.2]

/-- A block is read as the bucket written in its first 4 bytes. -/
theorem unmarshal_of_bucket {data : Bytes} {b : UInt32} (hl : data.length = sizeDialExchange)
    (hb : data.take 4 = putUint32 b) :
    ∃ e, DialExchange.unmarshal data = some e ∧ e.bucket = b := by
  obtain ⟨e, he, hm⟩ := DialExchange.format.marshal_unmarshal data hl
  refine ⟨e, he, putUint32_inj ?_⟩
  rw [← hb, ← hm, DialExchange.marshal, List.take_left' (length_putUint32 e.bucket)]

/-- The two exchanges of a fake double meet at one dead drop. -/
theorem unmarshal_doubleExchanges (coins : FakeCoins × FakeCoins) :
    ∃ e₁ e₂, ConvoExchange.unmarshal (doubleExchanges coins).1 = some e₁ ∧
      ConvoExchange.unmarshal (doubleExchanges coins).2 = some e₂ ∧ e₁.deadDrop = e₂.deadDrop := by
  have hl : (doubleExchanges coins).1.length = sizeConvoExchange := length_randRead _ _
  obtain ⟨e₁, he₁, hm₁⟩ := ConvoExchange.format.marshal_unmarshal _ hl
  have hdrop : (doubleExchanges coins).1.take 16 = e₁.deadDrop.1 := by
    rw [← hm₁, ConvoExchange.marshal, List.take_left' e₁.deadDrop.2]
  have hcopy : (doubleExchanges coins).2 =
      e₁.deadDrop.1 ++ randRead coins.2.payload (sizeConvoExchange - 16) :=
    congrArg (· ++ _) hdrop
  have hl₂ : (doubleExchanges coins).2.length = sizeConvoExchange := by
    rw [hcopy, List.length_append, e₁.deadDrop.2, length_randRead]
    rfl
  obtain ⟨e₂, he₂, hd⟩ := unmarshal_of_deadDrop hl₂ (x := e₁.deadDrop)
    (by rw [hcopy, List.take_left' e₁.deadDrop.2])
  exact ⟨e₁, e₂, he₁, he₂, hd.symm⟩

/-- A fake introduction goes to the bucket it was made for. -/
theorem unmarshal_introExchange (bucket : Nat) (coins : FakeCoins) :
    ∃ e, DialExchange.unmarshal (introExchange bucket coins) = some e ∧
      e.bucket = UInt32.ofNat bucket := by
  have hl : (introExchange bucket coins).length = sizeDialExchange := by
    rw [introExchange, List.length_append, length_putUint32, length_randRead]
    rfl
  exact unmarshal_of_bucket hl (List.take_left' (length_putUint32 _))

/-- **The wire formats.**  Sizes in memory and on the wire, the laws of the three encodings, and
the blocks that noise is written in. -/
theorem wire_formats :
    (FixedFormat sizeConvoExchange ConvoExchange.marshal ConvoExchange.unmarshal ∧
      FixedFormat sizeDialExchange DialExchange.marshal DialExchange.unmarshal ∧
      FixedFormat (sizeEncryptedIntro - Onionbox.overhead) Introduction.marshal
        Introduction.unmarshal) ∧
    (sizeof ConvoExchange.fields = sizeConvoExchange ∧
      sizeof DialExchange.fields = sizeDialExchange ∧
      sizeof Introduction.fields = sizeEncryptedIntro - Onionbox.overhead) ∧
    (∀ (data : Block sizeConvoExchange) (x : DeadDrop), data.1.take 16 = x.1 →
      ∃ e, ConvoExchange.unmarshal data.1 = some e ∧ e.deadDrop = x) ∧
    (∀ (data : Block sizeDialExchange) (b : UInt32), data.1.take 4 = putUint32 b →
      ∃ e, DialExchange.unmarshal data.1 = some e ∧ e.bucket = b) ∧
    (∀ coins, ∃ e₁ e₂, ConvoExchange.unmarshal (doubleExchanges coins).1 = some e₁ ∧
      ConvoExchange.unmarshal (doubleExchanges coins).2 = some e₂ ∧ e₁.deadDrop = e₂.deadDrop) ∧
    ∀ bucket coins, ∃ e, DialExchange.unmarshal (introExchange bucket coins) = some e ∧
      e.bucket = UInt32.ofNat bucket := by
  have hintro : sizeEncryptedIntro - Onionbox.overhead = sizeIntroduction := rfl
  rw [hintro]
  refine ⟨⟨ConvoExchange.format, DialExchange.format, Introduction.format⟩,
    ⟨ConvoExchange.sizeof_fields, DialExchange.sizeof_fields, Introduction.sizeof_fields⟩,
    ?_, ?_, unmarshal_doubleExchanges, unmarshal_introExchange⟩
  · intro data x hx
    exact unmarshal_of_deadDrop data.2 hx
  · intro data b hb
    exact unmarshal_of_bucket data.2 hb

end Vuvuzela
