import Vuvuzela.Source.Api

/-!
# Entry — envelopes

Whether `Open` undoes `Envelop`.  The two switches list the nine types of messages by hand, and
`Open` has no case for `MsgDialError`: a client that is sent a `DialError` logs an unknown message
and never learns that its round of dialing failed (`open_dialError`).  The other eight come out of
their envelopes as they went in (`open_envelop`), and what `Open` accepts has the tag `Envelop`
would give it (`envelop_open`).

**Envelopes** (`open_envelop_iff`).  If `encoding/json` gives back what it was given, opening an
envelope gives the message that was put in it exactly when that is not a `DialError`, and for every
envelope that opens, the envelope of the result carries the same tag.
-/

namespace Vuvuzela

/-! ### One type of message -/

section Codec

variable {α : Type} {codec : JsonCodec α}

theorem JsonCodec.RoundTrips.marshal (h : codec.RoundTrips) (v : α) :
    ∃ data, codec.marshal v = .ok data ∧ codec.unmarshal data = .ok v := by
  have hv := h v
  cases hm : codec.marshal v with
  | error err => rw [hm] at hv; cases hv
  | ok data =>
      rw [hm] at hv
      exact ⟨data, rfl, hv⟩

theorem openAs_eq_ok {mk : α → Message} {data : Bytes} {m : Message} :
    openAs codec mk data = .ok m ↔ ∃ v, codec.unmarshal data = .ok v ∧ mk v = m := by
  cases h : codec.unmarshal data with
  | error err => simp [openAs, h, failing, Except.mapError, bind, Except.bind]
  | ok v => simp [openAs, h, failing, Except.mapError, bind, Except.bind, pure, Except.pure]

theorem envelopAs_eq_ok {t : MsgType} {v : α} {e : Envelope} :
    envelopAs codec t v = .ok e ↔ ∃ data, codec.marshal v = .ok data ∧ ⟨t, data⟩ = e := by
  cases h : codec.marshal v with
  | error err => simp [envelopAs, h, failing, Except.mapError, bind, Except.bind]
  | ok data => simp [envelopAs, h, failing, Except.mapError, bind, Except.bind, pure, Except.pure]

/-- What `Envelop` wrote, `Open` reads, if it reads it as a message of the same type. -/
theorem openAs_of_envelopAs (h : codec.RoundTrips) {t : MsgType} {v : α} {e : Envelope}
    (he : envelopAs codec t v = .ok e) (mk : α → Message) :
    openAs codec mk e.message = .ok (mk v) := by
  obtain ⟨data, hm, rfl⟩ := envelopAs_eq_ok.mp he
  obtain ⟨data', hm', hu⟩ := h.marshal v
  obtain rfl : data' = data := Except.ok.inj (hm'.symm.trans hm)
  exact openAs_eq_ok.mpr ⟨v, hu, rfl⟩

/-- What `Open` read, `Envelop` writes. -/
theorem envelopAs_of_openAs (h : codec.RoundTrips) {mk : α → Message} {data : Bytes} {m : Message}
    (ho : openAs codec mk data = .ok m) (t : MsgType) :
    ∃ v e, mk v = m ∧ envelopAs codec t v = .ok e ∧ e.type = t := by
  obtain ⟨v, -, hv⟩ := openAs_eq_ok.mp ho
  obtain ⟨data', hm, -⟩ := h.marshal v
  exact ⟨v, ⟨t, data'⟩, hv, envelopAs_eq_ok.mpr ⟨data', hm, rfl⟩, rfl⟩

end Codec

/-! ### All types -/

section Json

variable {json : Json} (h : json.RoundTrips)
include h

theorem open_envelop {v : Message} {e : Envelope} (hv : v.isDialError = false)
    (he : envelop json v = .ok e) : e.open json = .ok v := by
  -- the tag `Envelop` writes is a literal, so `Open` takes the branch of the same type
  have htag {α : Type} {codec : JsonCodec α} {t : MsgType} {a : α}
      (he : envelopAs codec t a = .ok e) : e = ⟨t, e.message⟩ := by
    obtain ⟨data, -, rfl⟩ := envelopAs_eq_ok.mp he
    rfl
  cases v with
  | convoRequest v => rw [htag he]; exact openAs_of_envelopAs h.convoRequest he _
  | dialRequest v => rw [htag he]; exact openAs_of_envelopAs h.dialRequest he _
  | badRequestError v => rw [htag he]; exact openAs_of_envelopAs h.badRequestError he _
  | convoError v => rw [htag he]; exact openAs_of_envelopAs h.convoError he _
  | convoResponse v => rw [htag he]; exact openAs_of_envelopAs h.convoResponse he _
  | dialError v => cases hv
  | dialBucket v => rw [htag he]; exact openAs_of_envelopAs h.dialBucket he _
  | announceConvoRound v => rw [htag he]; exact openAs_of_envelopAs h.announceConvoRound he _
  | announceDialRound v => rw [htag he]; exact openAs_of_envelopAs h.announceDialRound he _
  | other typeName => cases he

omit h in
/-- The envelope of a `DialError` does not open. -/
theorem open_dialError {v : DialError} {e : Envelope} (he : envelop json (.dialError v) = .ok e) :
    e.open json = .error "unknown message type: 5" := by
  obtain ⟨data, -, rfl⟩ := envelopAs_eq_ok.mp he
  rfl

theorem envelop_open {v : Message} {e : Envelope} (ho : e.open json = .ok v) :
    ∃ e', envelop json v = .ok e' ∧ e'.type = e.type := by
  unfold Envelope.open at ho
  split at ho
  case h_1 ht =>
    obtain ⟨a, e', rfl, he, ht'⟩ := envelopAs_of_openAs h.convoRequest ho msgConvoRequest
    exact ⟨e', he, ht'.trans ht.symm⟩
  case h_2 ht =>
    obtain ⟨a, e', rfl, he, ht'⟩ := envelopAs_of_openAs h.dialRequest ho msgDialRequest
    exact ⟨e', he, ht'.trans ht.symm⟩
  case h_3 ht =>
    obtain ⟨a, e', rfl, he, ht'⟩ := envelopAs_of_openAs h.badRequestError ho msgBadRequestError
    exact ⟨e', he, ht'.trans ht.symm⟩
  case h_4 ht =>
    obtain ⟨a, e', rfl, he, ht'⟩ := envelopAs_of_openAs h.convoError ho msgConvoError
    exact ⟨e', he, ht'.trans ht.symm⟩
  case h_5 ht =>
    obtain ⟨a, e', rfl, he, ht'⟩ := envelopAs_of_openAs h.convoResponse ho msgConvoResponse
    exact ⟨e', he, ht'.trans ht.symm⟩
  case h_6 ht =>
    obtain ⟨a, e', rfl, he, ht'⟩ := envelopAs_of_openAs h.dialBucket ho msgDialBucket
    exact ⟨e', he, ht'.trans ht.symm⟩
  case h_7 ht =>
    obtain ⟨a, e', rfl, he, ht'⟩ :=
      envelopAs_of_openAs h.announceConvoRound ho msgAnnounceConvoRound
    exact ⟨e', he, ht'.trans ht.symm⟩
  case h_8 ht =>
    obtain ⟨a, e', rfl, he, ht'⟩ :=
      envelopAs_of_openAs h.announceDialRound ho msgAnnounceDialRound
    exact ⟨e', he, ht'.trans ht.symm⟩
  case h_9 => cases ho

/-- **Envelopes**: opening gives back what was enveloped exactly when that is not a `DialError`,
and what opens is enveloped again with its tag. -/
theorem open_envelop_iff :
    (∀ v e, envelop json v = .ok e → (e.open json = .ok v ↔ v.isDialError = false)) ∧
    (∀ (e : Envelope) v, e.open json = .ok v →
      ∃ e', envelop json v = .ok e' ∧ e'.type = e.type) := by
  refine ⟨fun v e he => ⟨fun ho => ?_, fun hv => open_envelop h hv he⟩,
    fun e v ho => envelop_open h ho⟩
  cases v with
  | dialError v => rw [open_dialError he] at ho; cases ho
  | _ => rfl

end Json

/-! ### A codec one can run -/

/-- A string, in UTF-8. -/
def sampleUtf8 (s : String) : Bytes := s.toUTF8.data.toList

/-- The string, if the bytes are UTF-8. -/
def sampleString (b : Bytes) : Except String String :=
  match String.fromUTF8? ⟨b.toArray⟩ with
  | some s => .ok s
  | none => .error "invalid UTF-8"

theorem sampleString_utf8 (s : String) : sampleString (sampleUtf8 s) = .ok s := by
  have hs : String.fromUTF8? s.toUTF8 = some s := by
    simp only [String.fromUTF8?, Option.dite_none_right_eq_some]
    exact ⟨s.isValidUTF8, rfl⟩
  have hb : (⟨(sampleUtf8 s).toArray⟩ : ByteArray) = s.toUTF8 := by simp [sampleUtf8]
  rw [sampleString, hb, hs]

/-- The blocks of a list of them written one after another. -/
def sampleBlocks (n : Nat) (b : Bytes) : List (Block n) :=
  (List.range (b.length / n)).map fun i => Block.copy n (b.drop (i * n))

/-- A number and a rest. -/
def sampleCodec {α β : Type} (number : α → UInt32) (rest : α → β) (mk : UInt32 → β → α)
    (put : β → Bytes) (get : Bytes → Except String β) : JsonCodec α where
  marshal v := .ok (putUint32 (number v) ++ put (rest v))
  unmarshal b := (get (b.drop 4)).map (mk (uint32 b))

theorem sampleCodec_roundTrips {α β : Type} {number : α → UInt32} {rest : α → β}
    {mk : UInt32 → β → α} {put : β → Bytes} {get : Bytes → Except String β}
    (hmk : ∀ v, mk (number v) (rest v) = v) (hget : ∀ b, get (put b) = .ok b) :
    (sampleCodec number rest mk put get).RoundTrips := by
  intro v
  have hdrop : (putUint32 (number v) ++ put (rest v)).drop 4 = put (rest v) := by
    rw [List.drop_append_of_le_length (by simp), List.drop_of_length_le (by simp)]
    simp
  simp [sampleCodec, bind, Except.bind, hdrop, hget, uint32_putUint32, Except.map, hmk]

theorem sampleBlocks_flatMap {n : Nat} (hn : 0 < n) (blocks : List (Block n)) :
    sampleBlocks n (blocks.flatMap fun b => b.1) = blocks := by
  have hlen : (blocks.flatMap fun b => b.1).length = blocks.length * n := by
    rw [List.length_flatMap, List.map_congr_left fun b _ => b.2]
    simp
  rw [sampleBlocks, hlen, Nat.mul_div_cancel _ hn]
  clear hlen
  induction blocks with
  | nil => rfl
  | cons b l ih =>
      rw [List.length_cons, List.range_succ_eq_map, List.map_cons, List.map_map, List.flatMap_cons]
      congr 1
      · rw [Nat.zero_mul, List.drop_zero, Block.copy_append]
      · refine Eq.trans (List.map_congr_left fun i _ => ?_) ih
        have hi : (i + 1) * n = b.1.length + i * n := by rw [b.2, Nat.add_mul, Nat.add_comm]; simp
        rw [Function.comp_apply, hi, ← List.drop_drop, List.drop_left]

def sampleJson : Json where
  convoRequest := sampleCodec (·.round) (·.onion) .mk id .ok
  dialRequest := sampleCodec (·.round) (·.onion) .mk id .ok
  badRequestError := sampleCodec (fun _ => 0) (·.err) (fun _ => .mk) sampleUtf8 sampleString
  convoError := sampleCodec (·.round) (·.err) .mk sampleUtf8 sampleString
  convoResponse := sampleCodec (·.round) (·.onion) .mk id .ok
  dialError := sampleCodec (·.round) (·.err) .mk sampleUtf8 sampleString
  dialBucket := sampleCodec (·.round) (·.intros) .mk (fun intros => intros.flatMap fun b => b.1)
    (fun b => .ok (sampleBlocks sizeEncryptedIntro b))
  announceConvoRound := sampleCodec (·.round) (fun _ => []) (fun round _ => .mk round) id .ok
  announceDialRound := sampleCodec (·.round) (·.buckets) .mk putUint32 (fun b => .ok (uint32 b))

theorem sampleJson_roundTrips : sampleJson.RoundTrips := by
  constructor <;> apply sampleCodec_roundTrips <;> intro v
  case badRequestError.hget | convoError.hget | dialError.hget => exact sampleString_utf8 v
  case dialBucket.hget => exact congrArg Except.ok (sampleBlocks_flatMap (by decide) v)
  case announceDialRound.hget =>
    exact congrArg Except.ok (by simpa using uint32_putUint32 v [])
  all_goals rfl

/-- An announcement comes out of its envelope as it went in. -/
theorem open_envelop_iff_announce :
    ∃ e, envelop sampleJson (.announceDialRound ⟨3, 2⟩) = .ok e ∧
      e.open sampleJson = .ok (.announceDialRound ⟨3, 2⟩) :=
  ⟨⟨msgAnnounceDialRound, putUint32 3 ++ putUint32 2⟩, rfl,
    ((open_envelop_iff sampleJson_roundTrips).1 _ _ rfl).mpr rfl⟩

/-- What the entry server sends when a round of dialing failed is enveloped, and then it does not
open. -/
theorem dialError_lost :
    sampleJson.RoundTrips ∧
    ∃ e, envelop sampleJson (ClientMsg.message (.dialError 7 "server error")) = .ok e ∧
      e.open sampleJson = .error "unknown message type: 5" :=
  ⟨sampleJson_roundTrips, _, rfl, open_dialError rfl⟩

end Vuvuzela
