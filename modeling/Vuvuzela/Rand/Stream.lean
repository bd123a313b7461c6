import Vuvuzela.Source.Rand
import Mathlib.Data.List.Nodup

/-!
# Rand — the random stream

What the callers of a generator get, in any interleaving of their calls.  A fill writes the key
stream of the next nonce, and the loop of `Read` hands the buffer out to its end before it fills it
again.  So what was handed out, with what is left in the buffer, is what the fills have written
(`HandedOut`).  A turn of the loop keeps this and copies at least one byte, which makes it a
contract of `Read`; the mutex then gives it for every interleaving (`reads_follow_stream`).
-/

namespace Vuvuzela.Rand
open Support

/-- What `fill` writes with a nonce. -/
def fillBlock (salsa20 : Salsa20) (key : Block 32) (nonce : UInt64) : Bytes :=
  salsa20.xorKeyStream (List.replicate bufferSize 0) (putUint64 nonce) key

/-- The nonces of the first fills. -/
def nonces (fills : Nat) : List UInt64 := (List.range fills).map UInt64.ofNat

/-- What the first fills write. -/
def stream (salsa20 : Salsa20) (key : Block 32) (fills : Nat) : Bytes :=
  (nonces fills).flatMap (fillBlock salsa20 key)

/-- What the calls of `Read` have left in their arguments. -/
def output (done : List (Slice × ReadResult)) : Bytes :=
  (done.map fun c => c.2.argument).flatten

variable {salsa20 : Salsa20} {key : Block 32} {sr : Salsa20Rand} {handed : Bytes}

/-- No nonce is used twice, up to `2^64` fills. -/
theorem nonces_nodup {fills : Nat} (h : fills ≤ 2 ^ 64) : (nonces fills).Nodup := by
  refine List.Nodup.map_on ?_ List.nodup_range
  intro i hi j hj heq
  rw [List.mem_range] at hi hj
  have hnat := congrArg UInt64.toNat heq
  rwa [UInt64.toNat_ofNat_of_lt' (by exact hi.trans_le h),
    UInt64.toNat_ofNat_of_lt' (by exact hj.trans_le h)] at hnat

theorem length_fillBlock (nonce : UInt64) :
    (fillBlock salsa20 key nonce).length = bufferSize := by
  rw [fillBlock, salsa20.length_xorKeyStream, List.length_replicate]

theorem stream_succ (fills : Nat) : stream salsa20 key (fills + 1) =
    stream salsa20 key fills ++ fillBlock salsa20 key (UInt64.ofNat fills) := by
  simp [stream, nonces, List.range_succ]

/-! ### One turn -/

/-- What was handed out and what is left in the buffer are what the fills have written. -/
structure HandedOut (salsa20 : Salsa20) (key : Block 32) (sr : Salsa20Rand) (handed : Bytes) :
    Prop where
  zeroes : sr.zeroes = List.replicate bufferSize 0
  length : sr.buffer.length = bufferSize
  offset : 0 ≤ sr.bufferOffset ∧ sr.bufferOffset ≤ bufferSize
  sameKey : sr.key = key
  written : ∃ fills, sr.nonce = UInt64.ofNat fills ∧
    handed ++ sr.buffer.drop sr.bufferOffset.toNat = stream salsa20 key fills

theorem Salsa20Rand.buffer_fill (salsa20 : Salsa20)
    (hzeroes : sr.zeroes = List.replicate bufferSize 0)
    (hlength : sr.buffer.length = bufferSize) :
    (sr.fill salsa20).buffer = fillBlock salsa20 sr.key sr.nonce := by
  rw [fill, hzeroes, List.length_replicate, ← hlength, List.drop_length, List.append_nil, hlength,
    fillBlock]

theorem HandedOut.fill (hout : HandedOut salsa20 key sr handed)
    (hend : sr.bufferOffset = sr.buffer.length) :
    HandedOut salsa20 key (sr.fill salsa20) handed := by
  have hbuffer := Salsa20Rand.buffer_fill salsa20 hout.zeroes hout.length
  obtain ⟨fills, hnonce, hstream⟩ := hout.written
  refine ⟨hout.zeroes, ?_, ⟨le_refl 0, by simp [Salsa20Rand.fill]⟩, hout.sameKey, fills + 1, ?_, ?_⟩
  · rw [hbuffer, length_fillBlock]
  · rw [Salsa20Rand.fill, hnonce]
    simp
  · rw [hend, Int.toNat_natCast, List.drop_length, List.append_nil] at hstream
    rw [hbuffer, stream_succ, hstream, hout.sameKey, hnonce]
    rfl

theorem HandedOut.copy (hout : HandedOut salsa20 key sr handed) {m : Nat}
    (hm : m ≤ (sr.buffer.drop sr.bufferOffset.toNat).length) :
    HandedOut salsa20 key { sr with bufferOffset := wrapInt (sr.bufferOffset + m) }
      (handed ++ (sr.buffer.drop sr.bufferOffset.toNat).take m) := by
  obtain ⟨hlo, hhi⟩ := hout.offset
  obtain ⟨fills, hnonce, hstream⟩ := hout.written
  have hlength := hout.length
  have hsum : sr.bufferOffset + m ≤ bufferSize := by
    rw [List.length_drop] at hm
    omega
  have hwrap : wrapInt (sr.bufferOffset + m) = sr.bufferOffset + m :=
    wrapInt_of_isInt ⟨by omega, by simp only [bufferSize] at hsum; omega⟩
  have hdrop : (sr.bufferOffset + m).toNat = sr.bufferOffset.toNat + m := by omega
  refine ⟨hout.zeroes, hout.length, ?_, hout.sameKey, fills, hnonce, ?_⟩
  · rw [hwrap]
    exact ⟨Int.add_nonneg hlo (Int.natCast_nonneg m), hsum⟩
  · rw [hwrap, hdrop, ← List.drop_drop, List.append_assoc, List.take_append_drop, hstream]

theorem HandedOut.new {base : KeyRead} (hnew : newSalsa20Rand salsa20 base = .ok sr) :
    HandedOut salsa20 base.key sr [] := by
  rw [newSalsa20Rand] at hnew
  split at hnew
  · split at hnew <;> cases hnew
  · cases hnew
    refine HandedOut.fill ⟨rfl, List.length_replicate, ⟨?_, ?_⟩, rfl, 0, rfl, ?_⟩ ?_
    · exact Int.natCast_nonneg _
    · exact le_refl _
    · simp [stream, nonces]
    · simp

/-- A turn of the loop hands out some bytes. -/
theorem HandedOut.turn (hout : HandedOut salsa20 key sr handed) {r : Reading}
    (hd : 0 < r.d.length) :
    ∃ sr' bytes, sr.readTurn salsa20 r = some (sr', .inl ⟨r.filled ++ bytes,
        r.d.drop bytes.length, wrapInt (r.n + bytes.length)⟩) ∧
      0 < bytes.length ∧ bytes.length ≤ r.d.length ∧
      HandedOut salsa20 key sr' (handed ++ bytes) := by
  -- after the refill there is something left in the buffer
  obtain ⟨sr₁, hsr₁, hout₁, hlt⟩ : ∃ sr₁, (if sr.bufferOffset = sr.buffer.length then
      sr.fill salsa20 else sr) = sr₁ ∧ HandedOut salsa20 key sr₁ handed ∧
        sr₁.bufferOffset < sr₁.buffer.length := by
    by_cases hend : sr.bufferOffset = sr.buffer.length
    · have hfill := hout.fill hend
      refine ⟨_, if_pos hend, hfill, ?_⟩
      rw [hfill.length]
      exact (by decide : (0 : Int) < bufferSize)
    · have hle := hout.offset.2
      rw [← hout.length] at hle
      exact ⟨sr, if_neg hend, hout, by omega⟩
  have hlo := hout₁.offset.1
  have hleft : 0 < (sr₁.buffer.drop sr₁.bufferOffset.toNat).length := by
    rw [List.length_drop]
    omega
  have hlength : ((sr₁.buffer.drop sr₁.bufferOffset.toNat).take
      (min r.d.length (sr₁.buffer.drop sr₁.bufferOffset.toNat).length)).length =
        min r.d.length (sr₁.buffer.drop sr₁.bufferOffset.toNat).length :=
    List.length_take_of_le (Nat.min_le_right ..)
  refine ⟨_, _, ?_, ?_, ?_, hout₁.copy (Nat.min_le_right r.d.length _)⟩
  · simp only [Salsa20Rand.readTurn, if_pos hd, hsr₁, if_pos (And.intro hlo hlt.le), hlength]
  · omega
  · omega

theorem Salsa20Rand.readTurn_of_nil {r : Reading} (hd : ¬ 0 < r.d.length) :
    sr.readTurn salsa20 r = some (sr, .inr ⟨r.filled, r.n, none⟩) :=
  if_neg hd

/-! ### A call -/

/-- The call filled its argument, and returned its length and no error. -/
def Filled (c : Slice × ReadResult) : Prop :=
  c.2.argument.length = c.1.1.length ∧ c.2.n = c.1.1.length ∧ c.2.err = none

/-- `Read` between two turns of its loop, after the calls in `done`. -/
structure Filling (salsa20 : Salsa20) (key : Block 32) (done : List (Slice × ReadResult))
    (d : Slice) (sr : Salsa20Rand) (r : Reading) : Prop where
  handed : HandedOut salsa20 key sr (output done ++ r.filled)
  before : ∀ c ∈ done, Filled c
  length : r.filled.length + r.d.length = d.1.length
  count : r.n = r.filled.length

section Turns

variable {done : List (Slice × ReadResult)} {d : Slice} {sr' : Salsa20Rand} {r : Reading}

theorem Filling.turn {r' : Reading} (hfilling : Filling salsa20 key done d sr r)
    (hturn : sr.readTurn salsa20 r = some (sr', .inl r')) :
    Filling salsa20 key done d sr' r' ∧ r'.d.length < r.d.length := by
  by_cases hd : 0 < r.d.length
  · obtain ⟨sr₁, bytes, heq, hpos, hle, hout⟩ := hfilling.handed.turn hd
    cases heq.symm.trans hturn
    have hlength := hfilling.length
    have hcount : wrapInt (r.n + bytes.length) = (r.filled ++ bytes).length := by
      have hint := d.2.2
      rw [hfilling.count, ← Int.natCast_add, ← List.length_append]
      exact wrapInt_natCast (by rw [List.length_append]; omega)
    refine ⟨⟨List.append_assoc _ _ _ ▸ hout, hfilling.before, ?_, hcount⟩, ?_⟩
    · rw [List.length_append, List.length_drop]
      omega
    · rw [List.length_drop]
      omega
  · cases (Salsa20Rand.readTurn_of_nil hd).symm.trans hturn

theorem Filling.ended {result : ReadResult} (hfilling : Filling salsa20 key done d sr r)
    (hturn : sr.readTurn salsa20 r = some (sr', .inr result)) :
    HandedOut salsa20 key sr' (output (done ++ [(d, result)])) ∧
      ∀ c ∈ done ++ [(d, result)], Filled c := by
  by_cases hd : 0 < r.d.length
  · obtain ⟨sr₁, bytes, heq, -⟩ := hfilling.handed.turn hd
    cases heq.symm.trans hturn
  · cases (Salsa20Rand.readTurn_of_nil hd).symm.trans hturn
    have hlength : r.filled.length = d.1.length := by
      have hsum := hfilling.length
      omega
    refine ⟨by simpa [output] using hfilling.handed, ?_⟩
    rw [List.forall_mem_append]
    refine ⟨hfilling.before, ?_⟩
    rw [List.forall_mem_singleton]
    exact ⟨hlength, by rw [hfilling.count, hlength], rfl⟩

theorem Filling.turns (hfilling : Filling salsa20 key done d sr r) :
    ∃ y, sr.readTurn salsa20 r = some y := by
  by_cases hd : 0 < r.d.length
  · obtain ⟨sr', bytes, heq, -⟩ := hfilling.handed.turn hd
    exact ⟨_, heq⟩
  · exact ⟨_, Salsa20Rand.readTurn_of_nil hd⟩

end Turns

/-- What `Read` keeps. -/
def readContract (salsa20 : Salsa20) (base : KeyRead) :
    Monitor.Contract (read salsa20) fun sr => newSalsa20Rand salsa20 base = .ok sr where
  Between done sr := HandedOut salsa20 base.key sr (output done) ∧ ∀ c ∈ done, Filled c
  During := Filling salsa20 base.key
  rank r := r.d.length
  between_start hnew := ⟨HandedOut.new hnew, by simp⟩
  during_enter d hbetween :=
    ⟨by simpa [read] using hbetween.1, hbetween.2, by simp [read], by simp [read]⟩
  during_turn := Filling.turn
  between_end := Filling.ended
  turns := Filling.turns

/-! ### Every interleaving -/

variable {ι : Type} [DecidableEq ι] {base : KeyRead} {h : List (Monitor.Event ι Slice ReadResult)}
  {s : Monitor.State ι Salsa20Rand Slice Reading ReadResult}

/-- Whether or not a call is in progress, what the calls before it have left in their arguments
is the start of what was handed out. -/
theorem handedOut_of_run (run : (mutexReader salsa20 ι base).Run System.Any h s) :
    (∃ more, HandedOut salsa20 base.key s.shared (output (Monitor.served h) ++ more)) ∧
      (∀ c ∈ Monitor.served h, Filled c) ∧ Monitor.enders h <+: Monitor.lockers h := by
  have hsound := (readContract salsa20 base).sound run
  by_cases hfree : s.Free
  · obtain ⟨horder, hout, hfilled⟩ := hsound.between hfree
    exact ⟨⟨[], by rwa [List.append_nil]⟩, hfilled, horder ▸ List.prefix_refl _⟩
  · simp only [Monitor.State.Free, not_forall, not_not] at hfree
    obtain ⟨i, d, r, hplace⟩ := hfree
    obtain ⟨horder, hfilling⟩ := hsound.during hplace
    exact ⟨⟨_, hfilling.handed⟩, hfilling.before, horder ▸ List.prefix_append ..⟩

/-- **The random stream does not depend on how it is read.**  In every interleaving of calls of
`Read`, each call fills its argument and returns its length without an error.  The calls are
served in the order in which they got the mutex, and what they leave in their arguments, one after
the other, is the start of what the fills with the nonces `0`, `1`, … write.  No nonce is used
twice up to `2^64` fills.  Every call in progress can be brought to its return. -/
theorem reads_follow_stream (run : (mutexReader salsa20 ι base).Run System.Any h s) :
    (∀ c ∈ Monitor.served h, c.2.argument.length = c.1.1.length ∧ c.2.n = c.1.1.length ∧
      c.2.err = none) ∧
      (∃ fills, s.shared.nonce = UInt64.ofNat fills ∧
        ((Monitor.served h).map fun c => c.2.argument).flatten <+: stream salsa20 base.key fills ∧
        (fills ≤ 2 ^ 64 → (nonces fills).Nodup)) ∧
      (0 ≤ s.shared.bufferOffset ∧ s.shared.bufferOffset ≤ s.shared.buffer.length) ∧
      Monitor.enders h <+: Monitor.lockers h ∧
      (∀ i, Monitor.Trail h s i) ∧
      ∀ i, s.places i ≠ .idle →
        ∃ h' s' r, (mutexReader salsa20 ι base).Run System.Any (h ++ h') s' ∧
          .returned i r ∈ h' := by
  obtain ⟨⟨more, hout⟩, hfilled, horder⟩ := handedOut_of_run run
  obtain ⟨fills, hnonce, hwritten⟩ := hout.written
  refine ⟨hfilled, ⟨fills, hnonce, ?_, nonces_nodup⟩, ?_, horder, Monitor.trail_of_run run,
    fun i hbusy => (readContract salsa20 base).returns run hbusy⟩
  · rw [← hwritten, List.append_assoc]
    exact List.prefix_append _ _
  · rw [hout.length]
    exact hout.offset

/-- The byte of every place of a key stream is the last byte of its nonce and one. -/
def sampleSalsa20 : Salsa20 :=
  ⟨fun input nonce _ => input.map (· ^^^ (nonce.getLastD 0 + 1)), fun _ _ _ => List.length_map ..⟩

/-- A key that was read well. -/
def sampleKeyRead : KeyRead := ⟨Block.zero 32, 32, none⟩

/-- A slice of a size that takes two fills. -/
def sampleSlice : Slice :=
  ⟨List.replicate 20000 0, by rw [List.length_replicate]; exact ⟨by decide, by decide⟩⟩

/-- The two fills of the sample. -/
theorem stream_sample : stream sampleSalsa20 sampleKeyRead.key 2 =
    List.replicate bufferSize 1 ++ List.replicate bufferSize 2 := by
  rw [stream_succ, stream_succ]
  simp only [fillBlock, sampleSalsa20, List.map_replicate]
  rfl

theorem length_stream (fills : Nat) : (stream salsa20 key fills).length = fills * bufferSize := by
  induction fills with
  | zero => rw [Nat.zero_mul]; rfl
  | succ n ih => rw [stream_succ, List.length_append, ih, length_fillBlock, Nat.succ_mul]

theorem stream_mono {fills fills' : Nat} (h : fills ≤ fills') :
    stream salsa20 key fills <+: stream salsa20 key fills' := by
  induction fills', h using Nat.le_induction with
  | base => exact List.prefix_refl _
  | succ n _ ih =>
      rw [stream_succ]
      exact ih.trans (List.prefix_append _ _)

/-- A call that takes two fills ends, while another waits for the mutex: its argument starts with
the stream of the first nonce and goes on with that of the second. -/
theorem reads_follow_stream_sample :
    ∃ h s r, (mutexReader sampleSalsa20 Bool sampleKeyRead).Run System.Any h s ∧
      .called false sampleSlice ∈ h ∧ Monitor.served h = [(sampleSlice, r)] ∧
      r.argument[0]? = some 1 ∧ r.argument[bufferSize]? = some 2 ∧ r.n = 20000 := by
  obtain ⟨sr, hsr⟩ : ∃ sr, newSalsa20Rand sampleSalsa20 sampleKeyRead = .ok sr :=
    ⟨_, if_neg (by decide)⟩
  have run₀ : (mutexReader sampleSalsa20 Bool sampleKeyRead).Run System.Any []
      ⟨sr, none, fun _ => .idle⟩ := .init ⟨hsr, rfl, fun _ => rfl⟩
  have run₁ := run₀.step trivial (Monitor.Step.called (i := true) (a := sampleSlice) rfl)
  have run₂ := run₁.step trivial (Monitor.Step.called (i := false) (a := sampleSlice) rfl)
  have run₃ := run₂.step trivial (Monitor.Step.locked (i := true) (a := sampleSlice) rfl rfl)
  obtain ⟨h', s', r, run, -, hserved, -⟩ :=
    (readContract sampleSalsa20 sampleKeyRead).finishes run₃ Monitor.State.put_self
  obtain ⟨hfilled, ⟨fills, -, hstream, -⟩, -⟩ := reads_follow_stream run
  have hserved : Monitor.served _ = [(sampleSlice, r)] := hserved
  refine ⟨_, s', r, run, List.mem_append_left _ (by simp), hserved, ?_⟩
  rw [hserved] at hfilled hstream
  obtain ⟨hlength, hn, -⟩ := hfilled _ (List.mem_singleton_self _)
  have hstart : r.argument <+: stream sampleSalsa20 sampleKeyRead.key fills := by
    simpa using hstream
  -- two fills at least, and the argument goes as far into the second
  have hsize : sampleSlice.1.length = 20000 := List.length_replicate
  have hfills : 2 ≤ fills := by
    have hle := hstart.length_le
    rw [hlength, hsize, length_stream, bufferSize] at hle
    omega
  have hget : ∀ i < 20000, r.argument[i]? = (stream sampleSalsa20 sampleKeyRead.key 2)[i]? := by
    intro i hi
    have hi' : i < r.argument.length := by rwa [hlength, hsize]
    have hlt : i < (stream sampleSalsa20 sampleKeyRead.key 2).length := by
      rw [length_stream, bufferSize]
      omega
    have htwo : stream sampleSalsa20 sampleKeyRead.key 2 <+:
        stream sampleSalsa20 sampleKeyRead.key fills := stream_mono hfills
    rw [List.getElem?_eq_getElem hi', List.getElem?_eq_getElem hlt, hstart.getElem hi',
      htwo.getElem hlt]
  rw [stream_sample] at hget
  refine ⟨?_, ?_, hn.trans (congrArg Nat.cast hsize)⟩
  · rw [hget 0 (by decide), List.getElem?_append_left (by rw [List.length_replicate]; decide),
      List.getElem?_replicate, if_pos (by decide)]
  · rw [hget bufferSize (by decide), List.getElem?_append_right (by rw [List.length_replicate]),
      List.length_replicate, Nat.sub_self, List.getElem?_replicate, if_pos (by decide)]

end Vuvuzela.Rand
