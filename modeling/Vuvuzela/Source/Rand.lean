import Vuvuzela.Source.Server
import Vuvuzela.Support.Monitor

/-!
# Source — the random number generator

`rand/salsa20rand.go`: a generator that hands out the key stream of Salsa20 from a buffer, and the
mutex that its callers share it behind.  `salsa20.XORKeyStream` is a parameter: some function of
the input, the nonce and the key that keeps the length.
-/

namespace Vuvuzela.Rand
open Support

/-- `salsa20.XORKeyStream`: the output for an input, a nonce and a key. -/
structure Salsa20 where
  xorKeyStream : Bytes → Bytes → Block 32 → Bytes
  length_xorKeyStream : ∀ input nonce key,
    (xorKeyStream input nonce key).length = input.length

structure Salsa20Rand where
  zeroes : Bytes
  buffer : Bytes
  bufferOffset : Int
  key : Block 32
  nonce : UInt64

/-- The size of the buffer, `n` in `NewSalsa20Rand`. -/
def bufferSize : Nat := 16 * 1024

/-- What `base.Read(sr.key[:])` leaves in the key and returns. -/
structure KeyRead where
  key : Block 32
  n : Int
  err : Option String

/-- How `NewSalsa20Rand` panics: with a text, or where it asks a `nil` error for its text. -/
inductive NoKey where
  | text (s : String)
  | nil
  deriving DecidableEq

/-- An argument of `Read`: a slice, whose length is an `int`. -/
abbrev Slice := { d : Bytes // IsInt d.length }

/-- `Read` between two turns of its loop: the part of the argument that has been filled, the
slice `d` that has not, and `n`. -/
structure Reading where
  filled : Bytes
  d : Bytes
  n : Int

/-- The argument after a call of `Read`, and what the call returns. -/
structure ReadResult where
  argument : Bytes
  n : Int
  err : Option String

variable (salsa20 : Salsa20)

/-- `fill`.  The key stream is written over the start of the buffer. -/
def Salsa20Rand.fill (sr : Salsa20Rand) : Salsa20Rand :=
  { sr with
    nonce := sr.nonce + 1
    buffer := salsa20.xorKeyStream sr.zeroes (putUint64 sr.nonce) sr.key ++
      sr.buffer.drop sr.zeroes.length
    bufferOffset := 0 }

/-- `NewSalsa20Rand`. -/
def newSalsa20Rand (base : KeyRead) : Except NoKey Salsa20Rand :=
  if base.n ≠ 32 ∨ base.err ≠ none then
    match base.err with
    | some err => .error (.text ("NewSalsa20Rand: " ++ err))
    | none => .error .nil
  else
    let sr : Salsa20Rand :=
      { zeroes := List.replicate bufferSize 0
        buffer := List.replicate bufferSize 0
        bufferOffset := bufferSize
        key := base.key
        nonce := 0 }
    .ok (sr.fill salsa20)

/-- One turn of the loop of `Salsa20Rand.Read`, or its end.  The slice of the buffer panics where
the offset is outside of it. -/
def Salsa20Rand.readTurn (sr : Salsa20Rand) (r : Reading) :
    Option (Salsa20Rand × (Reading ⊕ ReadResult)) :=
  if 0 < r.d.length then
    let sr := if sr.bufferOffset = sr.buffer.length then sr.fill salsa20 else sr
    if 0 ≤ sr.bufferOffset ∧ sr.bufferOffset ≤ sr.buffer.length then
      let src := sr.buffer.drop sr.bufferOffset.toNat
      let m := min r.d.length src.length
      some ({ sr with bufferOffset := wrapInt (sr.bufferOffset + m) },
        .inl ⟨r.filled ++ src.take m, r.d.drop m, wrapInt (r.n + m)⟩)
    else none
  else some (sr, .inr ⟨r.filled, r.n, none⟩)

/-- `Salsa20Rand.Read`. -/
def read : Operation Salsa20Rand Slice Reading ReadResult where
  enter d := ⟨[], d.1, 0⟩
  turn := Salsa20Rand.readTurn salsa20

/-- The callers of `MutexReader.Read`, over the generator that `NewSalsa20Rand` makes. -/
def mutexReader (ι : Type) [DecidableEq ι] (base : KeyRead) :
    System (Monitor.State ι Salsa20Rand Slice Reading ReadResult)
      (Monitor.Event ι Slice ReadResult) :=
  Monitor.system (read salsa20) fun sr => newSalsa20Rand salsa20 base = .ok sr

end Vuvuzela.Rand
