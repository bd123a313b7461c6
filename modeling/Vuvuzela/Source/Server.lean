import Vuvuzela.Source.Pki
import Vuvuzela.Source.Shuffle
import Vuvuzela.Source.Noise
import Vuvuzela.Support.Effects
import Mathlib.Logic.Function.Basic
import Mathlib.Data.Int.Basic

/-!
# Source — a server's state

The state the two services of one server share, and the ways a remote call ends.

A handler runs on the server's state and ends with a result or a `Fault`: an error it returns, a
panic (which takes the process down), or no return at all (`blocked`, waiting for `Idle`).  The
next server in the chain is a parameter, `NextServer`: anything with a state of its own that
answers the four calls a server makes of it.
-/

namespace Vuvuzela
open Support

/-! ### How a call ends -/

/-- A Go run-time panic: an index or a slice bound out of range, a `make` of an impossible
length, a nil pointer, an unlock of a free mutex, a division by zero. -/
inductive Panic where
  | index
  | slice
  | make
  | nil
  | unlock
  | divide
  deriving DecidableEq

/-- The errors of the handlers; `remote` is an error of a server this model says nothing of. -/
inductive Err where
  | roundNotFound (round : UInt32)
  | unexpectedStatus (round : UInt32) (status expected : Nat)
  | alreadyExists (round : UInt32)
  | overflowingOnions (offset : Int) (onions : Nat) (incoming : Int)
  | notLastServer
  /-- `io.ErrUnexpectedEOF`: the connection was lost during the call. -/
  | unexpectedEOF
  /-- `rpc.ErrShutdown`: the connection was lost before the call. -/
  | shutdown
  | remote (text : String)
  /-- `fmt.Errorf("call: %s", err)`. -/
  | context (call : String) (err : Err)
  deriving DecidableEq

/-- The text of an error. -/
def Err.text : Err → String
  | .roundNotFound round => s!"round {round} not found"
  | .unexpectedStatus round status expected =>
      s!"round {round}: status {status}, expecting {expected}"
  | .alreadyExists round => s!"round {round} already exists"
  | .overflowingOnions offset onions incoming =>
      s!"overflowing onions (offset={offset}, onions={onions}, incoming={incoming})"
  | .notLastServer => "Dial.Buckets can only be called on the last server"
  | .unexpectedEOF => "unexpected EOF"
  | .shutdown => "connection is shut down"
  | .remote text => text
  | .context call err => s!"{call}: " ++ err.text

/-- How a call that has no result ends. -/
inductive Fault where
  | err (e : Err)
  | panic (p : Panic)
  | blocked
  deriving DecidableEq

/-- A program on a state `σ`. -/
abbrev Rpc (σ α : Type) := EStateM Fault σ α

/-- The caller of a remote server sees the server's panic as a connection lost during the call.  In
`RunConvoRound` and `RunDialRound` Go also names the call that was under way, as in
`Add: unexpected EOF`; here a panic passes through them without a name. -/
def Fault.remote : Fault → Fault
  | .panic _ => .err .unexpectedEOF
  | f => f

/-- `fmt.Errorf(call + ": %s", err)`. -/
def Fault.context (call : String) : Fault → Fault
  | .err e => .err (.context call e)
  | f => f

/-- A call of a remote server whose error is returned with the name of the call. -/
def calling {σ α : Type} (call : String) (x : Rpc σ α) : Rpc σ α :=
  mapFault (fun f => f.remote.context call) x

theorem calling_of_ok {σ α : Type} {call : String} {x : Rpc σ α} {s s' : σ} {a : α}
    (h : x s = .ok a s') : calling call x s = .ok a s' := mapFault_eq_ok.mpr h

theorem calling_of_error {σ α : Type} {call : String} {x : Rpc σ α} {s s' : σ} {f : Fault}
    (h : x s = .error f s') : calling call x s = .error (f.remote.context call) s' :=
  mapFault_of_error h

/-! ### Slices -/

/-- Go's `int` arithmetic, 64 bits wide. -/
def wrapInt (n : Int) : Int := n.bmod (2 ^ 64)

/-- An `int` or `int64` of Go. -/
def IsInt (n : Int) : Prop := -2 ^ 63 ≤ n ∧ n < 2 ^ 63

theorem wrapInt_of_isInt {n : Int} (h : IsInt n) : wrapInt n = n := by
  obtain ⟨hlo, hhi⟩ := h
  rw [wrapInt, Int.bmod_eq_of_le] <;> omega

theorem wrapInt_natCast {n : Nat} (h : n < 2 ^ 63) : wrapInt n = n :=
  wrapInt_of_isInt ⟨by omega, by omega⟩

/-- A wrap within a subtraction does not show. -/
theorem wrapInt_wrapInt_sub (m n : Int) : wrapInt (wrapInt m - n) = wrapInt (m - n) :=
  Int.bmod_sub_bmod

/-- `x[i] = a`; no value out of range. -/
def setAt? {α : Type} (x : List α) (i : Int) (a : α) : Option (List α) :=
  if 0 ≤ i ∧ i < x.length then some (x.set i.toNat a) else none

/-- `x[i]`. -/
def getAt {α : Type} (x : List α) (i : Int) : Except Panic α :=
  if i < 0 then .error .index
  else
    match x[i.toNat]? with
    | none => .error .index
    | some a => .ok a

/-- The largest allocation of the Go run time on a 64-bit machine. -/
def maxAlloc : Int := 2 ^ 48

/-- `make([][]byte, n)` does not panic: a slice header is 24 bytes. -/
def makeOk (n : Int) : Prop := 0 ≤ n ∧ 24 * n ≤ maxAlloc

instance (n : Int) : Decidable (makeOk n) := inferInstanceAs (Decidable (_ ∧ _))

/-! ### Rounds and servers -/

/-- `convoStatus`. -/
inductive ConvoStatus where
  | roundNew
  | roundOpen
  | roundClosed
  deriving DecidableEq

/-- The number `%v` prints. -/
def ConvoStatus.toNat : ConvoStatus → Nat
  | .roundNew => 1
  | .roundOpen => 2
  | .roundClosed => 3

/-- `ConvoRound`.  A nil entry of `incoming` or `sharedKeys` is `none`; a nil reply is empty. -/
structure ConvoRound where
  status : ConvoStatus
  numIncoming : Int
  sharedKeys : List (Option BoxKey)
  incoming : List (Option Bytes)
  incomingIndex : List Int
  replies : List Bytes
  numFakeSingles : Nat
  numFakeDoubles : Nat
  noise : List Bytes
  deriving DecidableEq

/-- The two services. -/
inductive Service where
  | convo
  | dial
  deriving DecidableEq

/-- `dialStatus`. -/
inductive DialStatus where
  | roundOpen
  | roundClosed
  deriving DecidableEq

def DialStatus.toNat : DialStatus → Nat
  | .roundOpen => 1
  | .roundClosed => 2

/-- `DialRound`. -/
structure DialRound where
  status : DialStatus
  incoming : List Bytes
  noise : List Bytes
  deriving DecidableEq

structure AccessCount where
  singles : Int
  doubles : Int
  deriving DecidableEq

/-- What `main` gives both services of a server; `dialBuckets` is `TotalDialBuckets`. -/
structure Config where
  pki : PKI
  serverName : String
  privateKey : BoxKey
  lastServer : Bool
  dialBuckets : UInt32

/-- The services `main` starts: a server is the last one when it has no next server. -/
def mainConfig (pki : PKI) (serverName : String) (privateKey : BoxKey) (dialBuckets : UInt32) :
    Config where
  pki := pki
  serverName := serverName
  privateKey := privateKey
  lastServer := pki.nextServer serverName = ""
  dialBuckets := dialBuckets

/-- The state of one server: the mutex `Idle` its services share, the rounds of each, and the
counts waiting in the channel `AccessCounts`. -/
structure Server where
  idle : Bool
  convoRounds : UInt32 → Option ConvoRound
  dialRounds : UInt32 → Option DialRound
  accessCounts : List AccessCount

/-- A server `main` just started. -/
def Server.start : Server := ⟨false, fun _ => none, fun _ => none, []⟩

/-- `Idle.Lock()`. -/
def lockIdle : Rpc Server Unit := do
  let srv ← get
  if srv.idle then throw .blocked else set { srv with idle := true }

/-- `Idle.Unlock()`. -/
def unlockIdle : Rpc Server Unit := do
  let srv ← get
  if srv.idle then set { srv with idle := false } else throw (.panic .unlock)

/-- The server with a round of the conversation service as it is now. -/
def Server.setConvo (srv : Server) (Round : UInt32) (round : ConvoRound) : Server :=
  { srv with convoRounds := Function.update srv.convoRounds Round (some round) }

/-- The server with a round of the dialing service as it is now. -/
def Server.setDial (srv : Server) (Round : UInt32) (round : DialRound) : Server :=
  { srv with dialRounds := Function.update srv.dialRounds Round (some round) }

/-- The server without a round of the conversation service. -/
def Server.dropConvo (srv : Server) (Round : UInt32) : Server :=
  { srv with convoRounds := Function.update srv.convoRounds Round none }

def putConvo (Round : UInt32) (round : ConvoRound) : Rpc Server Unit :=
  modify fun srv => srv.setConvo Round round

def putDial (Round : UInt32) (round : DialRound) : Rpc Server Unit :=
  modify fun srv => srv.setDial Round round

section Update

variable (srv : Server) (Round : UInt32)

theorem lockIdle_eq :
    lockIdle srv = if srv.idle then .error .blocked srv else .ok () { srv with idle := true } := by
  simp only [lockIdle, bind, EStateM.bind, get_eq]
  cases srv.idle <;> rfl

theorem unlockIdle_eq :
    unlockIdle srv =
      if srv.idle then .ok () { srv with idle := false } else .error (.panic .unlock) srv := by
  simp only [unlockIdle, bind, EStateM.bind, get_eq]
  cases srv.idle <;> rfl

theorem putConvo_eq (round : ConvoRound) :
    putConvo Round round srv = .ok () (srv.setConvo Round round) := rfl

theorem putDial_eq (round : DialRound) :
    putDial Round round srv = .ok () (srv.setDial Round round) := rfl

@[simp] theorem Server.setConvo_self (round : ConvoRound) :
    (srv.setConvo Round round).convoRounds Round = some round := by simp [setConvo]

theorem Server.setConvo_of_ne (round : ConvoRound) {r : UInt32} (h : r ≠ Round) :
    (srv.setConvo Round round).convoRounds r = srv.convoRounds r := by simp [setConvo, h]

@[simp] theorem Server.setConvo_idle (round : ConvoRound) :
    (srv.setConvo Round round).idle = srv.idle := rfl

@[simp] theorem Server.setConvo_dialRounds (round : ConvoRound) :
    (srv.setConvo Round round).dialRounds = srv.dialRounds := rfl

@[simp] theorem Server.setConvo_accessCounts (round : ConvoRound) :
    (srv.setConvo Round round).accessCounts = srv.accessCounts := rfl

@[simp] theorem Server.setConvo_setConvo (round round' : ConvoRound) :
    (srv.setConvo Round round).setConvo Round round' = srv.setConvo Round round' := by
  simp [setConvo]

@[simp] theorem Server.setDial_self (round : DialRound) :
    (srv.setDial Round round).dialRounds Round = some round := by simp [setDial]

theorem Server.setDial_of_ne (round : DialRound) {r : UInt32} (h : r ≠ Round) :
    (srv.setDial Round round).dialRounds r = srv.dialRounds r := by simp [setDial, h]

@[simp] theorem Server.setDial_idle (round : DialRound) :
    (srv.setDial Round round).idle = srv.idle := rfl

@[simp] theorem Server.setDial_convoRounds (round : DialRound) :
    (srv.setDial Round round).convoRounds = srv.convoRounds := rfl

@[simp] theorem Server.setDial_setDial (round round' : DialRound) :
    (srv.setDial Round round).setDial Round round' = srv.setDial Round round' := by
  simp [setDial]

end Update

/-- The calls a server makes of the next one.  `RunConvoRound` returns a slice as long as the
batch it was given. -/
structure NextServer (σ : Type) where
  newConvoRound : UInt32 → Rpc σ Unit
  runConvoRound : UInt32 → List Bytes → Rpc σ (List Bytes)
  newDialRound : UInt32 → Rpc σ Unit
  runDialRound : UInt32 → List Bytes → Rpc σ Unit
  length_replies : ∀ {round : UInt32} {onions replies : List Bytes} {t t' : σ},
    runConvoRound round onions t = .ok replies t' → replies.length = onions.length

end Vuvuzela
