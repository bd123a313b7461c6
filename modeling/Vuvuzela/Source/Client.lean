import Vuvuzela.Source.Conversation

/-!
# Source — the client

`client.go`, as far as conversations go.  The goroutines that handle the messages of the entry
server share the `Client`; what each does under its mutex is one function here.  A conversation
is named by a number, as Go names it by its address.
-/

namespace Vuvuzela

/-- `Client` of `vuvuzela-client`. -/
structure UserClient where
  roundHandlers : UInt32 → Option Nat
  convoHandler : Nat

namespace UserClient

/-- `NewClient`, and the handler that is set before `Connect`. -/
def new (convo : Nat) : UserClient := ⟨fun _ => none, convo⟩

def setConvoHandler (convo : Nat) (c : UserClient) : UserClient := { c with convoHandler := convo }

/-- `nextConvoRequest` under the mutex. -/
def enterRound (round : UInt32) (c : UserClient) : UserClient :=
  { c with roundHandlers := Function.update c.roundHandlers round (some c.convoHandler) }

/-- `deliverConvoResponse` under the mutex. -/
def leaveRound (round : UInt32) (c : UserClient) : Option Nat × UserClient :=
  (c.roundHandlers round,
    { c with roundHandlers := Function.update c.roundHandlers round none })

end UserClient

end Vuvuzela
