import Vuvuzela.Source.Responses

/-!
# Source — what the user of a client does

`gui.go`: the lines the user types, the conversations they open, and `Connect`.  Conversations are
numbered in the order in which they are made, as Go names them by their addresses.  The drawing of
the screen (`layout`) is left out.

A line is a list of runes.  What `Warnf` and `Printf` print is left out, except for the lines that
show what was typed or said.
-/

namespace Vuvuzela

/-! ### Lines -/

/-- `unicode.IsSpace`. -/
def isSpace (c : Char) : Bool :=
  let n := c.toNat
  (9 ≤ n ∧ n ≤ 13) ∨ n = 0x20 ∨ n = 0x85 ∨ n = 0xA0 ∨ n = 0x1680 ∨ (0x2000 ≤ n ∧ n ≤ 0x200a) ∨
    n = 0x2028 ∨ n = 0x2029 ∨ n = 0x202f ∨ n = 0x205f ∨ n = 0x3000

/-- `strings.TrimSpace`. -/
def trimSpace (line : List Char) : List Char := (line.dropWhile isSpace).rdropWhile isSpace

/-- The cases of the `switch` of `handleLine`. -/
inductive GuiLine where
  | quit
  | talk (peer : String)
  | dial (peer : String)
  | text (msg : Bytes)
  deriving DecidableEq

/-- The case a line belongs to.  `readLine` hands no empty line on. -/
def GuiLine.parse (line : List Char) : GuiLine :=
  if line = "/quit".toList then .quit
  else if "/talk ".toList.isPrefixOf line then .talk (String.ofList (line.drop 6))
  else if "/dial ".toList.isPrefixOf line then .dial (String.ofList (line.drop 6))
  else .text (String.ofList (trimSpace line)).toUTF8.toList

/-! ### The client -/

/-- `gc.client`: nil, a `Client` that has no handler of conversations yet, or one that has. -/
inductive GuiNet where
  | absent
  | bare
  | ready (client : UserClient)

/-- `SetConvoHandler`. -/
def GuiNet.setConvoHandler (convo : Nat) : GuiNet → GuiNet
  | .absent => .absent
  | .bare => .ready (.new convo)
  | .ready client => .ready (client.setConvoHandler convo)

/-- `GuiClient`.  `made` conversations have been made; `peerName` is the field of a conversation. -/
structure GuiClient where
  pki : PKI
  myName : String
  myPublicKey : BoxKey
  myPrivateKey : BoxKey
  client : GuiNet
  selectedConvo : Option Nat
  conversations : String → Option Nat
  made : Nat
  convos : Nat → Conversation
  peerName : Nat → String
  dialer : Dialer

namespace GuiClient

/-- `pki.People[name]`. -/
def person (gc : GuiClient) (name : String) : Option BoxKey := gc.pki.people.lookup name

/-- `switchConversation`, up to the call of `activateConvo` with the conversation it returns.  No
value is an unknown user. -/
def switchConversation (peer : String) (gc : GuiClient) : Option (Nat × GuiClient) :=
  match gc.conversations peer with
  | some convo => some (convo, { gc with selectedConvo := some convo })
  | none =>
      match gc.person peer with
      | none => none
      | some peerPublicKey =>
          let convo := gc.made
          some (convo, { gc with
            made := gc.made + 1
            convos := Function.update gc.convos convo
              (.init gc.pki peerPublicKey gc.myPublicKey gc.myPrivateKey)
            peerName := Function.update gc.peerName convo peer
            conversations := Function.update gc.conversations peer (some convo)
            selectedConvo := some convo })

/-- What `activateConvo` does under the lock of the conversation. -/
def resetStatus (convo : Nat) (gc : GuiClient) : GuiClient :=
  { gc with
    convos := Function.update gc.convos convo
      { gc.convos convo with lastPeerResponding := false, lastLatency := 0 } }

/-- A `GuiClient` as `main` makes it. -/
def new (pki : PKI) (myName : String) (myPublicKey myPrivateKey : BoxKey) : GuiClient where
  pki := pki
  myName := myName
  myPublicKey := myPublicKey
  myPrivateKey := myPrivateKey
  client := .absent
  selectedConvo := none
  conversations := fun _ => none
  made := 0
  convos := fun _ => .init pki myPublicKey myPublicKey myPrivateKey
  peerName := fun _ => ""
  dialer := .init pki myPublicKey myPrivateKey

/-- `Run`, up to the main loop: the conversation with oneself.  There is no client yet, so
`activateConvo` does nothing. -/
def run (gc : GuiClient) : GuiClient :=
  match gc.switchConversation gc.myName with
  | none => gc
  | some (_, gc) => gc

end GuiClient

end Vuvuzela
