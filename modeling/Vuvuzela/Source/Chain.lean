import Vuvuzela.Source.Vrpc

/-!
# Source — a chain of servers

`serverClient` is a connection to a server of this repository, whose next server is given;
`Client.next` is the next server a connection gives to the server that holds it.  `chain` puts
the servers of a list one after the other: each holds the connection to the one after it, as
`main` sets it up.
-/

namespace Vuvuzela
open Support

variable {σ : Type}

theorem length_copyAt {α : Type} (x : List α) (start : Nat) (y : List α) :
    (copyAt x start y).length = x.length := by
  simp only [copyAt, List.length_append, List.length_take, List.length_drop]
  omega

theorem length_foldl_copyAt {α β : Type} (start : β → Nat) (piece : β → List α) :
    ∀ (ps : List β) (x : List α),
      (ps.foldl (fun x p => copyAt x (start p) (piece p)) x).length = x.length
  | [], _ => rfl
  | p :: ps, x => by
      rw [List.foldl_cons, length_foldl_copyAt start piece ps, length_copyAt]

/-- `RunConvoRound` returns as many replies as it was given onions. -/
theorem length_runConvoRoundIn {spanSize : Nat} {client : Client σ} {round : UInt32}
    {onions replies : List Bytes} {t t' : σ}
    (h : runConvoRoundIn spanSize client round onions t = .ok replies t') :
    replies.length = onions.length := by
  simp only [runConvoRoundIn, bind_eq_ok, pure_eq, EStateM.Result.ok.injEq] at h
  obtain ⟨_, _, _, _, _, _, _, _, _, _, _, _, _, _, _, rfl, _⟩ := h
  exact (length_foldl_copyAt (fun p : Span × List Bytes => p.1.start)
    (fun p => p.2.take p.1.count) _ _).trans (List.length_replicate ..)

/-- The next server of the server that holds the connection. -/
def Client.next (client : Client σ) : NextServer σ where
  newConvoRound := Vuvuzela.newConvoRound client
  runConvoRound := Vuvuzela.runConvoRound client
  newDialRound := Vuvuzela.newDialRound client
  runDialRound := Vuvuzela.runDialRound client
  length_replies := length_runConvoRoundIn

/-- A server with the random draws it makes in a round, and the order in which it gets to the
calls issued together. -/
structure Station where
  cfg : Config
  convoCoins : ConvoCoins
  dialCoins : DialCoins
  shuffler : (n : Nat) → Shuffler n
  filler : Nat → Nat → UInt8
  addOrder : Schedule
  getOrder : Schedule

/-- A connection to the server `st`, whose next server is `next`. -/
def serverClient (box : NaclBox) (st : Station) (next : NextServer σ) : Client (Server × σ) where
  convoNewRound := fun round => onFst (ConvoService.newRound box st.cfg st.convoCoins round)
  convoOpen := fun args => onFst (ConvoService.open args)
  convoAdd := fun args => onFst (ConvoService.add box st.cfg args)
  convoClose := ConvoService.close st.cfg next st.shuffler
  convoGet := fun args => onFst (ConvoService.get box st.cfg st.filler args)
  convoDelete := fun round => onFst (ConvoService.delete round)
  dialNewRound := fun round => onFst (DialService.newRound box st.cfg st.dialCoins round)
  dialAdd := fun args => onFst (DialService.add box st.cfg args)
  dialClose := DialService.close st.cfg next st.shuffler
  addOrder := st.addOrder
  getOrder := st.getOrder

/-- The last server holds no connection. -/
def noServer : NextServer Unit where
  newConvoRound := fun _ => throw (.panic .nil)
  runConvoRound := fun _ _ => throw (.panic .nil)
  newDialRound := fun _ => throw (.panic .nil)
  runDialRound := fun _ _ => throw (.panic .nil)
  length_replies := by simp

/-- The states of the servers of a chain. -/
def Servers : List Station → Type
  | [] => Unit
  | _ :: stations => Server × Servers stations

/-- The servers of a list, one after the other. -/
def chain (box : NaclBox) : (stations : List Station) → NextServer (Servers stations)
  | [] => noServer
  | st :: stations => (serverClient box st (chain box stations)).next

/-- A whole round of conversations, as the entry server runs it: `NewConvoRound`, then
`RunConvoRound`. -/
def convoRound (next : NextServer σ) (round : UInt32) (onions : List Bytes) :
    Rpc σ (List Bytes) := do
  next.newConvoRound round
  next.runConvoRound round onions

/-- A whole round of dialing. -/
def dialRound (next : NextServer σ) (round : UInt32) (onions : List Bytes) : Rpc σ Unit := do
  next.newDialRound round
  next.runDialRound round onions

end Vuvuzela
