import Vuvuzela.Convo.Handlers
import Vuvuzela.Support.Relational

/-!
# Convo — what a handler sees of a server

A handler of the conversation service reads and writes the round it is called for, and `NewRound`
and `Close` also `Idle`.  Of the rest of the server it sees nothing: from two servers that have the
round in common it ends alike, and leaves them with the round in common (`SameRound`).  `Close`
also writes the access counts, which no handler reads.
-/

namespace Vuvuzela
open Support

/-- Servers with one round in common, and `Idle` in a relation. -/
structure SameRound (Round : UInt32) (I : Bool → Bool → Prop) (a b : Server) : Prop where
  round : a.convoRounds Round = b.convoRounds Round
  idle : I a.idle b.idle

section Local

variable {σ : Type} {Round : UInt32} {I : Bool → Bool → Prop}

theorem SameRound.setConvo {a b : Server} (h : SameRound Round I a b) (round : ConvoRound) :
    SameRound Round I (a.setConvo Round round) (b.setConvo Round round) :=
  ⟨by rw [Server.setConvo_self, Server.setConvo_self], h.idle⟩

theorem putConvo_local (round : ConvoRound) :
    Simulates (SameRound Round I) (putConvo Round round) (putConvo Round round) :=
  .change fun _ _ h => h.setConvo round

theorem unlockIdle_local : Simulates (SameRound Round Eq) unlockIdle unlockIdle := by
  intro a b h
  rw [unlockIdle_eq, unlockIdle_eq, h.idle]
  split
  · exact .ok ⟨h.round, rfl⟩
  · exact .error h

namespace ConvoService

theorem getRound_local (status : ConvoStatus) :
    Simulates (SameRound Round I) (getRound Round status) (getRound Round status) := by
  intro a b h
  rw [getRound_eq, getRound_eq, h.round]
  cases b.convoRounds Round with
  | none => exact .error h
  | some r =>
      simp only []
      split
      · exact .ok h
      · exact .error h

/-! ### Handlers that leave `Idle` alone -/

theorem open_local (args : ConvoOpenArgs) :
    Simulates (SameRound args.round I) (ConvoService.open args) (ConvoService.open args) :=
  .bind (getRound_local _) fun _ => .ite (putConvo_local _) (.fail _)

theorem add_local (box : NaclBox) (cfg : Config) (args : ConvoAddArgs) :
    Simulates (SameRound args.round I) (add box cfg args) (add box cfg args) := by
  refine .bind (getRound_local _) fun round => .ite (.fail _) ?_
  split
  · exact .fail _
  · exact putConvo_local _

theorem get_local (box : NaclBox) (cfg : Config) (filler : Nat → Nat → UInt8)
    (args : ConvoGetArgs) :
    Simulates (SameRound args.round I) (ConvoService.get box cfg filler args)
      (ConvoService.get box cfg filler args) := by
  refine .bind (getRound_local _) fun round => .ite ?_ (.fail _)
  dsimp only
  split
  · exact .fail _
  · exact .result _

theorem delete_local :
    Simulates (SameRound Round I) (ConvoService.delete Round) (ConvoService.delete Round) :=
  .change fun _ _ h => ⟨by simp, h.idle⟩

/-! ### Handlers that take and give back `Idle` -/

theorem newRound_local (box : NaclBox) (cfg : Config) (coins : ConvoCoins) :
    Simulates (SameRound Round Eq) (newRound box cfg coins Round)
      (newRound box cfg coins Round) := by
  intro a b h
  have hlocked : SameRound Round Eq { a with idle := true } { b with idle := true } :=
    ⟨h.round, rfl⟩
  rw [newRound_eq, newRound_eq, h.idle, h.round]
  split
  · exact .error h
  · split
    · exact .error hlocked
    · exact .ok (hlocked.setConvo _)

theorem closeLast_local (round : ConvoRound) (messages : List Bytes) :
    Simulates (SameRound Round Eq) (closeLast Round round messages)
      (closeLast Round round messages) := by
  refine .bind unlockIdle_local fun _ => .bind (.change fun _ _ h => ?_) fun _ => putConvo_local _
  exact ⟨h.round, h.idle⟩

theorem closeForward_local (next : NextServer σ) (shuffler : (n : Nat) → Shuffler n)
    (round : ConvoRound) (capacity : Nat) (messages : List Bytes) :
    Simulates (Beside (SameRound Round Eq))
      (closeForward next shuffler Round round capacity messages)
      (closeForward next shuffler Round round capacity messages) := by
  rw [closeForward]
  split
  · exact .fail _
  · refine .bind (putConvo_local _).onFst fun _ => .bind (.onSnd _) fun _ =>
      .bind unlockIdle_local.onFst fun _ => .bind (.onSnd _) fun replies => ?_
    split
    · exact .fail _
    · exact .ite (.fail _) (putConvo_local _).onFst

theorem close_local (cfg : Config) (next : NextServer σ) (shuffler : (n : Nat) → Shuffler n) :
    Simulates (Beside (SameRound Round Eq)) (close cfg next shuffler Round)
      (close cfg next shuffler Round) := by
  refine .bind (getRound_local _).onFst fun round => ?_
  split
  · exact .fail _
  · exact .ite (closeLast_local _ _).onFst (closeForward_local next shuffler _ _ _)

/-- `Close` of a round that is not open does not come to `Idle`. -/
theorem close_refused_local (cfg : Config) (next : NextServer σ)
    (shuffler : (n : Nat) → Shuffler n) {a b : Server} (h : SameRound Round I a b)
    (hs : ∀ round, a.convoRounds Round = some round → round.status ≠ .roundOpen) (t : σ) :
    Alike (Beside (SameRound Round I)) (close cfg next shuffler Round (a, t))
      (close cfg next shuffler Round (b, t)) := by
  rw [close_eq, close_eq]
  have hget := getRound_local .roundOpen h
  generalize ha : getRound Round .roundOpen a = ra at hget
  generalize getRound Round .roundOpen b = rb at hget
  cases hget with
  | ok h' =>
      obtain ⟨-, hround, hopen⟩ := getRound_eq_ok.mp ha
      exact absurd hopen (hs _ hround)
  | error h' => exact .error ⟨h', rfl⟩

end ConvoService

end Local

end Vuvuzela
