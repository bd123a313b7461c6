import Vuvuzela.Client.Texts
import Vuvuzela.Chain.Sizes

/-!
# Client — what the entry server sees of a client

The entry server sees the requests of a client: which service they are for, which round, and how
long the onion is.  What it sees is fixed by what it sent (`traffic_fixed`): one request for each
round it announced, whatever the user types, whomever they talk to or dial, and whatever the
conversations hold.  Nor can the user hold a request up: the main loop may wait for a full queue,
and the requests are still sent (`requests_sent`).
-/

namespace Vuvuzela
open Support

variable {box : NaclBox} {hmac : Hmac} {json : Json}

/-- What shows of a request. -/
structure Shape where
  service : Service
  round : UInt32
  size : Nat

/-- What shows of a message of a client. -/
def Message.shape : Message → Option Shape
  | .convoRequest v => some ⟨.convo, v.round, v.onion.length⟩
  | .dialRequest v => some ⟨.dial, v.round, v.onion.length⟩
  | _ => none

/-- The size of an onion for `n` servers around `size` bytes. -/
def onionSize (n size : Nat) : Nat := size + n * Onionbox.overhead

/-- What a message of the entry server asks for, from a client of a system with `n` servers. -/
def Message.due (n : Nat) : Message → Option Shape
  | .announceConvoRound v => some ⟨.convo, v.round, onionSize n sizeConvoExchange⟩
  | .announceDialRound v => some ⟨.dial, v.round, onionSize n sizeDialExchange⟩
  | _ => none

/-- What a step of the entry server asks for. -/
def GuiEvent.due (json : Json) (n : Nat) : GuiEvent → Option Shape
  | .received e => (e.open json).toOption.bind (Message.due n)
  | _ => none

/-- What shows of a request that is sent, or would be, were the connection not closed. -/
def GuiEvent.done : GuiEvent → Option Shape
  | .sent v | .unsent v => v.shape
  | _ => none

/-- What a goroutine still has to send. -/
def Task.due (n : Nat) : Task → Option Shape
  | .start v => v.due n
  | .asking round => some ⟨.convo, round, onionSize n sizeConvoExchange⟩
  | .sending v => v.shape
  | .delivering _ _ => none

theorem due_replace (n : Nat) (before after : List Task) (t : Task) :
    ((before ++ t :: after).filterMap (Task.due n)).Perm
      ((t.due n).toList ++ (before ++ after).filterMap (Task.due n)) := by
  rw [List.filterMap_append, List.filterMap_append, List.filterMap_cons]
  cases t.due n with
  | none => exact .refl _
  | some shape => exact List.perm_middle

/-- The request of a round of dialing has the size of all such requests. -/
theorem Dialer.shape_nextDialRequest (hbox : box.Sized) {d d' : Dialer} {coins : DialRequestCoins}
    {round buckets : UInt32} {request : DialRequest}
    (h : d.nextDialRequest box coins round buckets = some (request, d')) :
    (Message.dialRequest request).shape =
      some ⟨.dial, round, onionSize d.pki.serverOrder.length sizeDialExchange⟩ := by
  rw [nextDialRequest] at h
  obtain ⟨⟨ex, d''⟩, -, h⟩ := Option.bind_eq_some_iff.mp h
  cases h
  rw [Message.shape, d.pki.length_request hbox (DialExchange.length_marshal ex)]
  rfl

theorem Conversation.shape_nextConvoRequest (hbox : box.Sized) (c : Conversation)
    (coins : RequestCoins) (now : Time) (round : UInt32) :
    (Message.convoRequest (c.nextConvoRequest box hmac coins now round).1).shape =
      some ⟨.convo, round, onionSize c.pki.serverOrder.length sizeConvoExchange⟩ := by
  rw [Message.shape, c.length_nextConvoRequest hbox]
  rfl

section Step

variable {s s' : GuiState} {ev : GuiEvent}

/-- A step makes due what it is asked for, and does what is due. -/
theorem GuiStep.due (hbox : box.Sized) (hs : s.gc.Sane) (h : GuiStep box hmac json s ev s')
    {n : Nat} (hn : s.gc.pki.serverOrder.length = n) :
    (s.pool.filterMap (Task.due n) ++ (ev.due json n).toList).Perm
      (ev.done.toList ++ s'.pool.filterMap (Task.due n)) := by
  -- a goroutine ends, and with it what was due
  have drop : ∀ {before after : List Task} {t : Task}, s.pool = before ++ t :: after →
      (s.pool.filterMap (Task.due n) ++ []).Perm
        ((t.due n).toList ++ (before ++ after).filterMap (Task.due n)) := by
    intro before after t hpool
    rw [hpool, List.append_nil]
    exact due_replace ..
  -- a goroutine goes on, and what was due stays
  have replace : ∀ {before after : List Task} {t t' : Task}, s.pool = before ++ t :: after →
      t'.due n = t.due n →
      (s.pool.filterMap (Task.due n) ++ []).Perm
        ((before ++ t' :: after).filterMap (Task.due n)) := by
    intro before after t t' hpool hdue
    refine (drop hpool).trans ?_
    rw [← hdue]
    exact (due_replace ..).symm
  cases h with
  | @receive e v _ h =>
      have hdue : (GuiEvent.received e).due json n = v.due n := by
        rw [GuiEvent.due, h]
        rfl
      rw [hdue]
      simp only [GuiEvent.done, Option.toList_none, List.nil_append]
      rw [filterMap_concat]
      exact .refl _
  | @refuse e err _ h =>
      have hdue : (GuiEvent.received e).due json n = none := by
        rw [GuiEvent.due, h]
        rfl
      rw [hdue]
      simp [GuiEvent.done]
  | enter hpool => exact replace hpool rfl
  | @ask _ _ round _ convo hpool _ _ coins now =>
      refine replace hpool ((Conversation.shape_nextConvoRequest hbox ..).trans ?_)
      rw [hs.pki, hn]
      rfl
  | askDial hpool h =>
      refine replace hpool ((Dialer.shape_nextDialRequest hbox h).trans ?_)
      rw [hs.dialer, hn]
      rfl
  | find hpool => exact replace hpool rfl
  | miss hpool | handle hpool | bucket hpool | send hpool | drop hpool => exact drop hpool
  | @pass _ _ v hpool hv hdial =>
      have hdue : (Task.start v).due n = none := by
        cases v with
        | announceConvoRound => cases hv
        | announceDialRound d => exact absurd rfl (hdial d)
        | _ => rfl
      simpa [hdue, GuiEvent.done, GuiEvent.due] using drop hpool
  | _ => exact (List.append_nil _).symm ▸ .refl _

/-- What goroutines are about to send are requests. -/
theorem GuiStep.sending (h : GuiStep box hmac json s ev s') {v : Message}
    (hv : .sending v ∈ s'.pool) : .sending v ∈ s.pool ∨ v.shape.isSome := by
  have old : ∀ {before after : List Task} {t : Task}, s.pool = before ++ t :: after →
      .sending v ∈ before ++ after → .sending v ∈ s.pool := by
    intro before after t hpool hmem
    rw [hpool]
    simp only [List.mem_append, List.mem_cons] at hmem ⊢
    tauto
  have new : ∀ {before after : List Task} {t t' : Task}, s.pool = before ++ t :: after →
      .sending v ∈ before ++ t' :: after → .sending v ∈ s.pool ∨ t' = .sending v := by
    intro before after t t' hpool hmem
    rw [hpool]
    simp only [List.mem_append, List.mem_cons] at hmem ⊢
    tauto
  cases h with
  | receive =>
      rcases List.mem_append.mp hv with hv | hv
      · exact .inl hv
      · cases List.mem_singleton.mp hv
  | enter hpool | find hpool => exact (new hpool hv).imp_right fun e => by cases e
  | ask hpool | askDial hpool =>
      refine (new hpool hv).imp_right fun e => ?_
      cases e
      rfl
  | miss hpool | handle hpool | bucket hpool | pass hpool | send hpool | drop hpool =>
      exact .inl (old hpool hv)
  | _ => exact .inl hv

theorem GuiStep.sent (h : GuiStep box hmac json s ev s') {v : Message} (hev : ev = .sent v) :
    .sending v ∈ s.pool := by
  cases h with
  | send hpool =>
      cases hev
      rw [hpool]
      exact List.mem_append_right _ List.mem_cons_self
  | _ => cases hev

end Step

section Run

variable {pki : PKI} {myName : String} {myPublicKey myPrivateKey : BoxKey} {h : List GuiEvent}
  {s : GuiState}

theorem traffic_of_run (hbox : box.Sized)
    (run : (guiSystem box hmac json pki myName myPublicKey myPrivateKey).Run System.Any h s) :
    (h.filterMap (GuiEvent.due json pki.serverOrder.length)).Perm
      (h.filterMap GuiEvent.done ++
        s.pool.filterMap (Task.due pki.serverOrder.length)) := by
  refine run.bag (q := fun s => s.pool.filterMap (Task.due pki.serverOrder.length))
    (fun s hs => by cases hs; rfl) fun h s ev s' run _ ht => ?_
  have hserves := GuiState.serves_of_run run
  exact ht.2.due hbox hserves.sane (by rw [hserves.user.1])

/-- A client sends requests, and nothing else. -/
theorem requests_of_run
    (run : (guiSystem box hmac json pki myName myPublicKey myPrivateKey).Run System.Any h s) :
    (∀ v, .sending v ∈ s.pool → v.shape.isSome) ∧ ∀ v, .sent v ∈ h → v.shape.isSome := by
  refine run.invariant (I := fun h s => (∀ v, .sending v ∈ s.pool → v.shape.isSome) ∧
    ∀ v, .sent v ∈ h → v.shape.isSome) (fun s hs => ?_) fun h s ev s' hI _ ht => ⟨?_, ?_⟩
  · cases hs
    exact ⟨by rintro _ ⟨⟩, by rintro _ ⟨⟩⟩
  · exact fun v hv => (ht.2.sending hv).elim (hI.1 v) id
  · intro v hv
    rcases List.mem_append.mp hv with hv | hv
    · exact hI.2 v hv
    · exact hI.1 v (ht.2.sent (List.mem_singleton.mp hv).symm)

/-- **What is sent is fixed by what is asked for.**  The requests a client has sent, together with
those it could not send and those under way, are one for each round that was announced to it: for
its service and its round, and of a size that depends on the number of servers only.  The user does
not come into it, and nothing else is sent. -/
theorem traffic_fixed (hbox : box.Sized)
    (run : (guiSystem box hmac json pki myName myPublicKey myPrivateKey).Run System.Any h s) :
    (h.filterMap (GuiEvent.due json pki.serverOrder.length)).Perm
        (h.filterMap GuiEvent.done ++ s.pool.filterMap (Task.due pki.serverOrder.length)) ∧
      ∀ v, .sent v ∈ h → v.shape.isSome :=
  ⟨traffic_of_run hbox run, (requests_of_run run).2⟩

theorem traffic_fixed_sample : ∃ (h : List GuiEvent) (s : GuiState) (v : Message),
    sampleGui.Run System.Any h s ∧ .sent v ∈ h ∧
    v.shape = some ⟨.convo, 5, onionSize 2 sizeConvoExchange⟩ := by
  obtain ⟨h, s, call, v, run, hh⟩ := sampleGui_asks
  obtain ⟨hdue, hshape⟩ := traffic_fixed roleBox_ideal.sized run
  have hsent : .sent v ∈ h := by simp [hh]
  obtain ⟨shape, hv⟩ := Option.isSome_iff_exists.mp (hshape v hsent)
  have hdone : h.filterMap GuiEvent.done = [shape] := by
    simp [hh, List.filterMap_cons, GuiEvent.done, hv]
  rw [hdone, hh] at hdue
  refine ⟨h, s, v, run, hsent, hv.trans (congrArg some ?_)⟩
  exact (List.cons.inj (List.perm_singleton.mp hdue.symm)).1

end Run

/-! ### Nobody waits for the user -/

/-- A step of neither the user nor the entry server, in which no request is lost. -/
def GuiEvent.Onward (ev : GuiEvent) : Prop :=
  (∀ line, ev ≠ .typed line) ∧ (∀ e, ev ≠ .received e) ∧ ∀ v, ev ≠ .unsent v

theorem GuiEvent.Onward.due_eq_none {ev : GuiEvent} (h : ev.Onward) (n : Nat) :
    ev.due json n = none := by
  cases ev with
  | received e => exact absurd rfl (h.2.1 e)
  | _ => rfl

section Run

variable {pki : PKI} {myName : String} {myPublicKey myPrivateKey : BoxKey} {h : List GuiEvent}
  {s : GuiState} {n : Nat}

/-- The client is connected and runs, the main loop is where it is, and these goroutines are under
way. -/
structure GuiState.Online (s : GuiState) (main : MainLoop) (pool : List Task) : Prop where
  up : s.up = true
  opened : s.connect = .opened
  main : s.main = main
  pool : s.pool = pool

/-- The run goes on by itself until these goroutines are left. -/
def GoesOn (sys : System GuiState GuiEvent) (h : List GuiEvent) (main : MainLoop)
    (pool : List Task) : Prop :=
  ∃ h' s', sys.Run System.Any (h ++ h') s' ∧ (∀ ev ∈ h', ev.Onward) ∧ s'.Online main pool

theorem GoesOn.step {sys : System GuiState GuiEvent} {main : MainLoop} {pool : List Task}
    {ev : GuiEvent} (hev : ev.Onward) (hgo : GoesOn sys (h ++ [ev]) main pool) :
    GoesOn sys h main pool := by
  obtain ⟨h', s', run, honward, honline⟩ := hgo
  refine ⟨ev :: h', s', by simpa using run, fun ev' hmem => ?_, honline⟩
  rcases List.mem_cons.mp hmem with rfl | hmem
  · exact hev
  · exact honward ev' hmem

section Sends

variable {main : MainLoop} {before after : List Task}

theorem sending_sends
    (run : (guiSystem box hmac json pki myName myPublicKey myPrivateKey).Run System.Any h s)
    {v : Message} (hs : s.Online main (before ++ .sending v :: after)) :
    GoesOn (guiSystem box hmac json pki myName myPublicKey myPrivateKey) h main
      (before ++ after) := by
  have run' := run.step trivial ⟨hs.up, .send hs.pool hs.opened⟩
  have hsent : (GuiEvent.sent v).Onward := ⟨by rintro _ ⟨⟩, by rintro _ ⟨⟩, by rintro _ ⟨⟩⟩
  exact ⟨_, _, run', by simpa using hsent, hs.up, hs.opened, hs.main, rfl⟩

theorem asking_sends
    (run : (guiSystem box hmac json pki myName myPublicKey myPrivateKey).Run System.Any h s)
    {round : UInt32} (hs : s.Online main (before ++ .asking round :: after)) :
    GoesOn (guiSystem box hmac json pki myName myPublicKey myPrivateKey) h main
      (before ++ after) := by
  obtain ⟨client, hclient⟩ := (GuiState.linked_of_run run).ready (.inr (.inl hs.opened))
  have run' := run.step trivial
    ⟨hs.up, .ask hs.pool hclient rfl ⟨fun _ => myPublicKey, fun _ => 0⟩ 0⟩
  exact .step ⟨by rintro _ ⟨⟩, by rintro _ ⟨⟩, by rintro _ ⟨⟩⟩
    (sending_sends run' ⟨hs.up, hs.opened, hs.main, rfl⟩)

/-- A goroutine that has something to send can send it. -/
theorem task_sends (hbox : box.Sized)
    (run : (guiSystem box hmac json pki myName myPublicKey myPrivateKey).Run System.Any h s)
    {t : Task} (hs : s.Online main (before ++ t :: after)) (ht : (t.due n).isSome)
    (hbuckets : ∀ v, t = .start (.announceDialRound v) → 1 ≤ v.buckets) :
    GoesOn (guiSystem box hmac json pki myName myPublicKey myPrivateKey) h main
      (before ++ after) := by
  cases t with
  | sending v => exact sending_sends run hs
  | asking round => exact asking_sends run hs
  | delivering => cases ht
  | start v =>
      cases v with
      | announceConvoRound v =>
          obtain ⟨client, hclient⟩ := (GuiState.linked_of_run run).ready (.inr (.inl hs.opened))
          have run' := run.step trivial ⟨hs.up, .enter hs.pool hclient⟩
          exact .step ⟨by rintro _ ⟨⟩, by rintro _ ⟨⟩, by rintro _ ⟨⟩⟩
            (asking_sends run' ⟨hs.up, hs.opened, hs.main, rfl⟩)
      | announceDialRound v =>
          let coins : DialRequestCoins := ⟨fun _ => myPublicKey, fun _ => 0, fun _ => myPublicKey⟩
          obtain ⟨request, dialer, hrequest, -⟩ :=
            s.gc.dialer.length_nextDialRequest hbox coins v.round (hbuckets v rfl)
          have run' := run.step trivial ⟨hs.up, .askDial hs.pool hrequest⟩
          exact .step ⟨by rintro _ ⟨⟩, by rintro _ ⟨⟩, by rintro _ ⟨⟩⟩
            (sending_sends run' ⟨hs.up, hs.opened, hs.main, rfl⟩)
      | _ => cases ht

/-- All goroutines with something to send can send it, those before them left alone. -/
theorem tasks_send (hbox : box.Sized) :
    ∀ (before after : List Task) {h : List GuiEvent} {s : GuiState},
      (guiSystem box hmac json pki myName myPublicKey myPrivateKey).Run System.Any h s →
      s.Online main (before ++ after) → before.filterMap (Task.due n) = [] →
      (∀ v, .start (.announceDialRound v) ∈ after → 1 ≤ v.buckets) →
      ∃ left, left.filterMap (Task.due n) = [] ∧
        GoesOn (guiSystem box hmac json pki myName myPublicKey myPrivateKey) h main left
  | before, [], h, s, run, hs, hbefore, _ =>
      ⟨before, hbefore, [], s, by simpa using run, by simp, by simpa using hs⟩
  | before, t :: after, h, s, run, hs, hbefore, hbuckets => by
      have hrest : ∀ v, .start (.announceDialRound v) ∈ after → 1 ≤ v.buckets :=
        fun v hv => hbuckets v (List.mem_cons_of_mem _ hv)
      by_cases ht : (t.due n).isSome
      · obtain ⟨h₁, s₁, run₁, honward₁, hs₁⟩ := task_sends hbox run hs ht
          fun v hv => hbuckets v (hv ▸ List.mem_cons_self)
        obtain ⟨left, hleft, h₂, s₂, run₂, honward₂, hs₂⟩ :=
          tasks_send hbox before after run₁ hs₁ hbefore hrest
        refine ⟨left, hleft, h₁ ++ h₂, s₂, by simpa using run₂, fun ev hev => ?_, hs₂⟩
        rcases List.mem_append.mp hev with hev | hev
        · exact honward₁ ev hev
        · exact honward₂ ev hev
      · have hnone : t.due n = none := by simpa using ht
        exact tasks_send hbox (before ++ [t]) after run (by simpa using hs)
          (by rw [filterMap_concat, hbefore, hnone]; rfl) hrest

end Sends

/-- **The user holds nothing up.**  Wherever the main loop is, if only waiting for a queue that is
full, a client that is connected can send all the requests it was asked for, without a step of the
user or the entry server and without a loss. -/
theorem requests_sent (hbox : box.Sized)
    (run : (guiSystem box hmac json pki myName myPublicKey myPrivateKey).Run System.Any h s)
    (hup : s.up = true) (hopened : s.connect = .opened)
    (hbuckets : ∀ v, .start (.announceDialRound v) ∈ s.pool → 1 ≤ v.buckets) :
    ∃ h' s', (guiSystem box hmac json pki myName myPublicKey myPrivateKey).Run System.Any
        (h ++ h') s' ∧
      (∀ ev ∈ h', ev.Onward) ∧
      s'.main = s.main ∧
      (h.filterMap (GuiEvent.due json pki.serverOrder.length)).Perm
        ((h ++ h').filterMap GuiEvent.done) := by
  obtain ⟨left, hleft, h', s', run', honward, hs'⟩ :=
    tasks_send (n := pki.serverOrder.length) hbox [] s.pool run ⟨hup, hopened, rfl, rfl⟩ rfl
      hbuckets
  have hdue := traffic_of_run hbox run'
  have hnone : h'.filterMap (GuiEvent.due json pki.serverOrder.length) = [] :=
    List.filterMap_eq_nil_iff.mpr fun ev hev => (honward ev hev).due_eq_none _
  rw [hs'.pool, hleft, List.append_nil, List.filterMap_append, hnone, List.append_nil] at hdue
  exact ⟨h', s', run', honward, hs'.main, hdue⟩

theorem requests_sent_sample : ∃ (h h' : List GuiEvent) (s : GuiState),
    sampleGui.Run System.Any (h ++ h') s ∧
    [(⟨.convo, 5, onionSize 2 sizeConvoExchange⟩ : Shape)].Perm
      ((h ++ h').filterMap GuiEvent.done) := by
  obtain ⟨h, s, client, run, rfl, hup, hopened, hpool, -⟩ := sampleGui_announced
  obtain ⟨h', s', run', -, -, hdone⟩ := requests_sent roleBox_ideal.sized
    (run.mono fun _ _ _ _ => trivial) hup hopened (by simp [hpool])
  exact ⟨_, h', s', run', hdone⟩

end Run

end Vuvuzela
