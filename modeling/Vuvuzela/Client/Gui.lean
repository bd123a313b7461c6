import Vuvuzela.Source.Gui
import Vuvuzela.Client.Talk
import Vuvuzela.Entry.Envelopes

/-!
# Client — the whole client

The user at the keyboard, the goroutine that connects, and the goroutines that handle the messages
of the entry server, as one transition system.  They interleave in any way: what is done under a
mutex is one step, and so is each access to a field of `GuiClient`, which no mutex protects.  The
entry server sends what it likes, and the connection may close at any time.  The user types lines,
which are parsed as `handleLine` does.

A whole `NextConvoRequest` is one step (`GuiStep.ask`), although it sets `lastRound`, takes the text
and enters the round in three; and so is a whole `HandleConvoResponse`, although it takes the entry
of the round and sets the status in two or three.  Calls that overlap are thus taken one after the
other.  What of it deals with conversations is `clientSystem`, which this system runs as
(`client_of_gui`).

Every conversation belongs to a person of the PKI (`Sane`), and all that refers to a conversation
refers to one that was made (`Within`).  The two goroutines that set the handler of the client may
race: the conversation that asks is the one on the screen, unless the user switches while `Connect`
is under way (`handler_selected`).
-/

namespace Vuvuzela
open Support

/-! ### The system -/

/-- Where the main loop is: it waits for a line, or is in a call of `activateConvo`, before the
check of `gc.client`, before the lock of the conversation, or before `SetConvoHandler`. -/
inductive MainLoop where
  | idle
  | check (convo : Nat)
  | reset (convo : Nat)
  | install (convo : Nat)

/-- Where the goroutine with `Connect` is: before the client is made, before `selectedConvo` is
read, in `activateConvo`, before the entry server is dialed, and with an open or closed connection
after that. -/
inductive Connecting where
  | waiting
  | created
  | reset (convo : Nat)
  | install (convo : Nat)
  | dialing
  | opened
  | closed

/-- Where the goroutine of a message is. -/
inductive Task where
  | start (v : Message)
  /-- `nextConvoRequest`, out of the mutex and before the call on the handler. -/
  | asking (round : UInt32)
  | sending (v : Message)
  /-- `deliverConvoResponse`, out of the mutex and before the call on the handler it found. -/
  | delivering (convo : Nat) (response : ConvoResponse)

structure GuiState where
  gc : GuiClient
  main : MainLoop
  connect : Connecting
  pool : List Task
  up : Bool

inductive GuiEvent where
  | typed (line : List Char)
  | received (e : Envelope)
  /-- The request of a round was made, in the conversation with `peer`. -/
  | requested (peer : String) (round : UInt32) (body : ConvoMessage) (call : SealCall)
  /-- A response was handled in the conversation with `peer`; a text shows under that name. -/
  | handled (peer : String) (response : ConvoResponse) (text : Option Bytes)
  | warned (warnings : List IntroWarning)
  | sent (v : Message)
  | unsent (v : Message)
  | crashed (p : Panic)
  /-- A step that is not seen. -/
  | internal

/-- One step.  A line that cannot be queued waits, and with it the main loop. -/
inductive GuiStep (box : NaclBox) (hmac : Hmac) (json : Json) (s : GuiState) :
    GuiEvent → GuiState → Prop where
  -- lines
  | quit {line : List Char} (hline : GuiLine.parse line = .quit) (hmain : s.main = .idle) :
      GuiStep box hmac json s (.typed line) { s with up := false }
  | talk {line : List Char} {peer : String} {convo : Nat} {gc : GuiClient}
      (hline : GuiLine.parse line = .talk peer) (hmain : s.main = .idle)
      (h : s.gc.switchConversation peer = some (convo, gc)) :
      GuiStep box hmac json s (.typed line) { s with gc := gc, main := .check convo }
  | talkUnknown {line : List Char} {peer : String} (hline : GuiLine.parse line = .talk peer)
      (hmain : s.main = .idle) (h : s.gc.switchConversation peer = none) :
      GuiStep box hmac json s (.typed line) s
  | dial {line : List Char} {peer : String} {pk : BoxKey} {dialer : Dialer}
      (hline : GuiLine.parse line = .dial peer) (hmain : s.main = .idle)
      (hperson : s.gc.person peer = some pk) (h : s.gc.dialer.queueRequest pk = some dialer) :
      GuiStep box hmac json s (.typed line) { s with gc := { s.gc with dialer := dialer } }
  | dialUnknown {line : List Char} {peer : String} (hline : GuiLine.parse line = .dial peer)
      (hmain : s.main = .idle) (hperson : s.gc.person peer = none) :
      GuiStep box hmac json s (.typed line) s
  | text {line : List Char} {msg : Bytes} {convo : Nat} {c : Conversation} (hne : line ≠ [])
      (hline : GuiLine.parse line = .text msg) (hmain : s.main = .idle)
      (hselected : s.gc.selectedConvo = some convo)
      (h : (s.gc.convos convo).queueTextMessage msg = some c) :
      GuiStep box hmac json s (.typed line)
        { s with gc := { s.gc with convos := Function.update s.gc.convos convo c } }
  | textNil {line : List Char} {msg : Bytes} (hne : line ≠ [])
      (hline : GuiLine.parse line = .text msg) (hmain : s.main = .idle)
      (hselected : s.gc.selectedConvo = none) :
      GuiStep box hmac json s (.crashed .nil) { s with up := false }
  -- `activateConvo` in the main loop
  | checkAbsent {convo : Nat} (hmain : s.main = .check convo) (h : s.gc.client = .absent) :
      GuiStep box hmac json s .internal { s with main := .idle }
  | check {convo : Nat} (hmain : s.main = .check convo) (h : s.gc.client ≠ .absent) :
      GuiStep box hmac json s .internal { s with main := .reset convo }
  | reset {convo : Nat} (hmain : s.main = .reset convo) :
      GuiStep box hmac json s .internal
        { s with gc := s.gc.resetStatus convo, main := .install convo }
  | install {convo : Nat} (hmain : s.main = .install convo) :
      GuiStep box hmac json s .internal
        { s with
          gc := { s.gc with client := s.gc.client.setConvoHandler convo }
          main := .idle }
  -- `Connect`
  | create (hconnect : s.connect = .waiting) :
      GuiStep box hmac json s .internal
        { s with gc := { s.gc with client := .bare }, connect := .created }
  | choose {convo : Nat} (hconnect : s.connect = .created)
      (hselected : s.gc.selectedConvo = some convo) :
      GuiStep box hmac json s .internal { s with connect := .reset convo }
  | chooseNil (hconnect : s.connect = .created) (hselected : s.gc.selectedConvo = none) :
      GuiStep box hmac json s (.crashed .nil) { s with up := false }
  | resetConnect {convo : Nat} (hconnect : s.connect = .reset convo) :
      GuiStep box hmac json s .internal
        { s with gc := s.gc.resetStatus convo, connect := .install convo }
  | installConnect {convo : Nat} (hconnect : s.connect = .install convo) :
      GuiStep box hmac json s .internal
        { s with
          gc := { s.gc with client := s.gc.client.setConvoHandler convo }
          connect := .dialing }
  | opened (hconnect : s.connect = .dialing) :
      GuiStep box hmac json s .internal { s with connect := .opened }
  | close (hconnect : s.connect = .dialing ∨ s.connect = .opened) :
      GuiStep box hmac json s .internal { s with connect := .closed }
  -- `readLoop`
  | receive {e : Envelope} {v : Message} (hconnect : s.connect = .opened)
      (h : e.open json = .ok v) :
      GuiStep box hmac json s (.received e) { s with pool := s.pool ++ [.start v] }
  | refuse {e : Envelope} {err : String} (hconnect : s.connect = .opened)
      (h : e.open json = .error err) :
      GuiStep box hmac json s (.received e) s
  -- `handleResponse`
  | enter {before after : List Task} {v : AnnounceConvoRound} {client : UserClient}
      (hpool : s.pool = before ++ .start (.announceConvoRound v) :: after)
      (hclient : s.gc.client = .ready client) :
      GuiStep box hmac json s .internal
        { s with
          gc := { s.gc with client := .ready (client.enterRound v.round) }
          pool := before ++ .asking v.round :: after }
  | ask {before after : List Task} {round : UInt32} {client : UserClient} {convo : Nat}
      (hpool : s.pool = before ++ .asking round :: after)
      (hclient : s.gc.client = .ready client) (hconvo : client.convoHandler = convo)
      (coins : RequestCoins) (now : Time) :
      GuiStep box hmac json s
        (.requested (s.gc.peerName convo) round ((s.gc.convos convo).nextBody now).1
          ((s.gc.convos convo).nextSeal now round))
        { s with
          gc := { s.gc with
            convos := Function.update s.gc.convos convo
              ((s.gc.convos convo).nextConvoRequest box hmac coins now round).2 }
          pool := before ++ .sending (.convoRequest
            ((s.gc.convos convo).nextConvoRequest box hmac coins now round).1) :: after }
  | askDial {before after : List Task} {v : AnnounceDialRound} {coins : DialRequestCoins}
      {request : DialRequest} {dialer : Dialer}
      (hpool : s.pool = before ++ .start (.announceDialRound v) :: after)
      (h : s.gc.dialer.nextDialRequest box coins v.round v.buckets = some (request, dialer)) :
      GuiStep box hmac json s .internal
        { s with
          gc := { s.gc with dialer := dialer }
          pool := before ++ .sending (.dialRequest request) :: after }
  | askDialPanic {before after : List Task} {v : AnnounceDialRound} {coins : DialRequestCoins}
      (hpool : s.pool = before ++ .start (.announceDialRound v) :: after)
      (h : s.gc.dialer.nextDialRequest box coins v.round v.buckets = none) :
      GuiStep box hmac json s (.crashed .divide) { s with up := false }
  | find {before after : List Task} {response : ConvoResponse} {client : UserClient} {convo : Nat}
      (hpool : s.pool = before ++ .start (.convoResponse response) :: after)
      (hclient : s.gc.client = .ready client)
      (hfound : (client.leaveRound response.round).1 = some convo) :
      GuiStep box hmac json s .internal
        { s with
          gc := { s.gc with client := .ready (client.leaveRound response.round).2 }
          pool := before ++ .delivering convo response :: after }
  | miss {before after : List Task} {response : ConvoResponse} {client : UserClient}
      (hpool : s.pool = before ++ .start (.convoResponse response) :: after)
      (hclient : s.gc.client = .ready client)
      (hfound : (client.leaveRound response.round).1 = none) :
      GuiStep box hmac json s .internal
        { s with
          gc := { s.gc with client := .ready (client.leaveRound response.round).2 }
          pool := before ++ after }
  | handle {before after : List Task} {convo : Nat} {response : ConvoResponse} {now : Time}
      {text : Option Bytes} {c : Conversation}
      (hpool : s.pool = before ++ .delivering convo response :: after)
      (h : (s.gc.convos convo).handleConvoResponse box now response = .ok (text, c)) :
      GuiStep box hmac json s (.handled (s.gc.peerName convo) response text)
        { s with
          gc := { s.gc with convos := Function.update s.gc.convos convo c }
          pool := before ++ after }
  | handlePanic {before after : List Task} {convo : Nat} {response : ConvoResponse} {now : Time}
      {p : Panic} (hpool : s.pool = before ++ .delivering convo response :: after)
      (h : (s.gc.convos convo).handleConvoResponse box now response = .error p) :
      GuiStep box hmac json s (.crashed p) { s with up := false }
  | bucket {before after : List Task} {v : DialBucket} {people : Nat → List (String × BoxKey)}
      (hpool : s.pool = before ++ .start (.dialBucket v) :: after) :
      GuiStep box hmac json s (.warned (s.gc.dialer.handleDialBucket box people v))
        { s with pool := before ++ after }
  | pass {before after : List Task} {v : Message} (hpool : s.pool = before ++ .start v :: after)
      (hv : v.isConvo = false) (hdial : ∀ d, v ≠ .announceDialRound d)
      (hbucket : ∀ b, v ≠ .dialBucket b) :
      GuiStep box hmac json s .internal { s with pool := before ++ after }
  | send {before after : List Task} {v : Message} (hpool : s.pool = before ++ .sending v :: after)
      (hconnect : s.connect = .opened) :
      GuiStep box hmac json s (.sent v) { s with pool := before ++ after }
  | drop {before after : List Task} {v : Message} (hpool : s.pool = before ++ .sending v :: after)
      (hconnect : s.connect = .closed) :
      GuiStep box hmac json s (.unsent v) { s with pool := before ++ after }

/-- The client of a user, as `main` starts it. -/
def GuiState.start (pki : PKI) (myName : String) (myPublicKey myPrivateKey : BoxKey) :
    GuiState where
  gc := (GuiClient.new pki myName myPublicKey myPrivateKey).run
  main := .idle
  connect := .waiting
  pool := []
  up := true

/-- The client of a user. -/
def guiSystem (box : NaclBox) (hmac : Hmac) (json : Json) (pki : PKI) (myName : String)
    (myPublicKey myPrivateKey : BoxKey) : System GuiState GuiEvent where
  init s := s = .start pki myName myPublicKey myPrivateKey
  step s ev s' := s.up = true ∧ GuiStep box hmac json s ev s'

/-! ### Conversations and their numbers -/

variable {box : NaclBox} {hmac : Hmac} {json : Json}

/-- Every conversation has the name and the key of a person of the PKI, and is found under that
name. -/
structure GuiClient.Sane (gc : GuiClient) : Prop where
  named : ∀ p convo, gc.conversations p = some convo → convo < gc.made ∧ gc.peerName convo = p
  listed : ∀ convo < gc.made, gc.conversations (gc.peerName convo) = some convo
  keys : ∀ convo < gc.made, ∃ key, gc.pki.people.lookup (gc.peerName convo) = some key ∧
    (gc.convos convo).identity = (gc.myPublicKey, key, gc.myPrivateKey)
  pki : ∀ convo, (gc.convos convo).pki = gc.pki
  unmade : ∀ convo, gc.made ≤ convo → (gc.convos convo).outQueue = []
  dialer : gc.dialer.pki = gc.pki

namespace GuiClient

variable {gc gc' : GuiClient} {convo : Nat} {peer : String}

theorem sane_new (pki : PKI) (myName : String) (myPublicKey myPrivateKey : BoxKey) :
    (new pki myName myPublicKey myPrivateKey).Sane where
  named := fun _ _ h => by cases h
  listed := fun _ h => absurd h (Nat.not_lt_zero _)
  keys := fun _ h => absurd h (Nat.not_lt_zero _)
  pki := fun _ => rfl
  unmade := fun _ _ => rfl
  dialer := rfl

theorem pki_update {convos : Nat → Conversation} {pki : PKI} (h : ∀ k, (convos k).pki = pki)
    {c : Conversation} (hc : c.pki = pki) (k : Nat) :
    (Function.update convos convo c k).pki = pki := by
  by_cases e : k = convo
  · rw [e, Function.update_self, hc]
  · rw [Function.update_of_ne e, h]

/-- A call on a conversation, which leaves its keys. -/
theorem Sane.call (h : gc.Sane) (hconvo : convo < gc.made) {c : Conversation}
    (hid : c.identity = (gc.convos convo).identity) (hpki : c.pki = (gc.convos convo).pki) :
    Sane { gc with convos := Function.update gc.convos convo c } where
  named := h.named
  listed := h.listed
  keys := fun k hk => by
    by_cases e : k = convo
    · subst e
      simpa only [Function.update_self, hid] using h.keys k hk
    · simpa only [Function.update_of_ne e] using h.keys k hk
  pki := pki_update h.pki (hpki.trans (h.pki convo))
  unmade := fun k hk => by
    have hne : k ≠ convo := (hconvo.trans_le hk).ne'
    simpa only [Function.update_of_ne hne] using h.unmade k hk
  dialer := h.dialer

/-- What `switchConversation` does: it selects the conversation under the name, which it makes
where there is none. -/
inductive Switched (gc : GuiClient) (peer : String) : Nat → GuiClient → Prop where
  | found {convo : Nat} (h : gc.conversations peer = some convo) :
      Switched gc peer convo { gc with selectedConvo := some convo }
  | made {key : BoxKey} (h : gc.conversations peer = none) (hkey : gc.person peer = some key) :
      Switched gc peer gc.made { gc with
        made := gc.made + 1
        convos := Function.update gc.convos gc.made
          (.init gc.pki key gc.myPublicKey gc.myPrivateKey)
        peerName := Function.update gc.peerName gc.made peer
        conversations := Function.update gc.conversations peer (some gc.made)
        selectedConvo := some gc.made }

theorem switched_of_some (h : gc.switchConversation peer = some (convo, gc')) :
    Switched gc peer convo gc' := by
  rw [switchConversation] at h
  split at h
  · rename_i hfound
    cases h
    exact .found hfound
  · rename_i hnone
    split at h
    · cases h
    · rename_i key hkey
      cases h
      exact .made hnone hkey

theorem Switched.sane (hs : gc.Sane) (h : Switched gc peer convo gc') : gc'.Sane := by
  cases h with
  | found => exact ⟨hs.named, hs.listed, hs.keys, hs.pki, hs.unmade, hs.dialer⟩
  | @made key hnone hkey =>
      refine ⟨fun p k hk => ?_, fun k hk => ?_, fun k hk => ?_, fun k => ?_, fun k hk => ?_,
        hs.dialer⟩
      · by_cases hp : p = peer
        · subst hp
          simp only [Function.update_self, Option.some.injEq] at hk
          subst hk
          exact ⟨Nat.lt_succ_self _, Function.update_self ..⟩
        · simp only [Function.update_of_ne hp] at hk
          obtain ⟨hlt, hname⟩ := hs.named p k hk
          exact ⟨Nat.lt_succ_of_lt hlt, (Function.update_of_ne hlt.ne ..).trans hname⟩
      · rcases Nat.lt_succ_iff_lt_or_eq.mp hk with hlt | rfl
        · have hold := hs.listed k hlt
          have hp : gc.peerName k ≠ peer := fun e => by
            rw [e, hnone] at hold
            cases hold
          simp only [Function.update_of_ne hlt.ne, Function.update_of_ne hp, hold]
        · simp only [Function.update_self]
      · rcases Nat.lt_succ_iff_lt_or_eq.mp hk with hlt | rfl
        · simpa only [Function.update_of_ne hlt.ne] using hs.keys k hlt
        · simpa only [Function.update_self] using ⟨key, hkey, rfl⟩
      · exact pki_update hs.pki rfl k
      · have hne : k ≠ gc.made := Nat.ne_of_gt hk
        simpa only [Function.update_of_ne hne] using hs.unmade k (Nat.le_of_succ_le hk)

theorem Switched.selected (h : Switched gc peer convo gc') :
    gc'.selectedConvo = some convo := by cases h <;> rfl

theorem Switched.made_le (h : Switched gc peer convo gc') : gc.made ≤ gc'.made := by
  cases h with
  | found => exact Nat.le_refl _
  | made => exact Nat.le_succ _

theorem Switched.conversations (h : Switched gc peer convo gc') :
    gc'.conversations peer = some convo := by
  cases h with
  | found h => exact h
  | made => exact Function.update_self ..

theorem Switched.client (h : Switched gc peer convo gc') : gc'.client = gc.client := by
  cases h <;> rfl

end GuiClient

/-- The conversation a call of `activateConvo` in the main loop is for. -/
def MainLoop.convo? : MainLoop → Option Nat
  | .idle => none
  | .check convo | .reset convo | .install convo => some convo

/-- The conversation `Connect` activates. -/
def Connecting.convo? : Connecting → Option Nat
  | .reset convo | .install convo => some convo
  | _ => none

def Task.convo? : Task → Option Nat
  | .delivering convo _ => some convo
  | _ => none

/-- All conversations a state refers to have numbers below `n`. -/
structure GuiState.Within (s : GuiState) (n : Nat) : Prop where
  selected : ∀ convo, s.gc.selectedConvo = some convo → convo < n
  handler : ∀ client, s.gc.client = .ready client → client.convoHandler < n
  rounds : ∀ client round convo, s.gc.client = .ready client →
    client.roundHandlers round = some convo → convo < n
  main : ∀ convo, s.main.convo? = some convo → convo < n
  connect : ∀ convo, s.connect.convo? = some convo → convo < n
  pool : ∀ t ∈ s.pool, ∀ convo, t.convo? = some convo → convo < n

namespace GuiState.Within

variable {s : GuiState} {n : Nat}

theorem mono (h : s.Within n) {m : Nat} (hm : n ≤ m) : s.Within m where
  selected := fun k hk => (h.selected k hk).trans_le hm
  handler := fun u hu => (h.handler u hu).trans_le hm
  rounds := fun u r k hu hk => (h.rounds u r k hu hk).trans_le hm
  main := fun k hk => (h.main k hk).trans_le hm
  connect := fun k hk => (h.connect k hk).trans_le hm
  pool := fun t ht k hk => (h.pool t ht k hk).trans_le hm

theorem task (h : s.Within n) {before after : List Task} {t : Task} {convo : Nat}
    (hpool : s.pool = before ++ t :: after) (ht : t.convo? = some convo) : convo < n :=
  h.pool t (hpool ▸ List.mem_append_right _ List.mem_cons_self) convo ht

/-- The goroutines where one of them has ended. -/
theorem pool_drop (h : s.Within n) {before after : List Task} {t : Task}
    (hpool : s.pool = before ++ t :: after) :
    ∀ t ∈ before ++ after, ∀ convo, t.convo? = some convo → convo < n := by
  intro t' ht'
  refine h.pool t' ?_
  rw [hpool]
  simp only [List.mem_append, List.mem_cons] at ht' ⊢
  tauto

/-- The goroutines where one of them has gone on. -/
theorem pool_replace (h : s.Within n) {before after : List Task} {t t' : Task}
    (hpool : s.pool = before ++ t :: after) (ht' : ∀ convo, t'.convo? = some convo → convo < n) :
    ∀ t ∈ before ++ t' :: after, ∀ convo, t.convo? = some convo → convo < n := by
  intro u hu
  rcases List.mem_append.mp hu with hu | hu
  · exact h.pool_drop hpool u (List.mem_append_left _ hu)
  · rcases List.mem_cons.mp hu with rfl | hu
    · exact ht'
    · exact h.pool_drop hpool u (List.mem_append_right _ hu)

/-- The handler where it is set to a conversation that was made. -/
theorem setConvoHandler (h : s.Within n) {convo : Nat} (hconvo : convo < n) {client : UserClient}
    (hclient : s.gc.client.setConvoHandler convo = .ready client) :
    client.convoHandler < n ∧
      ∀ round k, client.roundHandlers round = some k → k < n := by
  cases hold : s.gc.client with
  | absent =>
      rw [hold] at hclient
      cases hclient
  | bare =>
      rw [hold] at hclient
      cases hclient
      exact ⟨hconvo, fun _ _ hk => by cases hk⟩
  | ready client' =>
      rw [hold] at hclient
      cases hclient
      exact ⟨hconvo, fun round k => h.rounds client' round k hold⟩

end GuiState.Within

/-! ### What a step leaves -/

theorem Conversation.Handled.pki {now : Time} {r : ConvoResponse} {text : Option Bytes}
    {c c' : Conversation} (h : Handled box now r c text c') : c'.pki = c.pki := by
  cases h with
  | ignored => rfl
  | @received _ _ msg => cases msg <;> rfl

theorem Conversation.pki_nextConvoRequest {c : Conversation} {round : UInt32}
    (coins : RequestCoins) (now : Time) :
    (c.nextConvoRequest box hmac coins now round).2.pki = c.pki := by
  simp only [nextConvoRequest, nextBody]
  split <;> rfl

theorem Conversation.pki_queueTextMessage {c c' : Conversation} {msg : Bytes}
    (h : c.queueTextMessage msg = some c') : c'.pki = c.pki := by
  rw [queueTextMessage, Option.ite_none_right_eq_some] at h
  obtain ⟨-, h⟩ := h
  cases h
  rfl

theorem Dialer.pki_queueRequest {d d' : Dialer} {pk : BoxKey} (h : d.queueRequest pk = some d') :
    d'.pki = d.pki := by
  rw [queueRequest, Option.ite_none_right_eq_some] at h
  obtain ⟨-, h⟩ := h
  cases h
  rfl

theorem Dialer.pki_nextDialRequest {d d' : Dialer} {coins : DialRequestCoins}
    {round buckets : UInt32} {request : DialRequest}
    (h : d.nextDialRequest box coins round buckets = some (request, d')) : d'.pki = d.pki := by
  simp only [nextDialRequest, nextExchange, Option.bind_eq_bind] at h
  obtain ⟨⟨ex, d''⟩, hex, h⟩ := Option.bind_eq_some_iff.mp h
  cases h
  split at hex
  · obtain ⟨bucket, -, hex⟩ := Option.bind_eq_some_iff.mp hex
    cases hex
    rfl
  · cases hex
    rfl

/-- A response takes the handler of its round, and leaves the others. -/
theorem roundHandlers_of_leaveRound {client : UserClient} {round r : UInt32} {convo : Nat}
    (h : (client.leaveRound round).2.roundHandlers r = some convo) :
    client.roundHandlers r = some convo := by
  by_cases hr : r = round
  · subst hr
    simp [UserClient.leaveRound] at h
  · simpa only [UserClient.leaveRound, Function.update_of_ne hr] using h

section Step

variable {s s' : GuiState} {ev : GuiEvent}

/-- What a step does to the conversations: nothing, a call on one of them that was made, which
leaves its keys, or a switch. -/
theorem GuiStep.sane (hs : s.gc.Sane) (hw : s.Within s.gc.made)
    (h : GuiStep box hmac json s ev s') : s'.gc.Sane := by
  have same : ∀ {client : GuiNet}, GuiClient.Sane { s.gc with client := client } :=
    ⟨hs.named, hs.listed, hs.keys, hs.pki, hs.unmade, hs.dialer⟩
  cases h with
  | talk _ _ h => exact (GuiClient.switched_of_some h).sane hs
  | dial _ _ _ h =>
      exact ⟨hs.named, hs.listed, hs.keys, hs.pki, hs.unmade,
        (Dialer.pki_queueRequest h).trans hs.dialer⟩
  | askDial _ h =>
      exact ⟨hs.named, hs.listed, hs.keys, hs.pki, hs.unmade,
        (Dialer.pki_nextDialRequest h).trans hs.dialer⟩
  | text _ _ _ hselected h =>
      exact hs.call (hw.selected _ hselected) (Conversation.identity_queueTextMessage h)
        (Conversation.pki_queueTextMessage h)
  | @reset convo hmain => exact hs.call (hw.main _ (by rw [hmain]; rfl)) rfl rfl
  | @resetConnect convo hconnect => exact hs.call (hw.connect _ (by rw [hconnect]; rfl)) rfl rfl
  | ask _ hclient hconvo =>
      exact hs.call (hconvo ▸ hw.handler _ hclient) (Conversation.identity_nextConvoRequest _ _)
        (Conversation.pki_nextConvoRequest _ _)
  | handle hpool h =>
      exact hs.call (hw.task hpool rfl) (Conversation.handled_of_ok h).identity
        (Conversation.handled_of_ok h).pki
  | install | create | installConnect | enter | find | miss => exact same
  | _ => exact hs

/-- The conversations a state refers to have been made. -/
theorem GuiStep.within (hs : s.gc.Sane) (hw : s.Within s.gc.made)
    (h : GuiStep box hmac json s ev s') : s'.Within s'.gc.made := by
  cases h with
  | talk _ _ h =>
      have hswitch := GuiClient.switched_of_some h
      have hmade : _ < _ := ((hswitch.sane hs).named _ _ hswitch.conversations).1
      have hw' := hw.mono hswitch.made_le
      refine ⟨fun k hk => ?_, fun u hu => hw'.handler u ?_, fun u r k hu => hw'.rounds u r k ?_,
        fun k hk => ?_, hw'.connect, hw'.pool⟩
      · cases hswitch.selected.symm.trans hk
        exact hmade
      · exact hswitch.client.symm.trans hu
      · exact hswitch.client.symm.trans hu
      · cases hk
        exact hmade
  | checkAbsent => exact { hw with main := fun _ hk => by cases hk }
  | check hmain _ | reset hmain =>
      refine { hw with main := fun k hk => hw.main k ?_ }
      rw [hmain]
      exact hk
  | install hmain =>
      have hmade := hw.main _ (by rw [hmain]; rfl)
      exact { hw with
        handler := fun u hu => (hw.setConvoHandler hmade hu).1
        rounds := fun u r k hu => (hw.setConvoHandler hmade hu).2 r k
        main := fun _ hk => by cases hk }
  | create =>
      exact { hw with
        handler := fun _ hu => by cases hu
        rounds := fun _ _ _ hu => by cases hu
        connect := fun _ hk => by cases hk }
  | choose _ hselected =>
      refine { hw with connect := fun k hk => hw.selected k ?_ }
      cases hk
      exact hselected
  | resetConnect hconnect =>
      refine { hw with connect := fun k hk => hw.connect k ?_ }
      rw [hconnect]
      exact hk
  | installConnect hconnect =>
      have hmade := hw.connect _ (by rw [hconnect]; rfl)
      exact { hw with
        handler := fun u hu => (hw.setConvoHandler hmade hu).1
        rounds := fun u r k hu => (hw.setConvoHandler hmade hu).2 r k
        connect := fun _ hk => by cases hk }
  | opened | close => exact { hw with connect := fun _ hk => by cases hk }
  | receive =>
      refine { hw with pool := fun t ht => ?_ }
      rcases List.mem_append.mp ht with ht | ht
      · exact hw.pool t ht
      · cases List.mem_singleton.mp ht
        rintro k ⟨⟩
  | @enter _ _ v client hpool hclient =>
      refine { hw with
        handler := fun u hu => ?_
        rounds := fun u r k hu hk => ?_
        pool := hw.pool_replace hpool fun _ hk => by cases hk }
      · cases hu
        exact hw.handler client hclient
      · cases hu
        by_cases hr : r = v.round
        · simp only [UserClient.enterRound, hr, Function.update_self, Option.some.injEq] at hk
          exact hk ▸ hw.handler client hclient
        · simp only [UserClient.enterRound, Function.update_of_ne hr] at hk
          exact hw.rounds client r k hclient hk
  | ask hpool | askDial hpool =>
      exact { hw with pool := hw.pool_replace hpool fun _ hk => by cases hk }
  | @find _ _ response client convo hpool hclient hfound =>
      refine { hw with
        handler := fun u hu => ?_
        rounds := fun u r k hu hk => ?_
        pool := hw.pool_replace hpool fun _ hk => ?_ }
      · cases hu
        exact hw.handler client hclient
      · cases hu
        exact hw.rounds client r k hclient (roundHandlers_of_leaveRound hk)
      · cases hk
        exact hw.rounds client response.round convo hclient hfound
  | @miss _ _ response client hpool hclient =>
      refine { hw with
        handler := fun u hu => ?_
        rounds := fun u r k hu hk => ?_
        pool := hw.pool_drop hpool }
      · cases hu
        exact hw.handler client hclient
      · cases hu
        exact hw.rounds client r k hclient (roundHandlers_of_leaveRound hk)
  | handle hpool | bucket hpool | pass hpool | send hpool | drop hpool =>
      exact { hw with pool := hw.pool_drop hpool }
  | _ => exact { hw with }

end Step

/-! ### The handler of the client -/

/-- There is a client once `Connect` has made it, and it has a handler once `Connect` has set it. -/
structure GuiState.Linked (s : GuiState) : Prop where
  made : s.connect ≠ .waiting → s.gc.client ≠ .absent
  ready : s.connect = .dialing ∨ s.connect = .opened ∨ s.connect = .closed →
    ∃ client, s.gc.client = .ready client

theorem GuiNet.ready_of_setConvoHandler {net : GuiNet} (h : net ≠ .absent) (convo : Nat) :
    ∃ client, net.setConvoHandler convo = .ready client := by
  cases net with
  | absent => exact absurd rfl h
  | bare | ready => exact ⟨_, rfl⟩

theorem GuiNet.ready_ne_absent {client : UserClient} : GuiNet.ready client ≠ .absent := by
  rintro ⟨⟩

theorem GuiStep.linked {s s' : GuiState} {ev : GuiEvent} (hl : s.Linked)
    (h : GuiStep box hmac json s ev s') : s'.Linked := by
  have set : s.connect ≠ .waiting → ∀ convo, ∃ client,
      s.gc.client.setConvoHandler convo = .ready client :=
    fun hw convo => GuiNet.ready_of_setConvoHandler (hl.made hw) convo
  have set_ne : s.connect ≠ .waiting → ∀ convo, s.gc.client.setConvoHandler convo ≠ .absent := by
    intro hw convo
    obtain ⟨client, hclient⟩ := set hw convo
    rw [hclient]
    exact GuiNet.ready_ne_absent
  cases h with
  | talk _ _ h =>
      have hclient := (GuiClient.switched_of_some h).client
      exact ⟨fun hw e => hl.made hw (hclient.symm.trans e),
        fun hc => (hl.ready hc).imp fun _ hu => hclient.trans hu⟩
  | install =>
      refine ⟨fun hw => set_ne hw _, fun hc => set (fun e => ?_) _⟩
      simp only [e] at hc
      rcases hc with hc | hc | hc <;> cases hc
  | create => exact ⟨fun _ => by rintro ⟨⟩, by rintro (⟨⟨⟩⟩ | ⟨⟨⟩⟩ | ⟨⟨⟩⟩)⟩
  | choose hconnect | resetConnect hconnect =>
      refine ⟨fun _ => hl.made ?_, by rintro (⟨⟨⟩⟩ | ⟨⟨⟩⟩ | ⟨⟨⟩⟩)⟩
      rw [hconnect]
      rintro ⟨⟩
  | installConnect hconnect =>
      have hw : s.connect ≠ .waiting := by
        rw [hconnect]
        rintro ⟨⟩
      exact ⟨fun _ => set_ne hw _, fun _ => set hw _⟩
  | opened hconnect =>
      obtain ⟨client, hclient⟩ := hl.ready (.inl hconnect)
      exact ⟨fun _ => hclient ▸ GuiNet.ready_ne_absent, fun _ => ⟨client, hclient⟩⟩
  | close hconnect =>
      obtain ⟨client, hclient⟩ := hl.ready (hconnect.imp_right .inl)
      exact ⟨fun _ => hclient ▸ GuiNet.ready_ne_absent, fun _ => ⟨client, hclient⟩⟩
  | enter | find | miss => exact ⟨fun _ => GuiNet.ready_ne_absent, fun _ => ⟨_, rfl⟩⟩
  | _ => exact ⟨hl.made, hl.ready⟩

section Run

variable {pki : PKI} {myName : String} {myPublicKey myPrivateKey : BoxKey} {h : List GuiEvent}
  {s s' : GuiState} {ev : GuiEvent}

theorem GuiState.linked_of_run
    (run : (guiSystem box hmac json pki myName myPublicKey myPrivateKey).Run System.Any h s) :
    s.Linked := by
  refine run.invariant (I := fun _ s => s.Linked) (fun s hs => ?_) fun _ _ _ _ hl _ ht => ?_
  · cases hs
    exact ⟨fun hw => absurd rfl hw, by rintro (⟨⟨⟩⟩ | ⟨⟨⟩⟩ | ⟨⟨⟩⟩)⟩
  · exact ht.2.linked hl

/-- No switch falls between the two steps of `Connect` that read the selected conversation and make
it the handler. -/
def Unhurried (_ : List GuiEvent) (s : GuiState) (ev : GuiEvent) : Prop :=
  ∀ line peer, ev = .typed line → GuiLine.parse line = .talk peer → s.connect.convo? = none

/-- The conversations that are being activated are the one selected, and so is the handler, unless
one is being activated. -/
structure GuiState.Tuned (s : GuiState) : Prop where
  main : ∀ convo, s.main.convo? = some convo → s.gc.selectedConvo = some convo
  connect : ∀ convo, s.connect.convo? = some convo → s.gc.selectedConvo = some convo
  handler : ∀ client, s.gc.client = .ready client → s.main.convo? = none →
    s.connect.convo? = none → s.gc.selectedConvo = some client.convoHandler

theorem GuiNet.convoHandler_of_setConvoHandler {net : GuiNet} {convo : Nat} {client : UserClient}
    (h : net.setConvoHandler convo = .ready client) : client.convoHandler = convo := by
  cases net with
  | absent => cases h
  | bare | ready =>
      cases h
      rfl

theorem GuiStep.tuned (ht : s.Tuned) (hev : Unhurried h s ev)
    (hstep : GuiStep box hmac json s ev s') : s'.Tuned := by
  cases hstep with
  | @talk line peer convo gc hline _ h =>
      have hselected := (GuiClient.switched_of_some h).selected
      refine ⟨fun k hk => ?_, fun k hk => ?_, fun _ _ hk => by cases hk⟩
      · cases hk
        exact hselected
      · cases (hev line peer rfl hline).symm.trans hk
  | checkAbsent _ habsent =>
      exact { ht with
        main := fun _ hk => by cases hk
        handler := fun _ hu => by cases habsent.symm.trans hu }
  | check hmain | reset hmain =>
      refine ⟨fun k hk => ht.main k ?_, ht.connect, fun _ _ hk => by cases hk⟩
      rw [hmain]
      exact hk
  | install hmain =>
      have hselected := ht.main _ (by rw [hmain]; rfl)
      refine ⟨by rintro _ ⟨⟩, ht.connect, fun u hu _ _ => ?_⟩
      rw [GuiNet.convoHandler_of_setConvoHandler hu]
      exact hselected
  | create =>
      exact ⟨ht.main, by rintro _ ⟨⟩, by rintro _ ⟨⟩⟩
  | choose _ hselected =>
      refine ⟨ht.main, fun k hk => ?_, fun _ _ _ hk => by cases hk⟩
      cases hk
      exact hselected
  | resetConnect hconnect =>
      refine ⟨ht.main, fun k hk => ht.connect k ?_, fun _ _ _ hk => by cases hk⟩
      rw [hconnect]
      exact hk
  | installConnect hconnect =>
      have hselected := ht.connect _ (by rw [hconnect]; rfl)
      refine ⟨ht.main, by rintro _ ⟨⟩, fun u hu _ _ => ?_⟩
      rw [GuiNet.convoHandler_of_setConvoHandler hu]
      exact hselected
  | opened hconnect =>
      exact ⟨ht.main, by rintro _ ⟨⟩, fun u hu hm _ => ht.handler u hu hm
        (by rw [hconnect]; rfl)⟩
  | close hconnect =>
      refine ⟨ht.main, by rintro _ ⟨⟩, fun u hu hm _ => ht.handler u hu hm ?_⟩
      rcases hconnect with hc | hc <;> rw [hc] <;> rfl
  | enter _ hclient | find _ hclient | miss _ hclient =>
      have hold := ht.handler _ hclient
      refine { ht with handler := fun u hu => ?_ }
      cases hu
      exact hold
  | _ => exact ⟨ht.main, ht.connect, ht.handler⟩

theorem GuiState.tuned_of_run
    (run : (guiSystem box hmac json pki myName myPublicKey myPrivateKey).Run Unhurried h s) :
    s.Tuned := by
  refine run.invariant (I := fun _ s => s.Tuned) (fun s hs => ?_) fun _ _ _ _ hI hev hstep => ?_
  · cases hs
    refine ⟨by rintro _ ⟨⟩, by rintro _ ⟨⟩, fun client hclient => ?_⟩
    rw [GuiState.start, GuiClient.run] at hclient
    split at hclient
    · cases hclient
    · rename_i hswitch
      cases (GuiClient.switched_of_some hswitch).client.symm.trans hclient
  · exact hstep.2.tuned hI hev

end Run

/-! ### A user to look at -/

/-- A PKI with two people. -/
def peoplePki : PKI :=
  { samplePki with people := [("alice", sampleKey 1), ("bob", sampleKey 2)] }

/-- What the entry server sends to announce round 5. -/
def sampleAnnounce : Envelope := ⟨msgAnnounceConvoRound, putUint32 5⟩

/-- The client of alice. -/
def sampleGui : System GuiState GuiEvent :=
  guiSystem roleBox sampleHmac sampleJson peoplePki "alice" (sampleKey 1) (sampleKey 1)

/-- The lines alice types. -/
def sampleTalkLine : List Char := "/talk bob".toList

def sampleTextLine : List Char := "hi".toList

theorem parse_sampleTalkLine : GuiLine.parse sampleTalkLine = .talk "bob" := by decide +kernel

theorem parse_sampleTextLine : GuiLine.parse sampleTextLine = .text [104, 105] := by decide +kernel

/-- Alice switches to bob, types a text, and is connected; round 5 is announced. -/
theorem sampleGui_announced : ∃ (h : List GuiEvent) (s : GuiState) (client : UserClient),
    sampleGui.Run Unhurried h s ∧
    h = [.typed sampleTalkLine, .internal, .typed sampleTextLine, .internal, .internal,
      .internal, .internal, .internal, .received sampleAnnounce] ∧
    s.up = true ∧ s.connect = .opened ∧ s.pool = [] ++ [.start (.announceConvoRound ⟨5⟩)] ∧
    s.gc.client = .ready client ∧ client.convoHandler = 1 ∧ s.gc.peerName 1 = "bob" ∧
    (s.gc.convos 1).outQueue = [[104, 105]] ∧ s.main = .idle := by
  have run₀ : sampleGui.Run Unhurried [] _ := .init rfl
  have run₁ := run₀.step (fun _ _ _ _ => rfl) (l := .typed sampleTalkLine)
    ⟨rfl, .talk parse_sampleTalkLine rfl rfl⟩
  have run₂ := run₁.step (by rintro _ _ ⟨⟩) ⟨rfl, .checkAbsent rfl rfl⟩
  have run₃ := run₂.step (fun _ _ _ _ => rfl) (l := .typed sampleTextLine)
    ⟨rfl, .text (by decide) parse_sampleTextLine rfl rfl rfl⟩
  have run₄ := run₃.step (by rintro _ _ ⟨⟩) ⟨rfl, .create rfl⟩
  have run₅ := run₄.step (by rintro _ _ ⟨⟩) ⟨rfl, .choose rfl rfl⟩
  have run₆ := run₅.step (by rintro _ _ ⟨⟩) ⟨rfl, .resetConnect rfl⟩
  have run₇ := run₆.step (by rintro _ _ ⟨⟩) ⟨rfl, .installConnect rfl⟩
  have run₈ := run₇.step (by rintro _ _ ⟨⟩) ⟨rfl, .opened rfl⟩
  have run₉ := run₈.step (by rintro _ _ ⟨⟩) (l := .received sampleAnnounce) ⟨rfl, .receive rfl rfl⟩
  exact ⟨_, _, _, run₉, rfl, rfl, rfl, rfl, rfl, rfl, rfl, rfl, rfl⟩

/-- The text is sealed, and sent. -/
theorem sampleGui_asks : ∃ (h : List GuiEvent) (s : GuiState) (call : SealCall) (v : Message),
    sampleGui.Run System.Any h s ∧
    h = [.typed sampleTalkLine, .internal, .typed sampleTextLine, .internal, .internal,
      .internal, .internal, .internal, .received sampleAnnounce, .internal,
      .requested "bob" 5 (.text [104, 105]) call, .sent v] := by
  obtain ⟨h, s, client, run, rfl, hup, hopened, hpool, hclient, hconvo, hpeer, hqueue, -⟩ :=
    sampleGui_announced
  have run₁ := (run.mono fun _ _ _ _ => trivial).step trivial ⟨hup, .enter hpool hclient⟩
  have hconvo₁ : (client.enterRound 5).convoHandler = 1 := hconvo
  have run₂ := run₁.step trivial ⟨hup, .ask rfl rfl hconvo₁ sampleRequest 0⟩
  have run₃ := run₂.step trivial ⟨hup, .send rfl hopened⟩
  have hbody : ((s.gc.convos 1).nextBody 0).1 = .text [104, 105] := by
    rw [Conversation.nextBody, hqueue]
  refine ⟨_, _, (s.gc.convos 1).nextSeal 0 5, .convoRequest
    ((s.gc.convos 1).nextConvoRequest roleBox sampleHmac sampleRequest 0 5).1, run₃, ?_⟩
  rw [← hbody]
  simp only [hpeer]
  rfl

/-! ### The screen -/

section Run

variable {pki : PKI} {myName : String} {myPublicKey myPrivateKey : BoxKey} {h : List GuiEvent}
  {s : GuiState}

/-- **The conversation that asks is the one on the screen.**  Once the client is connected, and
whenever the main loop waits for a line, the handler of the client is the conversation selected,
unless the user switched while `Connect` was between reading and setting it. -/
theorem handler_selected
    (run : (guiSystem box hmac json pki myName myPublicKey myPrivateKey).Run Unhurried h s)
    (hmain : s.main = .idle) (hconnect : s.connect = .opened) :
    ∃ client, s.gc.client = .ready client ∧ s.gc.selectedConvo = some client.convoHandler := by
  obtain ⟨client, hclient⟩ := (GuiState.linked_of_run
    (run.mono fun _ _ _ _ => trivial)).ready (.inr (.inl hconnect))
  refine ⟨client, hclient, (GuiState.tuned_of_run run).handler client hclient ?_ ?_⟩
  · rw [hmain]
    rfl
  · rw [hconnect]
    rfl

end Run

theorem handler_selected_sample : ∃ (h : List GuiEvent) (s : GuiState) (client : UserClient),
    sampleGui.Run Unhurried h s ∧ s.gc.client = .ready client ∧
    s.gc.selectedConvo = some client.convoHandler ∧ s.gc.peerName client.convoHandler = "bob" := by
  obtain ⟨h, s, client, run, -, -, hopened, -, hclient, hconvo, hpeer, -, hmain⟩ :=
    sampleGui_announced
  obtain ⟨client', hclient', hselected⟩ := handler_selected run hmain hopened
  cases hclient.symm.trans hclient'
  exact ⟨h, s, client, run, hclient, hselected, hconvo ▸ hpeer⟩

/-- A switch that is hurried: the screen shows bob, and the rounds go on with alice herself. -/
theorem hurried_switch : ∃ (h : List GuiEvent) (s : GuiState) (client : UserClient),
    sampleGui.Run System.Any h s ∧ s.main = .idle ∧ s.connect = .opened ∧
    s.gc.client = .ready client ∧ s.gc.selectedConvo = some 1 ∧ s.gc.peerName 1 = "bob" ∧
    client.convoHandler = 0 ∧ s.gc.peerName 0 = "alice" := by
  have run₀ : sampleGui.Run System.Any [] _ := .init rfl
  have run₁ := run₀.step trivial ⟨rfl, .create rfl⟩
  have run₂ := run₁.step trivial ⟨rfl, .choose rfl rfl⟩
  have run₃ := run₂.step trivial ⟨rfl, .resetConnect rfl⟩
  have run₄ := run₃.step trivial (l := .typed sampleTalkLine)
    ⟨rfl, .talk parse_sampleTalkLine rfl rfl⟩
  have run₅ := run₄.step trivial ⟨rfl, .check rfl (by rintro ⟨⟩)⟩
  have run₆ := run₅.step trivial ⟨rfl, .reset rfl⟩
  have run₇ := run₆.step trivial ⟨rfl, .install rfl⟩
  have run₈ := run₇.step trivial ⟨rfl, .installConnect rfl⟩
  have run₉ := run₈.step trivial ⟨rfl, .opened rfl⟩
  exact ⟨_, _, _, run₉, rfl, rfl, rfl, rfl, rfl, rfl, rfl⟩

end Vuvuzela
