import Vuvuzela.Client.Texts
import Vuvuzela.Client.Authentic
import Mathlib.Data.Fintype.EquivFin

/-!
# Client — the whole client runs as the client

`guiSystem` is the client with its user, with `Connect` and with the dialing; `clientSystem` has
what of it deals with conversations, and the properties of conversations are proved of it.  Every
run of the first is a run of the second (**`client_of_gui`**): with the same texts queued, calls of
`box.Seal`, requests sent and responses handled, in the same order.

The relation of the two states (`Follows`) is kept by every step of the whole client, with one step
of the client or with none (`GuiStep.followed`).  A goroutine of the first that has come to a call
on the client has a place in the pool of the second.  Two things differ.  The client has all its
conversations from the start: they are those that the whole client has made when the run ends.  And
`activateConvo` resets the status of a conversation, of which the client knows nothing; what is
sealed, sent or shown does not depend on it (`Conversation.Alike`).

So what is proved of every run of the client holds of the whole client.  Two users who talk to each
other never seal with the same nonce, whatever else they type (`gui_nonces_apart`).
-/

namespace Vuvuzela
open Support

variable {box : NaclBox} {hmac : Hmac} {json : Json}

/-! ### Conversations up to their status -/

namespace Conversation

variable {c c' d : Conversation} {now : Time} {round : UInt32}

/-- The same conversation, but for the status that `activateConvo` resets. -/
def Alike (c c' : Conversation) : Prop :=
  ∃ responding latency,
    c' = { c with lastPeerResponding := responding, lastLatency := latency }

theorem Alike.refl (c : Conversation) : c.Alike c := ⟨_, _, rfl⟩

theorem Alike.reset (h : c.Alike c') (responding : Bool) (latency : Int) :
    Alike { c with lastPeerResponding := responding, lastLatency := latency } c' := by
  obtain ⟨responding', latency', rfl⟩ := h
  exact ⟨responding', latency', rfl⟩

theorem Alike.identity (h : c.Alike c') : c'.identity = c.identity := by
  obtain ⟨_, _, rfl⟩ := h
  rfl

theorem Alike.queueTextMessage (h : c.Alike c') {msg : Bytes}
    (hd : c.queueTextMessage msg = some d) :
    ∃ d', c'.queueTextMessage msg = some d' ∧ d.Alike d' := by
  obtain ⟨responding, latency, rfl⟩ := h
  rw [Conversation.queueTextMessage, Option.ite_none_right_eq_some] at hd
  obtain ⟨hroom, hd⟩ := hd
  cases hd
  exact ⟨_, if_pos hroom, responding, latency, rfl⟩

theorem Alike.nextSeal (h : c.Alike c') : c'.nextSeal now round = c.nextSeal now round := by
  obtain ⟨_, _, rfl⟩ := h
  simp only [Conversation.nextSeal, nextBody]
  split <;> rfl

theorem Alike.nextConvoRequest (h : c.Alike c') (coins : RequestCoins) :
    (c'.nextConvoRequest box hmac coins now round).1 =
        (c.nextConvoRequest box hmac coins now round).1 ∧
      (c.nextConvoRequest box hmac coins now round).2.Alike
        (c'.nextConvoRequest box hmac coins now round).2 := by
  obtain ⟨responding, latency, rfl⟩ := h
  simp only [Conversation.nextConvoRequest, nextBody]
  split
  · exact ⟨rfl, responding, latency, rfl⟩
  · exact ⟨rfl, responding, latency, rfl⟩

/-- What `HandleConvoResponse` does depends only on what it opens, and it leaves a status of its
own. -/
theorem Alike.handleConvoResponse (h : c.Alike c') (r : ConvoResponse) :
    (∀ text d, c.handleConvoResponse box now r = .ok (text, d) →
      ∃ d', c'.handleConvoResponse box now r = .ok (text, d') ∧ d.Alike d') ∧
    ∀ p, c.handleConvoResponse box now r = .error p →
      c'.handleConvoResponse box now r = .error p := by
  obtain ⟨responding, latency, rfl⟩ := h
  have hplain : plaintext box
      { c with lastPeerResponding := responding, lastLatency := latency } r =
        c.plaintext box r := rfl
  rw [handleConvoResponse_eq, handleConvoResponse_eq, hplain]
  cases c.plaintext box r with
  | none =>
      refine ⟨fun text d hd => ?_, by rintro p ⟨⟩⟩
      cases hd
      exact ⟨_, rfl, false, latency, rfl⟩
  | some msgdata =>
      dsimp only
      cases ConvoMessage.unmarshal msgdata with
      | error p => exact ⟨by rintro text d ⟨⟩, fun p hp => hp⟩
      | ok msg =>
          refine ⟨fun text d hd => ?_, by cases msg <;> rintro p ⟨⟩⟩
          cases msg with
          | none =>
              cases hd
              exact ⟨_, rfl, false, latency, rfl⟩
          | some msg =>
              cases msg with
              | text message =>
                  cases hd
                  exact ⟨_, rfl, true, latency, rfl⟩
              | timestamp unix =>
                  cases hd
                  exact ⟨_, rfl, true, _, rfl⟩

end Conversation

/-! ### Goroutines and their places -/

/-- Where the goroutine of a message is for the client. -/
def Task.At : Task → Goroutine → Prop
  | .asking round, g => g = .announced round
  | .sending (.convoRequest request), g => ∃ convo, g = .requested convo request
  | .delivering convo response, g => g = .delivering convo response
  | _, g => g = .done

/-- Every goroutine has a place of its own, and there are free places. -/
def Placed (pool : List Task) (places : Nat → Goroutine) : Prop :=
  ∃ l : List (Task × Nat), l.map Prod.fst = pool ∧ (l.map Prod.snd).Nodup ∧
    (∀ p ∈ l, p.1.At (places p.2)) ∧ ∃ n, ∀ i, n ≤ i → places i = .done

namespace Placed

variable {pool before after : List Task} {places : Nat → Goroutine} {t : Task}

theorem nil (h : ∀ i, places i = .done) : Placed [] places :=
  ⟨[], rfl, List.nodup_nil, by rintro p ⟨⟩, 0, fun i _ => h i⟩

theorem add (h : Placed pool places) (ht : t.At .done) : Placed (pool ++ [t]) places := by
  obtain ⟨l, rfl, hnodup, hat, n, hfree⟩ := h
  -- a place beyond those in use
  obtain ⟨i, hi⟩ := Infinite.exists_notMem_finset (Finset.range n ∪ (l.map Prod.snd).toFinset)
  rw [Finset.mem_union, not_or, Finset.mem_range, List.mem_toFinset] at hi
  refine ⟨l ++ [(t, i)], by simp, ?_, fun p hp => ?_, n, hfree⟩
  · rw [List.map_append, List.map_singleton, ← List.concat_eq_append, List.nodup_concat]
    exact ⟨hi.2, hnodup⟩
  · rcases List.mem_append.mp hp with hp | hp
    · exact hat p hp
    · cases List.mem_singleton.mp hp
      rw [hfree i (Nat.not_lt.mp hi.1)]
      exact ht

/-- The place of a goroutine: it goes on there, or ends there, and the others stay where they
are. -/
theorem task (h : Placed (before ++ t :: after) places) :
    ∃ i, t.At (places i) ∧
      (∀ t' g, t'.At g → Placed (before ++ t' :: after) (Function.update places i g)) ∧
      ∀ g, Placed (before ++ after) (Function.update places i g) := by
  obtain ⟨l, hpool, hnodup, hat, n, hfree⟩ := h
  obtain ⟨l₁, rest, rfl, rfl, hrest⟩ := List.map_eq_append_iff.mp hpool
  obtain ⟨⟨t, i⟩, l₂, rfl, rfl, rfl⟩ := List.map_eq_cons_iff.mp hrest
  rw [List.map_append, List.map_cons, List.nodup_middle, ← List.map_append,
    List.nodup_cons] at hnodup
  obtain ⟨hnot, hnodup⟩ := hnodup
  have hothers : ∀ g, ∀ p ∈ l₁ ++ l₂, p.1.At (Function.update places i g p.2) := by
    intro g p hp
    have hne : p.2 ≠ i := fun e => hnot (List.mem_map.mpr ⟨p, hp, e⟩)
    rw [Function.update_of_ne hne]
    refine hat p ?_
    rcases List.mem_append.mp hp with hp | hp
    · exact List.mem_append_left _ hp
    · exact List.mem_append_right _ (List.mem_cons_of_mem _ hp)
  have hbeyond : ∀ g, ∃ n, ∀ j, n ≤ j → Function.update places i g j = .done := by
    refine fun g => ⟨max n (i + 1), fun j hj => ?_⟩
    rw [Function.update_of_ne (by omega)]
    exact hfree j (by omega)
  refine ⟨i, hat (t, i) (by simp), fun t' g ht' => ?_, fun g => ?_⟩
  · refine ⟨l₁ ++ (t', i) :: l₂, by simp, ?_, fun p hp => ?_, hbeyond g⟩
    · rw [List.map_append, List.map_cons, List.nodup_middle, ← List.map_append, List.nodup_cons]
      exact ⟨hnot, hnodup⟩
    · rw [List.mem_append, List.mem_cons, or_left_comm, ← List.mem_append] at hp
      rcases hp with rfl | hp
      · rw [Function.update_self]
        exact ht'
      · exact hothers g p hp
  · exact ⟨l₁ ++ l₂, by simp, hnodup, hothers g, hbeyond g⟩

/-- A goroutine goes on where the client does not look. -/
theorem replace (h : Placed (before ++ t :: after) places) {t' : Task}
    (ht : ∀ g, t.At g → t'.At g) : Placed (before ++ t' :: after) places := by
  obtain ⟨i, hi, hreplace, -⟩ := h.task
  have hplaced := hreplace t' (places i) (ht _ hi)
  rwa [Function.update_eq_self] at hplaced

/-- A goroutine is gone, and its place is left as it is. -/
theorem drop (h : Placed (before ++ t :: after) places) : Placed (before ++ after) places := by
  obtain ⟨i, -, -, hdrop⟩ := h.task
  have hplaced := hdrop (places i)
  rwa [Function.update_eq_self] at hplaced

end Placed

/-! ### The relation of the states -/

/-- What both systems show of a step. -/
inductive Seen where
  | queued (msg : Bytes)
  | sealed (round : UInt32) (call : SealCall)
  | sent (request : ConvoRequest)
  | handled (response : ConvoResponse) (text : Option Bytes)

def GuiEvent.seen : GuiEvent → Option Seen
  | .typed line =>
      match GuiLine.parse line with
      | .text msg => some (.queued msg)
      | .quit | .talk _ | .dial _ => none
  | .requested _ round _ call => some (.sealed round call)
  | .sent (.convoRequest request) => some (.sent request)
  | .handled _ response text => some (.handled response text)
  | _ => none

def ClientEvent.seen : ClientEvent → Option Seen
  | .queued _ msg => some (.queued msg)
  | .requested _ round call => some (.sealed round call)
  | .sent _ request => some (.sent request)
  | .handled _ response text => some (.handled response text)
  | _ => none

/-- The client of a `GuiClient`; as long as it has no handler, it has no rounds. -/
def GuiNet.Of : GuiNet → UserClient → Prop
  | .ready client, c => c = client
  | .absent, c | .bare, c => ∃ convo, c = UserClient.new convo

/-- The conversations `K` were like those that were made, when they were made. -/
def GuiClient.Opens (gc : GuiClient) (K : Nat → Conversation) : Prop :=
  ∀ k < gc.made,
    K k = .init gc.pki (gc.convos k).peerPublicKey gc.myPublicKey gc.myPrivateKey

/-- The state of the client, where the conversations that are yet to be made are those in `K`. -/
structure Follows (K : Nat → Conversation) (s : GuiState) (c : ClientState) : Prop where
  up : s.up = true → c.up = true
  client : s.gc.client.Of c.client
  waiting : s.connect = .waiting → s.gc.client = .absent
  made : ∀ k < s.gc.made, (s.gc.convos k).Alike (c.convos k)
  unmade : ∀ k, s.gc.made ≤ k → c.convos k = K k
  pool : Placed s.pool c.pool

section Step

variable {K : Nat → Conversation} {s s' : GuiState} {c : ClientState} {ev : GuiEvent}

/-- Calls on a conversation that leave it like the one of the client. -/
theorem Follows.alike_update (hR : Follows K s c) {convo : Nat} {d d' : Conversation}
    (hd : d.Alike d') :
    ∀ k < s.gc.made, (Function.update s.gc.convos convo d k).Alike
      (Function.update c.convos convo d' k) := by
  intro k hk
  by_cases e : k = convo
  · rw [e, Function.update_self, Function.update_self]
    exact hd
  · rw [Function.update_of_ne e, Function.update_of_ne e]
    exact hR.made k hk

theorem Follows.unmade_update (hR : Follows K s c) {convo : Nat} (hconvo : convo < s.gc.made)
    (d' : Conversation) : ∀ k, s.gc.made ≤ k → Function.update c.convos convo d' k = K k := by
  intro k hk
  rw [Function.update_of_ne (hconvo.trans_le hk).ne']
  exact hR.unmade k hk

/-- The status of a conversation is reset. -/
theorem Follows.made_reset (hR : Follows K s c) (convo : Nat) :
    ∀ k < (s.gc.resetStatus convo).made,
      ((s.gc.resetStatus convo).convos k).Alike (c.convos k) := by
  intro k hk
  simp only [GuiClient.resetStatus]
  by_cases e : k = convo
  · rw [e, Function.update_self]
    exact (hR.made convo (e ▸ hk)).reset false 0
  · rw [Function.update_of_ne e]
    exact hR.made k hk

/-- A switch makes one conversation at most, and it is the one that is next. -/
theorem Follows.switched (hR : Follows K s c) {peer : String} {convo : Nat} {gc : GuiClient}
    (h : GuiClient.Switched s.gc peer convo gc) (hK : gc.Opens K) :
    gc.client = s.gc.client ∧ (∀ k < gc.made, (gc.convos k).Alike (c.convos k)) ∧
      ∀ k, gc.made ≤ k → c.convos k = K k := by
  cases h with
  | found => exact ⟨rfl, hR.made, hR.unmade⟩
  | @made key hnone hkey =>
      refine ⟨rfl, fun k hk => ?_, fun k hk => hR.unmade k (Nat.le_of_succ_le hk)⟩
      by_cases e : k = s.gc.made
      · subst e
        have hnew := hK s.gc.made (Nat.lt_succ_self _)
        simp only [Function.update_self] at hnew ⊢
        rw [hR.unmade s.gc.made le_rfl, hnew]
        exact .refl _
      · simp only [Function.update_of_ne e]
        exact hR.made k (Nat.lt_of_le_of_ne (Nat.le_of_lt_succ hk) e)

/-- The handler is set, where there is a client. -/
theorem Follows.handler_set (hR : Follows K s c) (convo : Nat) :
    (s.gc.client = .absent ∧ (s.gc.client.setConvoHandler convo).Of c.client) ∨
      (s.gc.client.setConvoHandler convo).Of (c.client.setConvoHandler convo) := by
  have hclient := hR.client
  cases hnet : s.gc.client with
  | absent =>
      rw [hnet] at hclient
      exact .inl ⟨rfl, hclient⟩
  | bare =>
      rw [hnet] at hclient
      obtain ⟨k, hk⟩ := hclient
      rw [hk]
      exact .inr rfl
  | ready client =>
      rw [hnet] at hclient
      obtain rfl : c.client = client := hclient
      exact .inr rfl

theorem Follows.client_eq (hR : Follows K s c) {client : UserClient}
    (h : s.gc.client = .ready client) : c.client = client := by
  have hclient := hR.client
  rw [h] at hclient
  exact hclient

/-- `Connect` makes the client when it starts. -/
theorem Follows.not_waiting (hR : Follows K s c) {client : UserClient}
    (h : s.gc.client = .ready client) (hwaiting : s.connect = .waiting) : False := by
  rw [hR.waiting hwaiting] at h
  cases h

/-- The client takes one step, or none, and shows the same. -/
def Echoed (box : NaclBox) (hmac : Hmac) (c : ClientState) (ev : GuiEvent) (c' : ClientState) :
    Prop :=
  (ev.seen = none ∧ c' = c) ∨ ∃ ev', ClientStep box hmac c ev' c' ∧ ev'.seen = ev.seen

theorem Echoed.idle (h : ev.seen = none) : Echoed box hmac c ev c := .inl ⟨h, rfl⟩

/-- What is typed and not a text. -/
theorem GuiEvent.seen_typed {line : List Char} (h : ∀ msg, GuiLine.parse line ≠ .text msg) :
    (GuiEvent.typed line).seen = none := by
  rw [GuiEvent.seen]
  split
  · rename_i msg hline
    exact absurd hline (h msg)
  · rfl
  · rfl
  · rfl

/-- **One step.** -/
theorem GuiStep.followed (hw : s.Within s.gc.made)
    (h : GuiStep box hmac json s ev s') (hR : Follows K s c) (hK : s'.gc.Opens K) :
    ∃ c', Echoed box hmac c ev c' ∧ Follows K s' c' := by
  cases h with
  -- the user
  | quit hline =>
      refine ⟨c, .idle (GuiEvent.seen_typed fun msg e => ?_), { hR with up := by rintro ⟨⟩ }⟩
      cases hline.symm.trans e
  | talk hline _ hswitch =>
      obtain ⟨hclient, hmade, hunmade⟩ := hR.switched (GuiClient.switched_of_some hswitch) hK
      refine ⟨c, .idle (GuiEvent.seen_typed fun msg e => ?_), hR.up, ?_, fun hw => ?_, hmade,
        hunmade, hR.pool⟩
      · cases hline.symm.trans e
      · exact hclient ▸ hR.client
      · exact hclient.trans (hR.waiting hw)
  | talkUnknown hline | dialUnknown hline =>
      refine ⟨c, .idle (GuiEvent.seen_typed fun msg e => ?_), hR⟩
      cases hline.symm.trans e
  | dial hline =>
      refine ⟨c, .idle (GuiEvent.seen_typed fun msg e => ?_), { hR with }⟩
      cases hline.symm.trans e
  | @text line msg convo d _ hline _ hselected hqueue =>
      have hconvo := hw.selected convo hselected
      obtain ⟨d', hqueue', hd⟩ := (hR.made convo hconvo).queueTextMessage hqueue
      refine ⟨_, .inr ⟨_, .queue hqueue', ?_⟩, hR.up, hR.client, hR.waiting, hR.alike_update hd,
        hR.unmade_update hconvo d', hR.pool⟩
      simp only [ClientEvent.seen, GuiEvent.seen, hline]
  -- steps that are not the client's
  | textNil | chooseNil | askDialPanic =>
      exact ⟨c, .idle rfl, { hR with up := by rintro ⟨⟩ }⟩
  | checkAbsent | check => exact ⟨c, .idle rfl, { hR with }⟩
  | choose | opened | close =>
      exact ⟨c, .idle rfl, { hR with waiting := by rintro ⟨⟩ }⟩
  | refuse => exact ⟨c, .idle rfl, hR⟩
  | create hconnect =>
      have hclient := hR.client
      rw [hR.waiting hconnect] at hclient
      exact ⟨c, .idle rfl, { hR with client := hclient, waiting := by rintro ⟨⟩ }⟩
  | receive => exact ⟨c, .idle rfl, { hR with pool := hR.pool.add rfl }⟩
  | askDial hpool =>
      exact ⟨c, .idle rfl, { hR with pool := (hpool ▸ hR.pool).replace fun _ h => h }⟩
  | bucket hpool | pass hpool | drop hpool =>
      exact ⟨c, .idle rfl, { hR with pool := (hpool ▸ hR.pool).drop }⟩
  -- `activateConvo`
  | @reset convo => exact ⟨c, .idle rfl, { hR with made := hR.made_reset convo }⟩
  | @resetConnect convo =>
      exact ⟨c, .idle rfl, { hR with made := hR.made_reset convo, waiting := by rintro ⟨⟩ }⟩
  | @install convo =>
      have hwaiting : s.connect = .waiting → s.gc.client.setConvoHandler convo = .absent := by
        intro hconnect
        rw [hR.waiting hconnect]
        rfl
      rcases hR.handler_set convo with ⟨-, hclient⟩ | hclient
      · exact ⟨c, .idle rfl, { hR with client := hclient, waiting := hwaiting }⟩
      · exact ⟨_, .inr ⟨_, .switch convo, rfl⟩,
          { hR with client := hclient, waiting := hwaiting }⟩
  | @installConnect convo =>
      rcases hR.handler_set convo with ⟨-, hclient⟩ | hclient
      · exact ⟨c, .idle rfl, { hR with client := hclient, waiting := by rintro ⟨⟩ }⟩
      · exact ⟨_, .inr ⟨_, .switch convo, rfl⟩,
          { hR with client := hclient, waiting := by rintro ⟨⟩ }⟩
  -- `handleResponse`
  | @enter before after v client hpool hclient =>
      obtain ⟨i, hi, hreplace, -⟩ := (hpool ▸ hR.pool).task
      obtain rfl := hR.client_eq hclient
      exact ⟨_, .inr ⟨_, .announce hi v.round, rfl⟩,
        { hR with
          client := rfl
          waiting := fun hw => (hR.not_waiting hclient hw).elim
          pool := hreplace _ _ rfl }⟩
  | @ask before after round client convo hpool hclient hconvo coins now =>
      obtain ⟨i, hi, hreplace, -⟩ := (hpool ▸ hR.pool).task
      obtain rfl := hR.client_eq hclient
      have hlt : convo < s.gc.made := hconvo ▸ hw.handler _ hclient
      obtain ⟨hrequest, hd⟩ := (hR.made convo hlt).nextConvoRequest coins
      refine ⟨_, .inr ⟨_, .request hi hconvo coins now, ?_⟩, hR.up, hR.client, hR.waiting,
        hR.alike_update hd, hR.unmade_update hlt _, hreplace _ _ ⟨convo, ?_⟩⟩
      · simp only [ClientEvent.seen, GuiEvent.seen, (hR.made convo hlt).nextSeal]
      · rw [hrequest]
  | @find before after response client convo hpool hclient hfound =>
      obtain ⟨i, hi, hreplace, -⟩ := (hpool ▸ hR.pool).task
      obtain rfl := hR.client_eq hclient
      exact ⟨_, .inr ⟨_, .find hi hfound, rfl⟩,
        { hR with
          client := rfl
          waiting := fun hw => (hR.not_waiting hclient hw).elim
          pool := hreplace _ _ rfl }⟩
  | @miss before after response client hpool hclient hfound =>
      obtain rfl := hR.client_eq hclient
      exact ⟨_, .inr ⟨_, .miss hfound, rfl⟩,
        { hR with
          client := rfl
          waiting := fun hw => (hR.not_waiting hclient hw).elim
          pool := (hpool ▸ hR.pool).drop }⟩
  | @handle before after convo response now text d hpool hres =>
      obtain ⟨i, hi, -, hdrop⟩ := (hpool ▸ hR.pool).task
      have hlt : convo < s.gc.made := hw.task hpool rfl
      obtain ⟨d', hres', hd⟩ := ((hR.made convo hlt).handleConvoResponse response).1 text d hres
      exact ⟨_, .inr ⟨_, .handle hi now hres', rfl⟩, hR.up, hR.client, hR.waiting,
        hR.alike_update hd, hR.unmade_update hlt d', hdrop _⟩
  | @handlePanic before after convo response now p hpool hres =>
      obtain ⟨i, hi, -, -⟩ := (hpool ▸ hR.pool).task
      have hlt : convo < s.gc.made := hw.task hpool rfl
      have hres' := ((hR.made convo hlt).handleConvoResponse response).2 p hres
      exact ⟨_, .inr ⟨_, .crash hi now hres', rfl⟩, { hR with up := by rintro ⟨⟩ }⟩
  | @send before after v hpool =>
      obtain ⟨i, hi, -, hdrop⟩ := (hpool ▸ hR.pool).task
      cases v with
      | convoRequest request =>
          obtain ⟨convo, hi⟩ := hi
          exact ⟨_, .inr ⟨_, .send hi, rfl⟩, { hR with pool := hdrop _ }⟩
      | _ => exact ⟨c, .idle rfl, { hR with pool := (hpool ▸ hR.pool).drop }⟩

end Step

section Run

variable {pki : PKI} {myName : String} {myPublicKey myPrivateKey : BoxKey} {h : List GuiEvent}
  {s s' : GuiState} {ev : GuiEvent} {K : Nat → Conversation}

/-- More conversations may be made, and those that were keep their keys. -/
theorem GuiStep.peerPublicKey (h : GuiStep box hmac json s ev s') :
    s.gc.made ≤ s'.gc.made ∧ ∀ k < s.gc.made,
      (s'.gc.convos k).peerPublicKey = (s.gc.convos k).peerPublicKey := by
  have hupd : ∀ {convo : Nat} {d : Conversation}, d.identity = (s.gc.convos convo).identity →
      ∀ k < s.gc.made, (Function.update s.gc.convos convo d k).peerPublicKey =
        (s.gc.convos k).peerPublicKey := by
    intro convo d hd k _
    by_cases e : k = convo
    · rw [e, Function.update_self]
      exact congrArg (fun i => i.2.1) hd
    · rw [Function.update_of_ne e]
  cases h with
  | talk _ _ hswitch =>
      have hswitch := GuiClient.switched_of_some hswitch
      refine ⟨hswitch.made_le, fun k hk => ?_⟩
      cases hswitch with
      | found => rfl
      | made => simp only [Function.update_of_ne hk.ne]
  | text _ _ _ _ hqueue => exact ⟨le_rfl, hupd (Conversation.identity_queueTextMessage hqueue)⟩
  | reset | resetConnect => exact ⟨le_rfl, hupd rfl⟩
  | ask => exact ⟨le_rfl, hupd (Conversation.identity_nextConvoRequest _ _)⟩
  | handle _ hres => exact ⟨le_rfl, hupd (Conversation.handled_of_ok hres).identity⟩
  | _ => exact ⟨le_rfl, fun _ _ => rfl⟩

theorem GuiStep.opens (h : GuiStep box hmac json s ev s') (hK : s'.gc.Opens K) :
    s.gc.Opens K := by
  obtain ⟨hpki, hmy, hmy'⟩ := h.user
  obtain ⟨hmade, hkeys⟩ := h.peerPublicKey
  intro k hk
  rw [hK k (hk.trans_le hmade), hpki, hmy, hmy', hkeys k hk]

/-- The conversations at the end of a run, as they were when they were made. -/
def GuiClient.opened (gc : GuiClient) (k : Nat) : Conversation :=
  .init gc.pki (gc.convos k).peerPublicKey gc.myPublicKey gc.myPrivateKey

theorem follows_start (hK : (GuiState.start pki myName myPublicKey myPrivateKey).gc.Opens K) :
    Follows K (GuiState.start pki myName myPublicKey myPrivateKey)
      ⟨.new 0, K, fun _ => .done, true⟩ := by
  have hpool : Placed [] fun _ => .done := .nil fun _ => rfl
  -- no conversation is made yet
  have hnew : Follows K
      ⟨GuiClient.new pki myName myPublicKey myPrivateKey, .idle, .waiting, [], true⟩
      ⟨.new 0, K, fun _ => .done, true⟩ :=
    ⟨fun _ => rfl, ⟨0, rfl⟩, fun _ => rfl, fun _ hk => absurd hk (Nat.not_lt_zero _),
      fun _ _ => rfl, hpool⟩
  rw [GuiState.start, GuiClient.run] at hK ⊢
  split
  · exact hnew
  · rename_i convo gc hsome
    rw [hsome] at hK
    obtain ⟨hclient, hmade, hunmade⟩ := hnew.switched (GuiClient.switched_of_some hsome) hK
    exact ⟨fun _ => rfl, hclient ▸ hnew.client, fun _ => hclient, hmade, hunmade, hpool⟩

/-- **A run**, for conversations that those made in it were like. -/
theorem followed_of_run
    (run : (guiSystem box hmac json pki myName myPublicKey myPrivateKey).Run System.Any h s)
    (hfresh : ∀ k, (K k).Fresh) (hK : s.gc.Opens K) :
    ∃ h' c, (clientSystem box hmac).Run System.Any h' c ∧
      h'.filterMap ClientEvent.seen = h.filterMap GuiEvent.seen ∧ Follows K s c := by
  induction run with
  | init h₀ =>
      cases h₀
      exact ⟨[], _, .init ⟨⟨0, rfl⟩, hfresh, fun _ => rfl, rfl⟩, rfl, follows_start hK⟩
  | @step h s s' ev run _ t ih =>
      obtain ⟨hup, hstep⟩ := t
      obtain ⟨h', c, run', hseen, hR⟩ := ih (hstep.opens hK)
      obtain ⟨c', hmatch, hR'⟩ := hstep.followed (GuiState.serves_of_run run).within hR hK
      rcases hmatch with ⟨hnone, rfl⟩ | ⟨ev', hstep', hev⟩
      · refine ⟨h', c', run', ?_, hR'⟩
        rw [filterMap_concat, hnone, hseen, Option.toList_none, List.append_nil]
      · refine ⟨h' ++ [ev'], c', run'.step trivial ⟨hR.up hup, hstep'⟩, ?_, hR'⟩
        rw [filterMap_concat, filterMap_concat, hseen, hev]

/-- **The whole client runs as the client.**  For every run of the whole client there is a run of
the client in which the same texts are queued, the same calls of `box.Seal` made, the same requests
sent and the same responses handled and texts shown, in the same order; and the conversations the
user has opened are the client's, but for their status. -/
theorem client_of_gui
    (run : (guiSystem box hmac json pki myName myPublicKey myPrivateKey).Run System.Any h s) :
    ∃ h' c, (clientSystem box hmac).Run System.Any h' c ∧
      h'.filterMap ClientEvent.seen = h.filterMap GuiEvent.seen ∧
      (∀ k < s.gc.made, (s.gc.convos k).Alike (c.convos k)) ∧
      ∀ k, (c.convos k).myPublicKey = myPublicKey := by
  obtain ⟨⟨hpki, hmy, hmy'⟩, hsane, -⟩ := GuiState.serves_of_run run
  obtain ⟨h', c, run', hseen, hR⟩ := followed_of_run (K := s.gc.opened) run
    (fun _ => ⟨rfl, fun _ => rfl⟩) fun _ _ => rfl
  refine ⟨h', c, run', hseen, hR.made, fun k => ?_⟩
  by_cases hk : k < s.gc.made
  · obtain ⟨key, -, hid⟩ := hsane.keys k hk
    have hc := (hR.made k hk).identity.trans hid
    exact (congrArg Prod.fst hc).trans hmy
  · rw [hR.unmade k (Nat.not_lt.mp hk)]
    exact hmy

end Run

/-! ### What is sealed -/

section Peers

variable {pki pki' : PKI} {myName myName' : String}
  {myPublicKey myPrivateKey myPublicKey' myPrivateKey' : BoxKey} {h h' : List GuiEvent}
  {s s' : GuiState}

/-- The nonce of a call of `box.Seal`: its last byte is the role towards the peer it is for. -/
theorem gui_nonce
    (run : (guiSystem box hmac json pki myName myPublicKey myPrivateKey).Run System.Any h s)
    {peer : String} {round : UInt32} {body : ConvoMessage} {call : SealCall}
    (hreq : .requested peer round body call ∈ h) :
    ∃ c : Conversation, c.myPublicKey = myPublicKey ∧ c.peerPublicKey = call.peersPublicKey ∧
      call.nonce = convoNonce round c.myRole := by
  obtain ⟨h', c, run', hseen, -, hmy⟩ := client_of_gui run
  have hmem : Seen.sealed round call ∈ h'.filterMap ClientEvent.seen := by
    rw [hseen]
    exact List.mem_filterMap.mpr ⟨_, hreq, rfl⟩
  obtain ⟨ev, hev, hsealed⟩ := List.mem_filterMap.mp hmem
  cases ev with
  | requested convo round call =>
      cases hsealed
      obtain ⟨d, now, hid, hcall⟩ := nextSeal_of_requested run' convo round call hev
      refine ⟨c.convos convo, hmy convo, ?_, nonce_of_requested run' convo round call hev⟩
      rw [hcall]
      exact congrArg (fun i => i.2.1) hid.symm
  | _ => cases hsealed

/-- **Two users who talk to each other** never seal with the same nonce. -/
theorem gui_nonces_apart (hkeys : myPublicKey ≠ myPublicKey')
    (run : (guiSystem box hmac json pki myName myPublicKey myPrivateKey).Run System.Any h s)
    (run' : (guiSystem box hmac json pki' myName' myPublicKey' myPrivateKey').Run System.Any h' s')
    {peer peer' : String} {round round' : UInt32} {body body' : ConvoMessage}
    {call call' : SealCall} (hreq : .requested peer round body call ∈ h)
    (hreq' : .requested peer' round' body' call' ∈ h')
    (hcall : call.peersPublicKey = myPublicKey') (hcall' : call'.peersPublicKey = myPublicKey) :
    call.nonce ≠ call'.nonce := by
  obtain ⟨c, hmy, hpeer, hnonce⟩ := gui_nonce run hreq
  obtain ⟨c', hmy', hpeer', hnonce'⟩ := gui_nonce run' hreq'
  have hrole : c.myRole ≠ c'.myRole := by
    refine myRole_ne ?_ ?_ ?_
    · rw [hmy, hpeer, hcall]
      exact hkeys
    · rw [hmy', hpeer, hcall]
    · rw [hpeer', hcall', hmy]
  rw [hnonce, hnonce']
  exact fun hn => hrole (convoNonce_inj hn).2

end Peers

end Vuvuzela
