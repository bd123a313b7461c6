import Vuvuzela.Client.Steps
import Vuvuzela.Chain.Sample

/-!
# Client — the nonces of a conversation

A conversation seals the message of a round under a nonce made of the round and of its role.  The
roles of two peers differ, so no nonce of the one is a nonce of the other, in any runs of the two
clients.  In a run in which no round is announced twice, no two messages of the client are sealed
under one nonce (`seal_nonces_fresh`).

Nothing in the client remembers the rounds it took part in, so an entry server that announces a
round again gets a second message sealed under the nonce of the first
(`seal_nonce_reused`).
-/

namespace Vuvuzela
open Support

variable {box : NaclBox} {hmac : Hmac}

/-! ### Roles -/

theorem convoNonce_inj {round round' : UInt32} {role role' : UInt8}
    (h : convoNonce round role = convoNonce round' role') : round = round' ∧ role = role' := by
  have h₁ := congrArg Subtype.val h
  simp only [convoNonce] at h₁
  obtain ⟨hround, hrest⟩ := List.append_inj h₁ (by simp)
  exact ⟨putUint32_inj hround, by simpa using hrest⟩

/-- Peers with different keys have different roles. -/
theorem myRole_ne {c c' : Conversation} (hkeys : c.myPublicKey ≠ c.peerPublicKey)
    (hmy : c'.myPublicKey = c.peerPublicKey) (hpeer : c'.peerPublicKey = c.myPublicKey) :
    c.myRole ≠ c'.myRole := by
  have hne : compareBytes c.myPublicKey.1 c.peerPublicKey.1 ≠ 0 := fun h =>
    hkeys (Subtype.ext (compareBytes_eq_zero.mp h))
  have hswap := compareBytes_swap c.myPublicKey.1 c.peerPublicKey.1
  rw [Conversation.myRole, Conversation.myRole, hmy, hpeer, hswap]
  by_cases hlt : compareBytes c.myPublicKey.1 c.peerPublicKey.1 < 0
  · rw [if_pos hlt, if_neg (by omega)]
    decide
  · rw [if_neg hlt, if_pos (by omega)]
    decide

/-! ### The calls of a run -/

/-- The call of `box.Seal` of a step. -/
def ClientEvent.seal? : ClientEvent → Option SealCall
  | .requested _ _ call => some call
  | _ => none

/-- The calls of `box.Seal` of a history, in order. -/
def seals (h : List ClientEvent) : List SealCall := h.filterMap ClientEvent.seal?

theorem seals_concat (h : List ClientEvent) (ev : ClientEvent) :
    seals (h ++ [ev]) = seals h ++ ev.seal?.toList :=
  filterMap_concat ..

theorem mem_seals {h : List ClientEvent} {call : SealCall} :
    call ∈ seals h ↔ ∃ convo round, .requested convo round call ∈ h := by
  rw [seals, List.mem_filterMap]
  constructor
  · rintro ⟨ev, hev, hcall⟩
    cases ev <;> cases hcall
    exact ⟨_, _, hev⟩
  · rintro ⟨convo, round, hev⟩
    exact ⟨_, hev, rfl⟩

/-- The nonce of every call is that of its round and of the role of its conversation, which are
those the conversation has now. -/
theorem nonce_of_requested {C : List ClientEvent → ClientState → ClientEvent → Prop}
    {h : List ClientEvent} {s : ClientState} (run : (clientSystem box hmac).Run C h s) :
    ∀ convo round call, .requested convo round call ∈ h →
      call.nonce = convoNonce round (s.convos convo).myRole := by
  refine run.invariant (I := fun h s => ∀ convo round call, .requested convo round call ∈ h →
    call.nonce = convoNonce round (s.convos convo).myRole) nofun ?_
  rintro h s ev s' ih - ⟨-, hstep⟩ convo round call hmem
  -- a step keeps the roles, so the old calls are as before
  have hrole : ∀ j, ((s'.convos j).myRole) = (s.convos j).myRole := by
    intro j
    have hupd : ∀ {k : Nat} {c : Conversation}, Conversation.SameKeys (s.convos k) c →
        (Function.update s.convos k c j).myRole = (s.convos j).myRole := by
      intro k c hc
      by_cases hj : j = k
      · subst hj
        rw [Function.update_self, hc.myRole]
      · rw [Function.update_of_ne hj]
    cases hstep with
    | queue hq => exact hupd (Conversation.sameKeys_queueTextMessage hq).1
    | request => exact hupd Conversation.sameKeys_nextConvoRequest
    | handle _ now hres => exact hupd (Conversation.handleConvoResponse_frame hres).1
    | _ => rfl
  rw [hrole]
  rcases List.mem_append.mp hmem with hold | hnew
  · exact ih convo round call hold
  · obtain rfl := List.mem_singleton.mp hnew
    cases hstep with
    | request => rfl

/-! ### Rounds announced once -/

/-- A round is announced for the first time. -/
def FreshRounds (h : List ClientEvent) (_ : ClientState) (ev : ClientEvent) : Prop :=
  ∀ round, ev = .announced round → .announced round ∉ h

/-- Every announced round has at most one request, made or to be made. -/
structure RoundsOnce (h : List ClientEvent) (s : ClientState) : Prop where
  open_round : ∀ i round, s.pool i = .announced round →
    .announced round ∈ h ∧ ∀ convo call, .requested convo round call ∉ h
  unique : ∀ i j round, s.pool i = .announced round → s.pool j = .announced round → i = j
  announced : ∀ convo round call, .requested convo round call ∈ h → .announced round ∈ h
  nonce : ∀ convo round call, .requested convo round call ∈ h →
    ∃ role, call.nonce = convoNonce round role
  nodup : ((seals h).map SealCall.nonce).Nodup

namespace RoundsOnce

variable {h : List ClientEvent} {s s' : ClientState} {ev : ClientEvent}

theorem mem_of_quiet (hev : ev.seal? = none) {convo : Nat} {round : UInt32} {call : SealCall}
    (hmem : .requested convo round call ∈ h ++ [ev]) : .requested convo round call ∈ h := by
  rcases List.mem_append.mp hmem with hold | hnew
  · exact hold
  · obtain rfl := List.mem_singleton.mp hnew
    cases hev

/-- A step that makes no request and leaves no goroutine before one. -/
theorem quiet (hI : RoundsOnce h s) (hev : ev.seal? = none)
    (hpool : ∀ i round, s'.pool i = .announced round → s.pool i = .announced round) :
    RoundsOnce (h ++ [ev]) s' where
  open_round i round hi := by
    obtain ⟨hann, hreq⟩ := hI.open_round i round (hpool i round hi)
    exact ⟨List.mem_append_left _ hann,
      fun convo call hmem => hreq convo call (mem_of_quiet hev hmem)⟩
  unique i j round hi hj := hI.unique i j round (hpool i round hi) (hpool j round hj)
  announced convo round call hmem :=
    List.mem_append_left _ (hI.announced convo round call (mem_of_quiet hev hmem))
  nonce convo round call hmem := hI.nonce convo round call (mem_of_quiet hev hmem)
  nodup := by
    rw [seals_concat, hev]
    simpa using hI.nodup

/-- A round that is announced for the first time gets its goroutine. -/
theorem announce (hI : RoundsOnce h s) {i : Nat} {round : UInt32}
    (hfresh : .announced round ∉ h)
    (hpool : s'.pool = Function.update s.pool i (.announced round)) :
    RoundsOnce (h ++ [.announced round]) s' := by
  -- a goroutine that is announced is the new one, or is about another round
  have hold : ∀ j r, s'.pool j = .announced r →
      j = i ∧ r = round ∨ s.pool j = .announced r ∧ r ≠ round := by
    intro j r hj
    rw [hpool] at hj
    by_cases hji : j = i
    · subst hji
      rw [Function.update_self] at hj
      cases hj
      exact .inl ⟨rfl, rfl⟩
    · rw [Function.update_of_ne hji] at hj
      exact .inr ⟨hj, fun e => hfresh (e ▸ (hI.open_round j r hj).1)⟩
  have hmem : ∀ {convo : Nat} {r : UInt32} {call : SealCall},
      .requested convo r call ∈ h ++ [.announced round] → .requested convo r call ∈ h :=
    mem_of_quiet rfl
  refine ⟨fun j r hj => ?_, fun j k r hj hk => ?_, fun convo r call hr => ?_,
    fun convo r call hr => hI.nonce convo r call (hmem hr), ?_⟩
  · rcases hold j r hj with ⟨-, rfl⟩ | ⟨hj, -⟩
    · exact ⟨List.mem_append_right _ List.mem_cons_self, fun convo call hr =>
        hfresh (hI.announced convo r call (hmem hr))⟩
    · obtain ⟨hann, hreq⟩ := hI.open_round j r hj
      exact ⟨List.mem_append_left _ hann, fun convo call hr => hreq convo call (hmem hr)⟩
  · rcases hold j r hj with ⟨rfl, rfl⟩ | ⟨hj, hne⟩
    · rcases hold k r hk with ⟨rfl, -⟩ | ⟨-, hne⟩
      · rfl
      · exact absurd rfl hne
    · rcases hold k r hk with ⟨-, e⟩ | ⟨hk, -⟩
      · exact absurd e hne
      · exact hI.unique j k r hj hk
  · exact List.mem_append_left _ (hI.announced convo r call (hmem hr))
  · rw [seals_concat]
    simpa [ClientEvent.seal?] using hI.nodup

/-- The one request of a round. -/
theorem request (hI : RoundsOnce h s) {i convo : Nat} {round : UInt32} {call : SealCall}
    {g : Goroutine} (hi : s.pool i = .announced round) (hg : ∀ r, g ≠ .announced r)
    (hpool : s'.pool = Function.update s.pool i g) {role : UInt8}
    (hcall : call.nonce = convoNonce round role) :
    RoundsOnce (h ++ [.requested convo round call]) s' := by
  obtain ⟨hann, hnew⟩ := hI.open_round i round hi
  -- the goroutine of the round moves on, so none is announced for it any more
  have hold : ∀ j r, s'.pool j = .announced r → s.pool j = .announced r ∧ r ≠ round := by
    intro j r hj
    rw [hpool] at hj
    by_cases hji : j = i
    · subst hji
      rw [Function.update_self] at hj
      exact absurd hj (hg r)
    · rw [Function.update_of_ne hji] at hj
      exact ⟨hj, fun e => hji (hI.unique j i r hj (e ▸ hi))⟩
  have hmem : ∀ {convo' : Nat} {r : UInt32} {call' : SealCall},
      .requested convo' r call' ∈ h ++ [.requested convo round call] →
        .requested convo' r call' ∈ h ∨ r = round ∧ call' = call := by
    intro convo' r call' hr
    rcases List.mem_append.mp hr with hr | hr
    · exact .inl hr
    · cases List.mem_singleton.mp hr
      exact .inr ⟨rfl, rfl⟩
  refine ⟨fun j r hj => ?_, fun j k r hj hk => ?_, fun convo' r call' hr => ?_,
    fun convo' r call' hr => ?_, ?_⟩
  · obtain ⟨hj, hne⟩ := hold j r hj
    obtain ⟨hann', hreq⟩ := hI.open_round j r hj
    refine ⟨List.mem_append_left _ hann', fun convo' call' hr => ?_⟩
    rcases hmem hr with hr | ⟨e, -⟩
    · exact hreq convo' call' hr
    · exact hne e
  · exact hI.unique j k r (hold j r hj).1 (hold k r hk).1
  · rcases hmem hr with hr | ⟨rfl, -⟩
    · exact List.mem_append_left _ (hI.announced convo' r call' hr)
    · exact List.mem_append_left _ hann
  · rcases hmem hr with hr | ⟨rfl, rfl⟩
    · exact hI.nonce convo' r call' hr
    · exact ⟨role, hcall⟩
  · -- the nonce of an earlier call has another round in it
    rw [seals_concat, List.map_append]
    refine hI.nodup.append (List.nodup_singleton _) fun n hn hn' => ?_
    obtain rfl : n = call.nonce := by simpa [ClientEvent.seal?] using hn'
    obtain ⟨call', hcall', e⟩ := List.mem_map.mp hn
    obtain ⟨convo', r, hr⟩ := mem_seals.mp hcall'
    obtain ⟨role', hn⟩ := hI.nonce convo' r call' hr
    obtain ⟨rfl, -⟩ := convoNonce_inj ((hn.symm.trans e).trans hcall)
    exact hnew convo' call' hr

/-- **One step.**  Where rounds are announced once, each has at most one request. -/
theorem step (hI : RoundsOnce h s) (hfresh : FreshRounds h s ev)
    (hstep : ClientStep box hmac s ev s') : RoundsOnce (h ++ [ev]) s' := by
  have hupd : ∀ {i : Nat} {g : Goroutine}, (∀ r, g ≠ .announced r) →
      ∀ j r, Function.update s.pool i g j = .announced r → s.pool j = .announced r := by
    intro i g hg j r hj
    by_cases hji : j = i
    · subst hji
      rw [Function.update_self] at hj
      exact absurd hj (hg r)
    · rwa [Function.update_of_ne hji] at hj
  cases hstep with
  | announce _ round => exact hI.announce (hfresh round rfl) rfl
  | request hi =>
      refine hI.request hi ?_ rfl rfl
      exact fun _ => nofun
  | send | find | handle => exact hI.quiet rfl (hupd fun _ => nofun)
  | switch | queue | miss | crash => exact hI.quiet rfl fun _ _ => id

end RoundsOnce

theorem roundsOnce_of_run {h : List ClientEvent} {s : ClientState}
    (run : (clientSystem box hmac).Run FreshRounds h s) : RoundsOnce h s := by
  refine run.invariant ?_ fun h s ev s' hI hfresh hstep => hI.step hfresh hstep.2
  rintro s ⟨-, -, hpool, -⟩
  refine ⟨fun i round hi => ?_, fun i j round hi => ?_, fun _ _ _ hr => absurd hr List.not_mem_nil,
    fun _ _ _ hr => absurd hr List.not_mem_nil, List.nodup_nil⟩
  · cases (hpool i).symm.trans hi
  · cases (hpool i).symm.trans hi

/-- **No nonce is used twice**, in every run in which no round is announced twice: the calls of
`box.Seal` have different nonces.  And in any runs of the two clients, no nonce of a conversation
is a nonce of the peer's conversation with it. -/
theorem seal_nonces_fresh :
    (∀ {h : List ClientEvent} {s : ClientState}, (clientSystem box hmac).Run FreshRounds h s →
      ((seals h).map SealCall.nonce).Nodup) ∧
    ∀ {h h' : List ClientEvent} {s s' : ClientState}, (clientSystem box hmac).Run System.Any h s →
      (clientSystem box hmac).Run System.Any h' s' →
      ∀ convo round call convo' round' call', .requested convo round call ∈ h →
        .requested convo' round' call' ∈ h' →
        (s.convos convo).myPublicKey ≠ (s.convos convo).peerPublicKey →
        (s'.convos convo').myPublicKey = (s.convos convo).peerPublicKey →
        (s'.convos convo').peerPublicKey = (s.convos convo).myPublicKey →
        call.nonce ≠ call'.nonce := by
  refine ⟨fun run => (roundsOnce_of_run run).nodup, ?_⟩
  intro h h' s s' run run' convo round call convo' round' call' hreq hreq' hkeys hmy hpeer hn
  rw [nonce_of_requested run convo round call hreq,
    nonce_of_requested run' convo' round' call' hreq'] at hn
  exact myRole_ne hkeys hmy hpeer (convoNonce_inj hn).2

/-! ### A round announced again -/

/-- A keyed hash that looks at nothing. -/
def sampleHmac : Hmac := fun _ _ => Block.zero 32

/-- A client with a conversation for each peer, by the first byte of the peer's key. -/
def sampleClient (me peer : UInt8) : ClientState where
  client := UserClient.new peer.toNat
  convos := fun convo =>
    Conversation.init samplePki (sampleKey (UInt8.ofNat convo)) (sampleKey me) (sampleKey me)
  pool := fun _ => .done
  up := true

theorem sampleClient_init (me peer : UInt8) :
    (clientSystem tagBox sampleHmac).init (sampleClient me peer) :=
  ⟨⟨peer.toNat, rfl⟩, fun _ => ⟨rfl, fun _ => rfl⟩, fun _ => rfl, rfl⟩

/-- The draws of a sample request. -/
def sampleRequest : RequestCoins := ⟨fun _ => sampleKey 9, fun _ => 0⟩

/-- The call of `box.Seal` of a sample request. -/
def sampleSeal (round : UInt32) (msg : ConvoMessage) : SealCall :=
  ⟨msg.marshal.1, convoNonce round 0, sampleKey 2, sampleKey 1⟩

/-- Two rounds, and a text that is queued before the first: two nonces. -/
theorem seal_nonces_fresh_sample :
    ∃ h s, (clientSystem tagBox sampleHmac).Run FreshRounds h s ∧
      seals h = [sampleSeal 5 (.text [104, 105]), sampleSeal 6 (.timestamp 0)] ∧
      ((seals h).map SealCall.nonce).Nodup := by
  have r₀ : (clientSystem tagBox sampleHmac).Run FreshRounds [] _ := .init (sampleClient_init 1 2)
  have r₁ := r₀.step (l := .queued 2 [104, 105]) nofun ⟨rfl, .queue rfl⟩
  have r₂ := r₁.step (l := .announced 5) (by simp [FreshRounds]) ⟨rfl, .announce (i := 0) rfl 5⟩
  have r₃ := r₂.step (l := .requested 2 5 (sampleSeal 5 (.text [104, 105]))) nofun
    ⟨rfl, .request (i := 0) rfl rfl sampleRequest 0⟩
  have r₄ := r₃.step (l := .announced 6) (by simp [FreshRounds]) ⟨rfl, .announce (i := 1) rfl 6⟩
  have r₅ := r₄.step (l := .requested 2 6 (sampleSeal 6 (.timestamp 0))) nofun
    ⟨rfl, .request (i := 1) rfl rfl sampleRequest 0⟩
  exact ⟨_, _, r₅, rfl, seal_nonces_fresh.1 r₅⟩

/-- The entry server announces a round again.  The text goes out under the nonce of the round, and
so does the timestamp. -/
theorem seal_nonce_reused :
    ∃ h s call call', (clientSystem tagBox sampleHmac).Run System.Any h s ∧
      .requested 2 5 call ∈ h ∧ .requested 2 5 call' ∈ h ∧
      (s.convos 2).myPublicKey ≠ (s.convos 2).peerPublicKey ∧
      call.peersPublicKey = call'.peersPublicKey ∧ call.privateKey = call'.privateKey ∧
      call.nonce = call'.nonce ∧ call.message ≠ call'.message := by
  have r₀ : (clientSystem tagBox sampleHmac).Run System.Any [] _ := .init (sampleClient_init 1 2)
  have r₁ := r₀.step (l := .queued 2 [104, 105]) trivial ⟨rfl, .queue rfl⟩
  have r₂ := r₁.step (l := .announced 5) trivial ⟨rfl, .announce (i := 0) rfl 5⟩
  have r₃ := r₂.step (l := .requested 2 5 (sampleSeal 5 (.text [104, 105]))) trivial
    ⟨rfl, .request (i := 0) rfl rfl sampleRequest 0⟩
  have r₄ := r₃.step (l := .announced 5) trivial ⟨rfl, .announce (i := 1) rfl 5⟩
  have r₅ := r₄.step (l := .requested 2 5 (sampleSeal 5 (.timestamp 0))) trivial
    ⟨rfl, .request (i := 1) rfl rfl sampleRequest 0⟩
  refine ⟨_, _, sampleSeal 5 (.text [104, 105]), sampleSeal 5 (.timestamp 0), r₅, ?_, ?_,
    by decide, rfl, rfl, rfl, by decide⟩
  · exact List.mem_append_left _ (List.mem_append_left _
      (List.mem_append_right _ List.mem_cons_self))
  · exact List.mem_append_right _ List.mem_cons_self

end Vuvuzela
