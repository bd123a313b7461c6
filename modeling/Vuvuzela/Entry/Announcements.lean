import Vuvuzela.Entry.Registry
import Vuvuzela.Entry.Envelopes

/-!
# Entry — announcements

The round loop of a service reads the registry once the first server has taken a round, and goes on
when every `Send` of the broadcast has ended.  So a connection has one announcement under way at
most, of the current round, and has had those of the rounds before it, from the first broadcast
after it was accepted (`Announced`).  Nothing else a server does matters to that (`Hub.Frame`).

A socket that is down does not hold the loop up: each `Send` ends by itself (`drains`).

**Every connection is told every round, once and in order** (`announced_in_order`).
-/

namespace Vuvuzela
open Support

variable {json : Json} {publicKey : Nat → BoxKey} {service : Service}

/-- What the entry server sends has an envelope. -/
theorem envelop_outgoing (hjson : json.RoundTrips) (v : Outgoing) :
    ∃ e, envelop json v.message = .ok e := by
  have henv {α : Type} {codec : JsonCodec α} (h : codec.RoundTrips) (t : MsgType) (a : α) :
      ∃ e, envelopAs codec t a = .ok e := by
    obtain ⟨data, hm, -⟩ := h.marshal a
    exact ⟨_, envelopAs_eq_ok.mpr ⟨data, hm, rfl⟩⟩
  cases v with
  | announce service round =>
      cases service with
      | convo => exact henv hjson.announceConvoRound _ _
      | dial => exact henv hjson.announceDialRound _ _
  | answer _ _ msg =>
      cases msg with
      | convoError => exact henv hjson.convoError _ _
      | convoResponse => exact henv hjson.convoResponse _ _
      | dialError => exact henv hjson.dialError _ _
      | dialBucket => exact henv hjson.dialBucket _ _
  | badRequest err => exact henv hjson.badRequestError _ _

/-! ### What was announced -/

/-- The round an outgoing value announces, for a service. -/
def Outgoing.round? (service : Service) : Outgoing → Option UInt32
  | .announce service' round => if service' = service then some round else none
  | .answer .. | .badRequest _ => none

/-- The rounds of a service that were announced on a connection. -/
def Conn.announced (service : Service) (k : Conn) : List UInt32 :=
  k.written.filterMap (Outgoing.round? service)

def HubEvent.isSnapshot (service : Service) : HubEvent → Bool
  | .snapshot service' _ => service' = service
  | .entry .. | .accepted _ | .read .. | .misread _ | .ignored _ | .readFailed _ | .closed _
  | .deleted _ | .wrote .. | .writeFailed .. | .unsent .. => false

def HubEvent.isCut (service : Service) : HubEvent → Bool
  | .entry service' (.cut _) => service' = service
  | _ => false

/-- The announcements of a service that are yet to be written on a connection. -/
def Hub.pending (service : Service) (s : Hub) (c : Nat) : Nat :=
  (s.sends (some service)).countP fun y => y.1 == c && !y.2.failed

/-- The round loop of a service is past the call of `NewRound`. -/
def Hub.taken (service : Service) (s : Hub) : Bool :=
  s.broadcasting service || (s.entry service).loop == .receiving

/-- Announcements of rounds that follow each other, as far as the service has come; all of them if
the socket is up, except one that is yet to be written. -/
def Conn.InOrder (service : Service) (k : Conn) (pending rounds : Nat) : Prop :=
  ∃ a n, k.announced service = (List.range' a n).map UInt32.ofNat ∧ a + n ≤ rounds ∧
    (k.up = true → a + n + pending = rounds)

/-- What holds of the announcements of a service after `cuts` rounds were cut and `snaps` rounds
taken by the first server. -/
structure Announced (service : Service) (cuts snaps : Nat) (s : Hub) : Prop where
  round : (s.entry service).intake.round = UInt32.ofNat cuts
  count : snaps = cuts + (s.taken service).toNat
  calling : s.broadcasting service = true → (s.entry service).loop = .calling
  idle : s.broadcasting service = false → s.sends (some service) = []
  distinct : ((s.sends (some service)).map Prod.fst).Nodup
  current : ∀ c v, (c, .sending v) ∈ s.sends (some service) →
    v = .announce service (UInt32.ofNat cuts)
  elsewhere : ∀ p c v, p ≠ some service → (c, .sending v) ∈ s.sends p → v.round? service = none
  conns : ∀ c k, s.conns c = some k →
    k.InOrder service (s.pending service c) snaps

@[simp] theorem Hub.setEntry_entry (s : Hub) (service' : Service) (e : EntryState) :
    (s.setEntry service' e).entry service = if service = service' then e else s.entry service :=
  Function.update_apply ..

theorem Hub.setBroadcasting_broadcasting (s : Hub) (service' : Service) (b : Bool) :
    (s.setBroadcasting service' b).broadcasting service =
      if service = service' then b else s.broadcasting service :=
  Function.update_apply ..

/-- A step that is no concern of the announcements of a service. -/
structure Hub.Frame (service : Service) (s s' : Hub) : Prop
    extends Hub.Quiet (some service) (Outgoing.round? service) s s' where
  round : (s'.entry service).intake.round = (s.entry service).intake.round
  loop : (s'.entry service).loop = (s.entry service).loop
  broadcasting : s'.broadcasting service = s.broadcasting service

namespace Hub

variable {s s' s'' : Hub}

theorem Frame.trans (h : Frame service s s') (h' : Frame service s' s'') : Frame service s s'' :=
  ⟨h.toQuiet.trans h'.toQuiet, h'.round.trans h.round, h'.loop.trans h.loop,
    h'.broadcasting.trans h.broadcasting⟩

theorem Frame.of_quiet (h : Quiet (some service) (Outgoing.round? service) s s')
    (hentry : s'.entry = s.entry) (hb : s'.broadcasting = s.broadcasting) : Frame service s s' :=
  ⟨h, by rw [hentry], by rw [hentry], by rw [hb]⟩

theorem Frame.setEntry {service' : Service} {e : EntryState}
    (h : service' = service → e.intake.round = (s.entry service).intake.round ∧
      e.loop = (s.entry service).loop) : Frame service s (s.setEntry service' e) := by
  refine ⟨.of_eq rfl rfl, ?_, ?_, rfl⟩
  all_goals
    rw [setEntry_entry]
    split
  · next heq => exact (h heq.symm).1
  · rfl
  · next heq => exact (h heq.symm).2
  · rfl

theorem Frame.setBroadcasting {service' : Service} (hne : service' ≠ service) (b : Bool) :
    Frame service s (s.setBroadcasting service' b) :=
  ⟨.of_eq rfl rfl, rfl, rfl, Function.update_of_ne hne.symm _ _⟩

theorem Frame.spawn {c : Nat} {v : Outgoing} (hv : v.round? service = none) :
    Frame service s (s.spawn c v) := by
  have hne : none ≠ some service := nofun
  refine .of_quiet (.setSends hne fun c' v' hv' => ?_) rfl rfl
  rcases List.mem_append.mp hv' with hv' | hv'
  · exact .inl hv'
  · cases List.mem_singleton.mp hv'
    exact .inr hv

end Hub

namespace Announced

variable {cuts snaps : Nat} {s s' : Hub}

theorem frame (hA : Announced service cuts snaps s) (h : s.Frame service s') :
    Announced service cuts snaps s' := by
  have hpending (c : Nat) : s'.pending service c = s.pending service c := by
    rw [Hub.pending, h.sends, Hub.pending]
  have htaken : s'.taken service = s.taken service := by
    rw [Hub.taken, h.broadcasting, h.loop, Hub.taken]
  refine ⟨h.round.trans hA.round, htaken ▸ hA.count, fun hb => ?_, fun hb => ?_, ?_,
    fun c v hv => ?_, fun p c v hp hv => ?_, fun c k' hk' => ?_⟩
  · rw [h.loop]
    exact hA.calling (h.broadcasting ▸ hb)
  · rw [h.sends]
    exact hA.idle (h.broadcasting ▸ hb)
  · rw [h.sends]
    exact hA.distinct
  · exact hA.current c v (h.sends ▸ hv)
  · rcases h.elsewhere p c v hp hv with hv | hv
    · exact hA.elsewhere p c v hp hv
    · exact hv
  · obtain ⟨k, hk, ha, hup⟩ := h.conns c k' hk'
    obtain ⟨a, n, hann, hle, hall⟩ := hA.conns c k hk
    rw [hpending]
    exact ⟨a, n, ha.trans hann, hle, fun h => hall (hup h)⟩

/-- A connection without a `Send` has nothing pending. -/
theorem countP_of_notMem {l : List (Nat × Sending)} {c : Nat} (h : c ∉ l.map Prod.fst) :
    (l.countP fun y => y.1 == c && !y.2.failed) = 0 := by
  refine List.countP_eq_zero.mpr fun y hy hyc => h (List.mem_map.mpr ⟨y, hy, ?_⟩)
  rw [Bool.and_eq_true] at hyc
  exact beq_iff_eq.mp hyc.1

theorem register (hA : Announced service cuts snaps s) (hI : Registered s) {c : Nat}
    (hnew : s.conns c = none) : Announced service cuts snaps (s.register c) := by
  refine ⟨hA.round, hA.count, hA.calling, hA.idle, hA.distinct, hA.current, hA.elsewhere,
    fun c' k hk => ?_⟩
  rcases Hub.register_some.mp hk with ⟨rfl, rfl⟩ | ⟨-, hk⟩
  · have hpending : (s.register c').pending service c' = 0 := by
      refine countP_of_notMem fun hmem => ?_
      obtain ⟨⟨_, x⟩, hx, rfl⟩ := List.mem_map.mp hmem
      obtain ⟨k, hk, -⟩ := hI.sends _ _ x hx
      cases hnew.symm.trans hk
    refine ⟨snaps, 0, rfl, le_rfl, fun _ => ?_⟩
    rw [hpending]
    rfl
  · exact hA.conns c' k hk

theorem cut (hA : Announced service cuts snaps s) (hloop : (s.entry service).loop = .receiving)
    {e : EntryState} (hround : e.intake.round = (s.entry service).intake.round + 1)
    (hloop' : e.loop = .calling) : Announced service (cuts + 1) snaps (s.setEntry service e) := by
  have hb : s.broadcasting service = false := by
    refine Bool.eq_false_iff.mpr fun hb => ?_
    cases hloop.symm.trans (hA.calling hb)
  have hidle := hA.idle hb
  have htaken : s.taken service = true := by
    rw [Hub.taken, hloop, hb]
    rfl
  have htaken' : (s.setEntry service e).taken service = false := by
    rw [Hub.taken, Hub.setEntry_entry, if_pos rfl, hloop']
    exact (Bool.or_false _).trans hb
  refine ⟨?_, ?_, fun h => absurd (h.symm.trans hb) nofun, hA.idle, hA.distinct,
    fun c v hv => ?_, hA.elsewhere, hA.conns⟩
  · rw [Hub.setEntry_entry, if_pos rfl, hround, hA.round, UInt32.ofNat_add]
    rfl
  · rw [htaken', hA.count, htaken]
    rfl
  · exact absurd (hidle ▸ hv : (c, Sending.sending v) ∈ []) nofun

theorem snapshot (hA : Announced service cuts snaps s) (hI : Registered s)
    (hloop : (s.entry service).loop = .calling) (hb : s.broadcasting service = false)
    {conns : List Nat} (hconns : conns.Perm s.allConnections) :
    Announced service cuts (snaps + 1)
      (s.broadcast service conns (s.entry service).intake.round) := by
  have hsends : (s.broadcast service conns (s.entry service).intake.round).sends (some service) =
      conns.map fun c => (c, .sending (.announce service (UInt32.ofNat cuts))) := by
    rw [Hub.broadcast, Hub.setSends_sends, if_pos rfl, hA.round]
  have hbroad : (s.broadcast service conns (s.entry service).intake.round).broadcasting service =
      true := (Hub.setBroadcasting_broadcasting ..).trans (if_pos rfl)
  have htaken : s.taken service = false := by
    rw [Hub.taken, hb, hloop]
    rfl
  have hpending (c : Nat) :
      (s.broadcast service conns (s.entry service).intake.round).pending service c =
        conns.count c := by
    rw [Hub.pending, hsends, List.countP_map, List.count]
    exact List.countP_congr fun c' _ => by simp [Sending.failed]
  refine ⟨hA.round, ?_, fun _ => hloop, fun h => absurd (h.symm.trans hbroad) nofun, ?_,
    fun c v hv => ?_, fun p c v hp hv => ?_, fun c k hk => ?_⟩
  · rw [Hub.taken, hbroad, hA.count, htaken]
    rfl
  · rw [hsends, List.map_map]
    exact (List.map_id conns).symm ▸ hconns.nodup_iff.mpr hI.nodup
  · rw [hsends] at hv
    obtain ⟨c', -, heq⟩ := List.mem_map.mp hv
    cases heq
    rfl
  · refine hA.elsewhere p c v hp ?_
    rwa [Hub.broadcast, Hub.setSends_sends, if_neg hp] at hv
  · obtain ⟨a, n, hann, hle, hall⟩ := hA.conns c k hk
    have hnone : s.pending service c = 0 := by
      rw [Hub.pending, hA.idle hb]
      rfl
    refine ⟨a, n, hann, Nat.le_succ_of_le hle, fun hup => ?_⟩
    -- a socket that is up is in the registry, once
    have hmem := hconns.mem_iff.mpr (hI.up c k hk hup)
    rw [hpending, List.count_eq_one_of_mem (hconns.nodup_iff.mpr hI.nodup) hmem, ← hall hup, hnone]

theorem announce (hA : Announced service cuts snaps s) (hb : s.broadcasting service = true)
    (hdone : s.sends (some service) = []) {e : EntryState}
    (hround : e.intake.round = (s.entry service).intake.round) (hloop : e.loop = .receiving) :
    Announced service cuts snaps ((s.setEntry service e).setBroadcasting service false) := by
  have hbroad : ((s.setEntry service e).setBroadcasting service false).broadcasting service =
      false := (Hub.setBroadcasting_broadcasting ..).trans (if_pos rfl)
  have hentry : ((s.setEntry service e).setBroadcasting service false).entry service = e :=
    (Hub.setEntry_entry ..).trans (if_pos rfl)
  have htaken : ((s.setEntry service e).setBroadcasting service false).taken service =
      s.taken service := by
    rw [Hub.taken, hentry, hloop, Hub.taken, hb]
    simp
  refine ⟨?_, htaken ▸ hA.count, fun h => absurd (h.symm.trans hbroad) nofun, fun _ => hdone,
    hA.distinct, hA.current, hA.elsewhere, hA.conns⟩
  rw [hentry, hround, hA.round]

/-! #### The `Send`s of a broadcast -/

section Sends

variable {c : Nat} {x : Sending} {before after : List (Nat × Sending)}

/-- While a broadcast has something to do the loop waits for it. -/
theorem broadcasting_of_sends (hA : Announced service cuts snaps s)
    (hp : s.sends (some service) = before ++ (c, x) :: after) : s.broadcasting service = true := by
  refine Bool.not_eq_false _ |>.mp fun hb => ?_
  simpa using hp.symm.trans (hA.idle hb)

/-- One connection has one `Send` in a broadcast. -/
theorem notMem_rest (hA : Announced service cuts snaps s)
    (hp : s.sends (some service) = before ++ (c, x) :: after) :
    c ∉ (before ++ after).map Prod.fst := by
  have hnodup := hA.distinct
  rw [hp, List.map_append, List.map_cons] at hnodup
  rw [List.map_append]
  exact (List.nodup_middle.mp hnodup).notMem

theorem pending_eq (hp : s.sends (some service) = before ++ (c, x) :: after) (c' : Nat) :
    s.pending service c' =
      (if c = c' ∧ x.failed = false then 1 else 0) +
        (before ++ after).countP fun y => y.1 == c' && !y.2.failed := by
  rw [Hub.pending, hp, List.countP_append, List.countP_cons, List.countP_append]
  simp only [Bool.and_eq_true, beq_iff_eq, Bool.not_eq_true']
  omega

theorem nodup_rest (hA : Announced service cuts snaps s)
    (hp : s.sends (some service) = before ++ (c, x) :: after) :
    ((before ++ after).map Prod.fst).Nodup :=
  hA.distinct.sublist ((rest_sublist hp).map _)

theorem pending_le (hA : Announced service cuts snaps s) (c : Nat) :
    s.pending service c ≤ 1 := by
  refine le_trans (List.countP_mono_left fun y _ hy => ?_)
    ((List.countP_map ..).symm.trans_le (List.nodup_iff_count_le_one.mp hA.distinct c))
  exact (Bool.and_eq_true _ _).mp hy |>.1

/-- A `Send` that has failed goes on, or ends. -/
theorem settle (hA : Announced service cuts snaps s)
    (hp : s.sends (some service) = before ++ (c, x) :: after) {y : List (Nat × Sending)}
    (hy : y = [] ∨ ∃ z, z.failed = true ∧ y = [(c, z)])
    (hdown : ∀ k, s.conns c = some k → k.up = false) :
    Announced service cuts snaps (s.setSends (some service) (before ++ (y ++ after))) := by
  have hsends : (s.setSends (some service) (before ++ (y ++ after))).sends (some service) =
      before ++ (y ++ after) := Hub.setSends_self ..
  have hperm : (before ++ (y ++ after)).Perm (y ++ (before ++ after)) := by
    rw [← List.append_assoc, ← List.append_assoc]
    exact List.perm_append_comm.append_right after
  have hfailed : ∀ z ∈ y, z.2.failed = true := by
    rcases hy with rfl | ⟨z, hz, rfl⟩
    · exact nofun
    · exact List.forall_mem_singleton.mpr hz
  refine ⟨hA.round, hA.count, hA.calling, fun hb => ?_, ?_, fun c' v hv => ?_,
    fun p c' v hne hv => ?_, fun c' k hk => ?_⟩
  · exact absurd (hb.symm.trans (hA.broadcasting_of_sends hp)) nofun
  · have hnodup := hA.nodup_rest hp
    have hrest := hA.notMem_rest hp
    rw [hsends, (hperm.map _).nodup_iff]
    rcases hy with rfl | ⟨z, -, rfl⟩
    · exact hnodup
    · exact List.nodup_cons.mpr ⟨hrest, hnodup⟩
  · rw [hsends] at hv
    rcases List.mem_append.mp (hperm.mem_iff.mp hv) with hv | hv
    · exact absurd (hfailed _ hv) nofun
    · exact hA.current c' v ((rest_sublist hp).subset hv)
  · rw [Hub.setSends_sends, if_neg hne] at hv
    exact hA.elsewhere p c' v hne hv
  · obtain ⟨a, n, hann, hle, hall⟩ := hA.conns c' k hk
    refine ⟨a, n, hann, hle, fun hup => ?_⟩
    have hne : c ≠ c' := by
      rintro rfl
      exact absurd ((hdown k hk).symm.trans hup) nofun
    have hzero : (y.countP fun z => z.1 == c' && !z.2.failed) = 0 :=
      List.countP_eq_zero.mpr fun z hz h => by simp [hfailed z hz] at h
    have hpending : (s.setSends (some service) (before ++ (y ++ after))).pending service c' =
        s.pending service c' := by
      rw [pending_eq hp, if_neg fun h => hne h.1, Hub.pending, hsends, hperm.countP_eq,
        List.countP_append, hzero]
    rw [hpending]
    exact hall hup

/-- A `Send` that writes. -/
theorem written (hA : Announced service cuts snaps s) {v : Outgoing}
    (hp : s.sends (some service) = before ++ (c, .sending v) :: after) {k : Conn}
    (hk : s.conns c = some k) (hup : k.up = true) :
    Announced service cuts snaps ((s.setSends (some service) (before ++ after)).write c v) := by
  have hsends : ((s.setSends (some service) (before ++ after)).write c v).sends (some service) =
      before ++ after := Hub.setSends_self ..
  have hb := hA.broadcasting_of_sends hp
  have hv : v = .announce service (UInt32.ofNat cuts) :=
    hA.current c v (hp ▸ List.mem_append_right _ List.mem_cons_self)
  refine ⟨hA.round, hA.count, hA.calling, fun hb' => ?_, ?_, fun c' v' hv' => ?_,
    fun p c' v' hne hv' => ?_, fun c' k' hk' => ?_⟩
  · exact absurd (hb'.symm.trans hb) nofun
  · rw [hsends]
    exact hA.nodup_rest hp
  · rw [hsends] at hv'
    exact hA.current c' v' ((rest_sublist hp).subset hv')
  · refine hA.elsewhere p c' v' hne ?_
    change _ ∈ (s.setSends (some service) (before ++ after)).sends p at hv'
    rwa [Hub.setSends_sends, if_neg hne] at hv'
  · obtain ⟨k₀, hk₀, rfl⟩ := Hub.modify_some.mp hk'
    obtain ⟨a, n, hann, hle, hall⟩ := hA.conns c' k₀ hk₀
    have hpending : ((s.setSends (some service) (before ++ after)).write c v).pending service c' =
        (before ++ after).countP fun y => y.1 == c' && !y.2.failed := by
      rw [Hub.pending, hsends]
    rw [hpending]
    rw [pending_eq hp] at hall
    split
    · -- the round written is the one after those written before
      subst c'
      cases hk.symm.trans hk₀
      have hzero := countP_of_notMem (hA.notMem_rest hp)
      have hn := hall hup
      have hsnaps : snaps = cuts + 1 := by
        rw [hA.count, Hub.taken, hb]
        rfl
      rw [if_pos ⟨rfl, rfl⟩, hzero] at hn
      rw [hzero]
      refine ⟨a, n + 1, ?_, by omega, fun _ => by omega⟩
      have hcuts : a + n = cuts := by omega
      rw [List.range'_concat, List.map_append, ← hann, Conn.announced, List.filterMap_append, hv]
      simp [Outgoing.round?, Conn.announced, hcuts]
    · next hne =>
      rw [if_neg fun h => hne h.1.symm, Nat.zero_add] at hall
      exact ⟨a, n, hann, hle, hall⟩

end Sends

/-! #### Every step -/

/-- A step of a service that neither announces nor cuts keeps the round and the place of the
loop. -/
theorem entryStep_frame {e e' : EntryState} {ev : EntryEvent}
    (t : EntryStep publicKey service e ev e') (hcut : ∀ round, ev ≠ .cut round)
    (hann : ∀ round, ev ≠ .announced round) :
    e'.intake.round = e.intake.round ∧ e'.loop = e.loop := by
  cases t with
  | accept _ h =>
      obtain ⟨-, rfl⟩ := Intake.handleRequest_eq_ok h
      exact ⟨rfl, rfl⟩
  | announce => exact absurd rfl (hann _)
  | cut => exact absurd rfl (hcut _)
  | _ => exact ⟨rfl, rfl⟩

theorem step (hA : Announced service cuts snaps s) (hI : Registered s) (hjson : json.RoundTrips)
    {l : HubEvent} (t : HubStep json publicKey s l s') :
    Announced service (cuts + (l.isCut service).toNat) (snaps + (l.isSnapshot service).toNat)
      s' := by
  -- a `Send` whose write failed closes its socket
  have hclose {p : Option Service} {c : Nat} {x : Sending} {before after : List (Nat × Sending)}
      (hp : s.sends p = before ++ (c, x) :: after) (z : Sending) (hz : z.failed = true) :
      Announced service cuts snaps ((s.setSends p (before ++ (c, z) :: after)).wsClose c) := by
    by_cases hs : p = some service
    · subst hs
      exact (hA.frame (.of_quiet (.wsClose c) rfl rfl)).settle (x := x) hp (.inr ⟨z, hz, rfl⟩)
        fun _ hk => Hub.up_of_wsClose hk
    · have hz' : ∀ y ∈ [(c, z)], y.2.failed = true := List.forall_mem_singleton.mpr hz
      exact hA.frame (.of_quiet ((Hub.Quiet.settle hs hp hz').trans (.wsClose c)) rfl rfl)
  cases t with
  | accept hnew => exact hA.register hI hnew
  | read => exact hA.frame (.of_quiet (.of_eq rfl rfl) rfl rfl)
  | misread => exact hA.frame (.spawn rfl)
  | readFail => exact hA.frame (.of_quiet (.setReader _ _) rfl rfl)
  | readerClose =>
      exact hA.frame (.of_quiet ((Hub.Quiet.wsClose _).trans (.setReader _ _)) rfl rfl)
  | @readerDelete c =>
      have hquiet : Hub.Quiet (some service) (Outgoing.round? service) s (s.delete c) :=
        .of_eq rfl rfl
      exact hA.frame (.of_quiet (hquiet.trans (.setReader _ _)) rfl rfl)
  | ignore => exact hA.frame (.of_quiet (.of_eq rfl rfl) rfl rfl)
  | @handle service' r current e before after hh t =>
      have hframe : s.Frame service (s.setEntry service' e) :=
        .setEntry (by rintro rfl; exact entryStep_frame t nofun nofun)
      exact hA.frame (hframe.trans (.of_quiet (.of_eq rfl rfl) rfl rfl))
  | @inner service' ev e hev t =>
      by_cases hs : service' = service
      · subst hs
        cases t with
        | cut hloop =>
            have hcut : (HubEvent.entry service' (.cut (s.entry service').intake.round)).isCut
                service' = true := decide_eq_true rfl
            rw [hcut]
            exact hA.cut hloop rfl rfl
        | finish => exact hA.frame (.setEntry fun _ => ⟨rfl, rfl⟩)
        | panic => exact hA.frame (.setEntry fun _ => ⟨rfl, rfl⟩)
        | _ => cases hev
      · have hcut : (HubEvent.entry service' ev).isCut service = false := by
          cases ev <;> simp [HubEvent.isCut, hs]
        rw [hcut]
        exact hA.frame (.setEntry fun h => absurd h hs)
  | @sent service' r msg e t =>
      have hframe : s.Frame service (s.setEntry service' e) :=
        .setEntry (by rintro rfl; exact entryStep_frame t nofun nofun)
      exact hA.frame (hframe.trans (.spawn rfl))
  | @retry service' round e hb t =>
      exact hA.frame (.setEntry (by rintro rfl; exact entryStep_frame t nofun nofun))
  | @snapshot service' conns hloop hb hconns =>
      by_cases hs : service' = service
      · subst hs
        have hsnap : (HubEvent.snapshot service' (s.entry service').intake.round).isSnapshot
            service' = true := decide_eq_true rfl
        rw [hsnap]
        exact hA.snapshot hI hloop hb hconns
      · have hsnap : (HubEvent.snapshot service' (s.entry service').intake.round).isSnapshot
            service = false := decide_eq_false hs
        rw [hsnap]
        refine hA.frame ((Hub.Frame.setBroadcasting hs _).trans
          (.of_quiet (.setSends ?_ fun c v hv => ?_) rfl rfl))
        · exact fun h => hs (Option.some.inj h)
        · obtain ⟨c', -, heq⟩ := List.mem_map.mp hv
          cases heq
          exact .inr (if_neg hs)
  | @announce service' round e hb hdone t =>
      by_cases hs : service' = service
      · subst hs
        cases t with
        | announce => exact hA.announce hb hdone rfl rfl
      · exact hA.frame ((Hub.Frame.setEntry fun h => absurd h hs).trans (.setBroadcasting hs _))
  | @unsent p c v err before after hp henv =>
      obtain ⟨e, he⟩ := envelop_outgoing hjson v
      cases henv.symm.trans he
  | @write p c k v e before after hp henv hk hup =>
      by_cases hs : p = some service
      · subst hs
        exact hA.written hp hk hup
      · have hv := hA.elsewhere p c v hs (hp ▸ List.mem_append_right _ List.mem_cons_self)
        exact hA.frame
          (.of_quiet ((Hub.Quiet.settle (z := []) hs hp nofun).trans (.write hv)) rfl rfl)
  | @writeFail p c v e before after hp => exact hclose hp .closing rfl
  | @sendClose p c before after hp => exact hclose hp .deleting rfl
  | @sendDelete p c before after hp =>
      by_cases hs : p = some service
      · subst hs
        have hdown : ∀ k, s.conns c = some k → k.up = false := fun _ hk =>
          hI.down_of_failed (hp ▸ List.mem_append_right _ List.mem_cons_self) rfl hk
        exact (hA.settle hp (.inl rfl) hdown).frame (.of_quiet (.of_eq rfl rfl) rfl rfl)
      · exact hA.frame
          (.of_quiet ((Hub.Quiet.settle (z := []) hs hp nofun).trans (.of_eq rfl rfl)) rfl rfl)

end Announced

theorem announced_of_run (hjson : json.RoundTrips) {h : List HubEvent} {s : Hub}
    (run : (hubSystem json publicKey).Run System.Any h s) (service : Service) :
    Announced service (h.countP (HubEvent.isCut service)) (h.countP (HubEvent.isSnapshot service))
      s := by
  induction run with
  | init h₀ =>
      subst h₀
      exact ⟨rfl, rfl, nofun, fun _ => rfl, .nil, nofun, nofun, nofun⟩
  | @step h s s' l run _ t ih =>
      have one (p : HubEvent → Bool) : [l].countP p = (p l).toNat := by
        cases hp : p l <;> simp [hp]
      rw [List.countP_append, List.countP_append, one, one]
      exact ih.step (registered_of_run run).1 hjson t

/-! ### A broadcast comes to its end -/

section Drain

variable {s s' s'' : Hub} {p : Option Service} {c : Nat} {l : List (Nat × Sending)}

/-- `Send`s of a pool have been carried on, at the cost of no socket that was up. -/
structure Hub.Carried (s s' : Hub) : Prop where
  entry : s'.entry = s.entry
  broadcasting : s'.broadcasting = s.broadcasting
  conns : ∀ c k, s.conns c = some k → k.up = true →
    ∃ k', s'.conns c = some k' ∧ k'.up = true ∧ k.written ⊆ k'.written

theorem Hub.Carried.refl (s : Hub) : s.Carried s :=
  ⟨rfl, rfl, fun _ k hk hup => ⟨k, hk, hup, List.Subset.refl _⟩⟩

theorem Hub.Carried.trans (h : s.Carried s') (h' : s'.Carried s'') : s.Carried s'' := by
  refine ⟨h'.entry.trans h.entry, h'.broadcasting.trans h.broadcasting, fun c k hk hup => ?_⟩
  obtain ⟨k', hk', hup', hsub⟩ := h.conns c k hk hup
  obtain ⟨k'', hk'', hup'', hsub'⟩ := h'.conns c k' hk' hup'
  exact ⟨k'', hk'', hup'', List.Subset.trans hsub hsub'⟩

theorem Hub.Carried.setSends (s : Hub) (p : Option Service) (l : List (Nat × Sending)) :
    s.Carried (s.setSends p l) := ⟨rfl, rfl, (refl s).conns⟩

theorem Hub.Carried.delete (s : Hub) (c : Nat) : s.Carried (s.delete c) :=
  ⟨rfl, rfl, (refl s).conns⟩

/-- To close a socket that is down is to do nothing. -/
theorem Hub.Carried.wsClose (hdown : ∀ k, s.conns c = some k → k.up = false) :
    s.Carried (s.wsClose c) := by
  refine ⟨rfl, rfl, fun c' k hk hup => ⟨k, ?_, hup, List.Subset.refl _⟩⟩
  refine Hub.modify_some.mpr ⟨k, hk, (if_neg ?_).symm⟩
  rintro rfl
  exact absurd ((hdown k hk).symm.trans hup) nofun

theorem Hub.Carried.write (v : Outgoing) : s.Carried (s.write c v) := by
  refine ⟨rfl, rfl, fun c' k hk hup => ⟨_, Hub.modify_some.mpr ⟨k, hk, rfl⟩, ?_⟩⟩
  split
  · exact ⟨hup, List.subset_append_left _ _⟩
  · exact ⟨hup, List.Subset.refl _⟩

/-- The `Send`s `l` of a pool can go on to their end, and write where the socket is up, so that
`rest` is left. -/
def Hub.Drains (json : Json) (publicKey : Nat → BoxKey) (p : Option Service)
    (l rest : List (Nat × Sending)) (s : Hub) : Prop :=
  ∃ h s', (hubSystem json publicKey).Path s h s' ∧ Registered s' ∧ s'.sends p = rest ∧
    s.Carried s' ∧ ∀ c v k, (c, .sending v) ∈ l → s.conns c = some k → k.up = true →
      ∃ k', s'.conns c = some k' ∧ v ∈ k'.written

/-- The `Send` of a socket that is down takes one step on its way. -/
theorem Hub.Drains.cons {ev : HubEvent} {x y : Sending} (t : HubStep json publicKey s ev s')
    (hcarried : s.Carried s') (hdown : ∀ k, s.conns c = some k → k.up = false)
    (h : s'.Drains json publicKey p [(c, y)] l) : s.Drains json publicKey p [(c, x)] l := by
  obtain ⟨h, s'', path, hI, hp, hcarried', -⟩ := h
  refine ⟨ev :: h, s'', .cons t path, hI, hp, hcarried.trans hcarried',
    fun c' v k hv hk hup => ?_⟩
  cases List.mem_singleton.mp hv
  exact absurd ((hdown k hk).symm.trans hup) nofun

theorem drains_deleting (hI : Registered s) (hp : s.sends p = (c, .deleting) :: l) :
    s.Drains json publicKey p [(c, .deleting)] l := by
  have hp₀ : s.sends p = [] ++ (c, .deleting) :: l := hp
  have t : HubStep json publicKey s (.deleted c) ((s.setSends p l).delete c) := .sendDelete hp₀
  refine ⟨_, _, .cons t .nil, hI.step t nofun, Hub.setSends_self ..,
    (Hub.Carried.setSends s p l).trans (.delete _ c), fun c' v k hv => ?_⟩
  cases List.mem_singleton.mp hv

theorem drains_closing (hI : Registered s) (hp : s.sends p = (c, .closing) :: l) :
    s.Drains json publicKey p [(c, .closing)] l := by
  have hp₀ : s.sends p = [] ++ (c, .closing) :: l := hp
  have t : HubStep json publicKey s (.closed c)
      ((s.setSends p ((c, .deleting) :: l)).wsClose c) := .sendClose hp₀
  have hdown : ∀ k, s.conns c = some k → k.up = false := fun _ hk =>
    hI.down_of_failed (hp ▸ List.mem_cons_self) rfl hk
  exact .cons t ((Hub.Carried.setSends s p _).trans (.wsClose hdown)) hdown
    (drains_deleting (hI.step t nofun) (Hub.setSends_self ..))

theorem drains_sending (hjson : json.RoundTrips) (hI : Registered s) {v : Outgoing}
    (hp : s.sends p = (c, .sending v) :: l) :
    s.Drains json publicKey p [(c, .sending v)] l := by
  have hp₀ : s.sends p = [] ++ (c, .sending v) :: l := hp
  obtain ⟨e, henv⟩ := envelop_outgoing hjson v
  obtain ⟨k, hk, -⟩ := hI.sends p c _ (hp ▸ List.mem_cons_self)
  cases hup : k.up with
  | true =>
      have t : HubStep json publicKey s (.wrote c v) ((s.setSends p l).write c v) :=
        .write hp₀ henv hk hup
      refine ⟨_, _, .cons t .nil, hI.step t nofun, Hub.setSends_self ..,
        (Hub.Carried.setSends s p l).trans (.write v), fun c' v' k' hv' hk' hup' => ?_⟩
      cases List.mem_singleton.mp hv'
      refine ⟨_, Hub.modify_some.mpr ⟨k', hk', rfl⟩, ?_⟩
      rw [if_pos rfl]
      exact List.mem_append_right _ (List.mem_singleton_self v)
  | false =>
      have hdown : ∀ k', s.conns c = some k' → k'.up = false := fun k' hk' => by
        cases hk.symm.trans hk'
        exact hup
      have t : HubStep json publicKey s (.writeFailed c v)
          ((s.setSends p ((c, .closing) :: l)).wsClose c) := .writeFail hp₀ henv
      exact .cons t ((Hub.Carried.setSends s p _).trans (.wsClose hdown)) hdown
        (drains_closing (hI.step t nofun) (Hub.setSends_self ..))

theorem drains_head (hjson : json.RoundTrips) (hI : Registered s) {y : Nat × Sending}
    (hp : s.sends p = y :: l) : s.Drains json publicKey p [y] l := by
  obtain ⟨c, x⟩ := y
  cases x with
  | sending v => exact drains_sending hjson hI hp
  | closing => exact drains_closing hI hp
  | deleting => exact drains_deleting hI hp

theorem drains (hjson : json.RoundTrips) (hI : Registered s) (hp : s.sends p = l) :
    s.Drains json publicKey p l [] := by
  induction l generalizing s with
  | nil => exact ⟨[], s, .nil, hI, hp, .refl s, nofun⟩
  | cons y l ih =>
      obtain ⟨h₁, s₁, path₁, hI₁, hp₁, hcarried₁, htold₁⟩ := drains_head hjson hI hp
      obtain ⟨h₂, s₂, path₂, hI₂, hp₂, hcarried₂, htold₂⟩ := ih hI₁ hp₁
      refine ⟨_, s₂, path₁.trans path₂, hI₂, hp₂, hcarried₁.trans hcarried₂,
        fun c v k hv hk hup => ?_⟩
      obtain ⟨k₁, hk₁, hup₁, -⟩ := hcarried₁.conns c k hk hup
      rcases List.mem_cons.mp hv with rfl | hv
      · obtain ⟨k', hk', hmem⟩ := htold₁ c v k (List.mem_singleton_self _) hk hup
        cases hk₁.symm.trans hk'
        obtain ⟨k₂, hk₂, -, hsub⟩ := hcarried₂.conns c k₁ hk₁ hup₁
        exact ⟨k₂, hk₂, hsub hmem⟩
      · exact htold₂ c v k₁ hv hk₁ hup₁

end Drain

/-- A broadcast that is under way can come to its end. -/
theorem exists_receiving_of_broadcasting (hjson : json.RoundTrips) {s : Hub} (hI : Registered s)
    (hb : s.broadcasting service = true) (hloop : (s.entry service).loop = .calling) :
    ∃ h s', (hubSystem json publicKey).Path s h s' ∧ (s'.entry service).loop = .receiving ∧
      (∀ c k, s.conns c = some k → k.up = true → ∃ k', s'.conns c = some k' ∧ k'.up = true) ∧
      ∀ c v k, (c, .sending v) ∈ s.sends (some service) → s.conns c = some k → k.up = true →
        ∃ k', s'.conns c = some k' ∧ v ∈ k'.written := by
  have hdrains : s.Drains json publicKey (some service) (s.sends (some service)) [] :=
    drains hjson hI rfl
  obtain ⟨h, s₁, path, -, hp, hcarried, htold⟩ := hdrains
  have hb₁ : s₁.broadcasting service = true := hcarried.broadcasting ▸ hb
  have hloop₁ : (s₁.entry service).loop = .calling := hcarried.entry ▸ hloop
  have t : HubStep json publicKey s₁
      (.entry service (.announced (s₁.entry service).intake.round)) _ :=
    .announce hb₁ hp (.announce hloop₁)
  refine ⟨_, _, path.trans (.cons t .nil), ?_, fun c k hk hup => ?_, htold⟩
  · change ((s₁.setEntry service _).entry service).loop = _
    rw [Hub.setEntry_entry, if_pos rfl]
  · obtain ⟨k', hk', hup', -⟩ := hcarried.conns c k hk hup
    exact ⟨k', hk', hup'⟩

/-- A round that is to be announced can be, to every socket that is up. -/
theorem exists_announced_of_calling (hjson : json.RoundTrips) {s : Hub} (hI : Registered s)
    (hb : s.broadcasting service = false) (hloop : (s.entry service).loop = .calling) :
    ∃ h s', (hubSystem json publicKey).Path s h s' ∧ (s'.entry service).loop = .receiving ∧
      ∀ c k, s.conns c = some k → k.up = true →
        ∃ k', s'.conns c = some k' ∧ k'.up = true ∧
          (s.entry service).intake.round ∈ k'.announced service := by
  have t : HubStep json publicKey s (.snapshot service (s.entry service).intake.round) _ :=
    .snapshot hloop hb (.refl _)
  have hb' : (s.setBroadcasting service true).broadcasting service = true :=
    (Hub.setBroadcasting_broadcasting ..).trans (if_pos rfl)
  obtain ⟨h, s', path, hrecv, hup', htold⟩ :=
    exists_receiving_of_broadcasting hjson (hI.step t nofun) hb' hloop
  refine ⟨_, s', .cons t path, hrecv, fun c k hk hup => ?_⟩
  obtain ⟨k', hk', hup'⟩ := hup' c k hk hup
  have hmem : (c, .sending (.announce service (s.entry service).intake.round)) ∈
      (s.broadcast service s.allConnections (s.entry service).intake.round).sends
        (some service) := by
    rw [Hub.broadcast, Hub.setSends_sends, if_pos rfl]
    exact List.mem_map_of_mem (hI.up c k hk hup)
  obtain ⟨k'', hk'', hv⟩ := htold c _ k hmem hk hup
  cases hk'.symm.trans hk''
  exact ⟨k', hk', hup', List.mem_filterMap.mpr ⟨_, hv, if_pos rfl⟩⟩

/-- **Every connection is told every round, once and in order.**  In every run of the entry server,
what a service has announced on a connection are rounds that follow each other without a gap or a
repetition; while the socket is up they go up to the last round the first server took, unless its
announcement is just being written.  An announcement is written while its round is the current
one.  Whatever sockets are down, the round loop can announce the current round to all that are up,
and drops none of them. -/
theorem announced_in_order (hjson : json.RoundTrips) {h : List HubEvent} {s : Hub}
    (run : (hubSystem json publicKey).Run System.Any h s) (service : Service) :
    (∀ c k, s.conns c = some k → ∃ a n,
      k.announced service = (List.range' a n).map UInt32.ofNat ∧
      a + n ≤ h.countP (HubEvent.isSnapshot service) ∧
      (k.up = true → a + n + s.pending service c = h.countP (HubEvent.isSnapshot service)) ∧
      s.pending service c ≤ 1) ∧
    (∀ h₁ h₂ c round, h = h₁ ++ .wrote c (.announce service round) :: h₂ →
      ∃ s₁, (hubSystem json publicKey).Run System.Any h₁ s₁ ∧
        (s₁.entry service).intake.round = round) ∧
    ((s.entry service).loop = .calling → s.broadcasting service = false →
      ∃ h' s', (hubSystem json publicKey).Run System.Any (h ++ h') s' ∧
        (s'.entry service).loop = .receiving ∧
        ∀ c k, s.conns c = some k → k.up = true →
          ∃ k', s'.conns c = some k' ∧ k'.up = true ∧
            (s.entry service).intake.round ∈ k'.announced service) := by
  have hA := announced_of_run hjson run service
  refine ⟨fun c k hk => ?_, ?_, fun hloop hb => ?_⟩
  · obtain ⟨a, n, hann, hle, hall⟩ := hA.conns c k hk
    exact ⟨a, n, hann, hle, hall, hA.pending_le c⟩
  · rintro h₁ h₂ c round rfl
    obtain ⟨s₁, s₂, run₁, -, t⟩ := run.label
    have hA₁ := announced_of_run hjson run₁ service
    refine ⟨s₁, run₁, ?_⟩
    cases t with
    | @write p _ _ _ _ before after hp =>
        have hmem : (c, .sending (.announce service round)) ∈ s₁.sends p :=
          hp ▸ List.mem_append_right _ List.mem_cons_self
        by_cases hs : p = some service
        · subst hs
          have heq := hA₁.current c _ hmem
          rw [hA₁.round]
          exact (Outgoing.announce.inj heq).2.symm
        · have hnone := hA₁.elsewhere p c _ hs hmem
          exact absurd (hnone.symm.trans (if_pos rfl)) nofun
  · obtain ⟨h', s', path, hrecv, htold⟩ :=
      exists_announced_of_calling hjson (registered_of_run run).1 hb hloop
    exact ⟨h', s', run.extend path, hrecv, htold⟩

/-- A connection is told of the first round, and the round is cut. -/
def sampleAnnouncements : List HubEvent :=
  [.accepted 3, .snapshot .convo 0, .wrote 3 (.announce .convo 0), .entry .convo (.announced 0),
    .entry .convo (.cut 0)]

theorem announced_in_order_sample :
    ∃ s k, (hubSystem sampleJson sampleConn).Run System.Any sampleAnnouncements s ∧
      s.conns 3 = some k ∧
      ∃ a n, k.announced .convo = (List.range' a n).map UInt32.ofNat ∧ a + n = 1 := by
  have start : (hubSystem sampleJson sampleConn).Run System.Any [] .start := .init rfl
  have one : ∀ y : Nat × Sending, [y] = [] ++ y :: [] := fun _ => rfl
  have path : (hubSystem sampleJson sampleConn).Path .start sampleAnnouncements _ :=
    .cons (.accept rfl) <|
    .cons (.snapshot rfl rfl (.refl [3])) <|
    .cons (.write (p := some .convo) (one (3, .sending (.announce .convo 0))) rfl rfl rfl) <|
    .cons (.announce rfl rfl (.announce rfl)) <|
    .cons (.inner rfl (.cut rfl)) .nil
  have run := start.extend path
  obtain ⟨a, n, hann, -, hall, -⟩ :=
    (announced_in_order sampleJson_roundTrips run .convo).1 3 _ rfl
  exact ⟨_, _, run, rfl, a, n, hann, hall rfl⟩

end Vuvuzela
