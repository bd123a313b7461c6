import Vuvuzela.Entry.Announcements

/-!
# Entry — answers on their connections

What the services send is written by `Send`s that run next to each other, on sockets that may close
at any time.  A `Send` writes its value or loses it, and loses it only when the socket is down: what
was sent on a connection is what was written, what is being written, and what was lost
(`Delivered`).  With the books of the services (`Balanced`) that is the way of a request from the
connection it came on, through its batch, back to that connection.

**Answers reach their connection** (`answered_on_connection`).
-/

namespace Vuvuzela
open Support

variable {json : Json} {publicKey : Nat → BoxKey}

/-! ### What was sent on a connection -/

/-- The answer an outgoing value is. -/
def Outgoing.answer? : Outgoing → Option (Service × EntryReq × ClientMsg)
  | .answer service r msg => some (service, r, msg)
  | .announce .. | .badRequest _ => none

/-- The value a `Send` has yet to write. -/
def Sending.value? : Sending → Option Outgoing
  | .sending v => some v
  | .closing | .deleting => none

/-- The answer a `Send` has yet to write on a connection. -/
def answering (c : Nat) (y : Nat × Sending) : Option (Service × EntryReq × ClientMsg) :=
  if y.1 = c then y.2.value?.bind Outgoing.answer? else none

/-- The answer a service sends on a connection. -/
def HubEvent.sentTo (c : Nat) : HubEvent → Option (Service × EntryReq × ClientMsg)
  | .entry service (.sent r msg) => if r.conn = c then some (service, r, msg) else none
  | _ => none

/-- The answers to a request. -/
def answersTo (service : Service) (r : EntryReq) (l : List (Service × EntryReq × ClientMsg)) :
    List ClientMsg :=
  l.filterMap fun x => if x.1 = service ∧ x.2.1 = r then some x.2.2 else none

/-- The answers written on a connection. -/
def Conn.answers (k : Conn) : List (Service × EntryReq × ClientMsg) :=
  k.written.filterMap Outgoing.answer?

/-- What was sent on a connection is written, or about to be, or lost with the socket. -/
def Conn.Holds (k : Conn) (pending sent : List (Service × EntryReq × ClientMsg)) : Prop :=
  ∃ lost, sent.Perm (k.answers ++ (pending ++ lost)) ∧ (k.up = true → lost = [])

structure Delivered (h : List HubEvent) (s : Hub) : Prop where
  elsewhere : ∀ p c v, p ≠ none → (c, .sending v) ∈ s.sends p → v.answer? = none
  conns : ∀ c k, s.conns c = some k →
    k.Holds ((s.sends none).filterMap (answering c)) (h.filterMap (HubEvent.sentTo c))

namespace Delivered

variable {h : List HubEvent} {s s' : Hub} {l : HubEvent}

/-- A step that sends nothing. -/
theorem concat (hD : Delivered h s) (hl : ∀ c, l.sentTo c = none) : Delivered (h ++ [l]) s := by
  refine ⟨hD.elsewhere, fun c k hk => ?_⟩
  rw [filterMap_concat, hl c, Option.toList_none, List.append_nil]
  exact hD.conns c k hk

theorem quiet (hD : Delivered h s) (hq : Hub.Quiet none Outgoing.answer? s s') :
    Delivered h s' := by
  refine ⟨fun p c v hp hv => ?_, fun c k' hk' => ?_⟩
  · rcases hq.elsewhere p c v hp hv with hv | hv
    · exact hD.elsewhere p c v hp hv
    · exact hv
  · obtain ⟨k, hk, hw, hup⟩ := hq.conns c k' hk'
    obtain ⟨lost, hperm, hlost⟩ := hD.conns c k hk
    rw [hq.sends]
    refine ⟨lost, ?_, fun h => hlost (hup h)⟩
    rw [Conn.answers, hw]
    exact hperm

/-- A new connection has no `Send`s, and nothing was sent on it. -/
theorem register (hD : Delivered h s) {c : Nat} (hI : Registered s) (hnew : s.conns c = none)
    (hnone : h.filterMap (HubEvent.sentTo c) = []) : Delivered h (s.register c) := by
  refine ⟨hD.elsewhere, fun c' k hk => ?_⟩
  rcases Hub.register_some.mp hk with ⟨rfl, rfl⟩ | ⟨-, hk⟩
  · have hpending : ((s.register c').sends none).filterMap (answering c') = [] := by
      refine List.filterMap_eq_nil_iff.mpr fun y hy => if_neg fun hc => ?_
      obtain ⟨k, hk, -⟩ := hI.sends none y.1 y.2 hy
      rw [hc] at hk
      cases hnew.symm.trans hk
    rw [hnone, hpending]
    exact ⟨[], .nil, fun _ => rfl⟩
  · exact hD.conns c' k hk

/-- What is sent is pending. -/
theorem spawn (hD : Delivered h s) {c : Nat} {v : Outgoing}
    (hl : ∀ c', l.sentTo c' = answering c' (c, .sending v)) :
    Delivered (h ++ [l]) (s.spawn c v) := by
  have hsends : (s.spawn c v).sends none = s.sends none ++ [(c, .sending v)] :=
    Hub.setSends_self ..
  refine ⟨fun p c' v' hp hv' => ?_, fun c' k hk => ?_⟩
  · rw [Hub.spawn, Hub.setSends_sends, if_neg hp] at hv'
    exact hD.elsewhere p c' v' hp hv'
  · obtain ⟨lost, hperm, hlost⟩ := hD.conns c' k hk
    refine ⟨lost, ?_, hlost⟩
    rw [hsends, filterMap_concat, filterMap_concat, hl]
    -- the new value goes from the end of the history to the end of what is pending
    refine (hperm.append_right _).trans ?_
    rw [List.append_assoc, List.append_assoc, List.append_assoc]
    exact (List.perm_append_comm.append_left _).append_left _

section Sends

variable {c : Nat} {v : Outgoing} {before after : List (Nat × Sending)}

/-- What a pool has yet to write, one of its `Send`s apart. -/
theorem filterMap_answering (y : Nat × Sending) (c' : Nat) :
    ((before ++ y :: after).filterMap (answering c')).Perm
      ((answering c' y).toList ++ (before ++ after).filterMap (answering c')) := by
  have hperm : (before ++ y :: after).Perm ([y] ++ (before ++ after)) := List.perm_middle
  refine (hperm.filterMap _).trans ?_
  rw [List.filterMap_append]
  cases hy : answering c' y <;> simp [hy]

theorem write (hD : Delivered h s) (hp : s.sends none = before ++ (c, .sending v) :: after) :
    Delivered h ((s.setSends none (before ++ after)).write c v) := by
  have hsends : ((s.setSends none (before ++ after)).write c v).sends none = before ++ after :=
    Hub.setSends_self (s := s) none _
  refine ⟨fun p c' v' hne hv' => ?_, fun c' k' hk' => ?_⟩
  · change _ ∈ (s.setSends none (before ++ after)).sends p at hv'
    rw [Hub.setSends_sends, if_neg hne] at hv'
    exact hD.elsewhere p c' v' hne hv'
  · obtain ⟨k, hk, rfl⟩ := Hub.modify_some.mp hk'
    obtain ⟨lost, hperm, hlost⟩ := hD.conns c' k hk
    rw [hsends]
    rw [hp] at hperm
    have hmoved := hperm.trans
      (((filterMap_answering (c, .sending v) c').append_right lost).append_left k.answers)
    split
    · -- the value goes from what is pending to what is written
      subst c'
      refine ⟨lost, hmoved.trans ?_, hlost⟩
      have hone : answering c (c, .sending v) = v.answer? := if_pos rfl
      rw [hone, Conn.answers, Conn.answers, filterMap_concat, List.append_assoc, List.append_assoc]
    · next hne =>
      refine ⟨lost, hmoved.trans ?_, hlost⟩
      have hone : answering c' (c, .sending v) = none := if_neg (Ne.symm hne)
      rw [hone, Option.toList_none, List.nil_append]

/-- A `Send` on a socket that is down goes on without its value. -/
theorem settle (hD : Delivered h s) {x : Sending}
    (hp : s.sends none = before ++ (c, x) :: after) {z : List (Nat × Sending)}
    (hz : ∀ y ∈ z, y.2.failed = true) (hdown : ∀ k, s.conns c = some k → k.up = false) :
    Delivered h (s.setSends none (before ++ (z ++ after))) := by
  have hsends : (s.setSends none (before ++ (z ++ after))).sends none = before ++ (z ++ after) :=
    Hub.setSends_self ..
  have hnone (c' : Nat) : z.filterMap (answering c') = [] := by
    refine List.filterMap_eq_nil_iff.mpr fun y hy => ?_
    have hy' := hz y hy
    obtain ⟨d, x⟩ := y
    cases x with
    | sending v => cases hy'
    | closing => exact ite_self _
    | deleting => exact ite_self _
  refine ⟨fun p c' v' hne hv' => ?_, fun c' k hk => ?_⟩
  · rw [Hub.setSends_sends, if_neg hne] at hv'
    exact hD.elsewhere p c' v' hne hv'
  · obtain ⟨lost, hperm, hlost⟩ := hD.conns c' k hk
    rw [hsends, List.filterMap_append, List.filterMap_append, hnone, List.nil_append,
      ← List.filterMap_append]
    rw [hp] at hperm
    refine ⟨lost ++ (answering c' (c, x)).toList, hperm.trans ?_, fun hup => ?_⟩
    · refine (((filterMap_answering (c, x) c').append_right lost).trans ?_).append_left _
      rw [List.append_assoc, ← List.append_assoc _ lost]
      exact List.perm_append_comm
    · have hne : c ≠ c' := by
        rintro rfl
        exact absurd ((hdown k hk).symm.trans hup) nofun
      have hone : answering c' (c, x) = none := if_neg hne
      rw [hlost hup, hone]
      rfl

end Sends

theorem step (hD : Delivered h s) (hI : Registered s) (hjson : json.RoundTrips)
    (hnone : ∀ c, s.conns c = none → h.filterMap (HubEvent.sentTo c) = [])
    (t : HubStep json publicKey s l s') : Delivered (h ++ [l]) s' := by
  -- a `Send` whose write failed closes its socket
  have hclose {p : Option Service} {c : Nat} {x : Sending} {before after : List (Nat × Sending)}
      (hp : s.sends p = before ++ (c, x) :: after) (z : Sending) (hz : z.failed = true) :
      Delivered h ((s.setSends p (before ++ (c, z) :: after)).wsClose c) := by
    have hz' : ∀ y ∈ [(c, z)], y.2.failed = true := List.forall_mem_singleton.mpr hz
    by_cases hs : p = none
    · subst hs
      exact (hD.quiet (.wsClose c)).settle hp hz' fun _ hk => Hub.up_of_wsClose hk
    · exact hD.quiet ((Hub.Quiet.settle hs hp hz').trans (.wsClose c))
  cases t with
  | accept hnew => exact (hD.register hI hnew (hnone _ hnew)).concat fun _ => rfl
  | read => exact concat (hD.quiet (.of_eq rfl rfl)) fun _ => rfl
  | misread => exact hD.spawn fun _ => (ite_self _).symm
  | readFail => exact (hD.quiet (.setReader _ _)).concat fun _ => rfl
  | readerClose =>
      exact (hD.quiet ((Hub.Quiet.wsClose _).trans (.setReader _ _))).concat fun _ => rfl
  | @readerDelete c =>
      have hquiet : Hub.Quiet none Outgoing.answer? s (s.delete c) := .of_eq rfl rfl
      exact (hD.quiet (hquiet.trans (.setReader _ _))).concat fun _ => rfl
  | ignore => exact concat (hD.quiet (.of_eq rfl rfl)) fun _ => rfl
  | handle => exact concat (hD.quiet (.of_eq rfl rfl)) fun _ => rfl
  | @inner service ev e hev t =>
      refine concat (hD.quiet (.of_eq rfl rfl)) fun c => ?_
      cases ev with
      | sent => cases hev
      | _ => rfl
  | @sent service r msg e t =>
      have hentry : Delivered h (s.setEntry service e) := hD.quiet (.of_eq rfl rfl)
      exact hentry.spawn fun _ => rfl
  | retry => exact concat (hD.quiet (.of_eq rfl rfl)) fun _ => rfl
  | @snapshot service conns _ _ hconns =>
      have hbroad : Delivered h (s.setBroadcasting service true) := hD.quiet (.of_eq rfl rfl)
      refine concat (hbroad.quiet (.setSends (Option.some_ne_none service) fun c v hv => ?_))
        fun _ => rfl
      obtain ⟨c', -, heq⟩ := List.mem_map.mp hv
      cases heq
      exact .inr rfl
  | announce => exact concat (hD.quiet (.of_eq rfl rfl)) fun _ => rfl
  | @unsent p c v err before after hp henv =>
      obtain ⟨e, he⟩ := envelop_outgoing hjson v
      cases henv.symm.trans he
  | @write p c k v e before after hp henv hk hup =>
      refine concat ?_ fun _ => rfl
      by_cases hs : p = none
      · subst hs
        exact hD.write hp
      · have hv := hD.elsewhere p c v hs (hp ▸ List.mem_append_right _ List.mem_cons_self)
        exact hD.quiet ((Hub.Quiet.settle (z := []) hs hp nofun).trans (.write hv))
  | writeFail hp => exact (hclose hp .closing rfl).concat fun _ => rfl
  | sendClose hp => exact (hclose hp .deleting rfl).concat fun _ => rfl
  | @sendDelete p c before after hp =>
      refine concat ?_ fun _ => rfl
      by_cases hs : p = none
      · subst hs
        have hdown : ∀ k, s.conns c = some k → k.up = false := fun _ hk =>
          hI.down_of_failed (hp ▸ List.mem_append_right _ List.mem_cons_self) rfl hk
        exact (hD.settle (z := []) hp nofun hdown).quiet (.of_eq rfl rfl)
      · exact hD.quiet ((Hub.Quiet.settle (z := []) hs hp nofun).trans (.of_eq rfl rfl))

end Delivered

/-- Nothing was sent on a connection that is not there. -/
theorem sentTo_eq_nil {h : List HubEvent} {s : Hub}
    (run : (hubSystem json publicKey).Run System.Any h s) {c : Nat} (hnew : s.conns c = none) :
    h.filterMap (HubEvent.sentTo c) = [] := by
  refine List.filterMap_eq_nil_iff.mpr fun l hl => ?_
  cases l with
  | entry service ev =>
      cases ev with
      | sent r msg =>
          refine if_neg fun hc => ?_
          obtain ⟨current, hhandled⟩ := handled_of_sent (entry_run run) (mem_served.mpr hl)
          obtain ⟨k, hk⟩ := (registered_of_run run).2 service r current (mem_served.mp hhandled)
          rw [hc] at hk
          cases hnew.symm.trans hk
      | _ => rfl
  | _ => rfl

theorem delivered_of_run (hjson : json.RoundTrips) {h : List HubEvent} {s : Hub}
    (run : (hubSystem json publicKey).Run System.Any h s) : Delivered h s := by
  induction run with
  | init h₀ =>
      subst h₀
      exact ⟨nofun, nofun⟩
  | step run _ t ih =>
      exact ih.step (registered_of_run run).1 hjson (fun _ hnew => sentTo_eq_nil run hnew) t

/-! ### The answers to a request -/

section Request

variable {service : Service} {r : EntryReq}

theorem mem_answersTo {l : List (Service × EntryReq × ClientMsg)} {msg : ClientMsg} :
    msg ∈ answersTo service r l ↔ (service, r, msg) ∈ l := by
  rw [answersTo, List.mem_filterMap]
  constructor
  · rintro ⟨⟨service', r', msg'⟩, hx, hif⟩
    obtain ⟨⟨rfl, rfl⟩, hmsg⟩ := Option.ite_none_right_eq_some.mp hif
    cases hmsg
    exact hx
  · exact fun h => ⟨_, h, if_pos ⟨rfl, rfl⟩⟩

theorem mem_sentTo {h : List HubEvent} {c : Nat} {x : Service × EntryReq × ClientMsg}
    (hx : x ∈ h.filterMap (HubEvent.sentTo c)) : x.2.1.conn = c := by
  obtain ⟨l, -, hl⟩ := List.mem_filterMap.mp hx
  cases l with
  | entry service ev =>
      cases ev with
      | sent r msg =>
          obtain ⟨hc, heq⟩ := Option.ite_none_right_eq_some.mp hl
          cases heq
          exact hc
      | _ => cases hl
  | _ => cases hl

theorem answering_eq_some {c : Nat} {y : Nat × Sending} {x : Service × EntryReq × ClientMsg}
    (h : answering c y = some x) : y = (c, .sending (.answer x.1 x.2.1 x.2.2)) := by
  obtain ⟨d, z⟩ := y
  obtain ⟨rfl, hz⟩ := Option.ite_none_right_eq_some.mp h
  cases z with
  | sending v =>
      cases v with
      | answer service r msg =>
          cases hz
          rfl
      | _ => cases hz
  | _ => cases hz

/-- What was sent on the connection of a request for it is what its service sent for it. -/
theorem answersTo_sentTo (h : List HubEvent) :
    answersTo service r (h.filterMap (HubEvent.sentTo r.conn)) =
      valuesAt r (sentMsgs (System.only service (h.filterMap HubEvent.served))) := by
  rw [answersTo, valuesAt, sentMsgs, System.only, List.filterMap_filterMap,
    List.filterMap_filterMap, List.filterMap_filterMap, List.filterMap_filterMap]
  refine List.filterMap_congr fun l _ => ?_
  cases l with
  | entry service' ev =>
      by_cases hs : service' = service
      · cases ev with
        | sent r' msg =>
            by_cases hr : r' = r
            · simp [HubEvent.sentTo, HubEvent.served, hs, hr]
            · by_cases hc : r'.conn = r.conn <;> simp [HubEvent.sentTo, HubEvent.served, hs, hr, hc]
        | _ => simp [HubEvent.sentTo, HubEvent.served, hs]
      · cases ev with
        | sent r' msg =>
            by_cases hc : r'.conn = r.conn <;> simp [HubEvent.sentTo, HubEvent.served, hs, hc]
        | _ => simp [HubEvent.sentTo, HubEvent.served, hs]
  | _ => rfl

end Request

/-- **Answers reach their connection.**  In every run of the entry server, a request that was
handled is answered at most once on the connection it came on, with the one answer that is proper to
it (`Proper`: of what the servers returned for its batch, what is at the request's own position or
in its connection's own bucket), and never on another.  While the socket of the connection is up, no
answer is lost: the service owes the request an answer, or the answer is being written, or it was
written, once. -/
theorem answered_on_connection (hjson : json.RoundTrips) {h : List HubEvent} {s : Hub}
    (run : (hubSystem json publicKey).Run System.Any h s) {service : Service} {r : EntryReq}
    {current : UInt32} (hr : .entry service (.handled r current) ∈ h) :
    ∃ k, s.conns r.conn = some k ∧
      (answersTo service r k.answers).length ≤ 1 ∧
      (∀ msg ∈ answersTo service r k.answers, ∀ msg',
        Proper publicKey service (System.only service (h.filterMap HubEvent.served))
          (s.entry service) r current msg' ↔ msg' = msg) ∧
      (k.up = true →
        r ∈ (s.entry service).owed ∨
        (∃ msg, (r.conn, .sending (.answer service r msg)) ∈ s.sends none) ∨
        ∃ msg, answersTo service r k.answers = [msg]) ∧
      ∀ c k', c ≠ r.conn → s.conns c = some k' → answersTo service r k'.answers = [] := by
  have hD := delivered_of_run hjson run
  obtain ⟨k, hk⟩ := (registered_of_run run).2 service r current hr
  obtain ⟨lost, hperm, hlost⟩ := hD.conns r.conn k hk
  -- what was sent for the request is in one of the three places
  have hsplit : (valuesAt r (sentMsgs (System.only service (h.filterMap HubEvent.served)))).Perm
      (answersTo service r k.answers ++
        (answersTo service r ((s.sends none).filterMap (answering r.conn)) ++
          answersTo service r lost)) := by
    rw [← answersTo_sentTo]
    simp only [answersTo, ← List.filterMap_append]
    exact hperm.filterMap _
  have hbooks := (Balanced.of_entry_run (entry_run run) service).owed_or_sent
    (mem_handled.mpr (System.mem_only.mpr (mem_served.mpr hr)))
  have hle : (answersTo service r k.answers).length ≤ 1 := by
    have hlen := hsplit.length_eq
    rw [List.length_append] at hlen
    rcases hbooks with ⟨-, hnone⟩ | ⟨-, msg, hone, -⟩
    · rw [hnone, List.length_nil] at hlen
      omega
    · rw [hone, List.length_singleton] at hlen
      omega
  refine ⟨k, hk, hle, fun msg hmsg msg' => ?_, fun hup => ?_, fun c k' hc hk' => ?_⟩
  · have hmem := hsplit.mem_iff.mpr (List.mem_append_left _ hmsg)
    rcases hbooks with ⟨-, hnone⟩ | ⟨-, msg₀, hone, hproper, honly⟩
    · rw [hnone] at hmem
      cases hmem
    · rw [hone] at hmem
      cases List.mem_singleton.mp hmem
      refine ⟨honly msg', ?_⟩
      rintro rfl
      exact hproper
  · rcases hbooks with ⟨howed, -⟩ | ⟨-, msg, hone, -⟩
    · exact .inl howed
    · rw [hone, hlost hup] at hsplit
      rcases List.mem_append.mp (hsplit.mem_iff.mp (List.mem_singleton_self msg)) with hmem | hmem
      · have hone := le_antisymm hle (List.length_pos_of_mem hmem)
        exact .inr (.inr (List.length_eq_one_iff.mp hone))
      · rcases List.mem_append.mp hmem with hmem | hmem
        · obtain ⟨y, hy, hans⟩ := List.mem_filterMap.mp (mem_answersTo.mp hmem)
          rw [answering_eq_some hans] at hy
          exact .inr (.inl ⟨msg, hy⟩)
        · cases hmem
  · obtain ⟨lost', hperm', -⟩ := hD.conns c k' hk'
    refine List.eq_nil_iff_forall_not_mem.mpr fun msg hmsg => hc ?_
    have hmem := hperm'.mem_iff.mpr (List.mem_append_left _ (mem_answersTo.mp hmsg))
    exact (mem_sentTo hmem).symm

/-- The answer to the last request of the sample run. -/
def sampleRefused : ClientMsg := wrongRound .convo (sampleReq 2 3 9) 0

/-- Three requests come on two connections, the last for a round that is not current.  The error
that answers it is written; the other two are a batch, and the answer to the second is written. -/
def sampleAnswers : List HubEvent :=
  [.snapshot .convo 0, .entry .convo (.announced 0), .accepted 3, .accepted 4,
    .read 3 (.convoRequest ⟨0, [7]⟩), .entry .convo (.handled (sampleReq 0 3 0) 0),
    .read 4 (.convoRequest ⟨0, [8]⟩), .entry .convo (.handled (sampleReq 1 4 0) 0),
    .read 3 (.convoRequest ⟨9, [9]⟩), .entry .convo (.handled (sampleReq 2 3 9) 0),
    .entry .convo (.sent (sampleReq 2 3 9) sampleRefused),
    .wrote 3 (.answer .convo (sampleReq 2 3 9) sampleRefused),
    .entry .convo (.cut 0), .entry .convo (.ended 0 0 (.convoReplied [[7], [8]])),
    .entry .convo (.sent (sampleReq 1 4 0) (.convoResponse 0 [8])),
    .wrote 4 (.answer .convo (sampleReq 1 4 0) (.convoResponse 0 [8]))]

theorem answered_on_connection_sample :
    ∃ s k, (hubSystem sampleJson sampleConn).Run System.Any sampleAnswers s ∧
      s.conns 4 = some k ∧
      answersTo .convo (sampleReq 1 4 0) k.answers = [.convoResponse 0 [8]] ∧
      ∀ msg, Proper sampleConn .convo
        (System.only .convo (sampleAnswers.filterMap HubEvent.served)) (s.entry .convo)
          (sampleReq 1 4 0) 0 msg ↔ msg = .convoResponse 0 [8] := by
  have start : (hubSystem sampleJson sampleConn).Run System.Any [] .start := .init rfl
  have opened (round : UInt32) (onion : Bytes) :
      Envelope.open sampleJson ⟨msgConvoRequest, putUint32 round ++ onion⟩ =
        .ok (.convoRequest ⟨round, onion⟩) := open_envelop sampleJson_roundTrips rfl rfl
  have echoed : echoServer.runConvoRound 0
      ([sampleReq 0 3 0, sampleReq 1 4 0].map EntryReq.onion) () = .ok [[7], [8]] () := rfl
  have read : ∀ y : Nat × Message, [y] = [] ++ y :: [] := fun _ => rfl
  have owed : ∀ y : EntryReq × ClientMsg, [y] = [] ++ y :: [] := fun _ => rfl
  have last : ∀ x y : EntryReq × ClientMsg, ∀ result,
      some (Ended.mk result ⟨[], [x, y]⟩) = some ⟨result, ⟨[], [x] ++ y :: []⟩⟩ := fun _ _ _ => rfl
  have sending : ∀ y : Nat × Sending, [y] = [] ++ y :: [] := fun _ => rfl
  have path : (hubSystem sampleJson sampleConn).Path .start sampleAnswers _ :=
    .cons (.snapshot rfl rfl (.refl [])) <|
    .cons (.announce rfl rfl (.announce rfl)) <|
    .cons (.accept rfl) <|
    .cons (.accept rfl) <|
    .cons (.read rfl rfl (opened 0 [7])) <|
    .cons (.handle (read (3, .convoRequest ⟨0, [7]⟩)) (.accept rfl rfl)) <|
    .cons (.read rfl rfl (opened 0 [8])) <|
    .cons (.handle (read (4, .convoRequest ⟨0, [8]⟩)) (.accept rfl rfl)) <|
    .cons (.read rfl rfl (opened 9 [9])) <|
    .cons (.handle (read (3, .convoRequest ⟨9, [9]⟩)) (.refuse rfl rfl)) <|
    .cons (.sent (.sendError (x := (_, _)) (owed (sampleReq 2 3 9, sampleRefused)))) <|
    .cons (.write (p := none)
      (sending (3, .sending (.answer .convo (sampleReq 2 3 9) sampleRefused))) rfl rfl rfl) <|
    .cons (.inner rfl (.cut rfl)) <|
    .cons (.inner rfl (.finish (k := 0) (b := ⟨0, [sampleReq 0 3 0, sampleReq 1 4 0], none⟩)
      rfl rfl (.convoReplied echoed) rfl)) <|
    .cons (.sent (.send (k := 0) (x := (_, _)) rfl
      (last (sampleReq 0 3 0, .convoResponse 0 [7])
        (sampleReq 1 4 0, .convoResponse 0 [8]) _))) <|
    .cons (.write (p := none)
      (sending (4, .sending (.answer .convo (sampleReq 1 4 0) (.convoResponse 0 [8]))))
        rfl rfl rfl) .nil
  have run := start.extend path
  have hr : .entry .convo (.handled (sampleReq 1 4 0) 0) ∈ [] ++ sampleAnswers := by
    simp [sampleAnswers]
  obtain ⟨k, hk, -, hproper, -⟩ := answered_on_connection sampleJson_roundTrips run hr
  cases hk
  exact ⟨_, _, run, rfl, rfl, hproper _ (List.mem_singleton_self _)⟩

end Vuvuzela
