import Vuvuzela.Entry.Steps
import Vuvuzela.Dial.Handlers
import Vuvuzela.Chain.Sample
import Vuvuzela.Support.Keyed

/-!
# Entry — every request is answered once

What holds in every run of the entry server, for each of its services (`Balanced`).  The batches
in the order in which they were cut, and then the requests that wait, are the requests that were
accepted, in the order in which they came; so nothing is lost, put twice or put into another
batch.  And the requests that were handled are those that were answered and those that are still
owed an answer (`Balanced.conserved`); so none is answered twice.

`request_answered_once` reads this off for one request.
-/

namespace Vuvuzela
open Support

variable {publicKey : Nat → BoxKey} {service : Service}

/-! ### What a history says -/

/-- The requests that were handled, with the round that was current. -/
def handled (h : List EntryEvent) : List (EntryReq × UInt32) :=
  h.filterMap fun
    | .handled r current => some (r, current)
    | _ => none

/-- The requests for the round that was current. -/
def acceptedReqs (h : List EntryEvent) : List EntryReq :=
  ((handled h).filter fun x => x.1.round = x.2).map Prod.fst

/-- The error that answers a request for another round. -/
def wrongRound (service : Service) (r : EntryReq) (current : UInt32) : ClientMsg :=
  service.error r.round s!"wrong round (currently {current})"

/-- The other requests, with the errors that answer them. -/
def refusedReqs (service : Service) (h : List EntryEvent) : List (EntryReq × ClientMsg) :=
  ((handled h).filter fun x => x.1.round ≠ x.2).map fun x => (x.1, wrongRound service x.1 x.2)

/-- The messages that were sent, each with the request it answers. -/
def sentMsgs (h : List EntryEvent) : List (EntryReq × ClientMsg) :=
  h.filterMap fun
    | .sent r msg => some (r, msg)
    | _ => none

theorem mem_handled {h : List EntryEvent} {r : EntryReq} {current : UInt32} :
    (r, current) ∈ handled h ↔ .handled r current ∈ h :=
  mem_filterMap_iff fun ev => by cases ev <;> simp

theorem mem_sentMsgs {h : List EntryEvent} {r : EntryReq} {msg : ClientMsg} :
    (r, msg) ∈ sentMsgs h ↔ .sent r msg ∈ h :=
  mem_filterMap_iff fun ev => by cases ev <;> simp

/-- Every request that was handled was accepted or refused. -/
theorem handled_perm (service : Service) (h : List EntryEvent) :
    ((handled h).map Prod.fst).Perm
      ((refusedReqs service h).map Prod.fst ++ acceptedReqs h) := by
  rw [refusedReqs, acceptedReqs, List.map_map]
  have hperm := List.filter_append_perm (fun x : EntryReq × UInt32 => x.1.round ≠ x.2) (handled h)
  refine (hperm.symm.map Prod.fst).trans ?_
  rw [List.map_append]
  refine List.Perm.append_left _ (List.Perm.of_eq ?_)
  congr 1
  refine List.filter_congr fun x _ => ?_
  simp

section Concat

variable (h : List EntryEvent)

theorem handled_concat (ev : EntryEvent) : handled (h ++ [ev]) = handled h ++ handled [ev] :=
  List.filterMap_append ..

theorem sentMsgs_concat (ev : EntryEvent) : sentMsgs (h ++ [ev]) = sentMsgs h ++ sentMsgs [ev] :=
  List.filterMap_append ..

theorem acceptedReqs_concat (ev : EntryEvent) :
    acceptedReqs (h ++ [ev]) = acceptedReqs h ++ acceptedReqs [ev] := by
  rw [acceptedReqs, handled_concat, List.filter_append, List.map_append]
  rfl

theorem refusedReqs_concat (service : Service) (ev : EntryEvent) :
    refusedReqs service (h ++ [ev]) = refusedReqs service h ++ refusedReqs service [ev] := by
  rw [refusedReqs, handled_concat, List.filter_append, List.map_append]
  rfl

end Concat

/-! ### What a batch answers -/

/-- What the end of a round gives the request at position `i` of the batch, which came on
connection `conn`: the reply at that position, the bucket of the connection's key, or the error. -/
def RoundEnd.answer (publicKey : Nat → BoxKey) (round : UInt32) (i conn : Nat) :
    RoundEnd → Option ClientMsg
  | .convoFailed => some (.convoError round "server error")
  | .convoReplied replies => replies[i]?.map (.convoResponse round)
  | .dialFailed => some (.dialError round "server error")
  | .dialBuckets buckets => (connBucket publicKey buckets conn).map (.dialBucket round)

theorem runDialRoundBuckets_spec {round : UInt32} {buckets : List Bucket} :
    ∀ {requests : List EntryReq} {answers : List (EntryReq × ClientMsg)},
      runDialRoundBuckets publicKey round requests buckets = some answers →
        answers.map Prod.fst = requests ∧ ∀ x ∈ answers,
          ∃ intros, connBucket publicKey buckets x.1.conn = some intros ∧
            x.2 = .dialBucket round intros
  | [], _, h => by
      cases h
      exact ⟨rfl, nofun⟩
  | r :: requests, answers, h => by
      simp only [runDialRoundBuckets, List.mapM_cons, Option.bind_eq_bind,
        Option.bind_eq_some_iff] at h
      obtain ⟨x, ⟨intros, hintros, hx⟩, rest, hrest, hcons⟩ := h
      cases hx
      cases hcons
      obtain ⟨hfst, hall⟩ := runDialRoundBuckets_spec hrest
      refine ⟨by rw [List.map_cons, hfst], fun y hy => ?_⟩
      rcases List.mem_cons.mp hy with rfl | hy
      · exact ⟨intros, hintros, rfl⟩
      · exact hall y hy

theorem map_fst_broadcast (requests : List EntryReq) (msg : ClientMsg) :
    (broadcast requests msg).map Prod.fst = requests := by
  simp [broadcast, Function.comp_def]

theorem snd_of_broadcast {requests : List EntryReq} {msg : ClientMsg} {i : Nat}
    {x : EntryReq × ClientMsg} (hx : (broadcast requests msg)[i]? = some x) : x.2 = msg := by
  obtain ⟨r, -, rfl⟩ := List.mem_map.mp (List.mem_of_getElem? hx)
  rfl

section Answers

variable {round : UInt32} {requests : List EntryReq} {result : RoundEnd}
  {answers : List (EntryReq × ClientMsg)}

/-- A batch has one answer for each of its requests, in their order. -/
theorem Returned.map_fst (h : Returned round requests service result)
    (hans : result.answers publicKey round requests = some answers) :
    answers.map Prod.fst = requests := by
  cases h with
  | convoFailed | dialFailed =>
      cases hans
      exact map_fst_broadcast requests _
  | @convoReplied _ first _ _ replies hrun =>
      cases hans
      have hlen : replies.length = requests.length := by
        rw [first.length_replies hrun, List.length_map]
      have hzip : (requests.zip replies).map Prod.fst = requests := List.map_fst_zip hlen.ge
      rw [List.zip, List.map_zipWith] at hzip
      rw [runConvoRoundReplied, List.map_zipWith]
      exact hzip
  | dialBuckets => exact (runDialRoundBuckets_spec hans).1

/-- The answer at a position is what the end of the round gives the request there. -/
theorem RoundEnd.answer_of_answers (hans : result.answers publicKey round requests = some answers)
    {i : Nat} {x : EntryReq × ClientMsg} (hx : answers[i]? = some x) :
    result.answer publicKey round i x.1.conn = some x.2 := by
  cases result with
  | convoFailed | dialFailed =>
      cases hans
      rw [snd_of_broadcast hx]
      rfl
  | convoReplied replies =>
      cases hans
      rw [runConvoRoundReplied, List.getElem?_zipWith_eq_some] at hx
      obtain ⟨r, reply, -, hreply, rfl⟩ := hx
      rw [RoundEnd.answer, hreply]
      rfl
  | dialBuckets buckets =>
      obtain ⟨intros, hintros, hmsg⟩ :=
        (runDialRoundBuckets_spec hans).2 x (List.mem_of_getElem? hx)
      rw [RoundEnd.answer, hintros, hmsg]
      rfl

end Answers

/-- There is a bucket for every key. -/
theorem connBucket_isSome {cfg : Config} {round : UInt32} {last last' : Server}
    {buckets : List Bucket} (hcfg : cfg.dialBuckets = entryBuckets)
    (h : DialService.buckets cfg round last = .ok buckets last') (conn : Nat) :
    (connBucket publicKey buckets conn).isSome := by
  obtain ⟨r, -, -, rfl⟩ := DialService.buckets_eq_ok h
  have hlen : (fileIntros cfg r.incoming).length = 1 := by
    rw [DialService.length_fileIntros, hcfg]
    rfl
  have hmod : ∀ x : UInt32, (x % entryBuckets).toNat = 0 := fun x => by
    rw [UInt32.toNat_mod, show entryBuckets.toNat = 1 from rfl, Nat.mod_one]
  rw [connBucket, bucketOf, keyDialBucket, if_neg (by decide)]
  simp [hmod, hlen]

/-- The bucket of every connection is found, so the answers of a dialing round are. -/
theorem runDialRoundBuckets_isSome {cfg : Config} (hcfg : cfg.dialBuckets = entryBuckets)
    {round Round : UInt32} {srv srv' : Server} {buckets : List Bucket}
    (h : DialService.buckets cfg Round srv = .ok buckets srv') (requests : List EntryReq) :
    (runDialRoundBuckets publicKey round requests buckets).isSome := by
  induction requests with
  | nil => rfl
  | cons r requests ih =>
      have hconn : (connBucket publicKey buckets r.conn).isSome :=
        connBucket_isSome hcfg h r.conn
      obtain ⟨intros, hi⟩ := Option.isSome_iff_exists.mp hconn
      obtain ⟨rest, hrest⟩ := Option.isSome_iff_exists.mp ih
      rw [runDialRoundBuckets] at hrest
      rw [runDialRoundBuckets, List.mapM_cons, hi, hrest]
      rfl

/-- No way a round can end makes `runConvoRound` or `runDialRound` panic. -/
theorem Returned.answers_ne_none {round : UInt32} {requests : List EntryReq} {result : RoundEnd}
    (h : Returned round requests service result) :
    result.answers publicKey round requests ≠ none := by
  cases h with
  | convoFailed | convoReplied | dialFailed => nofun
  | dialBuckets hcfg hb =>
      exact Option.isSome_iff_ne_none.mp (runDialRoundBuckets_isSome hcfg hb requests)

/-! ### The books of a service -/

/-- The messages a batch has sent. -/
def Batch.done (b : Batch) : List (EntryReq × ClientMsg) :=
  match b.ended with
  | none => []
  | some x => x.sends.done

/-- The requests of a batch that are owed an answer. -/
def Batch.owed (b : Batch) : List EntryReq :=
  match b.ended with
  | none => b.requests
  | some x => x.sends.todo.map Prod.fst

/-- The requests in the batches, in the order in which they were cut, and those that wait. -/
def EntryState.placed (s : EntryState) : List EntryReq :=
  s.batches.flatMap Batch.requests ++ s.intake.requests

/-- The requests that are owed an answer. -/
def EntryState.owed (s : EntryState) : List EntryReq :=
  s.errors.todo.map Prod.fst ++ (s.batches.flatMap Batch.owed ++ s.intake.requests)

/-- How the round of batch `k` ended, once it has. -/
def EntryState.end? (s : EntryState) (k : Nat) : Option (UInt32 × RoundEnd) :=
  s.batches[k]?.bind fun b => b.ended.map fun x => (b.round, x.result)

/-- The batch is in order: its requests are for its round, and what it sent and has to send are
the answers to what the servers returned. -/
structure BatchOk (publicKey : Nat → BoxKey) (service : Service) (b : Batch) : Prop where
  round : ∀ r ∈ b.requests, r.round = b.round
  returned : ∀ x, b.ended = some x → Returned b.round b.requests service x.result
  sends : ∀ x, b.ended = some x → ∃ answers,
    x.result.answers publicKey b.round b.requests = some answers ∧
      (x.sends.done ++ x.sends.todo).Perm answers

structure Balanced (publicKey : Nat → BoxKey) (service : Service) (h : List EntryEvent)
    (s : EntryState) : Prop where
  placed : s.placed = acceptedReqs h
  current : ∀ r ∈ s.intake.requests, r.round = s.intake.round
  batches : ∀ b ∈ s.batches, BatchOk publicKey service b
  ended : ∀ k round result, .ended k round result ∈ h ↔ s.end? k = some (round, result)
  refused : (s.errors.done ++ s.errors.todo).Perm (refusedReqs service h)
  sent : (sentMsgs h).Perm (s.errors.done ++ s.batches.flatMap Batch.done)
  tickets : ∀ x ∈ handled h, x.1.ticket < s.tickets
  nodup : ((handled h).map Prod.fst).Nodup
  panicked : ∀ round, .panicked round ∉ h

/-- A batch owes an answer to each request it has not answered. -/
theorem BatchOk.requests_perm {b : Batch} (hb : BatchOk publicKey service b) :
    b.requests.Perm (b.done.map Prod.fst ++ b.owed) := by
  rw [Batch.done, Batch.owed]
  cases hended : b.ended with
  | none => exact List.Perm.refl _
  | some x =>
      obtain ⟨answers, hans, hperm⟩ := hb.sends x hended
      have := hperm.map Prod.fst
      rw [(hb.returned x hended).map_fst hans, List.map_append] at this
      exact this.symm

/-- **Conservation.**  The requests that were handled are those that were answered and those that
are owed an answer, each once. -/
theorem Balanced.conserved {h : List EntryEvent} {s : EntryState}
    (hI : Balanced publicKey service h s) :
    ((handled h).map Prod.fst).Perm ((sentMsgs h).map Prod.fst ++ s.owed) := by
  have herrors := (hI.refused.map Prod.fst).symm
  have hbatches : (s.batches.flatMap Batch.requests).Perm
      ((s.batches.flatMap Batch.done).map Prod.fst ++ s.batches.flatMap Batch.owed) := by
    refine (List.Perm.flatMap_left _ fun b hb => (hI.batches b hb).requests_perm).trans ?_
    rw [List.map_flatMap]
    exact (List.flatMap_append_perm ..).symm
  have hsent := hI.sent.map Prod.fst
  rw [List.map_append] at herrors hsent
  have hhandled := handled_perm service h
  rw [← hI.placed, EntryState.placed] at hhandled
  refine hhandled.trans ((herrors.append (hbatches.append_right _)).trans ?_)
  refine List.Perm.trans ?_ (hsent.symm.append_right s.owed)
  rw [EntryState.owed, List.append_assoc, List.append_assoc, List.append_assoc]
  exact (List.perm_append_comm_assoc ..).append_left _

/-- The answer to a request.  For the round that was current: the round of a batch `k` ended, once,
and the answer is what its end gives the request's own position in the batch and the request's own
connection.  For another round: the error. -/
def Proper (publicKey : Nat → BoxKey) (service : Service) (h : List EntryEvent) (s : EntryState)
    (r : EntryReq) (current : UInt32) (msg : ClientMsg) : Prop :=
  if r.round = current then
    ∃ k b i result, s.batches[k]? = some b ∧ b.requests[i]? = some r ∧
      Returned r.round b.requests service result ∧
      (∀ round result', .ended k round result' ∈ h ↔ round = r.round ∧ result' = result) ∧
      result.answer publicKey r.round i r.conn = some msg
  else msg = wrongRound service r current

/-! ### Steps keep the books -/

theorem Intake.handleRequest_eq_ok {intake intake' : Intake} {r : EntryReq}
    (h : intake.handleRequest service r = .ok intake') :
    r.round = intake.round ∧ intake' = ⟨intake.round, intake.requests ++ [r]⟩ := by
  simp only [Intake.handleRequest] at h
  split at h
  · cases h
  · rename_i hround
    cases h
    exact ⟨not_not.mp hround, rfl⟩

theorem Intake.handleRequest_eq_error {intake : Intake} {r : EntryReq} {msg : ClientMsg}
    (h : intake.handleRequest service r = .error msg) :
    r.round ≠ intake.round ∧ msg = wrongRound service r intake.round := by
  simp only [Intake.handleRequest] at h
  split at h
  · rename_i hround
    cases h
    exact ⟨hround, rfl⟩
  · cases h

theorem perm_of_sent (x : EntryReq × ClientMsg) (done before after : List (EntryReq × ClientMsg)) :
    ((done ++ [x]) ++ (before ++ after)).Perm (done ++ (before ++ x :: after)) := by
  rw [List.append_assoc, List.singleton_append]
  exact List.perm_middle.symm.append_left done

namespace Balanced

variable {h : List EntryEvent} {s s' : EntryState}

/-- What has ended after a step that ends no round. -/
theorem ended_concat (hI : Balanced publicKey service h s) {ev : EntryEvent}
    (hev : ∀ k round result, ev ≠ .ended k round result) (hend : ∀ k, s'.end? k = s.end? k) :
    ∀ k round result, .ended k round result ∈ h ++ [ev] ↔ s'.end? k = some (round, result) := by
  intro k round result
  rw [List.mem_append, List.mem_singleton, hend k, ← hI.ended k round result]
  exact or_iff_left (hev k round result).symm

/-- A step that handles and sends nothing keeps the books when it keeps what is placed and what
was sent. -/
theorem quiet (hI : Balanced publicKey service h s) {ev : EntryEvent} (hhandled : handled [ev] = [])
    (hsent : sentMsgs [ev] = []) (hpanic : ∀ round, ev ≠ .panicked round)
    (hplaced : s'.placed = s.placed)
    (hcurrent : ∀ r ∈ s'.intake.requests, r.round = s'.intake.round)
    (hbatches : ∀ b ∈ s'.batches, BatchOk publicKey service b)
    (hended : ∀ k round result,
      .ended k round result ∈ h ++ [ev] ↔ s'.end? k = some (round, result))
    (herrors : s'.errors = s.errors)
    (hdone : s'.batches.flatMap Batch.done = s.batches.flatMap Batch.done)
    (htickets : s'.tickets = s.tickets) : Balanced publicKey service (h ++ [ev]) s' := by
  have hh : handled (h ++ [ev]) = handled h := by
    rw [handled_concat, hhandled, List.append_nil]
  refine ⟨?_, hcurrent, hbatches, hended, ?_, ?_, ?_, ?_, fun round hmem => ?_⟩
  · rw [hplaced, acceptedReqs, hh]
    exact hI.placed
  · rw [herrors, refusedReqs, hh]
    exact hI.refused
  · rw [sentMsgs_concat, hsent, List.append_nil, herrors, hdone]
    exact hI.sent
  · rw [hh, htickets]
    exact hI.tickets
  · rw [hh]
    exact hI.nodup
  · rcases List.mem_append.mp hmem with hmem | hmem
    · exact hI.panicked round hmem
    · exact hpanic round (List.mem_singleton.mp hmem).symm

/-- The ticket of a request that comes is new. -/
theorem fresh (hI : Balanced publicKey service h s) {r : EntryReq} (hticket : r.ticket = s.tickets)
    (current : UInt32) :
    (∀ x ∈ handled (h ++ [.handled r current]), x.1.ticket < s.tickets + 1) ∧
      ((handled (h ++ [.handled r current])).map Prod.fst).Nodup := by
  rw [handled_concat]
  constructor
  · intro x hx
    rcases List.mem_append.mp hx with hx | hx
    · exact (hI.tickets x hx).trans (Nat.lt_succ_self _)
    · cases List.mem_singleton.mp hx
      exact hticket ▸ Nat.lt_succ_self _
  · rw [List.map_append, List.nodup_append]
    refine ⟨hI.nodup, List.nodup_singleton _, fun x hx y hy hxy => ?_⟩
    obtain ⟨z, hz, rfl⟩ := List.mem_map.mp hx
    cases List.mem_singleton.mp hy
    have hlt := hI.tickets z hz
    rw [hxy] at hlt
    exact absurd hticket hlt.ne

theorem accept (hI : Balanced publicKey service h s) {r : EntryReq} {intake : Intake}
    (hticket : r.ticket = s.tickets) (hok : s.intake.handleRequest service r = .ok intake) :
    Balanced publicKey service (h ++ [.handled r s.intake.round])
      { s with intake := intake, tickets := s.tickets + 1 } := by
  obtain ⟨hround, rfl⟩ := Intake.handleRequest_eq_ok hok
  obtain ⟨htickets, hnodup⟩ := hI.fresh hticket s.intake.round
  refine ⟨?_, fun x hx => ?_, hI.batches, hI.ended_concat nofun fun _ => rfl, ?_, ?_, htickets,
    hnodup, by simpa using hI.panicked⟩
  · have hone : acceptedReqs [.handled r s.intake.round] = [r] := by
      simp [acceptedReqs, handled, hround]
    rw [acceptedReqs_concat, ← hI.placed, hone]
    exact (List.append_assoc ..).symm
  · rcases List.mem_append.mp hx with hx | hx
    · exact hI.current x hx
    · rw [List.mem_singleton.mp hx]
      exact hround
  · have hnone : refusedReqs service [.handled r s.intake.round] = [] := by
      simp [refusedReqs, handled, hround]
    rw [refusedReqs_concat, hnone, List.append_nil]
    exact hI.refused
  · rw [sentMsgs_concat, show sentMsgs [.handled r s.intake.round] = [] from rfl, List.append_nil]
    exact hI.sent

theorem refuse (hI : Balanced publicKey service h s) {r : EntryReq} {msg : ClientMsg}
    (hticket : r.ticket = s.tickets) (herr : s.intake.handleRequest service r = .error msg) :
    Balanced publicKey service (h ++ [.handled r s.intake.round])
      { s with
        errors := ⟨s.errors.done, s.errors.todo ++ [(r, msg)]⟩
        tickets := s.tickets + 1 } := by
  obtain ⟨hround, rfl⟩ := Intake.handleRequest_eq_error herr
  obtain ⟨htickets, hnodup⟩ := hI.fresh hticket s.intake.round
  refine ⟨?_, hI.current, hI.batches, hI.ended_concat nofun fun _ => rfl, ?_, ?_, htickets, hnodup,
    by simpa using hI.panicked⟩
  · have hnone : acceptedReqs [.handled r s.intake.round] = [] := by
      simp [acceptedReqs, handled, hround]
    rw [acceptedReqs_concat, hnone, List.append_nil]
    exact hI.placed
  · have hone : refusedReqs service [.handled r s.intake.round] =
        [(r, wrongRound service r s.intake.round)] := by
      simp [refusedReqs, handled, hround]
    rw [refusedReqs_concat, hone, ← List.append_assoc]
    exact hI.refused.append_right _
  · rw [sentMsgs_concat, show sentMsgs [.handled r s.intake.round] = [] from rfl, List.append_nil]
    exact hI.sent

theorem cut (hI : Balanced publicKey service h s) (loop : Loop) :
    Balanced publicKey service (h ++ [.cut s.intake.round])
      { s with
        intake := s.intake.cut.2
        loop := loop
        batches := s.batches ++ [⟨s.intake.cut.1.1, s.intake.cut.1.2, none⟩] } := by
  refine hI.quiet rfl rfl nofun ?_ nofun (fun b hb => ?_) (hI.ended_concat nofun fun k => ?_) rfl
    ?_ rfl
  · simp [EntryState.placed, Intake.cut]
  · rcases List.mem_append.mp hb with hb | hb
    · exact hI.batches b hb
    · cases List.mem_singleton.mp hb
      exact ⟨hI.current, nofun, nofun⟩
  · -- the new batch has not ended, and before there was none at its place
    rw [EntryState.end?, EntryState.end?]
    rcases lt_trichotomy k s.batches.length with hk | rfl | hk
    · rw [List.getElem?_append_left hk]
    · rw [List.getElem?_concat_length, List.getElem?_eq_none le_rfl]
      rfl
    · rw [List.getElem?_eq_none hk.le, List.getElem?_eq_none]
      rw [List.length_append, List.length_singleton]
      exact hk
  · simp [Batch.done]

/-- A batch is replaced by one with the same requests. -/
theorem set_batch (hI : Balanced publicKey service h s) {k : Nat} {b b' : Batch}
    (hb : s.batches[k]? = some b) (hb' : BatchOk publicKey service b')
    (hrequests : b'.requests = b.requests) :
    EntryState.placed { s with batches := s.batches.set k b' } = s.placed ∧
      ∀ b ∈ s.batches.set k b', BatchOk publicKey service b := by
  obtain ⟨l₁, l₂, hl, hset⟩ := exists_split hb
  constructor
  · rw [EntryState.placed, EntryState.placed, hset, hl]
    simp [hrequests]
  · intro x hx
    rcases List.mem_or_eq_of_mem_set hx with hx | rfl
    · exact hI.batches x hx
    · exact hb'

theorem end?_set {k : Nat} {b b' : Batch} (hb : s.batches[k]? = some b) (k' : Nat) :
    EntryState.end? { s with batches := s.batches.set k b' } k' =
      if k' = k then b'.ended.map fun x => (b'.round, x.result) else s.end? k' := by
  rw [EntryState.end?, List.getElem?_set]
  split
  · next hk =>
    rw [if_pos hk.symm, if_pos (List.getElem?_eq_some_iff.mp hb).1]
    rfl
  · next hk =>
    rw [if_neg (Ne.symm hk)]
    rfl

theorem finish (hI : Balanced publicKey service h s) {k : Nat} {b : Batch}
    (hb : s.batches[k]? = some b) (hrun : b.ended = none) {result : RoundEnd}
    (hret : Returned b.round b.requests service result) {answers : List (EntryReq × ClientMsg)}
    (hans : result.answers publicKey b.round b.requests = some answers) :
    Balanced publicKey service (h ++ [.ended k b.round result])
      { s with
        batches := s.batches.set k { b with ended := some ⟨result, ⟨[], answers⟩⟩ } } := by
  have hok : BatchOk publicKey service { b with ended := some ⟨result, ⟨[], answers⟩⟩ } := by
    refine ⟨(hI.batches b (List.mem_of_getElem? hb)).round, fun x hx => ?_, fun x hx => ?_⟩
    · cases hx
      exact hret
    · cases hx
      exact ⟨answers, hans, .refl _⟩
  obtain ⟨hplaced, hbatches⟩ := hI.set_batch hb hok rfl
  refine hI.quiet rfl rfl nofun hplaced hI.current hbatches (fun k' round result' => ?_) rfl ?_ rfl
  · rw [List.mem_append, List.mem_singleton, end?_set hb, hI.ended k' round result']
    split
    · next hk =>
      -- the batch had not ended before
      have hnone : s.end? k' = none := by
        rw [hk, EntryState.end?, hb, Option.bind_some, hrun]
        rfl
      rw [hnone, hk]
      simp [eq_comm]
    · next hk => simp [hk]
  · obtain ⟨l₁, l₂, hl, hset⟩ := exists_split hb
    rw [hset, hl]
    simp [Batch.done, hrun]

/-- A message was sent, by a batch or for an error. -/
theorem sends (hI : Balanced publicKey service h s) {x : EntryReq × ClientMsg}
    (hplaced : s'.placed = s.placed) (hintake : s'.intake = s.intake)
    (hbatches : ∀ b ∈ s'.batches, BatchOk publicKey service b)
    (hend : ∀ k, s'.end? k = s.end? k)
    (hrefused : (s'.errors.done ++ s'.errors.todo).Perm (s.errors.done ++ s.errors.todo))
    (hsent : (s'.errors.done ++ s'.batches.flatMap Batch.done).Perm
      ((s.errors.done ++ s.batches.flatMap Batch.done) ++ [x]))
    (htickets : s'.tickets = s.tickets) :
    Balanced publicKey service (h ++ [.sent x.1 x.2]) s' := by
  have hh : handled (h ++ [.sent x.1 x.2]) = handled h := by
    rw [handled_concat, show handled [.sent x.1 x.2] = [] from rfl, List.append_nil]
  refine ⟨?_, hintake ▸ hI.current, hbatches, hI.ended_concat nofun hend, ?_, ?_, ?_, ?_,
    by simpa using hI.panicked⟩
  · rw [hplaced, acceptedReqs, hh]
    exact hI.placed
  · rw [refusedReqs, hh]
    exact hrefused.trans hI.refused
  · rw [sentMsgs_concat]
    exact (hI.sent.append_right _).trans hsent.symm
  · rw [hh, htickets]
    exact hI.tickets
  · rw [hh]
    exact hI.nodup

theorem send (hI : Balanced publicKey service h s) {k : Nat} {b : Batch}
    (hb : s.batches[k]? = some b) {result : RoundEnd}
    {done before after : List (EntryReq × ClientMsg)} {x : EntryReq × ClientMsg}
    (hended : b.ended = some ⟨result, ⟨done, before ++ x :: after⟩⟩) :
    Balanced publicKey service (h ++ [.sent x.1 x.2])
      { s with
        batches := s.batches.set k
          { b with ended := some ⟨result, ⟨done ++ [x], before ++ after⟩⟩ } } := by
  have hok := hI.batches b (List.mem_of_getElem? hb)
  have hok' : BatchOk publicKey service
      { b with ended := some ⟨result, ⟨done ++ [x], before ++ after⟩⟩ } := by
    refine ⟨hok.round, fun y hy => ?_, fun y hy => ?_⟩
    · cases hy
      exact hok.returned ⟨result, ⟨done, before ++ x :: after⟩⟩ hended
    · cases hy
      obtain ⟨answers, hans, hperm⟩ := hok.sends ⟨result, ⟨done, before ++ x :: after⟩⟩ hended
      exact ⟨answers, hans, (perm_of_sent ..).trans hperm⟩
  obtain ⟨hplaced, hbatches⟩ := hI.set_batch hb hok' rfl
  refine hI.sends hplaced rfl hbatches (fun k' => ?_) (.refl _) ?_ rfl
  · rw [end?_set hb]
    split
    · next hk =>
      rw [hk, EntryState.end?, hb, Option.bind_some, hended]
      rfl
    · rfl
  -- the message moves from this batch to what was sent, all other batches stay
  obtain ⟨l₁, l₂, hl, hset⟩ := exists_split hb
  have hdone : Batch.done { b with ended := some ⟨result, ⟨done ++ [x], before ++ after⟩⟩ } =
      b.done ++ [x] := by simp [Batch.done, hended]
  rw [hset, hl, List.append_assoc]
  refine List.Perm.append_left _ ?_
  rw [List.flatMap_append, List.flatMap_cons, hdone, List.flatMap_append, List.flatMap_cons,
    List.append_assoc, List.append_assoc, List.append_assoc]
  exact (List.perm_append_comm.append_left _).append_left _

theorem sendError (hI : Balanced publicKey service h s)
    {before after : List (EntryReq × ClientMsg)} {x : EntryReq × ClientMsg}
    (htodo : s.errors.todo = before ++ x :: after) :
    Balanced publicKey service (h ++ [.sent x.1 x.2])
      { s with errors := ⟨s.errors.done ++ [x], before ++ after⟩ } := by
  refine hI.sends rfl rfl hI.batches (fun _ => rfl) ?_ ?_ rfl
  · rw [htodo]
    exact perm_of_sent ..
  · rw [List.append_assoc, List.append_assoc]
    exact List.perm_append_comm.append_left _

/-- **Step lemma.** -/
theorem step (hI : Balanced publicKey service h s) {ev : EntryEvent}
    (hstep : EntryStep publicKey service s ev s') :
    Balanced publicKey service (h ++ [ev]) s' := by
  cases hstep with
  | accept hticket hok => exact hI.accept hticket hok
  | refuse hticket herr => exact hI.refuse hticket herr
  | retry | announce =>
      exact hI.quiet rfl rfl nofun rfl hI.current hI.batches (hI.ended_concat nofun fun _ => rfl)
        rfl rfl rfl
  | cut => exact hI.cut .calling
  | finish hb hrun hret hans => exact hI.finish hb hrun hret hans
  | panic _ _ hret hans => exact absurd hans hret.answers_ne_none
  | send hb hended => exact hI.send hb hended
  | sendError htodo => exact hI.sendError htodo

/-- **Run lemma.** -/
theorem of_run (run : (serviceSystem publicKey service).Run System.Any h s) :
    Balanced publicKey service h s := by
  refine run.invariant (I := Balanced publicKey service) ?_ ?_
  · rintro s rfl
    exact ⟨rfl, nofun, nofun, fun _ _ _ => ⟨nofun, nofun⟩, .refl _, .refl _, nofun, .nil, nofun⟩
  · exact fun _ _ _ _ hI _ hstep => hI.step hstep

/-! ### What the books say of a request -/

variable {r : EntryReq} {current : UInt32}

theorem mem_acceptedReqs (hI : Balanced publicKey service h s) (hr : (r, current) ∈ handled h) :
    r ∈ acceptedReqs h ↔ r.round = current := by
  constructor
  · intro hmem
    obtain ⟨⟨r', current'⟩, hmem', rfl⟩ := List.mem_map.mp hmem
    obtain ⟨hhandled, hround⟩ := List.mem_filter.mp hmem'
    rw [value_unique hI.nodup hr hhandled]
    exact of_decide_eq_true hround
  · exact fun hround =>
      List.mem_map.mpr ⟨_, List.mem_filter.mpr ⟨hr, decide_eq_true hround⟩, rfl⟩

theorem nodup_acceptedReqs (hI : Balanced publicKey service h s) : (acceptedReqs h).Nodup :=
  hI.nodup.sublist (List.filter_sublist.map _)

/-- What a batch sent for one of its requests is what the end of its round gives the position of
the request. -/
theorem answer_of_done (hI : Balanced publicKey service h s) {k : Nat} {b : Batch}
    (hb : s.batches[k]? = some b) {msg : ClientMsg} (hdone : (r, msg) ∈ b.done) :
    ∃ i result, b.requests[i]? = some r ∧ Returned b.round b.requests service result ∧
      (∀ round result', .ended k round result' ∈ h ↔ round = b.round ∧ result' = result) ∧
      result.answer publicKey b.round i r.conn = some msg := by
  have hok := hI.batches b (List.mem_of_getElem? hb)
  rw [Batch.done] at hdone
  split at hdone
  · cases hdone
  · rename_i x hx
    obtain ⟨answers, hans, hperm⟩ := hok.sends x hx
    have hret := hok.returned x hx
    obtain ⟨i, hi⟩ :=
      List.mem_iff_getElem?.mp (hperm.mem_iff.mp (List.mem_append_left _ hdone))
    have hanswer := RoundEnd.answer_of_answers hans hi
    have hend : s.end? k = some (b.round, x.result) := by
      rw [EntryState.end?, hb, Option.bind_some, hx]
      rfl
    refine ⟨i, x.result, ?_, hret, fun round result' => ?_, hanswer⟩
    · rw [← hret.map_fst hans, List.getElem?_map, hi]
      rfl
    · rw [hI.ended k round result', hend, Option.some_inj, Prod.mk.injEq, eq_comm (a := round),
        eq_comm (a := result')]

/-- What was sent for a request is proper. -/
theorem proper (hI : Balanced publicKey service h s) (hr : (r, current) ∈ handled h)
    {msg : ClientMsg} (hsent : (r, msg) ∈ sentMsgs h) :
    Proper publicKey service h s r current msg := by
  -- what was sent is an error of a refused request, or the answer of a batch
  rcases List.mem_append.mp (hI.sent.mem_iff.mp hsent) with herr | hbatch
  · have hrefused := hI.refused.mem_iff.mp (List.mem_append_left _ herr)
    obtain ⟨⟨r', current'⟩, hmem, heq⟩ := List.mem_map.mp hrefused
    obtain ⟨hhandled, hround⟩ := List.mem_filter.mp hmem
    cases heq
    cases value_unique hI.nodup hr hhandled
    rw [Proper, if_neg (of_decide_eq_true hround)]
  · obtain ⟨b, hb, hdone⟩ := List.mem_flatMap.mp hbatch
    obtain ⟨k, hk⟩ := List.mem_iff_getElem?.mp hb
    obtain ⟨i, result, hi, hret, hended, hanswer⟩ := hI.answer_of_done hk hdone
    have hreq := List.mem_of_getElem? hi
    have hplaced : r ∈ s.placed :=
      List.mem_append_left _ (List.mem_flatMap.mpr ⟨b, hb, hreq⟩)
    rw [hI.placed, hI.mem_acceptedReqs hr] at hplaced
    rw [Proper, if_pos hplaced, (hI.batches b hb).round r hreq]
    exact ⟨k, b, i, result, hk, hi, hret, hended, hanswer⟩

/-- A request has one place in one batch. -/
theorem place_unique (hI : Balanced publicKey service h s) {k k' i i' : Nat} {b b' : Batch}
    (hb : s.batches[k]? = some b) (hi : b.requests[i]? = some r)
    (hb' : s.batches[k']? = some b') (hi' : b'.requests[i']? = some r) : k = k' ∧ i = i' := by
  have hnodup : (s.batches.flatMap Batch.requests).Nodup :=
    (List.nodup_append.mp (hI.placed ▸ hI.nodup_acceptedReqs)).1
  obtain ⟨hone, hdisjoint⟩ := List.nodup_flatMap.mp hnodup
  have hk : k = k' := by
    by_contra hne
    obtain ⟨hlt, rfl⟩ := List.getElem?_eq_some_iff.mp hb
    obtain ⟨hlt', rfl⟩ := List.getElem?_eq_some_iff.mp hb'
    have hr := List.mem_of_getElem? hi
    have hr' := List.mem_of_getElem? hi'
    rcases Nat.lt_or_gt_of_ne hne with hkk | hkk
    · exact List.pairwise_iff_getElem.mp hdisjoint k k' hlt hlt' hkk hr hr'
    · exact List.pairwise_iff_getElem.mp hdisjoint k' k hlt' hlt hkk hr' hr
  subst hk
  cases hb.symm.trans hb'
  have hlt := (List.getElem?_eq_some_iff.mp hi).1
  exact ⟨rfl, (List.getElem?_inj hlt (hone b (List.mem_of_getElem? hb))).mp (hi.trans hi'.symm)⟩

/-- One message only is proper to a request. -/
theorem proper_unique (hI : Balanced publicKey service h s) {msg msg' : ClientMsg}
    (hmsg : Proper publicKey service h s r current msg)
    (hmsg' : Proper publicKey service h s r current msg') : msg = msg' := by
  rw [Proper] at hmsg hmsg'
  split at hmsg
  · next hround =>
    rw [if_pos hround] at hmsg'
    obtain ⟨k, b, i, result, hb, hi, -, hended, hanswer⟩ := hmsg
    obtain ⟨k', b', i', result', hb', hi', -, hended', hanswer'⟩ := hmsg'
    obtain ⟨rfl, rfl⟩ := hI.place_unique hb hi hb' hi'
    obtain ⟨-, rfl⟩ := (hended' r.round result).mp ((hended r.round result).mpr ⟨rfl, rfl⟩)
    exact Option.some_inj.mp (hanswer.symm.trans hanswer')
  · next hround =>
    rw [if_neg hround] at hmsg'
    exact hmsg.trans hmsg'.symm

theorem not_owed_of_sent (hI : Balanced publicKey service h s) {msg : ClientMsg}
    (hsent : (r, msg) ∈ sentMsgs h) : r ∉ s.owed := by
  intro howed
  have hnodup := hI.conserved.nodup_iff.mp hI.nodup
  exact (List.nodup_append.mp hnodup).2.2 r (List.mem_map_of_mem (f := Prod.fst) hsent) r howed rfl

/-- A request that was handled is owed an answer and has none, or has one and is owed none. -/
theorem owed_or_sent (hI : Balanced publicKey service h s) (hr : (r, current) ∈ handled h) :
    (r ∈ s.owed ∧ valuesAt r (sentMsgs h) = []) ∨
      (r ∉ s.owed ∧ ∃ msg, valuesAt r (sentMsgs h) = [msg] ∧
        Proper publicKey service h s r current msg ∧
        ∀ msg', Proper publicKey service h s r current msg' → msg' = msg) := by
  have hnodup := hI.conserved.nodup_iff.mp hI.nodup
  have hsent := (List.nodup_append.mp hnodup).1
  have hmem := hI.conserved.mem_iff.mp (List.mem_map_of_mem (f := Prod.fst) hr)
  rcases List.mem_append.mp hmem with hin | howed
  · obtain ⟨⟨r', msg⟩, hmsg, rfl⟩ := List.mem_map.mp hin
    have hproper := hI.proper hr hmsg
    exact .inr ⟨hI.not_owed_of_sent hmsg, msg, valuesAt_of_mem hsent hmsg, hproper,
      fun _ hother => hI.proper_unique hother hproper⟩
  · refine .inl ⟨howed, valuesAt_of_notMem fun hin => ?_⟩
    obtain ⟨⟨r', msg⟩, hmsg, rfl⟩ := List.mem_map.mp hin
    exact hI.not_owed_of_sent hmsg howed

end Balanced

/-! ### No request is stranded -/

section Progress

variable {s : EntryState} {r : EntryReq}

/-- The service can go on to send an answer to the request. -/
def Answerable (publicKey : Nat → BoxKey) (service : Service) (s : EntryState) (r : EntryReq) :
    Prop :=
  ∃ h' s' msg, (serviceSystem publicKey service).Path s h' s' ∧ .sent r msg ∈ h'

theorem Answerable.cons {s' : EntryState} {ev : EntryEvent}
    (hstep : EntryStep publicKey service s ev s') (h : Answerable publicKey service s' r) :
    Answerable publicKey service s r := by
  obtain ⟨h', s'', msg, hpath, hsent⟩ := h
  exact ⟨ev :: h', s'', msg, .cons hstep hpath, List.mem_cons_of_mem _ hsent⟩

/-- The end of a round whose calls failed. -/
def Service.failed : Service → RoundEnd
  | .convo => .convoFailed
  | .dial => .dialFailed

/-- The calls of the servers may always fail. -/
theorem Returned.failed (round : UInt32) (requests : List EntryReq) (service : Service) :
    Returned round requests service service.failed := by
  cases service with
  | convo => exact .convoFailed
  | dial => exact .dialFailed

theorem Service.answers_failed (publicKey : Nat → BoxKey) (round : UInt32)
    (requests : List EntryReq) (service : Service) :
    service.failed.answers publicKey round requests =
      some (broadcast requests (service.error round "server error")) := by
  cases service <;> rfl

theorem answerable_of_errors {msg : ClientMsg} (h : (r, msg) ∈ s.errors.todo) :
    Answerable publicKey service s r := by
  obtain ⟨before, after, htodo⟩ := List.append_of_mem h
  exact ⟨_, _, msg, .cons (.sendError htodo) .nil, List.mem_singleton_self _⟩

theorem answerable_of_todo {k : Nat} {b : Batch} {x : Ended} {msg : ClientMsg}
    (hb : s.batches[k]? = some b) (hx : b.ended = some x) (h : (r, msg) ∈ x.sends.todo) :
    Answerable publicKey service s r := by
  obtain ⟨result, done, todo⟩ := x
  obtain ⟨before, after, rfl⟩ := List.append_of_mem h
  exact ⟨_, _, msg, .cons (.send hb hx) .nil, List.mem_singleton_self _⟩

theorem answerable_of_running {k : Nat} {b : Batch} (hb : s.batches[k]? = some b)
    (hrun : b.ended = none) (h : r ∈ b.requests) : Answerable publicKey service s r := by
  have hset : ∀ b', (s.batches.set k b')[k]? = some b' := fun b' =>
    List.getElem?_set_self (List.getElem?_eq_some_iff.mp hb).1
  have hmem : (r, service.error b.round "server error") ∈
      broadcast b.requests (service.error b.round "server error") := List.mem_map_of_mem h
  exact .cons (.finish hb hrun (.failed ..) (Service.answers_failed ..))
    (answerable_of_todo (hset _) rfl hmem)

theorem answerable_of_pending (h : r ∈ s.intake.requests) : Answerable publicKey service s r := by
  -- the round loop cuts the batch, and the batch then runs
  have hcut : ∀ s : EntryState, s.loop = .receiving → r ∈ s.intake.requests →
      Answerable publicKey service s r := by
    intro s hloop h
    exact .cons (.cut hloop) (answerable_of_running List.getElem?_concat_length rfl h)
  cases hloop : s.loop with
  | calling => exact .cons (.announce hloop) (hcut _ rfl h)
  | receiving => exact hcut s hloop h

/-- What is owed can be sent, from every state. -/
theorem answerable_of_owed (h : r ∈ s.owed) : Answerable publicKey service s r := by
  rw [EntryState.owed, List.mem_append, List.mem_append] at h
  rcases h with herr | hbatch | hpending
  · obtain ⟨⟨r', msg⟩, hmem, rfl⟩ := List.mem_map.mp herr
    exact answerable_of_errors hmem
  · obtain ⟨b, hb, howed⟩ := List.mem_flatMap.mp hbatch
    obtain ⟨k, hk⟩ := List.mem_iff_getElem?.mp hb
    rw [Batch.owed] at howed
    split at howed
    · rename_i hrun
      exact answerable_of_running hk hrun howed
    · rename_i x hx
      obtain ⟨⟨r', msg⟩, hmem, rfl⟩ := List.mem_map.mp howed
      exact answerable_of_todo hk hx hmem
  · exact answerable_of_pending hpending

end Progress

/-! ### The entry server -/

variable {h : List (Service × EntryEvent)} {s : Service → EntryState}

theorem Balanced.of_entry_run (run : (entrySystem publicKey).Run System.Any h s)
    (service : Service) : Balanced publicKey service (System.only service h) (s service) :=
  .of_run (run.only service)

/-- Every run goes on to a state in which the request is owed nothing. -/
theorem exists_run_not_owed (run : (entrySystem publicKey).Run System.Any h s)
    (service : Service) (r : EntryReq) :
    ∃ h' s', (entrySystem publicKey).Run System.Any (h ++ h') s' ∧ r ∉ (s' service).owed := by
  by_cases howed : r ∈ (s service).owed
  · obtain ⟨h', s₁, msg, hpath, hsent⟩ := answerable_of_owed howed
    obtain ⟨s', run', -⟩ := System.Run.path hpath run rfl
    have hmem := List.mem_map_of_mem (f := Prod.mk service) hsent
    have hsent' := mem_sentMsgs.mpr (System.mem_only.mpr (List.mem_append_right h hmem))
    exact ⟨_, s', run', (Balanced.of_entry_run run' service).not_owed_of_sent hsent'⟩
  · exact ⟨[], s, by rwa [List.append_nil], howed⟩

/-- **Every request is answered once.**  In every run of the entry server, a request for the round
that was current when it was handled is in one batch, or waits to be, and the batch runs under the
request's round; a request for another round is in none.  Either is owed an answer until it is
sent one, and is sent one only.  For a request of a batch that is what the servers returned for the
round of the batch gives it: the reply at the request's own position in the batch, or the bucket of
its own connection, or the error; for a request of another round it is the error that names its
round.  Only that message is proper to the request (`Proper`).  No run ends in a panic or strands a
request. -/
theorem request_answered_once (run : (entrySystem publicKey).Run System.Any h s) {r : EntryReq}
    {current : UInt32} (hr : (service, .handled r current) ∈ h) :
    (r.round = current →
      (s service).placed.count r = 1 ∧
        (r ∈ (s service).intake.requests → (s service).intake.round = r.round) ∧
        ∀ b ∈ (s service).batches, r ∈ b.requests → b.round = r.round) ∧
      (r.round ≠ current → r ∉ (s service).placed) ∧
      ((r ∈ (s service).owed ∧ valuesAt r (sentMsgs (System.only service h)) = []) ∨
        (r ∉ (s service).owed ∧ ∃ msg, valuesAt r (sentMsgs (System.only service h)) = [msg] ∧
          Proper publicKey service (System.only service h) (s service) r current msg ∧
          ∀ msg', Proper publicKey service (System.only service h) (s service) r current msg' →
            msg' = msg)) ∧
      (∃ h' s', (entrySystem publicKey).Run System.Any (h ++ h') s' ∧ r ∉ (s' service).owed) ∧
      ∀ round, (service, .panicked round) ∉ h := by
  have hI := Balanced.of_entry_run run service
  have hhandled := mem_handled.mpr (System.mem_only.mpr hr)
  refine ⟨fun hround => ⟨?_, fun hp => (hI.current r hp).symm,
      fun b hb hmem => ((hI.batches b hb).round r hmem).symm⟩,
    fun hround hmem => ?_, hI.owed_or_sent hhandled, exists_run_not_owed run service r,
    fun round hmem => hI.panicked round (System.mem_only.mpr hmem)⟩
  · rw [hI.placed]
    exact List.count_eq_one_of_mem hI.nodup_acceptedReqs ((hI.mem_acceptedReqs hhandled).mpr hround)
  · rw [hI.placed, hI.mem_acceptedReqs hhandled] at hmem
    exact hround hmem

/-- The keys of the connections of a sample run. -/
def sampleConn (conn : Nat) : BoxKey := sampleKey (UInt8.ofNat conn)

/-- The request of a sample run, on a connection.  Its onion tells it from the others. -/
def sampleReq (ticket conn : Nat) (round : UInt32) : EntryReq :=
  ⟨ticket, conn, round, [7 + UInt8.ofNat ticket]⟩

/-- Three requests come on two connections, the last for a round that is not current; the round is
cut, the first server sends every onion back, and the second request of the batch is answered before
the first. -/
def sampleEvents : List EntryEvent :=
  [.handled (sampleReq 0 3 0) 0, .handled (sampleReq 1 4 0) 0, .handled (sampleReq 2 3 9) 0,
    .announced 0, .cut 0, .ended 0 0 (.convoReplied [[7], [8]]),
    .sent (sampleReq 1 4 0) (.convoResponse 0 [8]), .sent (sampleReq 0 3 0) (.convoResponse 0 [7])]

/-- The second request of the batch gets the reply at its own position, and the reply of the other
would not be proper to it. -/
theorem request_answered_once_sample :
    ∃ s, (entrySystem sampleConn).Run System.Any (sampleEvents.map (Prod.mk .convo)) s ∧
      (s .convo).placed.count (sampleReq 1 4 0) = 1 ∧ sampleReq 2 3 9 ∉ (s .convo).placed ∧
      Proper sampleConn .convo sampleEvents (s .convo) (sampleReq 1 4 0) 0
        (.convoResponse 0 [8]) ∧
      ¬ Proper sampleConn .convo sampleEvents (s .convo) (sampleReq 1 4 0) 0
        (.convoResponse 0 [7]) := by
  have start : (entrySystem sampleConn).Run System.Any [] fun _ => .start := .init fun _ => rfl
  have echoed : echoServer.runConvoRound 0
      ([sampleReq 0 3 0, sampleReq 1 4 0].map EntryReq.onion) () = .ok [[7], [8]] () := rfl
  have last : ∀ x y : EntryReq × ClientMsg, ∀ result,
      some (Ended.mk result ⟨[], [x, y]⟩) = some ⟨result, ⟨[], [x] ++ y :: []⟩⟩ := fun _ _ _ => rfl
  have first : ∀ x y : EntryReq × ClientMsg, ∀ result,
      some (Ended.mk result ⟨[y], [x]⟩) = some ⟨result, ⟨[y], [] ++ x :: []⟩⟩ := fun _ _ _ => rfl
  have path : (serviceSystem sampleConn .convo).Path .start sampleEvents _ :=
    .cons (.accept rfl rfl) <|
    .cons (.accept rfl rfl) <|
    .cons (.refuse rfl rfl) <|
    .cons (.announce rfl) <|
    .cons (.cut rfl) <|
    .cons (.finish (k := 0) (b := ⟨0, [sampleReq 0 3 0, sampleReq 1 4 0], none⟩) rfl rfl
      (.convoReplied echoed) rfl) <|
    .cons (.send (k := 0) (x := (_, _)) rfl
      (last (sampleReq 0 3 0, .convoResponse 0 [7]) (sampleReq 1 4 0, .convoResponse 0 [8]) _)) <|
    .cons (.send (k := 0) (x := (_, _)) rfl
      (first (sampleReq 0 3 0, .convoResponse 0 [7]) (sampleReq 1 4 0, .convoResponse 0 [8]) _))
      .nil
  obtain ⟨s, run, hs⟩ := System.Run.path path start rfl
  have hr : (.convo, .handled (sampleReq 1 4 0) 0) ∈ sampleEvents.map (Prod.mk Service.convo) :=
    List.mem_cons_of_mem _ List.mem_cons_self
  have hr' : (.convo, .handled (sampleReq 2 3 9) 0) ∈ sampleEvents.map (Prod.mk Service.convo) :=
    List.mem_cons_of_mem _ (List.mem_cons_of_mem _ List.mem_cons_self)
  have answered := request_answered_once run hr
  have hsent : valuesAt (sampleReq 1 4 0)
      (sentMsgs (System.only Service.convo (sampleEvents.map (Prod.mk Service.convo)))) =
        [.convoResponse 0 [8]] := rfl
  refine ⟨s, run, (answered.1 rfl).1, (request_answered_once run hr').2.1 (by decide), ?_⟩
  rcases answered.2.2.1 with ⟨-, hnone⟩ | ⟨-, msg, hone, hproper, honly⟩
  · cases hsent.symm.trans hnone
  · cases hsent.symm.trans hone
    exact ⟨hproper, fun hother => by cases honly _ hother⟩

end Vuvuzela
