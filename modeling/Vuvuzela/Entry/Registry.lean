import Vuvuzela.Entry.Connections
import Vuvuzela.Entry.Batches
import Vuvuzela.Entry.Envelopes

/-!
# Entry — the registry of connections

The registry follows the sockets, whatever the order in which readers and `Send`s close
connections, and however often one connection is closed (`Registered`).  A connection is in it
once, from `register` on, as long as its socket is up; once its `readLoop` has ended it is not.  So
a broadcast goes to every connection that can still be written to, and no connection that is gone
stays in the registry for good: whatever else runs, its own reader takes it out.

**The registry is exact** (`registry_exact`).
-/

namespace Vuvuzela
open Support

variable {json : Json} {publicKey : Nat → BoxKey}

/-! ### The services -/

/-- The step of a service, if the step is one. -/
def HubEvent.served : HubEvent → Option (Service × EntryEvent)
  | .entry service ev => some (service, ev)
  | .accepted _ | .read .. | .misread _ | .ignored _ | .readFailed _ | .closed _ | .deleted _
  | .snapshot .. | .wrote .. | .writeFailed .. | .unsent .. => none

theorem mem_served {h : List HubEvent} {service : Service} {ev : EntryEvent} :
    (service, ev) ∈ h.filterMap HubEvent.served ↔ .entry service ev ∈ h :=
  mem_filterMap_iff fun l' => by cases l' <;> simp [HubEvent.served]

/-- **The connections leave the services as they are.**  What the services do in a run with
connections they do in a run without. -/
theorem entry_run {h : List HubEvent} {s : Hub}
    (run : (hubSystem json publicKey).Run System.Any h s) :
    (entrySystem publicKey).Run System.Any (h.filterMap HubEvent.served) s.entry := by
  induction run with
  | init h₀ =>
      subst h₀
      exact .init fun _ => rfl
  | @step h s s' l _ _ t ih =>
      rw [filterMap_concat]
      cases t with
      | handle _ t => exact ih.step trivial (System.family_step t)
      | inner _ t => exact ih.step trivial (System.family_step t)
      | sent t => exact ih.step trivial (System.family_step t)
      | retry _ t => exact ih.step trivial (System.family_step t)
      | announce _ _ t => exact ih.step trivial (System.family_step t)
      | _ =>
          rw [HubEvent.served, Option.toList_none, List.append_nil]
          exact ih

/-- Only a request that was handled is sent an answer. -/
theorem handled_of_sent {h : List (Service × EntryEvent)} {s : Service → EntryState}
    (run : (entrySystem publicKey).Run System.Any h s) {service : Service} {r : EntryReq}
    {msg : ClientMsg} (hsent : (service, .sent r msg) ∈ h) :
    ∃ current, (service, .handled r current) ∈ h := by
  have hI := Balanced.of_entry_run run service
  have hmem := List.mem_map_of_mem (f := Prod.fst) (mem_sentMsgs.mpr (System.mem_only.mpr hsent))
  obtain ⟨⟨r', current⟩, hhandled, rfl⟩ :=
    List.mem_map.mp (hI.conserved.mem_iff.mpr (List.mem_append_left _ hmem))
  exact ⟨current, System.mem_only.mp (mem_handled.mp hhandled)⟩

/-! ### Connections -/

/-- A `Send` whose write has failed. -/
def Sending.failed : Sending → Bool
  | .sending _ => false
  | .closing | .deleting => true

/-- What is left where one is taken out. -/
theorem rest_sublist {α : Type} {l before after : List α} {y : α} (hl : l = before ++ y :: after) :
    (before ++ after).Sublist l :=
  hl ▸ (List.sublist_cons_self y after).append_left before

namespace Hub

variable {s : Hub} {c c' : Nat} {k' : Conn}

theorem modify_conns (f : Conn → Conn) :
    (s.modify c f).conns c' = if c' = c then (s.conns c).map f else s.conns c' :=
  Function.update_apply ..

theorem register_conns :
    (s.register c).conns c' = if c' = c then some ⟨true, .reading, []⟩ else s.conns c' :=
  Function.update_apply ..

theorem setSends_sends (p p' : Option Service) (l : List (Nat × Sending)) :
    (s.setSends p l).sends p' = if p' = p then l else s.sends p' :=
  Function.update_apply ..

theorem setSends_self (p : Option Service) (l : List (Nat × Sending)) :
    (s.setSends p l).sends p = l :=
  Function.update_self ..

theorem modify_some {f : Conn → Conn} :
    (s.modify c f).conns c' = some k' ↔
      ∃ k, s.conns c' = some k ∧ k' = if c' = c then f k else k := by
  rw [modify_conns]
  split
  · subst c'
    simp [eq_comm]
  · simp [eq_comm]

theorem up_of_wsClose (hk' : (s.wsClose c).conns c = some k') : k'.up = false := by
  obtain ⟨k, -, rfl⟩ := modify_some.mp hk'
  rw [if_pos rfl]

theorem register_some :
    (s.register c).conns c' = some k' ↔
      (c' = c ∧ k' = ⟨true, .reading, []⟩) ∨ (c' ≠ c ∧ s.conns c' = some k') := by
  rw [register_conns]
  split_ifs with h
  · simp [h, eq_comm]
  · simp [h]

end Hub

/-- A connection is never forgotten, and a reader that has ended does nothing any more. -/
theorem HubStep.conns_some {s s' : Hub} {l : HubEvent} (t : HubStep json publicKey s l s') {c : Nat}
    {k : Conn} (hk : s.conns c = some k) :
    ∃ k', s'.conns c = some k' ∧ (k.reader = .ended → k'.reader = .ended) := by
  have modify {c' : Nat} {f : Conn → Conn} {s : Hub} (hs : s.conns c = some k)
      (hf : c = c' → k.reader = .ended → (f k).reader = .ended) :
      ∃ k', (s.modify c' f).conns c = some k' ∧ (k.reader = .ended → k'.reader = .ended) := by
    refine ⟨_, Hub.modify_some.mpr ⟨k, hs, rfl⟩, fun hr => ?_⟩
    split
    · next hc => exact hf hc hr
    · exact hr
  have reader {c' : Nat} {k' : Conn} (hk' : s.conns c' = some k') (hr' : k'.reader ≠ .ended)
      (hc : c = c') (hr : k.reader = .ended) : False := by
    subst hc
    cases hk.symm.trans hk'
    exact hr' hr
  cases t with
  | @accept c' hnew =>
      have hne : c ≠ c' := by
        rintro rfl
        cases hnew.symm.trans hk
      exact ⟨k, Hub.register_some.mpr (.inr ⟨hne, hk⟩), id⟩
  | readFail hk' hr' =>
      exact modify hk fun hc hr => (reader hk' (hr' ▸ nofun) hc hr).elim
  | @readerClose c' k' hk' hr' =>
      refine ⟨_, Hub.modify_some.mpr ⟨_, Hub.modify_some.mpr ⟨k, hk, rfl⟩, rfl⟩, fun hr => ?_⟩
      split
      · next hc => exact (reader hk' (hr' ▸ nofun) hc hr).elim
      · exact hr
  | readerDelete => exact modify hk fun _ _ => rfl
  | write => exact modify hk fun _ hr => hr
  | writeFail => exact modify hk fun _ hr => hr
  | sendClose => exact modify hk fun _ hr => hr
  | _ => exact ⟨k, hk, id⟩

theorem reader_ended_of_path {s s' : Hub} {h : List HubEvent}
    (path : (hubSystem json publicKey).Path s h s') {c : Nat} {k : Conn} (hk : s.conns c = some k)
    (hr : k.reader = .ended) : ∃ k', s'.conns c = some k' ∧ k'.reader = .ended := by
  induction path generalizing k with
  | nil => exact ⟨k, hk, hr⟩
  | cons t _ ih =>
      obtain ⟨k', hk', hr'⟩ := t.conns_some hk
      exact ih hk' (hr' hr)

/-! ### What a step leaves alone -/

/-- A step that is no concern of the values `f` picks out, which are sent by the `Send`s of the
pool `p₀`. -/
structure Hub.Quiet {β : Type} (p₀ : Option Service) (f : Outgoing → Option β) (s s' : Hub) :
    Prop where
  sends : s'.sends p₀ = s.sends p₀
  elsewhere : ∀ p c v, p ≠ p₀ → (c, .sending v) ∈ s'.sends p →
    (c, .sending v) ∈ s.sends p ∨ f v = none
  conns : ∀ c k', s'.conns c = some k' → ∃ k, s.conns c = some k ∧
    k'.written.filterMap f = k.written.filterMap f ∧ (k'.up = true → k.up = true)

namespace Hub.Quiet

variable {β : Type} {p₀ : Option Service} {f : Outgoing → Option β} {s s' s'' : Hub}

theorem trans (h : Quiet p₀ f s s') (h' : Quiet p₀ f s' s'') : Quiet p₀ f s s'' := by
  refine ⟨h'.sends.trans h.sends, fun p c v hp hv => ?_, fun c k'' hk'' => ?_⟩
  · rcases h'.elsewhere p c v hp hv with hv | hv
    · exact h.elsewhere p c v hp hv
    · exact .inr hv
  · obtain ⟨k', hk', hw', hup'⟩ := h'.conns c k'' hk''
    obtain ⟨k, hk, hw, hup⟩ := h.conns c k' hk'
    exact ⟨k, hk, hw'.trans hw, hup ∘ hup'⟩

/-- Nothing is written and no `Send` is started. -/
theorem of_eq (hconns : s'.conns = s.conns) (hsends : s'.sends = s.sends) : Quiet p₀ f s s' :=
  ⟨congrFun hsends p₀, fun _ _ _ _ hv => .inl (hsends ▸ hv),
    fun _ k hk => ⟨k, hconns ▸ hk, rfl, id⟩⟩

theorem modify {c : Nat} {g : Conn → Conn}
    (hw : ∀ k, (g k).written.filterMap f = k.written.filterMap f)
    (hup : ∀ k, (g k).up = true → k.up = true) : Quiet p₀ f s (s.modify c g) := by
  refine ⟨rfl, fun _ _ _ _ hv => .inl hv, fun c' k' hk' => ?_⟩
  obtain ⟨k, hk, rfl⟩ := modify_some.mp hk'
  refine ⟨k, hk, ?_⟩
  split
  · exact ⟨hw k, hup k⟩
  · exact ⟨rfl, id⟩

theorem setReader (c : Nat) (reader : Reader) : Quiet p₀ f s (s.setReader c reader) :=
  .modify (fun _ => rfl) fun _ => id

theorem wsClose (c : Nat) : Quiet p₀ f s (s.wsClose c) := .modify (fun _ => rfl) nofun

theorem write {c : Nat} {v : Outgoing} (hv : f v = none) : Quiet p₀ f s (s.write c v) := by
  refine .modify (fun k => ?_) fun _ => id
  rw [List.filterMap_append, List.filterMap_cons_none hv, List.filterMap_nil, List.append_nil]

theorem setSends {p : Option Service} (hp : p ≠ p₀) {l : List (Nat × Sending)}
    (hl : ∀ c v, (c, .sending v) ∈ l → (c, .sending v) ∈ s.sends p ∨ f v = none) :
    Quiet p₀ f s (s.setSends p l) := by
  refine ⟨(setSends_sends ..).trans (if_neg hp.symm), fun p' c v _ hv => ?_,
    fun _ k hk => ⟨k, hk, rfl, id⟩⟩
  rw [setSends_sends] at hv
  split at hv
  · subst p'
    exact hl c v hv
  · exact .inl hv

/-- A `Send` of another pool goes on, or ends. -/
theorem settle {p : Option Service} (hp : p ≠ p₀) {y : Nat × Sending}
    {before after z : List (Nat × Sending)} (hs : s.sends p = before ++ y :: after)
    (hz : ∀ x ∈ z, x.2.failed = true) : Quiet p₀ f s (s.setSends p (before ++ (z ++ after))) := by
  refine .setSends hp fun c v hv => ?_
  rw [List.mem_append, List.mem_append] at hv
  rcases hv with hv | hv | hv
  · exact .inl ((rest_sublist hs).subset (List.mem_append_left _ hv))
  · exact absurd (hz _ hv) nofun
  · exact .inl ((rest_sublist hs).subset (List.mem_append_right _ hv))

end Hub.Quiet

/-! ### The registry -/

/-- What holds of the registry, the sockets and the goroutines that work on them. -/
structure Registered (s : Hub) : Prop where
  nodup : s.connections.Nodup
  known : ∀ c ∈ s.connections, ∃ k, s.conns c = some k ∧ k.reader ≠ .ended
  up : ∀ c k, s.conns c = some k → k.up = true → c ∈ s.connections
  down : ∀ c k, s.conns c = some k → k.reader = .deleting ∨ k.reader = .ended → k.up = false
  sends : ∀ p c x, (c, x) ∈ s.sends p → ∃ k, s.conns c = some k ∧ (x.failed = true → k.up = false)
  handlers : ∀ c v, (c, v) ∈ s.handlers → ∃ k, s.conns c = some k

namespace Registered

variable {s : Hub} {c : Nat}

/-- The socket of a `Send` that failed is down. -/
theorem down_of_failed (hI : Registered s) {p : Option Service} {x : Sending}
    (hx : (c, x) ∈ s.sends p) (hfailed : x.failed = true) {k : Conn} (hk : s.conns c = some k) :
    k.up = false := by
  obtain ⟨k', hk', hdown⟩ := hI.sends p c x hx
  cases hk.symm.trans hk'
  exact hdown hfailed

theorem start : Registered .start :=
  ⟨.nil, nofun, nofun, nofun, nofun, nofun⟩

theorem setEntry (hI : Registered s) (service : Service) (e : EntryState) :
    Registered (s.setEntry service e) := ⟨hI.1, hI.2, hI.3, hI.4, hI.5, hI.6⟩

theorem setBroadcasting (hI : Registered s) (service : Service) (b : Bool) :
    Registered (s.setBroadcasting service b) := ⟨hI.1, hI.2, hI.3, hI.4, hI.5, hI.6⟩

theorem setHandlers (hI : Registered s) {l : List (Nat × Message)}
    (hl : ∀ c v, (c, v) ∈ l → ∃ k, s.conns c = some k) : Registered { s with handlers := l } :=
  ⟨hI.1, hI.2, hI.3, hI.4, hI.5, hl⟩

theorem setSends (hI : Registered s) {p : Option Service} {l : List (Nat × Sending)}
    (hl : ∀ c x, (c, x) ∈ l → ∃ k, s.conns c = some k ∧ (x.failed = true → k.up = false)) :
    Registered (s.setSends p l) := by
  refine ⟨hI.nodup, hI.known, hI.up, hI.down, fun p' c x hx => ?_, hI.handlers⟩
  rw [Hub.setSends_sends] at hx
  split at hx
  · exact hl c x hx
  · exact hI.sends p' c x hx

theorem register (hI : Registered s) (hnew : s.conns c = none) : Registered (s.register c) := by
  have hnot : c ∉ s.connections := fun hc => by
    obtain ⟨k, hk, -⟩ := hI.known c hc
    cases hnew.symm.trans hk
  have hold {c' : Nat} {k : Conn} (hk : s.conns c' = some k) :
      (s.register c).conns c' = some k := by
    refine Hub.register_some.mpr (.inr ⟨?_, hk⟩)
    rintro rfl
    cases hnew.symm.trans hk
  refine ⟨hI.nodup.insert, fun c' hc' => ?_, fun c' k hk hup => ?_, fun c' k hk hr => ?_,
    fun p c' x hx => ?_, fun c' v hv => ?_⟩
  · rcases List.mem_insert_iff.mp hc' with rfl | hc'
    · exact ⟨_, Hub.register_some.mpr (.inl ⟨rfl, rfl⟩), nofun⟩
    · obtain ⟨k, hk, hne⟩ := hI.known c' hc'
      exact ⟨k, hold hk, hne⟩
  · rcases Hub.register_some.mp hk with ⟨rfl, -⟩ | ⟨-, hk⟩
    · exact List.mem_insert_self
    · exact List.mem_insert_of_mem (hI.up c' k hk hup)
  · rcases Hub.register_some.mp hk with ⟨-, rfl⟩ | ⟨-, hk⟩
    · rcases hr with hr | hr <;> cases hr
    · exact hI.down c' k hk hr
  · obtain ⟨k, hk, hdown⟩ := hI.sends p c' x hx
    exact ⟨k, hold hk, hdown⟩
  · obtain ⟨k, hk⟩ := hI.handlers c' v hv
    exact ⟨k, hold hk⟩

/-- A socket is not opened again, and a reader does not go on past its `Close`. -/
theorem modify (hI : Registered s) {f : Conn → Conn} (hup : ∀ k, (f k).up = true → k.up = true)
    (hended : ∀ k, s.conns c = some k → (f k).reader = .ended → c ∉ s.connections)
    (hdown : ∀ k, s.conns c = some k → (f k).reader = .deleting ∨ (f k).reader = .ended →
      (f k).up = false) : Registered (s.modify c f) := by
  refine ⟨hI.nodup, fun c' hc' => ?_, fun c' k' hk' hup' => ?_, fun c' k' hk' hr => ?_,
    fun p c' x hx => ?_, fun c' v hv => ?_⟩
  · obtain ⟨k, hk, hne⟩ := hI.known c' hc'
    refine ⟨_, Hub.modify_some.mpr ⟨k, hk, rfl⟩, ?_⟩
    split
    · subst c'
      exact fun he => hended k hk he hc'
    · exact hne
  · obtain ⟨k, hk, rfl⟩ := Hub.modify_some.mp hk'
    split at hup'
    · exact hI.up c' k hk (hup k hup')
    · exact hI.up c' k hk hup'
  · obtain ⟨k, hk, rfl⟩ := Hub.modify_some.mp hk'
    split at hr
    · subst c'
      rw [if_pos rfl]
      exact hdown k hk hr
    · rw [if_neg ‹_›]
      exact hI.down c' k hk hr
  · obtain ⟨k, hk, hx'⟩ := hI.sends p c' x hx
    refine ⟨_, Hub.modify_some.mpr ⟨k, hk, rfl⟩, fun he => ?_⟩
    split
    · exact Bool.eq_false_iff.mpr fun h => Bool.eq_false_iff.mp (hx' he) (hup k h)
    · exact hx' he
  · obtain ⟨k, hk⟩ := hI.handlers c' v hv
    exact ⟨_, Hub.modify_some.mpr ⟨k, hk, rfl⟩⟩

theorem wsClose (hI : Registered s) (c : Nat) : Registered (s.wsClose c) := by
  refine hI.modify nofun (fun k hk he hc => ?_) fun k _ _ => rfl
  obtain ⟨k', hk', hne⟩ := hI.known c hc
  cases hk.symm.trans hk'
  exact hne he

theorem write (hI : Registered s) (c : Nat) (v : Outgoing) : Registered (s.write c v) := by
  refine hI.modify (fun _ h => h) (fun k hk he hc => ?_) fun k hk hr => hI.down c k hk hr
  obtain ⟨k', hk', hne⟩ := hI.known c hc
  cases hk.symm.trans hk'
  exact hne he

theorem setReader (hI : Registered s) {reader : Reader}
    (hended : reader = .ended → c ∉ s.connections)
    (hdown : reader = .deleting ∨ reader = .ended → ∀ k, s.conns c = some k → k.up = false) :
    Registered (s.setReader c reader) :=
  hI.modify (fun _ h => h) (fun _ _ he => hended he) fun k hk hr => hdown hr k hk

theorem delete (hI : Registered s) (hdown : ∀ k, s.conns c = some k → k.up = false) :
    Registered (s.delete c) := by
  refine ⟨hI.nodup.erase c, fun c' hc' => hI.known c' (List.mem_of_mem_erase hc'),
    fun c' k hk hup => ?_, hI.down, hI.sends, hI.handlers⟩
  refine (List.mem_erase_of_ne ?_).mpr (hI.up c' k hk hup)
  rintro rfl
  exact Bool.eq_false_iff.mp (hdown k hk) hup

theorem spawn (hI : Registered s) {k : Conn} (hk : s.conns c = some k) (v : Outgoing) :
    Registered (s.spawn c v) := by
  refine hI.setSends fun c' x hx => ?_
  rcases List.mem_append.mp hx with hx | hx
  · exact hI.sends none c' x hx
  · cases List.mem_singleton.mp hx
    exact ⟨k, hk, nofun⟩

/-- The `Send`s of one pool, one of them taken out. -/
theorem rest (hI : Registered s) {p : Option Service} {y : Nat × Sending}
    {before after : List (Nat × Sending)} (hp : s.sends p = before ++ y :: after) (c : Nat)
    (x : Sending) (hx : (c, x) ∈ before ++ after) :
    ∃ k, s.conns c = some k ∧ (x.failed = true → k.up = false) :=
  hI.sends p c x ((rest_sublist hp).subset hx)

/-- A `Send` goes on to its `Close`. -/
theorem replace (hI : Registered s) {p : Option Service} {y : Nat × Sending}
    {before after : List (Nat × Sending)} (hp : s.sends p = before ++ y :: after)
    (x : Sending) (hx : ∃ k, s.conns y.1 = some k ∧ (x.failed = true → k.up = false)) :
    Registered (s.setSends p (before ++ (y.1, x) :: after)) := by
  refine hI.setSends fun c' x' hx' => ?_
  rcases List.mem_append.mp hx' with hx' | hx'
  · exact hI.rest hp c' x' (List.mem_append_left _ hx')
  · rcases List.mem_cons.mp hx' with heq | hx'
    · cases heq
      exact hx
    · exact hI.rest hp c' x' (List.mem_append_right _ hx')

theorem step (hI : Registered s) {s' : Hub} {l : HubEvent} (t : HubStep json publicKey s l s')
    (hsent : ∀ service r msg, l = .entry service (.sent r msg) → ∃ k, s.conns r.conn = some k) :
    Registered s' := by
  cases t with
  | accept hnew => exact hI.register hnew
  | @read c k e v hk =>
      refine hI.setHandlers fun c' v' hv' => ?_
      rcases List.mem_append.mp hv' with hv' | hv'
      · exact hI.handlers c' v' hv'
      · cases List.mem_singleton.mp hv'
        exact ⟨k, hk⟩
  | misread hk => exact hI.spawn hk _
  | readFail => exact hI.setReader nofun (by rintro (h | h) <;> cases h)
  | readerClose =>
      exact (hI.wsClose _).setReader nofun fun _ _ hk => Hub.up_of_wsClose hk
  | @readerDelete c k hk hreader =>
      have hdown : ∀ k', s.conns c = some k' → k'.up = false := fun k' hk' => by
        cases hk.symm.trans hk'
        exact hI.down c k hk (.inl hreader)
      exact (hI.delete hdown).setReader (fun _ => hI.nodup.not_mem_erase) fun _ => hdown
  | ignore hh => exact hI.setHandlers fun c v hv => hI.handlers c v ((rest_sublist hh).subset hv)
  | handle hh =>
      exact (hI.setEntry _ _).setHandlers fun c v hv =>
        hI.handlers c v ((rest_sublist hh).subset hv)
  | inner => exact hI.setEntry _ _
  | @sent service r msg e =>
      obtain ⟨k, hk⟩ := hsent service r msg rfl
      exact (hI.setEntry service e).spawn hk _
  | retry => exact hI.setEntry _ _
  | @snapshot service conns _ _ hconns =>
      refine (hI.setBroadcasting service true).setSends fun c x hx => ?_
      obtain ⟨c, hc, heq⟩ := List.mem_map.mp hx
      cases heq
      obtain ⟨k, hk, -⟩ := hI.known c (hconns.mem_iff.mp hc)
      exact ⟨k, hk, nofun⟩
  | announce => exact (hI.setEntry _ _).setBroadcasting _ _
  | unsent hp => exact hI.setSends (hI.rest hp)
  | write hp => exact (hI.setSends (hI.rest hp)).write _ _
  | @writeFail p c v _ before after hp =>
      obtain ⟨k, hk, -⟩ := hI.sends p c _ (hp ▸ List.mem_append_right _ List.mem_cons_self)
      -- the two updates commute
      change Registered ((s.wsClose c).setSends p (before ++ (c, .closing) :: after))
      exact (hI.wsClose c).replace hp .closing
        ⟨_, Hub.modify_some.mpr ⟨k, hk, rfl⟩, fun _ => by rw [if_pos rfl]⟩
  | @sendClose p c before after hp =>
      obtain ⟨k, hk, -⟩ := hI.sends p c _ (hp ▸ List.mem_append_right _ List.mem_cons_self)
      change Registered ((s.wsClose c).setSends p (before ++ (c, .deleting) :: after))
      exact (hI.wsClose c).replace hp .deleting
        ⟨_, Hub.modify_some.mpr ⟨k, hk, rfl⟩, fun _ => by rw [if_pos rfl]⟩
  | @sendDelete p c before after hp =>
      exact (hI.setSends (hI.rest hp)).delete fun _ hk =>
        hI.down_of_failed (hp ▸ List.mem_append_right _ List.mem_cons_self) rfl hk

end Registered

/-- The registry is as it should be in every state reached, and every request came on a connection
that was accepted. -/
theorem registered_of_run {h : List HubEvent} {s : Hub}
    (run : (hubSystem json publicKey).Run System.Any h s) :
    Registered s ∧ ∀ service r current, .entry service (.handled r current) ∈ h →
      ∃ k, s.conns r.conn = some k := by
  induction run with
  | init h₀ =>
      subst h₀
      exact ⟨.start, nofun⟩
  | @step h s s' l run c t ih =>
      obtain ⟨hI, hknown⟩ := ih
      refine ⟨hI.step t ?_, fun service r current hmem => ?_⟩
      · -- an answer is sent to the connection of a request that was handled before
        rintro service r msg rfl
        obtain ⟨current, hmem⟩ := handled_of_sent (entry_run (run.step c t))
          (mem_served.mpr (List.mem_append_right h (List.mem_singleton_self _)))
        rcases List.mem_append.mp (mem_served.mp hmem) with hmem | hmem
        · exact hknown service r current hmem
        · cases List.mem_singleton.mp hmem
      · rcases List.mem_append.mp hmem with hmem | hmem
        · obtain ⟨k, hk⟩ := hknown service r current hmem
          obtain ⟨k', hk', -⟩ := t.conns_some hk
          exact ⟨k', hk'⟩
        · cases List.mem_singleton.mp hmem
          cases t with
          | handle hh =>
              obtain ⟨k, hk⟩ :=
                hI.handlers r.conn _ (hh ▸ List.mem_append_right _ List.mem_cons_self)
              exact ⟨k, hk⟩
          | inner hev => cases hev

/-! ### A reader takes its connection out -/

section Reader

variable {s s' s'' : Hub} {c : Nat}

/-- Nothing but one connection has changed. -/
structure Hub.Apart (c : Nat) (s s' : Hub) : Prop where
  entry : s'.entry = s.entry
  sends : s'.sends = s.sends
  conns : ∀ c', c' ≠ c → s'.conns c' = s.conns c'
  connections : ∀ c', c' ≠ c → (c' ∈ s'.connections ↔ c' ∈ s.connections)

namespace Hub.Apart

theorem trans (h : Apart c s s') (h' : Apart c s' s'') : Apart c s s'' :=
  ⟨h'.entry.trans h.entry, h'.sends.trans h.sends,
    fun c' hc' => (h'.conns c' hc').trans (h.conns c' hc'),
    fun c' hc' => (h'.connections c' hc').trans (h.connections c' hc')⟩

theorem modify (f : Conn → Conn) : Apart c s (s.modify c f) :=
  ⟨rfl, rfl, fun _ hc' => (modify_conns f).trans (if_neg hc'), fun _ _ => .rfl⟩

theorem delete : Apart c s (s.delete c) :=
  ⟨rfl, rfl, fun _ _ => rfl, fun _ hc' => List.mem_erase_of_ne hc'⟩

end Hub.Apart

/-- The reader of a connection goes on to its end by itself. -/
def Hub.Ends (json : Json) (publicKey : Nat → BoxKey) (c : Nat) (s : Hub) : Prop :=
  ∃ h s' k, (hubSystem json publicKey).Path s h s' ∧ s.Apart c s' ∧ s'.conns c = some k ∧
    k.reader = .ended

theorem Hub.Ends.cons {l : HubEvent} (t : HubStep json publicKey s l s') (ha : s.Apart c s')
    (h : s'.Ends json publicKey c) : s.Ends json publicKey c := by
  obtain ⟨h, s'', k, path, ha', hk⟩ := h
  exact ⟨l :: h, s'', k, .cons t path, ha.trans ha', hk⟩

theorem ends_of_deleting {k : Conn} (hk : s.conns c = some k) (hr : k.reader = .deleting) :
    s.Ends json publicKey c :=
  ⟨_, _, _, .cons (.readerDelete hk hr) .nil, Hub.Apart.delete.trans (.modify _),
    Hub.modify_some.mpr ⟨k, hk, rfl⟩, by rw [if_pos rfl]⟩

theorem ends_of_closing {k : Conn} (hk : s.conns c = some k) (hr : k.reader = .closing) :
    s.Ends json publicKey c := by
  refine .cons (.readerClose hk hr) ((Hub.Apart.modify _).trans (.modify _)) ?_
  exact ends_of_deleting (Hub.modify_some.mpr ⟨_, Hub.modify_some.mpr ⟨k, hk, rfl⟩, rfl⟩)
    (by rw [if_pos rfl])

theorem ends_of_reading {k : Conn} (hk : s.conns c = some k) (hr : k.reader = .reading) :
    s.Ends json publicKey c := by
  refine .cons (.readFail hk hr) (.modify _) ?_
  exact ends_of_closing (Hub.modify_some.mpr ⟨k, hk, rfl⟩) (by rw [if_pos rfl])

theorem ends_of_some {k : Conn} (hk : s.conns c = some k) : s.Ends json publicKey c := by
  cases hr : k.reader with
  | reading => exact ends_of_reading hk hr
  | closing => exact ends_of_closing hk hr
  | deleting => exact ends_of_deleting hk hr
  | ended => exact ⟨[], s, k, .nil, ⟨rfl, rfl, fun _ _ => rfl, fun _ _ => .rfl⟩, hk, hr⟩

end Reader

/-- **The registry is exact.**  In every run of the entry server a connection is in the registry at
most once, only while its reader runs, and whenever its socket is up, so that every broadcast goes
to it.  From every state the reader of a connection can take it out, whoever else closes it, and
without a change to the services, the `Send`s under way or the other connections; it never comes
back. -/
theorem registry_exact {h : List HubEvent} {s : Hub}
    (run : (hubSystem json publicKey).Run System.Any h s) :
    s.connections.Nodup ∧
      (∀ c ∈ s.connections, ∃ k, s.conns c = some k ∧ k.reader ≠ .ended) ∧
      ∀ c k, s.conns c = some k →
        (k.up = true → c ∈ s.connections) ∧
        ∃ h' s', (hubSystem json publicKey).Run System.Any (h ++ h') s' ∧ s.Apart c s' ∧
          ∀ h'' s'', (hubSystem json publicKey).Path s' h'' s'' → c ∉ s''.connections := by
  have hI := (registered_of_run run).1
  refine ⟨hI.nodup, hI.known, fun c k hk => ⟨hI.up c k hk, ?_⟩⟩
  obtain ⟨h', s', k', path, hapart, hk', hr'⟩ : s.Ends json publicKey c := ends_of_some hk
  have run' := run.extend path
  refine ⟨h', s', run', hapart, fun h'' s'' path' hmem => ?_⟩
  obtain ⟨k'', hk'', hr''⟩ := reader_ended_of_path path' hk' hr'
  obtain ⟨k₀, hk₀, hne⟩ := (registered_of_run (run'.extend path')).1.known c hmem
  cases hk''.symm.trans hk₀
  exact hne hr''

/-- The write of an announcement fails while the reader finds the socket closed, so that both close
the connection. -/
def sampleClosings : List HubEvent :=
  [.accepted 3, .snapshot .convo 0, .writeFailed 3 (.announce .convo 0), .readFailed 3, .closed 3,
    .closed 3, .deleted 3, .deleted 3]

theorem registry_exact_sample :
    ∃ s, (hubSystem sampleJson sampleConn).Run System.Any sampleClosings s ∧
      s.connections.Nodup ∧ 3 ∉ s.connections := by
  have start : (hubSystem sampleJson sampleConn).Run System.Any [] .start := .init rfl
  have one : ∀ y : Nat × Sending, [y] = [] ++ y :: [] := fun _ => rfl
  have path : (hubSystem sampleJson sampleConn).Path .start sampleClosings _ :=
    .cons (.accept rfl) <|
    .cons (.snapshot rfl rfl (.refl [3])) <|
    .cons (.writeFail (p := some .convo) (one (3, .sending (.announce .convo 0))) rfl) <|
    .cons (.readFail rfl rfl) <|
    .cons (.sendClose (p := some .convo) (one (3, .closing))) <|
    .cons (.readerClose rfl rfl) <|
    .cons (.readerDelete rfl rfl) <|
    .cons (.sendDelete (p := some .convo) (one (3, .deleting))) .nil
  have run := start.extend path
  obtain ⟨hnodup, hknown, -⟩ := registry_exact run
  refine ⟨_, run, hnodup, fun hmem => ?_⟩
  obtain ⟨k, hk, hne⟩ := hknown 3 hmem
  cases hk
  exact hne rfl

end Vuvuzela
