import Vuvuzela.Convo.Local
import Vuvuzela.Server.Rounds
import Vuvuzela.Server.Idle

/-!
# Server — rounds side by side

A server has several rounds at once, each in a phase of its own.  Their calls interleave, and they
share nothing but `Idle`.  Here a call comes with the random draws it makes and with the state in
which it finds the next server, so that what a call returns is a function of the server and the
call; a run of calls on one server, with a next server of its own, is such a run
(`served_of_run`).

`Idle` does not know who holds it.  A `Close` that fails at `RunConvoRound` has given `Idle` back
and leaves the round open; the next `Close` of the round gives it back again, if another round
holds it now, and brings the server down if not (`rounds_interfere`).  And a call that panics ends
the process, so that every later call, of any round, fails.

**Isolation** (`rounds_isolated`).  In a run in which no round is closed while another one holds
`Idle`, and no call of another round panics, the calls of one round are a run by themselves: they
can be made without the others, and return and forward the same.
-/

namespace Vuvuzela
open Support

variable {σ : Type} {box : NaclBox} {cfg : Config} {next : NextServer σ}

/-! ### Calls with their answers -/

/-- A call, with the state in which it finds the next server. -/
structure Call (σ : Type) where
  request : Request
  next : σ

/-- A call that was served: how it ended, what it sent to the next server, and the onions it
returned. -/
structure Served (σ : Type) where
  call : Call σ
  outcome : Outcome
  sent : List Sent
  onions : List Bytes

def Served.event (l : Served σ) : Event := ⟨l.call.request, l.outcome, l.sent⟩

/-- Whether a call is for the round. -/
def Served.on (Round : UInt32) (l : Served σ) : Bool := l.call.request.convoRound = some Round

/-- The onions a call returns. -/
def Request.returned (box : NaclBox) (cfg : Config) (srv : Server) : Request → List Bytes
  | .convoGet args filler =>
      match ConvoService.get box cfg filler args srv with
      | .ok onions _ => onions
      | .error _ _ => []
  | _ => []

/-- A call on a server that is down. -/
def unserved (call : Call σ) : Served σ := ⟨call, .err .shutdown, [], []⟩

/-- What a caller gets for a call.  No value while the call waits for `Idle`. -/
def answer (box : NaclBox) (cfg : Config) (next : NextServer σ) (call : Call σ)
    (s : Server × Bool) : Option (Served σ × Server × Bool) :=
  if s.2 then
    (serve box cfg next call.request ⟨s.1, call.next, true⟩).map fun r =>
      (⟨call, r.1.outcome, r.1.sent, call.request.returned box cfg s.1⟩, r.2.server, r.2.up)
  else some (unserved call, s)

/-- The server under any calls; a state is the server and whether it is up. -/
def callSystem (box : NaclBox) (cfg : Config) (next : NextServer σ) :
    System (Server × Bool) (Served σ) where
  init s := s = (Server.start, true)
  step s l s' := answer box cfg next l.call s = some (l, s')

theorem answer_down (call : Call σ) (srv : Server) :
    answer box cfg next call (srv, false) = some (unserved call, srv, false) := rfl

theorem serve_of_answer {call : Call σ} {srv : Server} {s' : Server × Bool} {l : Served σ}
    (h : answer box cfg next call (srv, true) = some (l, s')) :
    ∃ w', serve box cfg next call.request ⟨srv, call.next, true⟩ = some (l.event, w') ∧
      s' = (w'.server, w'.up) ∧ l.call = call ∧ l.onions = call.request.returned box cfg srv := by
  obtain ⟨⟨ev, w'⟩, hserve, heq⟩ := Option.map_eq_some_iff.mp h
  obtain ⟨-, hreq, -⟩ := effect_of_serve hserve
  obtain ⟨rfl, rfl⟩ := Prod.mk.inj heq
  refine ⟨w', ?_, rfl, rfl, rfl⟩
  rw [hserve, Served.event, ← hreq]

theorem answer_of_serve {call : Call σ} {srv : Server} {ev : Event} {w' : World σ}
    (h : serve box cfg next call.request ⟨srv, call.next, true⟩ = some (ev, w')) :
    answer box cfg next call (srv, true) = some
      (⟨call, ev.outcome, ev.sent, call.request.returned box cfg srv⟩, w'.server, w'.up) := by
  rw [answer, if_pos rfl, h]
  rfl

theorem call_of_answer {call : Call σ} {s s' : Server × Bool} {l : Served σ}
    (h : answer box cfg next call s = some (l, s')) : l.call = call := by
  obtain ⟨srv, up⟩ := s
  cases up with
  | true => exact (serve_of_answer h).choose_spec.2.2.1
  | false =>
      cases h
      rfl

/-- A run of the server with a next server that keeps its state. -/
theorem served_of_run {C : List Event → World σ → Event → Prop} {h : List Event} {w : World σ}
    (run : (rpcSystem box cfg next).Run C h w) :
    ∃ h', (callSystem box cfg next).Run System.Any h' (w.server, w.up) ∧
      h'.map Served.event = h := by
  induction run with
  | init h₀ =>
      exact ⟨[], .init (Prod.ext h₀.1 h₀.2), rfl⟩
  | @step h w w' ev _ _ t ih =>
      obtain ⟨request, hserve⟩ := t
      obtain ⟨h', run', hevents⟩ := ih
      obtain ⟨hup, hreq, -⟩ := effect_of_serve hserve
      obtain ⟨srv, t, up⟩ := w
      cases hup
      let l : Served σ := ⟨⟨request, t⟩, ev.outcome, ev.sent, request.returned box cfg srv⟩
      have hanswer : answer box cfg next l.call (srv, true) = some (l, w'.server, w'.up) :=
        answer_of_serve hserve
      refine ⟨h' ++ [l], run'.step trivial hanswer, ?_⟩
      rw [List.map_append, hevents]
      subst hreq
      rfl

/-! ### Who holds `Idle` -/

/-- The round whose `NewRound` took `Idle` in a call; it also does where the round exists. -/
def Event.takes (ev : Event) : Option (Service × UInt32) :=
  match ev.request, ev.outcome with
  | .convoNewRound Round _, .ok => some (.convo, Round)
  | .convoNewRound Round _, .err (.alreadyExists _) => some (.convo, Round)
  | .dialNewRound Round _, .ok => some (.dial, Round)
  | .dialNewRound Round _, .err (.alreadyExists _) => some (.dial, Round)
  | _, _ => none

/-- Who holds `Idle` after a call. -/
def holderStep (o : Option (Service × UInt32)) (ev : Event) : Option (Service × UInt32) :=
  if ev.takes.isSome then ev.takes else if ev.releases.isSome then none else o

/-- Whose `NewRound` took `Idle` last, if no `Close` gave it back since. -/
def holder (h : List Event) : Option (Service × UInt32) := h.foldl holderStep none

theorem holder_concat (h : List Event) (ev : Event) :
    holder (h ++ [ev]) = holderStep (holder h) ev := by
  rw [holder, List.foldl_append]
  rfl

/-- A `Close` of an open round is made while nobody else holds `Idle`. -/
def OwnsLock (o : Option (Service × UInt32)) (srv : Server) : Request → Prop
  | .convoClose Round _ => ∀ round, srv.convoRounds Round = some round →
      round.status = .roundOpen → ∀ id, o = some id → id = (.convo, Round)
  | .dialClose Round _ => ∀ round, srv.dialRounds Round = some round →
      round.status = .roundOpen → ∀ id, o = some id → id = (.dial, Round)
  | _ => True

section Holder

variable {ev : Event} {srv srv' : Server} {o : Option (Service × UInt32)}
  {id : Service × UInt32} {Round : UInt32}

theorem holderStep_of_takes (h : ev.takes = some id) : holderStep o ev = some id := by
  rw [holderStep, h]
  rfl

theorem holderStep_of_releases (ht : ev.takes = none) (h : ev.releases = some id) :
    holderStep o ev = none := by
  rw [holderStep, ht, h]
  rfl

theorem holderStep_of_none (ht : ev.takes = none) (h : ev.releases = none) :
    holderStep o ev = o := by
  rw [holderStep, ht, h]
  rfl

/-- `Idle` is taken while it is free. -/
theorem Effect.free_of_takes (heff : Effect box cfg srv ev srv') (h : ev.takes = some id) :
    srv.idle = false ∧ srv'.idle = true := by
  cases heff with
  | convoNew hidle | convoExists hidle | dialNew hidle | dialExists hidle => exact ⟨hidle, rfl⟩
  | @refused request e he hnew =>
      cases request <;> cases e <;> simp [Event.takes] at h
      all_goals exact absurd rfl (hnew _)
  | @read request hr => cases request <;> simp [Request.reads] at hr <;> simp [Event.takes] at h
  | @crashed _ request => cases request <;> simp [Event.takes] at h
  | _ => simp [Event.takes] at h

/-- `Idle` is given back by a call that does not panic only while it is held, and by a `Close` of
an open round. -/
theorem Effect.held_of_releases (heff : Effect box cfg srv ev srv')
    (hpanic : ∀ p, ev.outcome ≠ .panic p) (h : ev.releases = some id) :
    srv.idle = true ∧ srv'.idle = false ∧
      (OwnsLock o srv ev.request → o = none ∨ o = some id) := by
  have hown : ∀ {p : Service × UInt32}, (∀ id, o = some id → id = p) → o = none ∨ o = some p := by
    intro p hp
    cases ho : o with
    | none => exact .inl rfl
    | some id => exact .inr (congrArg some (hp id ho))
  cases heff with
  | @refused request e => cases request <;> simp [Event.releases] at h
  | @read request hr =>
      cases request <;> simp [Request.reads] at hr <;> simp [Event.releases] at h
  | crashed | convoUnlocked | convoShort | dialUnlocked => exact absurd rfl (hpanic _)
  | convoExchanged _ hc hidle | convoNotRun _ hc hidle | convoAnswered _ hc hidle =>
      obtain rfl : (Service.convo, _) = id := by simpa [Event.releases] using h
      exact ⟨hidle, rfl, fun hlock => hown (hlock _ hc.round_eq hc.status)⟩
  | dialKept _ hc hidle | dialNotRun _ hc hidle | dialForwarded _ hc hidle =>
      obtain rfl : (Service.dial, _) = id := by simpa [Event.releases] using h
      exact ⟨hidle, rfl, fun hlock => hown (hlock _ hc.round_eq hc.status)⟩
  | _ => simp [Event.releases] at h

/-- A call that neither takes nor gives back `Idle` leaves it. -/
theorem Effect.idle_eq (heff : Effect box cfg srv ev srv')
    (hpanic : ∀ p, ev.outcome ≠ .panic p) (ht : ev.takes = none) (hr : ev.releases = none) :
    srv'.idle = srv.idle := by
  cases heff with
  | convoNew | convoExists | dialNew | dialExists => simp [Event.takes] at ht
  | convoExchanged | convoNotRun | convoAnswered | dialKept | dialNotRun | dialForwarded =>
      simp [Event.releases] at hr
  | crashed | convoUnlocked | convoShort | dialUnlocked => exact absurd rfl (hpanic _)
  | _ => rfl

/-- **`Idle` over one call**: it is held when somebody holds it. -/
theorem Effect.idle_iff (heff : Effect box cfg srv ev srv')
    (hpanic : ∀ p, ev.outcome ≠ .panic p) (h : srv.idle = true ↔ o.isSome) :
    srv'.idle = true ↔ (holderStep o ev).isSome := by
  cases ht : ev.takes with
  | some id => simp [holderStep_of_takes ht, (heff.free_of_takes ht).2]
  | none =>
      cases hr : ev.releases with
      | some id =>
          simp [holderStep_of_releases ht hr, (heff.held_of_releases (o := o) hpanic hr).2.1]
      | none => rw [holderStep_of_none ht hr, heff.idle_eq hpanic ht hr, h]

/-- What a call takes or gives back is for the round it is for. -/
theorem convoRound_of_takes (h : ev.takes = some (.convo, Round)) :
    ev.request.convoRound = some Round := by
  rw [Event.takes] at h
  split at h <;> simp_all [Request.convoRound]

theorem convoRound_of_releases (h : ev.releases = some (.convo, Round)) :
    ev.request.convoRound = some Round := by
  rw [Event.releases] at h
  split at h
  · split at h <;> simp_all [Request.convoRound]
  · split at h <;> simp_all
  · cases h

theorem takes_of_convoRound (hr : ev.request.convoRound = some Round) (h : ev.takes = some id) :
    id = (.convo, Round) := by
  rw [Event.takes] at h
  split at h <;> simp_all [Request.convoRound]

/-- A call of another round does not change whether the round holds `Idle`. -/
theorem holderStep_other (heff : Effect box cfg srv ev srv')
    (hpanic : ∀ p, ev.outcome ≠ .panic p) (hidle : srv.idle = true ↔ o.isSome)
    (hlock : OwnsLock o srv ev.request) (hr : ev.request.convoRound ≠ some Round) :
    holderStep o ev = some (.convo, Round) ↔ o = some (.convo, Round) := by
  cases ht : ev.takes with
  | some id =>
      have hfree : o = none := by
        rw [(heff.free_of_takes ht).1] at hidle
        simpa using hidle
      rw [holderStep_of_takes ht, hfree]
      constructor
      · intro hid
        exact absurd (convoRound_of_takes (ht.trans hid)) hr
      · nofun
  | none =>
      cases hrel : ev.releases with
      | some id =>
          obtain ⟨-, -, howns⟩ := heff.held_of_releases (o := o) hpanic hrel
          rw [holderStep_of_releases ht hrel]
          constructor
          · nofun
          · intro ho
            rcases howns hlock with hnone | hsome
            · cases ho.symm.trans hnone
            · exact absurd (convoRound_of_releases (hrel.trans (hsome.symm.trans ho))) hr
      | none => rw [holderStep_of_none ht hrel]

/-- A call of the round changes who holds `Idle` in the same way, whoever else is there. -/
theorem holderStep_own (hr : ev.request.convoRound = some Round)
    {o' : Option (Service × UInt32)} (h : o'.isSome ↔ o = some (.convo, Round)) :
    (holderStep o' ev).isSome ↔ holderStep o ev = some (.convo, Round) := by
  cases ht : ev.takes with
  | some id =>
      rw [holderStep_of_takes ht, holderStep_of_takes ht, takes_of_convoRound hr ht]
      simp
  | none =>
      cases hrel : ev.releases with
      | some id => simp [holderStep_of_releases ht hrel]
      | none =>
          rw [holderStep_of_none ht hrel, holderStep_of_none ht hrel]
          exact h

end Holder

/-! ### A round by itself -/

/-- The server, and the one that gets the calls of a round only: they have the round in common,
and the second holds `Idle` when the round holds that of the first. -/
structure Alongside (Round : UInt32) (o : Option (Service × UInt32)) (srv srv₁ : Server) :
    Prop where
  round : srv.convoRounds Round = srv₁.convoRounds Round
  idle : srv.idle = true ↔ o.isSome
  own : srv₁.idle = true ↔ o = some (.convo, Round)

/-- Whether a call comes to `Idle`. -/
def Request.usesIdle (srv : Server) : Request → Prop
  | .convoNewRound _ _ => True
  | .convoClose Round _ => ∃ round, srv.convoRounds Round = some round ∧ round.status = .roundOpen
  | _ => False

section Alongside

variable {Round : UInt32} {o : Option (Service × UInt32)} {srv srv' srv₁ : Server} {ev : Event}

variable (box cfg next) in
/-- The handler of a call ends alike on servers that have its round in common, and `Idle` if it
comes to that. -/
theorem handle_alike {request : Request} {a b : Server}
    (hr : request.convoRound = some Round) (hround : a.convoRounds Round = b.convoRounds Round)
    (hidle : request.usesIdle a → a.idle = b.idle) (t : σ) :
    Alike (Beside (SameRound Round fun _ _ => True)) (handle box cfg next request (a, t))
      (handle box cfg next request (b, t)) := by
  have hsame : Beside (SameRound Round fun _ _ => True) (a, t) (b, t) :=
    ⟨⟨hround, trivial⟩, rfl⟩
  have heq : a.idle = b.idle → Beside (SameRound Round Eq) (a, t) (b, t) :=
    fun h => ⟨⟨hround, h⟩, rfl⟩
  have hforget : ∀ p q : Server × σ, Beside (SameRound Round Eq) p q →
      Beside (SameRound Round fun _ _ => True) p q :=
    fun _ _ h => ⟨⟨h.1.round, trivial⟩, h.2⟩
  cases request with
  | convoNewRound r coins =>
      cases hr
      exact ((ConvoService.newRound_local box cfg coins).onFst (heq (hidle trivial))).mono hforget
  | convoOpen args =>
      cases hr
      exact (ConvoService.open_local args).onFst hsame
  | convoAdd args =>
      cases hr
      exact (ConvoService.add_local box cfg args).onFst hsame
  | convoClose r shuffler =>
      cases hr
      -- `Close` looks at `Idle` only once it has found the round open
      by_cases hopen : ∃ round, a.convoRounds Round = some round ∧ round.status = .roundOpen
      · exact (ConvoService.close_local cfg next shuffler (heq (hidle hopen))).mono hforget
      · exact ConvoService.close_refused_local cfg next shuffler ⟨hround, trivial⟩
          (fun round hsome hs => hopen ⟨round, hsome, hs⟩) t
  | convoGet args filler =>
      cases hr
      exact Simulates.bind (ConvoService.get_local box cfg filler args).onFst
        (fun _ => .result _) hsame
  | convoDelete r =>
      cases hr
      exact ConvoService.delete_local.onFst hsame
  | dialNewRound | dialAdd | dialClose | dialBuckets => cases hr

theorem returned_eq {request : Request} {a b : Server} (hr : request.convoRound = some Round)
    (hround : a.convoRounds Round = b.convoRounds Round) :
    request.returned box cfg a = request.returned box cfg b := by
  cases request with
  | convoGet args filler =>
      cases hr
      have hget := ConvoService.get_local (I := fun _ _ => True) box cfg filler args
        ⟨hround, trivial⟩
      simp only [Request.returned]
      generalize ConvoService.get box cfg filler args a = x at hget
      generalize ConvoService.get box cfg filler args b = y at hget
      cases hget <;> rfl
  | _ => rfl

/-- Ends that are alike are ends with one outcome. -/
theorem ended_of_alike {R : Server → Server → Prop} {ρ α : Type}
    {x y : EStateM.Result Fault (Server × ρ) α} (h : Alike (Beside R) x y) {oc : Outcome}
    {a : Server} {u : ρ} (hx : ended x = some (oc, a, u)) :
    ∃ b, ended y = some (oc, b, u) ∧ R a b := by
  cases h with
  | @ok r p q h =>
      obtain ⟨b, v⟩ := q
      cases hx
      obtain ⟨hR, huv⟩ := h
      cases huv
      exact ⟨b, rfl, hR⟩
  | @error f p q h =>
      obtain ⟨b, v⟩ := q
      obtain ⟨hR, huv⟩ := h
      cases f with
      | err e =>
          cases hx
          cases huv
          exact ⟨b, rfl, hR⟩
      | panic e =>
          cases hx
          cases huv
          exact ⟨b, rfl, hR⟩
      | blocked => cases hx

/-- A call that comes to `Idle` finds it as the round left it. -/
theorem Alongside.idle_eq (hA : Alongside Round o srv srv₁) {request : Request}
    (hr : request.convoRound = some Round) (hlock : OwnsLock o srv request)
    (hfree : ∀ coins, request = .convoNewRound Round coins → srv.idle = false)
    (huses : request.usesIdle srv) : srv.idle = srv₁.idle := by
  have hnone : o = none → srv.idle = srv₁.idle := by
    rintro rfl
    have h₁ : ¬ srv.idle = true := fun h => by simpa using hA.idle.mp h
    have h₂ : ¬ srv₁.idle = true := fun h => nomatch hA.own.mp h
    rw [Bool.not_eq_true] at h₁ h₂
    rw [h₁, h₂]
  cases request with
  | convoNewRound r coins =>
      cases hr
      refine hnone ?_
      have hidle := hA.idle
      rw [hfree coins rfl] at hidle
      simpa using hidle
  | convoClose r shuffler =>
      cases hr
      obtain ⟨round, hround, hs⟩ := huses
      cases ho : o with
      | none => exact hnone ho
      | some id =>
          have hid := hlock round hround hs id ho
          rw [hA.idle.mpr (by rw [ho]; rfl), hA.own.mpr (by rw [ho, hid])]
  | _ => cases huses

/-- **A call of the round** ends on the round's own server as it does on the server. -/
theorem Alongside.own_call (hA : Alongside Round o srv srv₁) {call : Call σ} {w' : World σ}
    (hserve : serve box cfg next call.request ⟨srv, call.next, true⟩ = some (ev, w'))
    (hlock : OwnsLock o srv ev.request) (hr : ev.request.convoRound = some Round) :
    ∃ w₁, serve box cfg next call.request ⟨srv₁, call.next, true⟩ = some (ev, w₁) ∧
      w₁.up = w'.up ∧
      (w'.up = true → Alongside Round (holderStep o ev) w'.server w₁.server) := by
  obtain ⟨-, hreq, heff, hpanic⟩ := effect_of_serve hserve
  have hfree : ∀ coins, call.request = .convoNewRound Round coins → srv.idle = false := by
    intro coins hnew
    have hend := handle_of_serve hserve
    rw [hnew] at hend
    obtain ⟨hend, -⟩ := ended_onFst hend
    rw [ConvoService.newRound_eq] at hend
    cases hidle : srv.idle with
    | false => rfl
    | true =>
        rw [hidle] at hend
        cases hend
  rw [hreq] at hlock
  have halike := handle_alike box cfg next.recorded (hreq ▸ hr) hA.round
    (hA.idle_eq (hreq ▸ hr) hlock hfree) (call.next, [])
  obtain ⟨b, hend₁, hround⟩ := ended_of_alike halike (handle_of_serve hserve)
  have hserve₁ : serve box cfg next call.request ⟨srv₁, call.next, true⟩ =
      some (ev, ⟨b, w'.next, w'.up⟩) := by
    rw [serve, if_pos rfl] at hserve ⊢
    obtain ⟨r, -, heq⟩ := Option.map_eq_some_iff.mp hserve
    cases heq
    rw [hend₁]
    rfl
  refine ⟨_, hserve₁, rfl, fun hup => ?_⟩
  obtain ⟨-, -, heff₁, -⟩ := effect_of_serve hserve₁
  -- on its own server the round holds `Idle` when `Idle` is held
  have hidle₁ : srv₁.idle = true ↔
      (if srv₁.idle then some (Service.convo, Round) else none).isSome := by
    cases srv₁.idle <;> simp
  refine ⟨hround.round, heff.idle_iff (hpanic.mp hup) hA.idle, ?_⟩
  rw [heff₁.idle_iff (hpanic.mp hup) hidle₁]
  exact holderStep_own hr (hidle₁.symm.trans hA.own)

/-- A call of another round leaves the round and its own server as they are. -/
theorem Alongside.other_call (hA : Alongside Round o srv srv₁) {request : Request} {t : σ}
    {w' : World σ} (hserve : serve box cfg next request ⟨srv, t, true⟩ = some (ev, w'))
    (hup : w'.up = true) (hlock : OwnsLock o srv ev.request)
    (hr : ev.request.convoRound ≠ some Round) :
    Alongside Round (holderStep o ev) w'.server srv₁ := by
  obtain ⟨-, hreq, heff, hpanic⟩ := effect_of_serve hserve
  have hno := hpanic.mp hup
  refine ⟨?_, heff.idle_iff hno hA.idle, ?_⟩
  · rw [(roundStep_of_serve hserve hup Round).eq_of_other hr]
    exact hA.round
  · rw [holderStep_other heff hno hA.idle hlock hr]
    exact hA.own

end Alongside

/-! ### All rounds -/

/-- The condition on a call under which the calls of a round are not disturbed: a `Close` of an
open round is made while nobody else holds `Idle`, and a call that panics is one of the round. -/
structure Undisturbing (Round : UInt32) (h : List (Served σ)) (s : Server × Bool) (l : Served σ) :
    Prop where
  lock : s.2 = true → OwnsLock (holder (h.map Served.event)) s.1 l.call.request
  up : l.on Round = false → ∀ p, l.outcome ≠ .panic p

/-- A server that gets the calls of one round, beside one that gets all calls: both are up or both
are down. -/
def Abreast (Round : UInt32) (h : List (Served σ)) (s s₁ : Server × Bool) : Prop :=
  s₁.2 = s.2 ∧ (s.2 = true → Alongside Round (holder (h.map Served.event)) s.1 s₁.1)

section Abreast

variable {Round : UInt32} {h : List (Served σ)} {s s' s₁ : Server × Bool} {l : Served σ}

theorem holder_map_concat : holder ((h ++ [l]).map Served.event) =
    holderStep (holder (h.map Served.event)) l.event := by
  rw [List.map_append, List.map_singleton, holder_concat]

/-- A call of the round is made on both servers. -/
theorem Abreast.own_call (hB : Abreast Round h s s₁) (hcond : Undisturbing Round h s l)
    (hanswer : answer box cfg next l.call s = some (l, s')) (hon : l.on Round = true) :
    ∃ s₁', answer box cfg next l.call s₁ = some (l, s₁') ∧ Abreast Round (h ++ [l]) s' s₁' := by
  obtain ⟨srv, up⟩ := s
  obtain ⟨srv₁, up₁⟩ := s₁
  obtain ⟨rfl, hA⟩ := hB
  cases up₁ with
  | false =>
      -- both servers are down, and stay down
      obtain ⟨hl, rfl⟩ := Prod.mk.inj (Option.some_inj.mp hanswer)
      refine ⟨(srv₁, false), ?_, rfl, nofun⟩
      rw [answer_down, hl]
  | true =>
      obtain ⟨w', hserve, rfl, -, honions⟩ := serve_of_answer hanswer
      have hr : l.event.request.convoRound = some Round := of_decide_eq_true hon
      obtain ⟨w₁, hserve₁, hup₁, hA'⟩ := (hA rfl).own_call hserve (hcond.lock rfl) hr
      have honions₁ : l.onions = l.call.request.returned box cfg srv₁ :=
        honions.trans (returned_eq hr (hA rfl).round)
      refine ⟨(w₁.server, w₁.up), ?_, hup₁, ?_⟩
      · rw [answer_of_serve hserve₁, ← honions₁]
        rfl
      · rw [holder_map_concat]
        exact hA'

/-- Any other call is made on the first only, which it does not bring down. -/
theorem Abreast.other_call (hB : Abreast Round h s s₁) (hcond : Undisturbing Round h s l)
    (hanswer : answer box cfg next l.call s = some (l, s')) (hon : l.on Round = false) :
    Abreast Round (h ++ [l]) s' s₁ := by
  obtain ⟨srv, up⟩ := s
  obtain ⟨srv₁, up₁⟩ := s₁
  obtain ⟨rfl, hA⟩ := hB
  cases up₁ with
  | false =>
      obtain ⟨-, rfl⟩ := Prod.mk.inj (Option.some_inj.mp hanswer)
      exact ⟨rfl, nofun⟩
  | true =>
      obtain ⟨w', hserve, rfl, -, -⟩ := serve_of_answer hanswer
      have hup : w'.up = true := (effect_of_serve hserve).2.2.2.mpr (hcond.up hon)
      refine ⟨hup.symm, fun _ => ?_⟩
      rw [holder_map_concat]
      exact (hA rfl).other_call hserve hup (hcond.lock rfl) (of_decide_eq_false hon)

theorem abreast_of_run (run : (callSystem box cfg next).Run (Undisturbing Round) h s) :
    ∃ s₁, (callSystem box cfg next).Run System.Any (h.filter (·.on Round)) s₁ ∧
      Abreast Round h s s₁ := by
  induction run with
  | init h₀ =>
      cases h₀
      exact ⟨(Server.start, true), .init rfl, rfl, fun _ => ⟨rfl, by simp [holder, Server.start],
        by simp [holder, Server.start]⟩⟩
  | @step h s s' l run hcond t ih =>
      obtain ⟨s₁, run₁, hB⟩ := ih
      rw [List.filter_append, List.filter_singleton]
      cases hon : l.on Round with
      | true =>
          obtain ⟨s₁', t₁, hB'⟩ := hB.own_call hcond t hon
          exact ⟨s₁', run₁.step trivial t₁, hB'⟩
      | false =>
          rw [cond_false, List.append_nil]
          exact ⟨s₁, run₁, hB.other_call hcond t hon⟩

end Abreast

/-- What a server makes of calls is fixed by the calls. -/
theorem served_unique {C C' : List (Served σ) → Server × Bool → Served σ → Prop}
    {h h' : List (Served σ)} {s s' : Server × Bool} (run : (callSystem box cfg next).Run C h s)
    (run' : (callSystem box cfg next).Run C' h' s')
    (hcalls : h.map Served.call = h'.map Served.call) : h = h' ∧ s = s' := by
  refine run.deterministic ?_ ?_ run' hcalls
  · rintro s s' rfl rfl
    rfl
  · intro s l₁ l₂ s₁ s₂ h₁ h₂ hcall
    have heq : some (l₁, s₁) = some (l₂, s₂) := by
      rw [← (show answer box cfg next l₁.call s = some (l₁, s₁) from h₁), hcall]
      exact h₂
    cases heq
    exact ⟨rfl, rfl⟩

/-- **Rounds are isolated**, in every run in which no open round is closed while another one holds
`Idle` and no call of another round panics.  The calls of a round can be made by themselves, and
whoever makes them so gets what they got in the run: the same errors and onions, and the same
batches at the next server. -/
theorem rounds_isolated {Round : UInt32} {h : List (Served σ)} {s : Server × Bool}
    (run : (callSystem box cfg next).Run (Undisturbing Round) h s) :
    (∃ s₁, (callSystem box cfg next).Run System.Any (h.filter (·.on Round)) s₁) ∧
    ∀ h' s', (callSystem box cfg next).Run System.Any h' s' →
      h'.map Served.call = (h.filter (·.on Round)).map Served.call →
        h' = h.filter (·.on Round) := by
  obtain ⟨s₁, run₁, -⟩ := abreast_of_run run
  exact ⟨⟨s₁, run₁⟩, fun h' s' run' hcalls => (served_unique run' run₁ hcalls).1⟩

/-! ### Two rounds -/

/-- Calls made one after the other, whose history passes a test. -/
theorem run_of_calls {C : List (Served σ) → Server × Bool → Served σ → Prop}
    {check : List (Served σ) → Server × Bool → Served σ → Bool}
    (hcheck : ∀ h s l, check h s l = true → C h s l) {test : List (Served σ) → Bool}
    {calls : List (Call σ)}
    (h : (System.replay (answer box cfg next) check calls [] (Server.start, true)).any
      (fun r => test r.1) = true) :
    ∃ h s, (callSystem box cfg next).Run C h s ∧ h.map Served.call = calls ∧ test h = true := by
  refine System.Run.of_replay ?_ hcheck rfl h
  intro call s l s' hanswer
  obtain rfl := call_of_answer hanswer
  exact ⟨hanswer, rfl⟩

/-- The check of `OwnsLock`. -/
def ownsLock (o : Option (Service × UInt32)) (srv : Server) : Request → Bool
  | .convoClose Round _ => (srv.convoRounds Round).all fun round =>
      round.status ≠ .roundOpen || o.all (· = (.convo, Round))
  | .dialClose Round _ => (srv.dialRounds Round).all fun round =>
      round.status ≠ .roundOpen || o.all (· = (.dial, Round))
  | _ => true

theorem ownsLock_of_check {o : Option (Service × UInt32)} {srv : Server} {request : Request}
    (h : ownsLock o srv request = true) : OwnsLock o srv request := by
  cases request with
  | convoClose Round | dialClose Round =>
      intro round hround hs id ho
      simpa [ownsLock, hround, hs, ho] using h
  | _ => trivial

def Outcome.isPanic : Outcome → Bool
  | .panic _ => true
  | .ok | .err _ => false

/-- The check of `Undisturbing`. -/
def undisturbing (Round : UInt32) (h : List (Served σ)) (s : Server × Bool) (l : Served σ) : Bool :=
  ownsLock (holder (h.map Served.event)) s.1 l.call.request && (l.on Round || !l.outcome.isPanic)

theorem undisturbing_of_check {Round : UInt32} {h : List (Served σ)} {s : Server × Bool}
    {l : Served σ} (hcheck : undisturbing Round h s l = true) : Undisturbing Round h s l := by
  obtain ⟨hlock, hpanic⟩ := Bool.and_eq_true_iff.mp hcheck
  refine ⟨fun _ => ownsLock_of_check hlock, fun hon p hp => ?_⟩
  rw [hon, hp] at hpanic
  cases hpanic

/-- How the last call of the first round ended. -/
def lastOutcome (h : List (Served (List Bool))) : Option Outcome :=
  (h.filter (·.on 1)).getLast?.map Served.outcome

def endsWith (o : Outcome) (h : List (Served (List Bool))) : Bool := lastOutcome h = some o

/-- Two rounds of the first server, the second begun before the first is answered.  The last call of
the first brings the server down. -/
def sampleInterleaving : List (Call (List Bool)) :=
  [⟨.convoNewRound 1 sampleCoins, []⟩, ⟨.convoOpen ⟨1, 1⟩, []⟩, ⟨.convoClose 1 sampleShuffler, []⟩,
    ⟨.convoNewRound 2 sampleCoins, []⟩, ⟨.convoGet ⟨1, 0, 1⟩ fun _ _ => 0, []⟩,
    ⟨.convoOpen ⟨2, 0⟩, []⟩, ⟨.convoClose 2 sampleShuffler, []⟩,
    ⟨.convoGet ⟨1, -1, 1⟩ fun _ _ => 0, []⟩, ⟨.convoDelete 2, []⟩, ⟨.convoDelete 1, []⟩]

theorem rounds_isolated_sample :
    ∃ h s, (callSystem tagBox sampleConfig scriptedServer).Run (Undisturbing 1) h s ∧
      h.map Served.call = sampleInterleaving ∧ lastOutcome h = some (.err .shutdown) ∧
      ∃ s₁, (callSystem tagBox sampleConfig scriptedServer).Run System.Any
        (h.filter (·.on 1)) s₁ := by
  obtain ⟨h, s, run, hcalls, hlast⟩ := run_of_calls (C := Undisturbing 1)
    (fun _ _ _ h => undisturbing_of_check h)
    (show (System.replay (answer tagBox sampleConfig scriptedServer) (undisturbing 1)
      sampleInterleaving [] (Server.start, true)).any
        (fun r => endsWith (.err .shutdown) r.1) = true by decide +kernel)
  exact ⟨h, s, run, hcalls, of_decide_eq_true hlast, (rounds_isolated run).1⟩

/-- The first round waits for its answers while the second is open. -/
def panicking (call : Call (List Bool)) : List (Call (List Bool)) :=
  [⟨.convoNewRound 1 sampleCoins, []⟩, ⟨.convoOpen ⟨1, 1⟩, []⟩, ⟨.convoClose 1 sampleShuffler, []⟩,
    ⟨.convoNewRound 2 sampleCoins, []⟩, ⟨.convoOpen ⟨2, 1⟩, []⟩, call,
    ⟨.convoGet ⟨1, 0, 1⟩ fun _ _ => 0, []⟩]

-- a panic in an `Add` of the second round takes the answer of the first away
example : (System.replay (answer tagBox sampleConfig scriptedServer) (fun _ _ _ => true)
    (panicking ⟨.convoAdd ⟨2, -1, [[7]]⟩, []⟩) [] (Server.start, true)).map
      (fun r => lastOutcome r.1) = some (some (.err .shutdown)) := by decide +kernel

example : (System.replay (answer tagBox sampleConfig scriptedServer) (fun _ _ _ => true)
    (panicking ⟨.convoAdd ⟨2, 0, [[7]]⟩, []⟩) [] (Server.start, true)).map
      (fun r => lastOutcome r.1) = some (some .ok) := by decide +kernel

/-- A `Close` of the first round that fails at `RunConvoRound`, the start of a second round, and
another `Close` of the first. -/
def interfering : List (Call (List Bool)) :=
  [⟨.convoNewRound 1 sampleCoins, []⟩, ⟨.convoOpen ⟨1, 0⟩, []⟩,
    ⟨.convoClose 1 sampleShuffler, [true, false]⟩, ⟨.convoNewRound 2 sampleCoins, []⟩,
    ⟨.convoClose 1 sampleShuffler, []⟩]

/-- The calls of the first round. -/
def interferingAlone : List (Call (List Bool)) :=
  [⟨.convoNewRound 1 sampleCoins, []⟩, ⟨.convoOpen ⟨1, 0⟩, []⟩,
    ⟨.convoClose 1 sampleShuffler, [true, false]⟩, ⟨.convoClose 1 sampleShuffler, []⟩]

/-- The second `Close` succeeds because the second round holds `Idle`; without that round it brings
the server down. -/
theorem rounds_interfere :
    ∃ h s h' s', (callSystem tagBox sampleConfig scriptedServer).Run System.Any h s ∧
      (callSystem tagBox sampleConfig scriptedServer).Run System.Any h' s' ∧
      h'.map Served.call = (h.filter (·.on 1)).map Served.call ∧
      lastOutcome h = some .ok ∧ lastOutcome h' = some (.panic .unlock) ∧
      h' ≠ h.filter (·.on 1) := by
  obtain ⟨h, s, run, hcalls, hlast⟩ := run_of_calls (C := System.Any) (fun _ _ _ _ => trivial)
    (show (System.replay (answer tagBox sampleConfig scriptedServer) (fun _ _ _ => true)
      interfering [] (Server.start, true)).any (fun r => endsWith .ok r.1) = true by
      decide +kernel)
  obtain ⟨h', s', run', hcalls', hlast'⟩ := run_of_calls (C := System.Any)
    (fun _ _ _ _ => trivial)
    (show (System.replay (answer tagBox sampleConfig scriptedServer) (fun _ _ _ => true)
      interferingAlone [] (Server.start, true)).any
        (fun r => endsWith (.panic .unlock) r.1) = true by decide +kernel)
  have hok : lastOutcome h = some .ok := of_decide_eq_true hlast
  have hpanic : lastOutcome h' = some (.panic .unlock) := of_decide_eq_true hlast'
  have hsame : (h.filter (·.on 1)).map Served.call = interferingAlone := by
    have hfilter := List.filter_map (f := Served.call) (p := fun c : Call (List Bool) =>
      decide (c.request.convoRound = some 1)) (l := h)
    exact hfilter.symm.trans (by rw [hcalls]; rfl)
  refine ⟨h, s, h', s', run, run', hcalls'.trans hsame.symm, hok, hpanic, ?_⟩
  rintro rfl
  rw [lastOutcome, List.filter_filter] at hpanic
  simp only [Bool.and_self] at hpanic
  cases hok.symm.trans hpanic

end Vuvuzela
