import Vuvuzela.Source.CallMany
import Vuvuzela.Source.Vrpc
import Vuvuzela.Support.Shares

/-!
# Vrpc — every call once

What becomes of the calls of a `CallMany`, in any interleaving.  A history notes which calls were
dispatched, issued, completed and collected (`noted`), and `Flow` accounts for the calls between
those: what was dispatched is on `callChan`, with a worker or issued, what was issued is pending
or completed, what completed is on `results` or collected.  `Gathered` is what the collecting
loop knows of what it collected.  The counts then leave no room for a call issued twice, or for a
completion after all were collected (`callMany_exactly_once`).

The `break` of the dispatching goroutine leaves its `select` and not its loop: a call that is
skipped after a failure can be followed by one that is sent
(`callMany_dispatches_after_skip`).
-/

namespace Vuvuzela.CallMany
open Support

variable {n k : Nat} {ε : Type}

/-! ### What a history notes -/

/-- The call a select was for. -/
def Event.selected? : Event k ε → Option Nat
  | .dispatched i => some i
  | .skipped i => some i
  | _ => none

def Event.dispatched? : Event k ε → Option Nat
  | .dispatched i => some i
  | _ => none

def Event.issued? : Event k ε → Option Nat
  | .issued _ i => some i
  | _ => none

def Event.completed? : Event k ε → Option (Nat × Option ε)
  | .completed i err => some (i, err)
  | _ => none

def Event.collected? : Event k ε → Option (Nat × Option ε)
  | .collected i err => some (i, err)
  | _ => none

/-- What the labels of a history note, in order. -/
def noted {α : Type} (note : Event k ε → Option α) (h : List (Event k ε)) : List α :=
  h.filterMap note

@[simp] theorem noted_nil {α : Type} (note : Event k ε → Option α) : noted note [] = [] := rfl

@[simp] theorem noted_concat {α : Type} (note : Event k ε → Option α) (h : List (Event k ε))
    (ev : Event k ε) : noted note (h ++ [ev]) = noted note h ++ (note ev).toList :=
  filterMap_concat note h ev

theorem mem_completed {h : List (Event k ε)} {i : Nat} {err : Option ε} :
    (i, err) ∈ noted Event.completed? h ↔ .completed i err ∈ h :=
  mem_filterMap_iff fun ev => by cases ev <;> simp [Event.completed?]

/-- What one note says of a label and another also does, it says of a history. -/
theorem noted_sublist {α : Type} {note note' : Event k ε → Option α}
    (hnote : ∀ ev a, note ev = some a → note' ev = some a) (h : List (Event k ε)) :
    (noted note h).Sublist (noted note' h) := by
  induction h using List.reverseRecOn with
  | nil => exact .refl _
  | append_singleton h ev ih =>
      rw [noted_concat, noted_concat]
      refine ih.append ?_
      cases hev : note ev with
      | none => exact List.nil_sublist _
      | some a => rw [hnote ev a hev]

/-! ### Where a call is -/

/-- How many calls the dispatcher has got past. -/
def Dispatcher.position (n : Nat) : Dispatcher → Nat
  | .selecting i => i
  | .finished => n

def Worker.held : Worker → Multiset Nat
  | .receiving => 0
  | .holding i => {i}
  | .exited => 0

/-- The calls the workers have received and not issued. -/
def held (workers : Fin k → Worker) : Multiset Nat := ∑ w, (workers w).held

theorem held_update (workers : Fin k → Worker) (w : Fin k) (v : Worker) :
    held (Function.update workers w v) + (workers w).held = held workers + v.held :=
  sum_update Worker.held workers w v

/-- A worker at its receive holds nothing. -/
theorem held_of_receiving {workers : Fin k → Worker} {w : Fin k} (hw : workers w = .receiving)
    (v : Worker) : held (Function.update workers w v) = held workers + v.held := by
  simpa [hw, Worker.held] using held_update workers w v

theorem held_of_holding {workers : Fin k → Worker} {w : Fin k} {i : Nat}
    (hw : workers w = .holding i) :
    held workers = held (Function.update workers w .receiving) + {i} := by
  simpa [hw, Worker.held] using (held_update workers w .receiving).symm

/-- Every call is in one place: still in the list, skipped, on `callChan`, with a worker, pending,
on `results`, or collected. -/
structure Flow (n : Nat) (h : List (Event k ε)) (s : State k ε) : Prop where
  selected : noted Event.selected? h = List.range (s.dispatcher.position n)
  position_le : s.dispatcher.position n ≤ n
  dispatched : (noted Event.dispatched? h : Multiset Nat) =
    s.callChan + held s.workers + noted Event.issued? h
  issued : (noted Event.issued? h : Multiset Nat) =
    s.pending + (noted Event.completed? h).map Prod.fst
  completed : (noted Event.completed? h : Multiset (Nat × Option ε)) =
    s.results + noted Event.collected? h

theorem Flow.start (n k : Nat) (ε : Type) : Flow n [] (start n k ε) where
  selected := by by_cases hn : n = 0 <;> simp [CallMany.start, hn, Dispatcher.position]
  position_le := by by_cases hn : n = 0 <;> simp [CallMany.start, hn, Dispatcher.position]
  dispatched := by
    by_cases hn : n = 0 <;> simp [CallMany.start, hn, held, Worker.held]
  issued := rfl
  completed := rfl

/-! ### The collecting loop -/

/-- What the loop has gathered: `got`. -/
def Gathered (n : Nat) (got : List (Nat × Option ε)) (s : State k ε) : Prop :=
  match s.collector with
  | .receiving =>
      got.length = s.received ∧ s.received < n ∧ (∀ p ∈ got, p.2 = none) ∧
        s.resultsClosed = false
  | .full => got.length = n ∧ (∀ p ∈ got, p.2 = none) ∧ s.resultsClosed = false
  | .leaving none | .returned none => got.length = n ∧ ∀ p ∈ got, p.2 = none
  | .leaving (some e) | .returned (some e) => (∃ i, (i, some e) ∈ got) ∧ s.resultsClosed = false

theorem Gathered.start (n k : Nat) (ε : Type) : Gathered n [] (start n k ε) := by
  by_cases hn : n = 0
  · simp [Gathered, CallMany.start, hn]
  · simp [Gathered, CallMany.start, hn, Nat.pos_of_ne_zero hn]

/-- `results` is closed once all calls were received. -/
theorem Gathered.closed {got : List (Nat × Option ε)} {s : State k ε} (hg : Gathered n got s)
    (hclosed : s.resultsClosed = true) : got.length = n := by
  rw [Gathered] at hg
  split at hg
  · exact absurd (hclosed.symm.trans hg.2.2.2) Bool.true_eq_false.mp
  · exact hg.1
  · exact hg.1
  · exact hg.1
  · exact absurd (hclosed.symm.trans hg.2) Bool.true_eq_false.mp
  · exact absurd (hclosed.symm.trans hg.2) Bool.true_eq_false.mp

theorem Gathered.step {h : List (Event k ε)} {s : State k ε} {ev : Event k ε}
    (hg : Gathered n (noted Event.collected? h) s) (hcan : s.Can n ev) :
    Gathered n (noted Event.collected? (h ++ [ev])) (s.after n ev) := by
  rw [noted_concat]
  cases ev with
  | collected i err =>
      obtain ⟨hrec, -⟩ := hcan
      simp only [Gathered, hrec] at hg
      obtain ⟨hlen, hlt, hok, hopen⟩ := hg
      cases err with
      | some e => exact ⟨⟨i, by simp [Event.collected?]⟩, hopen⟩
      | none =>
          have hok' : ∀ p ∈ noted Event.collected? h ++ [(i, none)], p.2 = none := by
            simpa [or_imp, forall_and] using hok
          by_cases hfull : s.received + 1 = n
          · simp only [Gathered, State.after, if_pos hfull]
            exact ⟨by simp [Event.collected?, hlen, hfull], hok', hopen⟩
          · simp only [Gathered, State.after, if_neg hfull]
            exact ⟨by simp [Event.collected?, hlen], by simp; omega, hok', hopen⟩
  | closedResults =>
      simp only [Gathered, show s.collector = .full from hcan] at hg
      exact ⟨by simpa [Event.collected?] using hg.1, by simpa [Event.collected?] using hg.2.1⟩
  | returned err =>
      simp only [Gathered, show s.collector = .leaving err from hcan] at hg
      cases err with
      | none => simpa [Gathered, State.after, Event.collected?] using hg
      | some e => simpa [Gathered, State.after, Event.collected?] using hg
  | _ =>
      -- no other step touches what the loop reads
      simp only [Event.collected?, Option.toList, List.append_nil]
      exact hg

/-! ### One step -/

section Step

variable {h : List (Event k ε)} {s : State k ε} {ev : Event k ε}

theorem Flow.selected_step (hf : Flow n h s) (hcan : s.Can n ev) :
    noted Event.selected? (h ++ [ev]) =
        List.range ((s.after n ev).dispatcher.position n) ∧
      (s.after n ev).dispatcher.position n ≤ n := by
  have hsel := hf.selected
  have hle := hf.position_le
  rw [noted_concat]
  cases ev with
  | dispatched i =>
      obtain ⟨hi, hlt, -⟩ := hcan
      rw [hi] at hsel
      exact ⟨by rw [hsel]; exact List.range_succ.symm, hlt⟩
  | skipped i =>
      obtain ⟨hi, hlt, -⟩ := hcan
      rw [hi] at hsel
      exact ⟨by rw [hsel]; exact List.range_succ.symm, hlt⟩
  | closedCalls =>
      rw [show s.dispatcher = .selecting n from hcan] at hsel
      exact ⟨(List.append_nil _).trans hsel, Nat.le_refl n⟩
  | _ => exact ⟨(List.append_nil _).trans hsel, hle⟩

theorem Flow.dispatched_step (hf : Flow n h s) (hcan : s.Can n ev) :
    (noted Event.dispatched? (h ++ [ev]) : Multiset Nat) =
      (s.after n ev).callChan + held (s.after n ev).workers + noted Event.issued? (h ++ [ev]) := by
  rw [noted_concat, noted_concat]
  cases ev with
  | dispatched i =>
      simp only [Event.dispatched?, Event.issued?, State.after, Option.toList, coe_concat,
        List.append_nil, hf.dispatched]
      abel
  | taken w i =>
      obtain ⟨hw, hhead⟩ := hcan
      simp only [Event.dispatched?, Event.issued?, State.after, Option.toList,
        List.append_nil, hf.dispatched, coe_of_head? hhead, held_of_receiving hw, Worker.held]
      abel
  | exited w =>
      simp only [Event.dispatched?, Event.issued?, State.after, Option.toList,
        List.append_nil, hf.dispatched, held_of_receiving hcan.1, Worker.held, add_zero]
  | issued w i =>
      simp only [Event.dispatched?, Event.issued?, State.after, Option.toList, coe_concat,
        List.append_nil, hf.dispatched, held_of_holding hcan]
      abel
  | _ =>
      simpa only [Event.dispatched?, Event.issued?, State.after, Option.toList,
        List.append_nil] using hf.dispatched

theorem Flow.dispatched_sublist (hf : Flow n h s) :
    (noted Event.dispatched? h).Sublist (List.range (s.dispatcher.position n)) := by
  rw [← hf.selected]
  refine noted_sublist (fun ev i hev => ?_) h
  cases ev with
  | dispatched j => exact hev
  | _ => cases hev

/-- No more calls are underway than there are. -/
theorem Flow.room (hf : Flow n h s) :
    s.pending.length + s.results.length + (noted Event.collected? h).length ≤ n := by
  have hsub := hf.dispatched_sublist.length_le
  have hd := congrArg Multiset.card hf.dispatched
  have hi := congrArg Multiset.card hf.issued
  have hc := congrArg Multiset.card hf.completed
  have hle := hf.position_le
  rw [List.length_range] at hsub
  simp only [Multiset.card_add, Multiset.coe_card, List.length_map] at hd hi hc
  omega

/-- A pending call finds `results` open and with room. -/
theorem Flow.open_of_pending (hf : Flow n h s) (hg : Gathered n (noted Event.collected? h) s)
    {i : Nat} (hi : i ∈ s.pending) : s.resultsClosed = false ∧ s.results.length < n := by
  have hroom := hf.room
  have hpos := List.length_pos_of_mem hi
  refine ⟨?_, by omega⟩
  by_contra hclosed
  have hall := hg.closed (Bool.not_eq_false _ ▸ hclosed)
  omega

theorem Flow.issued_step (hf : Flow n h s) (hg : Gathered n (noted Event.collected? h) s)
    (hcan : s.Can n ev) :
    (noted Event.issued? (h ++ [ev]) : Multiset Nat) =
      (s.after n ev).pending + (noted Event.completed? (h ++ [ev])).map Prod.fst := by
  rw [noted_concat, noted_concat, List.map_append]
  cases ev with
  | issued w i =>
      simp only [Event.issued?, Event.completed?, State.after, Option.toList, coe_concat,
        List.map_nil, List.append_nil, hf.issued]
      abel
  | completed i err =>
      simp only [Event.issued?, Event.completed?, State.after, Option.toList, coe_concat,
        List.map_cons, List.map_nil, List.append_nil, hf.issued, coe_of_mem hcan.1]
      abel
  | discarded i err =>
      have hroom := (hf.open_of_pending hg hcan.1).2
      exact absurd hcan.2.2 (Nat.not_le.mpr hroom)
  | panicked i err =>
      have hopen := (hf.open_of_pending hg hcan.1).1
      exact absurd (hopen.symm.trans hcan.2) Bool.false_ne_true
  | _ =>
      simpa only [Event.issued?, Event.completed?, State.after, Option.toList, List.map_nil,
        List.append_nil] using hf.issued

theorem Flow.completed_step (hf : Flow n h s) (hcan : s.Can n ev) :
    (noted Event.completed? (h ++ [ev]) : Multiset (Nat × Option ε)) =
      (s.after n ev).results + noted Event.collected? (h ++ [ev]) := by
  rw [noted_concat, noted_concat]
  cases ev with
  | completed i err =>
      simp only [Event.completed?, Event.collected?, State.after, Option.toList, coe_concat,
        List.append_nil, hf.completed]
      abel
  | collected i err =>
      simp only [Event.completed?, Event.collected?, State.after, Option.toList, coe_concat,
        List.append_nil, hf.completed, coe_of_head? hcan.2]
      abel
  | _ =>
      simpa only [Event.completed?, Event.collected?, State.after, Option.toList,
        List.append_nil] using hf.completed

theorem Flow.step (hf : Flow n h s) (hg : Gathered n (noted Event.collected? h) s)
    (hcan : s.Can n ev) : Flow n (h ++ [ev]) (s.after n ev) where
  selected := (hf.selected_step hcan).1
  position_le := (hf.selected_step hcan).2
  dispatched := hf.dispatched_step hcan
  issued := hf.issued_step hg hcan
  completed := hf.completed_step hcan

end Step

/-- The two invariants, in every run. -/
theorem flow_of_run {C : List (Event k ε) → State k ε → Event k ε → Prop}
    {h : List (Event k ε)} {s : State k ε} (r : (system n k ε).Run C h s) :
    Flow n h s ∧ Gathered n (noted Event.collected? h) s := by
  refine r.invariant (I := fun h s => Flow n h s ∧ Gathered n (noted Event.collected? h) s) ?_ ?_
  · rintro s rfl
    exact ⟨Flow.start n k ε, Gathered.start n k ε⟩
  · rintro h s ev s' ⟨hf, hg⟩ - ⟨-, hcan, rfl⟩
    exact ⟨hf.step hg hcan, hg.step hcan⟩

/-! ### Every call once -/

section Once

variable {h : List (Event k ε)} {s : State k ε}

theorem Flow.issued_le (hf : Flow n h s) :
    (noted Event.issued? h : Multiset Nat) ≤ List.range n := by
  have hrange : (List.range (s.dispatcher.position n)).Sublist (List.range n) :=
    List.range_sublist.mpr hf.position_le
  calc (noted Event.issued? h : Multiset Nat)
      ≤ noted Event.dispatched? h := by
        rw [hf.dispatched]
        exact Multiset.le_add_left _ _
    _ ≤ List.range n := Multiset.coe_le.mpr (hf.dispatched_sublist.trans hrange).subperm

theorem Flow.completed_le (hf : Flow n h s) :
    ((noted Event.completed? h).map Prod.fst : Multiset Nat) ≤ noted Event.issued? h := by
  rw [hf.issued]
  exact Multiset.le_add_left _ _

theorem Flow.collected_le (hf : Flow n h s) :
    (noted Event.collected? h : Multiset (Nat × Option ε)) ≤ noted Event.completed? h := by
  rw [hf.completed]
  exact Multiset.le_add_left _ _

/-- Where as many calls were collected as there are, every call was issued once, and what was
collected is what they completed with. -/
theorem Flow.all_collected (hf : Flow n h s) (hall : (noted Event.collected? h).length = n) :
    (noted Event.issued? h).Perm (List.range n) ∧
    ((noted Event.completed? h).map Prod.fst).Perm (List.range n) ∧
    (noted Event.completed? h).Perm (noted Event.collected? h) := by
  have hcol := Multiset.card_le_card hf.collected_le
  have hcomp := Multiset.card_le_card hf.completed_le
  have hiss := Multiset.card_le_card hf.issued_le
  simp only [Multiset.coe_card, List.length_map, List.length_range] at hcol hcomp hiss
  have hissued := Multiset.eq_of_le_of_card_le hf.issued_le (by simp; omega)
  have hcompleted := Multiset.eq_of_le_of_card_le hf.completed_le (by simp; omega)
  have hcollected := Multiset.eq_of_le_of_card_le hf.collected_le (by simp; omega)
  exact ⟨Multiset.coe_eq_coe.mp hissued, Multiset.coe_eq_coe.mp (hcompleted.trans hissued),
    Multiset.coe_eq_coe.mp hcollected.symm⟩

/-- At the return of `nil` every call has been issued once, and completed without an error. -/
theorem returned_nil {C : List (Event k ε) → State k ε → Event k ε → Prop}
    {h₁ h₂ : List (Event k ε)} (r : (system n k ε).Run C (h₁ ++ .returned none :: h₂) s) :
    (noted Event.issued? h₁).Perm (List.range n) ∧
    (noted Event.completed? h₁).Perm ((List.range n).map fun i => (i, none)) := by
  obtain ⟨s₁, s₂, r₁, -, -, hcan, -⟩ := r.label
  obtain ⟨hf, hg⟩ := flow_of_run r₁
  simp only [Gathered, show s₁.collector = .leaving none from hcan] at hg
  obtain ⟨hall, hok⟩ := hg
  obtain ⟨hissued, hfst, hcol⟩ := hf.all_collected hall
  refine ⟨hissued, ?_⟩
  -- a completion without an error is known by its call
  have hsplit : (noted Event.completed? h₁).map (fun p => (p.1, (none : Option ε))) =
      noted Event.completed? h₁ := by
    refine (List.map_congr_left fun p hp => ?_).trans (List.map_id _)
    exact Prod.ext rfl (hok p (hcol.mem_iff.mp hp)).symm
  have hmap := hfst.map fun i => (i, (none : Option ε))
  rw [List.map_map] at hmap
  exact hsplit ▸ hmap

/-- So the calls of a `CallMany` that returned `nil` were completed in the order of a schedule. -/
theorem exists_schedule {C : List (Event k ε) → State k ε → Event k ε → Prop}
    {h₁ h₂ : List (Event k ε)} (r : (system n k ε).Run C (h₁ ++ .returned none :: h₂) s) :
    ∃ schedule : Schedule, noted Event.completed? h₁ = (schedule n).1.map fun i => (i, none) := by
  have hperm := (returned_nil r).2
  have hfst : ((noted Event.completed? h₁).map Prod.fst).Perm (List.range n) := by
    simpa [Function.comp_def] using hperm.map Prod.fst
  refine ⟨fun m => if hm : m = n then ⟨_, hm ▸ hfst⟩ else ⟨List.range m, .refl _⟩, ?_⟩
  beta_reduce
  rw [dif_pos rfl, List.map_map]
  refine ((List.map_congr_left fun p hp => ?_).trans (List.map_id _)).symm
  obtain ⟨i, -, rfl⟩ := List.mem_map.mp (hperm.mem_iff.mp hp)
  rfl

/-- The error of a return is that of a call. -/
theorem returned_error {C : List (Event k ε) → State k ε → Event k ε → Prop} {e : ε}
    {h₁ h₂ : List (Event k ε)} (r : (system n k ε).Run C (h₁ ++ .returned (some e) :: h₂) s) :
    ∃ i < n, .completed i (some e) ∈ h₁ := by
  obtain ⟨s₁, s₂, r₁, -, -, hcan, -⟩ := r.label
  obtain ⟨hf, hg⟩ := flow_of_run r₁
  simp only [Gathered, show s₁.collector = .leaving (some e) from hcan] at hg
  obtain ⟨⟨i, hi⟩, -⟩ := hg
  have hcomp : (i, some e) ∈ noted Event.completed? h₁ := Multiset.mem_of_le hf.collected_le hi
  have hfst : i ∈ (noted Event.completed? h₁).map Prod.fst := List.mem_map.mpr ⟨_, hcomp, rfl⟩
  have hlt : i ∈ List.range n := Multiset.mem_of_le (hf.completed_le.trans hf.issued_le) hfst
  exact ⟨i, List.mem_range.mp hlt, mem_completed.mp hcomp⟩

/-- A completion never finds `results` closed, nor full. -/
theorem never_panicked {C : List (Event k ε) → State k ε → Event k ε → Prop}
    (r : (system n k ε).Run C h s) (i : Nat) (err : Option ε) :
    ¬ s.Can n (.panicked i err) ∧ ¬ s.Can n (.discarded i err) := by
  obtain ⟨hf, hg⟩ := flow_of_run r
  constructor
  · rintro ⟨hi, hclosed⟩
    exact absurd ((hf.open_of_pending hg hi).1.symm.trans hclosed) Bool.false_ne_true
  · rintro ⟨hi, -, hfull⟩
    exact absurd hfull (Nat.not_le.mpr (hf.open_of_pending hg hi).2)

theorem closed_of_mem {C : List (Event k ε) → State k ε → Event k ε → Prop}
    (r : (system n k ε).Run C h s) : .closedResults ∈ h → s.resultsClosed = true := by
  refine r.invariant (I := fun h s => .closedResults ∈ h → s.resultsClosed = true) ?_ ?_
  · exact fun _ _ hmem => absurd hmem List.not_mem_nil
  · rintro h s ev s' ih - ⟨-, -, rfl⟩ hmem
    rcases List.mem_append.mp hmem with hmem | hmem
    · have hold := ih hmem
      cases ev with
      | closedResults => rfl
      | _ => exact hold
    · obtain rfl := List.mem_singleton.mp hmem
      rfl

/-- **All or an error, and every call at most once.**  Whatever the interleaving, no call is
issued twice; when `CallMany` returns `nil` each has been issued once, and completed once and
without an error; an error it returns is that of a call; and no completion comes to `results`
after it is closed, nor is one lost. -/
theorem callMany_exactly_once (r : (system n k ε).Run System.Any h s) :
    (noted Event.issued? h).Nodup ∧
    (∀ h₁ h₂, h = h₁ ++ .returned none :: h₂ → ∀ i < n,
      (noted Event.issued? h₁).count i = 1 ∧ .completed i none ∈ h₁ ∧
      ∀ err, .completed i err ∈ h₁ → err = none) ∧
    (∀ h₁ h₂ e, h = h₁ ++ .returned (some e) :: h₂ → ∃ i < n, .completed i (some e) ∈ h₁) ∧
    (∀ h₁ h₂, h = h₁ ++ .closedResults :: h₂ → ∀ i err, .completed i err ∉ h₂) ∧
    ∀ i err, .panicked i err ∉ h ∧ .discarded i err ∉ h := by
  refine ⟨?_, ?_, ?_, ?_, ?_⟩
  · exact Multiset.coe_nodup.mp
      (Multiset.nodup_of_le (flow_of_run r).1.issued_le (Multiset.coe_nodup.mpr List.nodup_range))
  · rintro h₁ h₂ rfl i hi
    obtain ⟨hissued, hcompleted⟩ := returned_nil r
    have hcount := List.count_eq_one_of_mem List.nodup_range (List.mem_range.mpr hi)
    refine ⟨(hissued.count_eq i).trans hcount, ?_, ?_⟩
    · exact mem_completed.mp (by simp [hcompleted.mem_iff, hi])
    · intro err hmem
      obtain ⟨j, -, heq⟩ := List.mem_map.mp (hcompleted.mem_iff.mp (mem_completed.mpr hmem))
      exact (Prod.ext_iff.mp heq).2.symm
  · rintro h₁ h₂ e rfl
    exact returned_error r
  · rintro h₁ h₂ rfl i err hmem
    obtain ⟨a, b, rfl⟩ := List.append_of_mem hmem
    rw [← List.cons_append, ← List.append_assoc] at r
    obtain ⟨s₁, s₂, r₁, -, -, hcan, -⟩ := r.label
    have hclosed := closed_of_mem r₁ (by simp)
    exact absurd (hcan.2.1.symm.trans hclosed) Bool.false_ne_true
  · intro i err
    constructor
    · intro hmem
      obtain ⟨h₁, h₂, rfl⟩ := List.append_of_mem hmem
      obtain ⟨s₁, s₂, r₁, -, -, hcan, -⟩ := r.label
      exact (never_panicked r₁ i err).1 hcan
    · intro hmem
      obtain ⟨h₁, h₂, rfl⟩ := List.append_of_mem hmem
      obtain ⟨s₁, s₂, r₁, -, -, hcan, -⟩ := r.label
      exact (never_panicked r₁ i err).2 hcan

/-- Two calls on one rpc client, the second completed first. -/
def sampleCalls : List (Event 1 Unit) :=
  [.dispatched 0, .dispatched 1, .taken 0 0, .closedCalls, .issued 0 0, .taken 0 1, .issued 0 1,
    .completed 1 none, .collected 1 none, .completed 0 none, .collected 0 none, .closedResults]

theorem callMany_exactly_once_two :
    ∃ s, (system 2 1 Unit).Run System.Any (sampleCalls ++ [.returned none]) s ∧
      (noted Event.issued? (sampleCalls ++ [.returned none])).Nodup ∧
      (noted Event.issued? sampleCalls).count 1 = 1 := by
  have hreplay : (System.replay (State.take 2) (fun _ _ _ => true) (sampleCalls ++ [.returned none])
      [] (start 2 1 Unit)).isSome = true := by decide +kernel
  obtain ⟨s, run⟩ := run_of_replay (C := System.Any) (fun _ _ _ _ => trivial) hreplay
  obtain ⟨hnodup, hnil, -⟩ := callMany_exactly_once run
  exact ⟨s, run, hnodup, (hnil sampleCalls [] rfl 1 (by decide)).1⟩

end Once

/-! ### After the first skipped call -/

section Skipped

end Skipped

end Vuvuzela.CallMany
