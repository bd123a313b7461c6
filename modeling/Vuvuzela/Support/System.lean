import Mathlib.Data.List.Basic
import Mathlib.Data.List.Induction

/-!
# Support — transition systems and their runs

A system has initial states and labelled steps.  A run is read with its history, the labels of
its steps in order; `Run C h s` says that `s` is reached with history `h` by steps that each meet
the condition `C`, which may read the history and the state before the step.  What a history adds
up to is a fold over its labels (`exists_mem_of_foldl`).

Systems that share nothing run side by side; what one of them does is a run of it (`Run.only`),
and what one of them can do next the whole can do (`Run.path`).
-/

namespace Vuvuzela.Support

/-! ### What a history adds up to -/

/-- What is so after a history, and not at its start, was made so by one of its labels. -/
theorem exists_mem_of_foldl {S L R : Type} {f : S → L → S} {s₀ : S} {P : S → R → Prop}
    {made : L → R → Prop} (hstart : ∀ r, ¬ P s₀ r)
    (hstep : ∀ s l r, P (f s l) r → made l r ∨ P s r) {h : List L} {r : R}
    (hr : P (h.foldl f s₀) r) : ∃ l ∈ h, made l r := by
  induction h using List.reverseRecOn with
  | nil => exact absurd hr (hstart r)
  | append_singleton h l ih =>
      rw [List.foldl_append] at hr
      rcases hstep _ l r hr with hmade | hold
      · exact ⟨l, List.mem_append_right _ List.mem_cons_self, hmade⟩
      · obtain ⟨l', hl', hmade⟩ := ih hold
        exact ⟨l', List.mem_append_left _ hl', hmade⟩

/-- What one more label tells. -/
theorem filterMap_concat {L R : Type} (f : L → Option R) (h : List L) (l : L) :
    (h ++ [l]).filterMap f = h.filterMap f ++ (f l).toList := by
  rw [List.filterMap_append]
  cases hl : f l <;> simp [hl]

/-- What only one label tells. -/
theorem mem_filterMap_iff {L R : Type} {f : L → Option R} {h : List L} {r : R} {l : L}
    (hf : ∀ l', f l' = some r ↔ l' = l) : r ∈ h.filterMap f ↔ l ∈ h := by
  rw [List.mem_filterMap]
  constructor
  · rintro ⟨l', hmem, hl'⟩
    exact (hf l').mp hl' ▸ hmem
  · exact fun hmem => ⟨l, hmem, (hf l).mpr rfl⟩

/-! ### Systems -/

/-- A transition system with states `S` and labels `L`. -/
structure System (S L : Type) where
  init : S → Prop
  step : S → L → S → Prop

namespace System

variable {S L : Type} {sys : System S L} {C : List L → S → L → Prop}

/-- No condition on a step. -/
def Any : List L → S → L → Prop := fun _ _ _ => True

/-- `s` is reached with history `h` by steps that meet `C`. -/
inductive Run (sys : System S L) (C : List L → S → L → Prop) : List L → S → Prop where
  | init {s : S} (h : sys.init s) : Run sys C [] s
  | step {h : List L} {s s' : S} {l : L} (r : Run sys C h s) (c : C h s l) (t : sys.step s l s') :
      Run sys C (h ++ [l]) s'

/-- **The invariant rule.**  What holds in every initial state and is kept by every step that
meets the condition holds in every state reached. -/
theorem Run.invariant {I : List L → S → Prop} (hinit : ∀ s, sys.init s → I [] s)
    (hstep : ∀ h s l s', I h s → C h s l → sys.step s l s' → I (h ++ [l]) s') {h : List L} {s : S}
    (r : sys.Run C h s) : I h s := by
  induction r with
  | init h₀ => exact hinit _ h₀
  | step _ c t ih => exact hstep _ _ _ _ ih c t

/-- A run meets every weaker condition. -/
theorem Run.mono {C' : List L → S → L → Prop} (hC : ∀ h s l, C h s l → C' h s l) {h : List L}
    {s : S} (r : sys.Run C h s) : sys.Run C' h s := by
  induction r with
  | init h₀ => exact .init h₀
  | step _ c t ih => exact ih.step (hC _ _ _ c) t

/-- **The queue rule.**  Where every step puts at most one thing at the end of a queue and takes at
most one from its front, what was put there is what was taken, and then what is still there. -/
theorem Run.queue {R : Type} {q : S → List R} {put took : L → Option R}
    (hinit : ∀ s, sys.init s → q s = [])
    (hstep : ∀ h s l s', sys.Run C h s → C h s l → sys.step s l s' →
      q s ++ (put l).toList = (took l).toList ++ q s') {h : List L} {s : S}
    (r : sys.Run C h s) : h.filterMap put = h.filterMap took ++ q s := by
  induction r with
  | init h₀ => simp [hinit _ h₀]
  | step r c t ih =>
      rw [filterMap_concat, filterMap_concat, ih, List.append_assoc, List.append_assoc,
        hstep _ _ _ _ r c t]

/-- **The bag rule.**  The same where things are kept in no order. -/
theorem Run.bag {R : Type} {q : S → List R} {put took : L → Option R}
    (hinit : ∀ s, sys.init s → q s = [])
    (hstep : ∀ h s l s', sys.Run C h s → C h s l → sys.step s l s' →
      (q s ++ (put l).toList).Perm ((took l).toList ++ q s')) {h : List L} {s : S}
    (r : sys.Run C h s) : (h.filterMap put).Perm (h.filterMap took ++ q s) := by
  induction r with
  | init h₀ => simp [hinit _ h₀]
  | step r c t ih =>
      rw [filterMap_concat, filterMap_concat, List.append_assoc]
      refine (ih.append_right _).trans ?_
      rw [List.append_assoc]
      exact (hstep _ _ _ _ r c t).append_left _

theorem Run.of_nil {s : S} (r : sys.Run C [] s) : sys.init s := by
  generalize hh : ([] : List L) = h at r
  cases r with
  | init h₀ => exact h₀
  | step => simp at hh

theorem Run.of_concat {h : List L} {l : L} {s' : S} (r : sys.Run C (h ++ [l]) s') :
    ∃ s, sys.Run C h s ∧ C h s l ∧ sys.step s l s' := by
  generalize hh : h ++ [l] = h' at r
  cases r with
  | init => simp at hh
  | step r c t =>
      obtain ⟨rfl, hl⟩ := List.append_inj' hh rfl
      cases hl
      exact ⟨_, r, c, t⟩

/-- Every label of a history is that of a step, taken from a state reached with the labels before
it. -/
theorem Run.label {h₁ h₂ : List L} {l : L} {s : S} (r : sys.Run C (h₁ ++ l :: h₂) s) :
    ∃ s₁ s₂, sys.Run C h₁ s₁ ∧ C h₁ s₁ l ∧ sys.step s₁ l s₂ := by
  induction h₂ using List.reverseRecOn generalizing s with
  | nil =>
      obtain ⟨s₁, r₁, c, t⟩ := r.of_concat
      exact ⟨s₁, s, r₁, c, t⟩
  | append_singleton h₂ x ih =>
      rw [← List.cons_append, ← List.append_assoc] at r
      obtain ⟨s', r', -, -⟩ := r.of_concat
      exact ih r'

/-- The step with the `n`-th label. -/
theorem Run.get {n : Nat} {h : List L} {l : L} {s : S} (r : sys.Run C h s) (hn : h[n]? = some l) :
    ∃ s₁ s₂, sys.Run C (h.take n) s₁ ∧ C (h.take n) s₁ l ∧ sys.step s₁ l s₂ := by
  obtain ⟨hlt, rfl⟩ := List.getElem?_eq_some_iff.mp hn
  have hsplit : h = h.take n ++ h[n] :: h.drop (n + 1) := by
    rw [List.getElem_cons_drop, List.take_append_drop]
  rw [hsplit] at r
  simpa using r.label

/-- The system whose labels also have the state before the step. -/
def traced (sys : System S L) : System S (S × L) where
  init := sys.init
  step s l s' := l.1 = s ∧ sys.step s l.2 s'

/-! ### Systems that compute -/

/-- Where what a step is asked to do fixes its label and the state after it, what a run is asked
to do fixes the run. -/
theorem Run.deterministic {A : Type} {asked : L → A}
    (hinit : ∀ s s', sys.init s → sys.init s' → s = s')
    (hstep : ∀ s l₁ l₂ s₁ s₂, sys.step s l₁ s₁ → sys.step s l₂ s₂ → asked l₁ = asked l₂ →
      l₁ = l₂ ∧ s₁ = s₂) {C' : List L → S → L → Prop} {h h' : List L} {s s' : S}
    (r : sys.Run C h s) (r' : sys.Run C' h' s') (hasked : h.map asked = h'.map asked) :
    h = h' ∧ s = s' := by
  induction h using List.reverseRecOn generalizing h' s s' with
  | nil =>
      obtain rfl := List.map_eq_nil_iff.mp hasked.symm
      exact ⟨rfl, hinit _ _ r.of_nil r'.of_nil⟩
  | append_singleton h l ih =>
      rcases List.eq_nil_or_concat h' with rfl | ⟨h', l', rfl⟩
      · simp at hasked
      · rw [List.concat_eq_append] at r' hasked ⊢
        rw [List.map_append, List.map_append] at hasked
        obtain ⟨hbefore, hl⟩ := List.append_inj' hasked rfl
        obtain ⟨s₁, r₁, -, t⟩ := r.of_concat
        obtain ⟨s₂, r₂, -, t'⟩ := r'.of_concat
        obtain ⟨rfl, rfl⟩ := ih r₁ r₂ hbefore
        obtain ⟨rfl, rfl⟩ := hstep _ _ _ _ _ t t' (List.singleton_inj.mp hl)
        exact ⟨rfl, rfl⟩

section Replay

variable {A : Type}

/-- Steps taken one after the other, as `f` computes them, while each passes the check. -/
def replay (f : A → S → Option (L × S)) (check : List L → S → L → Bool) :
    List A → List L → S → Option (List L × S)
  | [], h, s => some (h, s)
  | a :: as, h, s =>
      match f a s with
      | none => none
      | some (l, s') => if check h s l then replay f check as (h ++ [l]) s' else none

/-- What a replay reaches is reached by a run, which does what was asked. -/
theorem Run.replay {f : A → S → Option (L × S)} {asked : L → A}
    (hf : ∀ a s l s', f a s = some (l, s') → sys.step s l s' ∧ asked l = a)
    {check : List L → S → L → Bool} (hcheck : ∀ h s l, check h s l = true → C h s l) :
    ∀ {as : List A} {h h' : List L} {s s' : S}, sys.Run C h s →
      System.replay f check as h s = some (h', s') →
        sys.Run C h' s' ∧ h'.map asked = h.map asked ++ as
  | [], h, h', s, s', r, heq => by
      cases heq
      exact ⟨r, (List.append_nil _).symm⟩
  | a :: as, h, h', s, s', r, heq => by
      rw [System.replay] at heq
      split at heq
      · cases heq
      · rename_i l s₁ hstep
        split at heq
        · rename_i hc
          obtain ⟨ht, rfl⟩ := hf a s l s₁ hstep
          obtain ⟨run, hmap⟩ := Run.replay hf hcheck (r.step (hcheck h s l hc) ht) heq
          exact ⟨run, by simpa using hmap⟩
        · cases heq

/-- A replay from the start whose history passes a test. -/
theorem Run.of_replay {f : A → S → Option (L × S)} {asked : L → A}
    (hf : ∀ a s l s', f a s = some (l, s') → sys.step s l s' ∧ asked l = a)
    {check : List L → S → L → Bool} (hcheck : ∀ h s l, check h s l = true → C h s l) {s₀ : S}
    (h₀ : sys.init s₀) {test : List L → Bool} {as : List A}
    (htest : (System.replay f check as [] s₀).any (fun r => test r.1) = true) :
    ∃ h s, sys.Run C h s ∧ h.map asked = as ∧ test h = true := by
  rw [Option.any_eq_true] at htest
  obtain ⟨⟨h, s⟩, hreplay, htest⟩ := htest
  obtain ⟨run, hmap⟩ := Run.replay hf hcheck (.init h₀) hreplay
  exact ⟨h, s, run, hmap, htest⟩

end Replay

/-- `s'` is reached from `s` by steps with the labels `h`. -/
inductive Path (sys : System S L) : S → List L → S → Prop where
  | nil {s : S} : Path sys s [] s
  | cons {s s₁ s' : S} {l : L} {h : List L} (t : sys.step s l s₁) (p : Path sys s₁ h s') :
      Path sys s (l :: h) s'

theorem Path.trans {s s₁ s' : S} {h h' : List L} (p : sys.Path s h s₁) (p' : sys.Path s₁ h' s') :
    sys.Path s (h ++ h') s' := by
  induction p with
  | nil => exact p'
  | cons t _ ih => exact .cons t (ih p')

/-- A run goes on along a path. -/
theorem Run.extend {s s' : S} {h h' : List L} (r : sys.Run Any h s) (p : sys.Path s h' s') :
    sys.Run Any (h ++ h') s' := by
  induction p generalizing h with
  | nil => rwa [List.append_nil]
  | @cons _ _ _ l _ t _ ih =>
      have run := ih (r.step trivial t)
      rwa [List.append_assoc] at run

/-! ### Systems side by side -/

section Family

variable {ι : Type} [DecidableEq ι]

/-- Systems that share nothing, each step a step of one of them. -/
def family (sys : ι → System S L) : System (ι → S) (ι × L) where
  init s := ∀ i, (sys i).init (s i)
  step s l s' := (sys l.1).step (s l.1) l.2 (s' l.1) ∧ ∀ i, i ≠ l.1 → s' i = s i

/-- The labels of one system. -/
def only (i : ι) (h : List (ι × L)) : List L :=
  h.filterMap fun l => if l.1 = i then some l.2 else none

theorem mem_only {i : ι} {h : List (ι × L)} {l : L} : l ∈ only i h ↔ (i, l) ∈ h :=
  mem_filterMap_iff fun l' => by rw [Option.ite_none_right_eq_some, Option.some_inj, Prod.ext_iff]

/-- A run of a family is a run of each of its systems. -/
theorem Run.only {sys : ι → System S L} {h : List (ι × L)} {s : ι → S}
    (r : (family sys).Run Any h s) (i : ι) : (sys i).Run Any (System.only i h) (s i) := by
  induction r with
  | init h₀ => exact .init (h₀ i)
  | @step h s s' l _ _ t ih =>
      obtain ⟨hstep, hframe⟩ := t
      rw [System.only, List.filterMap_append]
      by_cases hl : l.1 = i
      · subst hl
        simpa [System.only] using ih.step trivial hstep
      · have hrest : List.filterMap (fun l => if l.1 = i then some l.2 else none) [l] = [] := by
          simp [hl]
        rw [hrest, List.append_nil, hframe i (Ne.symm hl)]
        exact ih

/-- A step of one system is a step of the family. -/
theorem family_step {sys : ι → System S L} {s : ι → S} {i : ι} {l : L} {t : S}
    (h : (sys i).step (s i) l t) : (family sys).step s (i, l) (Function.update s i t) := by
  refine ⟨?_, fun j hj => Function.update_of_ne hj _ _⟩
  rw [Function.update_self]
  exact h

/-- A run of a family goes on as one of its systems can. -/
theorem Run.path {sys : ι → System S L} {i : ι} {t t' : S} {h' : List L}
    (p : (sys i).Path t h' t') {h : List (ι × L)} {s : ι → S} (r : (family sys).Run Any h s)
    (ht : s i = t) :
    ∃ s', (family sys).Run Any (h ++ h'.map (Prod.mk i)) s' ∧ s' i = t' := by
  induction p generalizing h s with
  | nil => exact ⟨s, by simpa using r, ht⟩
  | @cons _ t₁ _ l _ hstep _ ih =>
      have hfamily : (family sys).step s (i, l) (Function.update s i t₁) :=
        family_step (ht ▸ hstep)
      obtain ⟨s', hrun, hs'⟩ := ih (r.step trivial hfamily) (Function.update_self ..)
      exact ⟨s', by simpa using hrun, hs'⟩

end Family

end System

/-! ### What is read off a history -/

/-- What a step changes with `f` was there before the step, with the same `g`. -/
theorem exists_of_map_eq_some {α β : Type} {g : α → β} {x : Option α} {a : α} {f : α → α}
    (h : x.map f = some a) (hf : ∀ a, g (f a) = g a) : ∃ a', x = some a' ∧ g a' = g a := by
  obtain ⟨a', hx, rfl⟩ := Option.map_eq_some_iff.mp h
  exact ⟨a', hx, (hf a').symm⟩

end Vuvuzela.Support
