import Mathlib.Data.List.Dedup
import Mathlib.Data.List.ReduceOption
import Mathlib.Data.List.Perm.Basic

/-!
# Support — first occurrences

`firsts key l` keeps the elements of `l` whose key no earlier element has.  Where `key` tells
the elements of `l` apart, this is `l` without its repetitions, up to order
(`firsts_perm_dedup`).

`filterFirsts key l` is the same selection on a list with gaps, computed by a loop that also
records, for each position of `l`, the position the element went to, or `-1`.  `Filtered l`
says what the two lists are; `filterFirsts_spec` gives it of the loop's result.
-/

namespace Vuvuzela.Support

variable {α β κ : Type} [DecidableEq κ]

/-! ### First occurrences -/

/-- The elements of `l` whose key is neither in `seen` nor that of an earlier element. -/
def firstsFrom (key : α → κ) : List κ → List α → List α
  | _, [] => []
  | seen, a :: l =>
      if key a ∈ seen then firstsFrom key seen l else a :: firstsFrom key (key a :: seen) l

/-- The elements of `l` whose key no earlier element has. -/
def firsts (key : α → κ) (l : List α) : List α := firstsFrom key [] l

theorem firstsFrom_sublist (key : α → κ) :
    ∀ (seen : List κ) (l : List α), (firstsFrom key seen l).Sublist l
  | _, [] => List.Sublist.slnil
  | seen, a :: l => by
      simp only [firstsFrom]
      split
      · exact (firstsFrom_sublist key seen l).cons a
      · exact (firstsFrom_sublist key (key a :: seen) l).cons_cons a

theorem firsts_sublist (key : α → κ) (l : List α) : (firsts key l).Sublist l :=
  firstsFrom_sublist key [] l

theorem mem_map_firstsFrom (key : α → κ) {k : κ} :
    ∀ (seen : List κ) (l : List α),
      k ∈ (firstsFrom key seen l).map key ↔ k ∈ l.map key ∧ k ∉ seen
  | seen, [] => by simp [firstsFrom]
  | seen, a :: l => by
      simp only [firstsFrom]
      split
      · rename_i hmem
        rw [mem_map_firstsFrom key seen l, List.map_cons, List.mem_cons]
        constructor
        · exact fun h => ⟨Or.inr h.1, h.2⟩
        · rintro ⟨rfl | h, hn⟩
          · exact absurd hmem hn
          · exact ⟨h, hn⟩
      · rename_i hmem
        rw [List.map_cons, List.mem_cons, mem_map_firstsFrom key (key a :: seen) l, List.map_cons,
          List.mem_cons, List.mem_cons]
        constructor
        · rintro (rfl | ⟨h, hn⟩)
          · exact ⟨Or.inl rfl, hmem⟩
          · exact ⟨Or.inr h, fun hs => hn (Or.inr hs)⟩
        · rintro ⟨rfl | h, hn⟩
          · exact Or.inl rfl
          · -- a key that comes again is the key of `a` itself
            by_cases e : k = key a
            · exact Or.inl e
            · exact Or.inr ⟨h, by rintro (h' | h') <;> contradiction⟩

/-- The keys kept are the keys of the list. -/
theorem mem_map_firsts (key : α → κ) {k : κ} (l : List α) :
    k ∈ (firsts key l).map key ↔ k ∈ l.map key := by
  rw [firsts, mem_map_firstsFrom]
  simp

theorem nodup_map_firstsFrom (key : α → κ) :
    ∀ (seen : List κ) (l : List α), ((firstsFrom key seen l).map key).Nodup
  | _, [] => List.nodup_nil
  | seen, a :: l => by
      simp only [firstsFrom]
      split
      · exact nodup_map_firstsFrom key seen l
      · rw [List.map_cons, List.nodup_cons]
        refine ⟨fun h => ?_, nodup_map_firstsFrom key (key a :: seen) l⟩
        exact ((mem_map_firstsFrom key _ _).mp h).2 List.mem_cons_self

/-- No key is kept twice. -/
theorem nodup_map_firsts (key : α → κ) (l : List α) : ((firsts key l).map key).Nodup :=
  nodup_map_firstsFrom key [] l

theorem filter_firstsFrom {key : α → κ} {p : α → Bool} :
    ∀ {seen : List κ} {l : List α}, (∀ a ∈ l, p a = true → key a ∉ seen) →
      l.Pairwise (fun a b => p b = true → key a ≠ key b) →
      (firstsFrom key seen l).filter p = l.filter p
  | _, [], _, _ => rfl
  | seen, a :: l, hseen, hpair => by
      obtain ⟨ha, hpair⟩ := List.pairwise_cons.mp hpair
      have hl : ∀ b ∈ l, p b = true → key b ∉ seen := fun b hb =>
        hseen b (List.mem_cons_of_mem _ hb)
      rw [firstsFrom]
      split
      · rename_i hmem
        have hp : ¬ p a = true := fun hp => hseen a List.mem_cons_self hp hmem
        rw [List.filter_cons_of_neg hp, filter_firstsFrom hl hpair]
      · have ih : (firstsFrom key (key a :: seen) l).filter p = l.filter p :=
          filter_firstsFrom (fun b hb hp hmem => (List.mem_cons.mp hmem).elim
            (fun e => ha b hb hp e.symm) (hl b hb hp)) hpair
        rw [List.filter_cons, List.filter_cons, ih]

/-- Elements whose key no earlier element has are all kept. -/
theorem filter_firsts {key : α → κ} {p : α → Bool} {l : List α}
    (h : l.Pairwise fun a b => p b = true → key a ≠ key b) :
    (firsts key l).filter p = l.filter p :=
  filter_firstsFrom (fun _ _ _ => List.not_mem_nil) h

/-- Where the key tells the elements apart, the elements kept are those of the list. -/
theorem mem_firsts {key : α → κ} {l : List α}
    (hinj : ∀ a ∈ l, ∀ b ∈ l, key a = key b → a = b) {a : α} : a ∈ firsts key l ↔ a ∈ l := by
  refine ⟨fun h => (firsts_sublist key l).mem h, fun h => ?_⟩
  have hk : key a ∈ (firsts key l).map key :=
    (mem_map_firsts key l).mpr (List.mem_map_of_mem h)
  obtain ⟨b, hb, e⟩ := List.mem_map.mp hk
  obtain rfl := hinj b ((firsts_sublist key l).mem hb) a h e
  exact hb

theorem nodup_firsts (key : α → κ) (l : List α) : (firsts key l).Nodup :=
  (nodup_map_firsts key l).of_map key

/-- Where no two elements have one key, all are kept. -/
theorem firsts_of_nodup {key : α → κ} {l : List α} (h : (l.map key).Nodup) : firsts key l = l := by
  have hall : l.Pairwise fun a b => true = true → key a ≠ key b :=
    (List.pairwise_map.mp h).imp fun hne _ => hne
  simpa using filter_firsts (p := fun _ => true) hall

/-- Where the key tells the elements apart, `firsts` removes the repetitions and nothing else. -/
theorem firsts_perm_dedup [DecidableEq α] {key : α → κ} {l : List α}
    (hinj : ∀ a ∈ l, ∀ b ∈ l, key a = key b → a = b) : (firsts key l).Perm l.dedup := by
  rw [List.perm_ext_iff_of_nodup (nodup_firsts key l) (List.nodup_dedup l)]
  intro a
  rw [mem_firsts hinj, List.mem_dedup]

/-- Where the key tells the elements apart, their order does not say which are kept. -/
theorem firsts_perm [DecidableEq α] {key : α → κ} {l l' : List α}
    (hinj : ∀ a ∈ l, ∀ b ∈ l, key a = key b → a = b) (h : l'.Perm l) :
    (firsts key l').Perm (firsts key l) := by
  have hinj' : ∀ a ∈ l', ∀ b ∈ l', key a = key b → a = b := fun a ha b hb =>
    hinj a (h.mem_iff.mp ha) b (h.mem_iff.mp hb)
  exact (firsts_perm_dedup hinj').trans (h.dedup.trans (firsts_perm_dedup hinj).symm)

/-! ### The selection loop on a list with gaps -/

omit [DecidableEq κ] in
theorem reduceOption_map_some (l : List α) : (l.map some).reduceOption = l := by
  simp [List.reduceOption]

omit [DecidableEq κ] in
/-- A list without gaps. -/
theorem map_some_reduceOption {l : List (Option α)} (h : none ∉ l) :
    l.reduceOption.map some = l := by
  induction l with
  | nil => rfl
  | cons x l ih =>
      rw [List.mem_cons, not_or] at h
      obtain ⟨a, rfl⟩ := Option.ne_none_iff_exists'.mp (Ne.symm h.1)
      rw [List.reduceOption_cons_of_some, List.map_cons, ih h.2]

/-- The selection loop: `valid` holds what was kept, in order; `index` records where the
element of each position went.  There is no value when an element has no key. -/
def filterFirsts (key : α → Option κ) :
    List (Option α) → List κ → List α → List Int → Option (List α × List Int)
  | [], _, valid, index => some (valid, index)
  | none :: l, seen, valid, index => filterFirsts key l seen valid (index ++ [-1])
  | some a :: l, seen, valid, index =>
      match key a with
      | none => none
      | some k =>
          if k ∈ seen then filterFirsts key l seen valid (index ++ [-1])
          else filterFirsts key l (k :: seen) (valid ++ [a]) (index ++ [(valid.length : Int)])

/-- What the loop's two lists say of the list `l` it read. -/
structure Filtered (key : α → κ) (l : List (Option α)) (valid : List α) (index : List Int) :
    Prop where
  length_index : index.length = l.length
  valid_eq : valid = firsts key l.reduceOption
  /-- An index that is not negative points at the element of its position. -/
  index_valid : ∀ (i : Nat) (a : α) (n : Nat), l[i]? = some (some a) → index[i]? = some (n : Int) →
    valid[n]? = some a
  /-- Every kept element has the position that points at it. -/
  valid_index : ∀ (n : Nat) (a : α), valid[n]? = some a →
    ∃ i : Nat, l[i]? = some (some a) ∧ index[i]? = some (n : Int)
  index_range : ∀ (i : Nat) (v : Int), index[i]? = some v →
    v = -1 ∨ ∃ n : Nat, n < valid.length ∧ v = n
  /-- Every position is dropped or kept. -/
  count_neg : index.count (-1) + valid.length = l.length
  /-- A position is dropped when it is a gap, or when an earlier element has its key. -/
  index_neg : ∀ i : Nat, index[i]? = some (-1) ↔ l[i]? = some none ∨
    ∃ a, l[i]? = some (some a) ∧ ∃ (j : Nat) (b : α), j < i ∧ l[j]? = some (some b) ∧ key b = key a

/-- `firsts` of a list with one more element. -/
theorem firsts_concat (key : α → κ) (l : List α) (a : α) :
    firsts key (l ++ [a]) =
      if key a ∈ l.map key then firsts key l else firsts key l ++ [a] := by
  -- `seen` grows along the list, so the induction is on the statement for every `seen`
  suffices ∀ seen : List κ, firstsFrom key seen (l ++ [a]) =
      if key a ∈ l.map key ∨ key a ∈ seen then firstsFrom key seen l
      else firstsFrom key seen l ++ [a] by
    simpa [firsts] using this []
  induction l with
  | nil => intro seen; simp only [List.nil_append, firstsFrom]; split <;> simp_all
  | cons b l ih =>
      intro seen
      simp only [List.cons_append, firstsFrom]
      by_cases hb : key b ∈ seen
      · rw [if_pos hb, if_pos hb, ih seen]
        by_cases e : key a = key b
        · rw [if_pos (Or.inr (e ▸ hb)), if_pos (Or.inr (e ▸ hb))]
        · simp [e]
      · rw [if_neg hb, if_neg hb, ih (key b :: seen)]
        by_cases e : key a = key b
        · rw [if_pos (Or.inr (by simp [e])), if_pos (Or.inl (by simp [e]))]
        · by_cases h : key a ∈ l.map key ∨ key a ∈ seen
          · rw [if_pos (by simp [e]; simpa using h), if_pos (by simp [e]; simpa using h)]
          · rw [if_neg (by simp [e]; simpa using h), if_neg (by simp [e]; simpa using h),
              List.cons_append]

omit [DecidableEq κ] in
/-- The entries of a list with one more element. -/
theorem getElem?_concat_eq_some {l : List α} {a b : α} {i : Nat} :
    (l ++ [a])[i]? = some b ↔ l[i]? = some b ∨ (i = l.length ∧ b = a) := by
  rcases Nat.lt_trichotomy i l.length with h | h | h
  · simp only [List.getElem?_append_left h]
    exact ⟨Or.inl, fun h' => h'.resolve_right (by omega)⟩
  · subst h; simp [eq_comm]
  · have h₁ : (l ++ [a])[i]? = none := by simp; omega
    have h₂ : l[i]? = none := by simp; omega
    simp only [h₁, h₂, reduceCtorEq, false_or, false_iff]
    omega

omit [DecidableEq κ] in
theorem mem_keys_iff {key : α → κ} {l : List (Option α)} {k : κ} :
    k ∈ l.reduceOption.map key ↔ ∃ (j : Nat) (b : α), l[j]? = some (some b) ∧ key b = k := by
  rw [List.mem_map]
  simp only [List.reduceOption_mem_iff]
  constructor
  · rintro ⟨b, hb, e⟩
    obtain ⟨j, hj⟩ := List.mem_iff_getElem?.mp hb
    exact ⟨j, b, hj, e⟩
  · rintro ⟨j, b, hj, e⟩
    exact ⟨b, List.mem_iff_getElem?.mpr ⟨j, hj⟩, e⟩

namespace Filtered

variable {key : α → κ} {l : List (Option α)} {valid : List α} {index : List Int}

theorem nil : Filtered key ([] : List (Option α)) [] [] where
  length_index := rfl
  valid_eq := rfl
  index_valid := by simp
  valid_index := by simp
  index_range := by simp
  count_neg := rfl
  index_neg := by simp

/-- No more elements are kept than there are positions. -/
theorem length_valid_le (h : Filtered key l valid index) : valid.length ≤ l.length := by
  have := h.count_neg
  omega

/-- Every recorded index is that of a position. -/
theorem lt_of_index (h : Filtered key l valid index) {i : Nat} {v : Int}
    (hi : index[i]? = some v) : i < l.length := by
  rw [← h.length_index]
  exact (List.getElem?_eq_some_iff.mp hi).1

/-- A position with an index holds the element the index points at. -/
theorem get_of_index (h : Filtered key l valid index) {i n : Nat}
    (hi : index[i]? = some (n : Int)) : ∃ a, l[i]? = some (some a) ∧ valid[n]? = some a := by
  have hlt := h.lt_of_index hi
  cases hl : l[i]? with
  | none => exact absurd (List.getElem?_eq_none_iff.mp hl) (by omega)
  | some x =>
      cases x with
      | none =>
          have hneg := (h.index_neg i).mpr (.inl hl)
          rw [hi, Option.some.injEq] at hneg
          omega
      | some a => exact ⟨a, rfl, h.index_valid i a n hl hi⟩

/-- The elements kept were there. -/
theorem mem_of_valid (h : Filtered key l valid index) {a : α} (ha : a ∈ valid) : some a ∈ l := by
  rw [h.valid_eq] at ha
  exact List.reduceOption_mem_iff.mp ((firsts_sublist key _).subset ha)

/-- No two elements of one key are kept. -/
theorem nodup_keys (h : Filtered key l valid index) : (valid.map key).Nodup := by
  rw [h.valid_eq]
  exact nodup_map_firsts key _

/-- An element of every key is kept. -/
theorem exists_of_key (h : Filtered key l valid index) {a : α} (ha : some a ∈ l) :
    ∃ b ∈ valid, key b = key a := by
  have hk : key a ∈ valid.map key := by
    rw [h.valid_eq, mem_map_firsts]
    exact List.mem_map_of_mem (List.reduceOption_mem_iff.mpr ha)
  exact List.mem_map.mp hk

/-- One more position, which is dropped: a gap, or an element whose key was seen. -/
theorem drop (h : Filtered key l valid index) {x : Option α}
    (hx : ∀ a, x = some a → key a ∈ l.reduceOption.map key) :
    Filtered key (l ++ [x]) valid (index ++ [-1]) where
  length_index := by simp [h.length_index]
  valid_eq := by
    cases x with
    | none => simpa [List.reduceOption_append, List.reduceOption_singleton] using h.valid_eq
    | some a =>
        rw [List.reduceOption_append, List.reduceOption_singleton, Option.toList_some,
          firsts_concat, if_pos (hx a rfl)]
        exact h.valid_eq
  index_valid i a n hl hi := by
    rcases getElem?_concat_eq_some.mp hi with hi | ⟨-, hi⟩
    · rw [List.getElem?_append_left (h.lt_of_index hi)] at hl
      exact h.index_valid i a n hl hi
    · omega
  valid_index n a hn := by
    obtain ⟨i, hl, hi⟩ := h.valid_index n a hn
    exact ⟨i, getElem?_concat_eq_some.mpr (Or.inl hl), getElem?_concat_eq_some.mpr (Or.inl hi)⟩
  index_range i v hi := by
    rcases getElem?_concat_eq_some.mp hi with hi | ⟨-, hi⟩
    · exact h.index_range i v hi
    · exact Or.inl hi
  count_neg := by
    rw [List.count_append, List.length_append, ← h.count_neg]
    simp
    omega
  index_neg i := by
    rw [getElem?_concat_eq_some, h.index_neg i, h.length_index]
    simp only [getElem?_concat_eq_some]
    constructor
    · rintro ((hn | ⟨a, ha, j, b, hj, hb, e⟩) | ⟨rfl, -⟩)
      · exact Or.inl (Or.inl hn)
      · exact Or.inr ⟨a, Or.inl ha, j, b, hj, Or.inl hb, e⟩
      · -- the new position is a gap, or `hx` gives the earlier element of its key
        cases x with
        | none => exact Or.inl (Or.inr ⟨rfl, rfl⟩)
        | some a =>
            obtain ⟨j, b, hb, e⟩ := mem_keys_iff.mp (hx a rfl)
            have hj := (List.getElem?_eq_some_iff.mp hb).1
            exact Or.inr ⟨a, Or.inr ⟨rfl, rfl⟩, j, b, hj, Or.inl hb, e⟩
    · rintro ((hn | ⟨rfl, -⟩) | ⟨a, ha | ⟨rfl, -⟩, j, b, hj, hb, e⟩)
      · exact Or.inl (Or.inl hn)
      · exact Or.inr ⟨rfl, trivial⟩
      · have hi := (List.getElem?_eq_some_iff.mp ha).1
        have hb' := hb.resolve_right (by omega)
        exact Or.inl (Or.inr ⟨a, ha, j, b, hj, hb', e⟩)
      · exact Or.inr ⟨rfl, trivial⟩

/-- One more position, whose element has a new key and is kept. -/
theorem keep (h : Filtered key l valid index) {a : α} (ha : key a ∉ l.reduceOption.map key) :
    Filtered key (l ++ [some a]) (valid ++ [a]) (index ++ [(valid.length : Int)]) where
  length_index := by simp [h.length_index]
  valid_eq := by
    rw [List.reduceOption_append, List.reduceOption_singleton, Option.toList_some,
      firsts_concat, if_neg ha, h.valid_eq]
  index_valid i b n hl hi := by
    rcases getElem?_concat_eq_some.mp hi with hi | ⟨rfl, hi⟩
    · rw [List.getElem?_append_left (h.lt_of_index hi)] at hl
      exact getElem?_concat_eq_some.mpr (Or.inl (h.index_valid i b n hl hi))
    · obtain rfl : n = valid.length := by omega
      rw [h.length_index] at hl
      simp only [List.getElem?_concat_length, Option.some.injEq] at hl
      simp [hl]
  valid_index n b hn := by
    rcases getElem?_concat_eq_some.mp hn with hn | ⟨rfl, rfl⟩
    · obtain ⟨i, hl, hi⟩ := h.valid_index n b hn
      exact ⟨i, getElem?_concat_eq_some.mpr (Or.inl hl), getElem?_concat_eq_some.mpr (Or.inl hi)⟩
    · exact ⟨l.length, by simp, by rw [← h.length_index]; simp⟩
  index_range i v hi := by
    rw [List.length_append, List.length_singleton]
    rcases getElem?_concat_eq_some.mp hi with hi | ⟨-, rfl⟩
    · rcases h.index_range i v hi with hv | ⟨n, hn, hv⟩
      · exact Or.inl hv
      · exact Or.inr ⟨n, by omega, hv⟩
    · exact Or.inr ⟨valid.length, by omega, rfl⟩
  count_neg := by
    have hne : ((valid.length : Int) == -1) = false := by simp
    rw [List.count_append, List.length_append, List.length_append, ← h.count_neg,
      List.count_singleton, hne]
    simp
    omega
  index_neg i := by
    simp only [getElem?_concat_eq_some, h.index_neg i, h.length_index]
    constructor
    · rintro ((hn | ⟨b, hb, j, c, hj, hc, e⟩) | ⟨-, hv⟩)
      · exact Or.inl (Or.inl hn)
      · exact Or.inr ⟨b, Or.inl hb, j, c, hj, Or.inl hc, e⟩
      · omega
    · rintro ((hn | ⟨-, hv⟩) | ⟨b, hb | ⟨rfl, hv⟩, j, c, hj, hc, e⟩)
      · exact Or.inl (Or.inl hn)
      · exact absurd hv (by simp)
      · have hi := (List.getElem?_eq_some_iff.mp hb).1
        have hc' := hc.resolve_right (by omega)
        exact Or.inl (Or.inr ⟨b, hb, j, c, hj, hc', e⟩)
      · -- the new position has no earlier element of its key
        obtain rfl := Option.some.inj hv
        exact absurd (mem_keys_iff.mpr ⟨j, c, hc.resolve_right (by omega), e⟩) ha

end Filtered

/-- **The selection loop.**  Where every element has a key, the loop has a value, and its two
lists are the elements kept and where each position went. -/
theorem filterFirsts_spec {key? : α → Option κ} {key : α → κ} {l : List (Option α)}
    (hkey : ∀ a, some a ∈ l → key? a = some (key a)) :
    ∃ valid index, filterFirsts key? l [] [] [] = some (valid, index) ∧
      Filtered key l valid index := by
  -- the loop's state after the prefix `done`: `seen` holds the keys of `done`
  suffices ∀ (l done : List (Option α)) (seen : List κ) (valid : List α) (index : List Int),
      (∀ a, some a ∈ l → key? a = some (key a)) →
      (∀ k, k ∈ seen ↔ k ∈ done.reduceOption.map key) → Filtered key done valid index →
      ∃ valid' index', filterFirsts key? l seen valid index = some (valid', index') ∧
        Filtered key (done ++ l) valid' index' from
    this l [] [] [] [] hkey (by simp) .nil
  intro l
  induction l with
  | nil =>
      intro done seen valid index _ _ hF
      exact ⟨valid, index, rfl, by simpa using hF⟩
  | cons x l ih =>
      intro done seen valid index hk hseen hF
      have hk' : ∀ a, some a ∈ l → key? a = some (key a) :=
        fun a ha => hk a (List.mem_cons_of_mem _ ha)
      cases x with
      | none =>
          have := ih (done ++ [none]) seen valid (index ++ [-1]) hk'
            (by simpa [List.reduceOption_append, List.reduceOption_singleton] using hseen)
            (hF.drop (by simp))
          simpa [filterFirsts] using this
      | some a =>
          simp only [filterFirsts, hk a List.mem_cons_self]
          by_cases hmem : key a ∈ seen
          · rw [if_pos hmem]
            have := ih (done ++ [some a]) seen valid (index ++ [-1]) hk'
              (fun k => by
                rw [List.reduceOption_append, List.reduceOption_singleton, Option.toList_some,
                  List.map_append, List.mem_append, hseen]
                refine ⟨Or.inl, fun h => h.elim id fun h => ?_⟩
                rw [List.map_singleton, List.mem_singleton] at h
                exact h ▸ (hseen _).mp hmem)
              (hF.drop (by rintro b ⟨⟩; exact (hseen _).mp hmem))
            simpa using this
          · rw [if_neg hmem]
            have := ih (done ++ [some a]) (key a :: seen) (valid ++ [a])
              (index ++ [(valid.length : Int)]) hk'
              (fun k => by
                rw [List.reduceOption_append, List.reduceOption_singleton, Option.toList_some,
                  List.map_append, List.mem_append, List.mem_cons, hseen, List.map_singleton,
                  List.mem_singleton, or_comm])
              (hF.keep fun h => hmem ((hseen _).mpr h))
            simpa using this

/-- Where the loop has a value, every element has a key. -/
theorem filterFirsts_keys {key? : α → Option κ} :
    ∀ (l : List (Option α)) {seen : List κ} {valid : List α} {index : List Int}
      {r : List α × List Int}, filterFirsts key? l seen valid index = some r →
      ∀ a, some a ∈ l → (key? a).isSome
  | [], _, _, _, _, _, _, ha => nomatch ha
  | none :: l, _, _, _, _, h, a, ha => by
      rcases List.mem_cons.mp ha with e | ha
      · cases e
      · exact filterFirsts_keys l h a ha
  | some b :: l, seen, valid, index, r, h, a, ha => by
      rw [filterFirsts] at h
      split at h
      · cases h
      · rename_i k hk
        rcases List.mem_cons.mp ha with e | ha
        · obtain rfl := Option.some.inj e
          simp [hk]
        · split at h
          · exact filterFirsts_keys l h a ha
          · exact filterFirsts_keys l h a ha

/-- The positions kept are numbered in order. -/
theorem filterFirsts_numbered {key? : α → Option κ} :
    ∀ (l : List (Option α)) {seen : List κ} {valid : List α} {index : List Int}
      {r : List α × List Int}, filterFirsts key? l seen valid index = some r →
      index.filter (0 ≤ ·) = (List.range valid.length).map Int.ofNat →
      r.2.filter (0 ≤ ·) = (List.range r.1.length).map Int.ofNat
  | [], _, _, _, _, h, hindex => by
      cases h
      exact hindex
  | none :: l, _, _, _, _, h, hindex => filterFirsts_numbered l h (by simpa using hindex)
  | some b :: l, seen, valid, index, r, h, hindex => by
      rw [filterFirsts] at h
      split at h
      · cases h
      · split at h
        · exact filterFirsts_numbered l h (by simpa using hindex)
        · refine filterFirsts_numbered l h ?_
          rw [List.filter_append, hindex, List.length_append, List.length_singleton,
            List.range_succ, List.map_append]
          rfl

/-- Of two positions kept, the earlier one has the smaller number. -/
theorem filterFirsts_increasing {key? : α → Option κ} {l : List (Option α)} {valid : List α}
    {index : List Int} (h : filterFirsts key? l [] [] [] = some (valid, index)) {i j n m : Nat}
    (hij : i < j) (hi : index[i]? = some (n : Int)) (hj : index[j]? = some (m : Int)) : n < m := by
  have hsorted : (index.filter (0 ≤ ·)).Pairwise (· < ·) := by
    rw [filterFirsts_numbered l h rfl]
    exact List.pairwise_map.mpr (List.pairwise_lt_range.imp Int.ofNat_lt.mpr)
  obtain ⟨hi, hn⟩ := List.getElem?_eq_some_iff.mp hi
  obtain ⟨hj, hm⟩ := List.getElem?_eq_some_iff.mp hj
  have hpair := List.pairwise_iff_getElem.mp (List.pairwise_filter.mp hsorted) i j hi hj hij
  rw [hn, hm] at hpair
  exact Int.ofNat_lt.mp (hpair (by simp) (by simp))

/-- The loop commutes with a map of the elements that keeps their keys. -/
theorem filterFirsts_map (key? : β → Option κ) (f : α → β) :
    ∀ (l : List (Option α)) (seen : List κ) (valid : List α) (index : List Int),
      filterFirsts key? (l.map (Option.map f)) seen (valid.map f) index =
        (filterFirsts (fun a => key? (f a)) l seen valid index).map
          fun r => (r.1.map f, r.2)
  | [], _, _, _ => rfl
  | none :: l, seen, valid, index => filterFirsts_map key? f l seen valid _
  | some a :: l, seen, valid, index => by
      simp only [List.map_cons, Option.map_some, filterFirsts, List.length_map]
      cases key? (f a) with
      | none => rfl
      | some k =>
          simp only []
          split
          · exact filterFirsts_map key? f l seen valid _
          · have := filterFirsts_map key? f l (k :: seen) (valid ++ [a])
              (index ++ [(valid.length : Int)])
            simpa using this

/-! ### What was kept, and what was not -/

/-- **The positions of a list**: those that were kept, in the order of what was kept, and those
that were dropped. -/
theorem Filtered.positions {key : α → κ} {l : List (Option α)} {valid : List α} {index : List Int}
    (h : Filtered key l valid index) :
    ∃ keptAt dropped : List Nat, (List.range l.length).Perm (keptAt ++ dropped) ∧
      List.Forall₂ (fun i n => index[i]? = some ((n : Nat) : Int)) keptAt
        (List.range valid.length) ∧
      ∀ i ∈ dropped, index[i]? = some (-1) := by
  have hex : ∀ n : Nat, ∃ i : Nat, n < valid.length → index[i]? = some (n : Int) := fun n => by
    by_cases hn : n < valid.length
    · obtain ⟨i, -, hi⟩ := h.valid_index n _ (List.getElem?_eq_getElem hn)
      exact ⟨i, fun _ => hi⟩
    · exact ⟨0, fun h => absurd h hn⟩
  choose pos hpos using hex
  refine ⟨(List.range valid.length).map pos,
    (List.range l.length).filter fun i => index[i]? = some (-1), ?_, ?_, ?_⟩
  · refine (List.perm_ext_iff_of_nodup List.nodup_range (List.Nodup.append ?_ ?_ ?_)).mpr ?_
    · refine List.nodup_range.map_on fun n hn n' hn' e => ?_
      have hi := hpos n (List.mem_range.mp hn)
      rw [e, hpos n' (List.mem_range.mp hn'), Option.some.injEq] at hi
      omega
    · exact List.nodup_range.filter _
    · intro i hkept hdropped
      obtain ⟨n, hn, rfl⟩ := List.mem_map.mp hkept
      have hneg := of_decide_eq_true (List.mem_filter.mp hdropped).2
      rw [hpos n (List.mem_range.mp hn), Option.some.injEq] at hneg
      omega
    · intro i
      simp only [List.mem_append, List.mem_map, List.mem_range, List.mem_filter,
        decide_eq_true_eq]
      constructor
      · intro hi
        rw [← h.length_index] at hi
        rcases h.index_range i _ (List.getElem?_eq_getElem hi) with hv | ⟨n, hn, hv⟩
        · exact .inr ⟨by rwa [h.length_index] at hi, by rw [List.getElem?_eq_getElem hi, hv]⟩
        · -- of two positions with one index the later one would have been dropped
          have hin : index[i]? = some (n : Int) := by rw [List.getElem?_eq_getElem hi, hv]
          obtain ⟨a, ha, hvalid⟩ := h.get_of_index hin
          obtain ⟨b, hb, hvalid'⟩ := h.get_of_index (hpos n hn)
          obtain rfl : a = b := Option.some.inj (hvalid.symm.trans hvalid')
          have hlater : ∀ {j k : Nat}, j < k → l[j]? = some (some a) → l[k]? = some (some a) →
              index[k]? ≠ some (n : Int) := fun hjk hj hk hindex => by
            have hneg := (h.index_neg _).mpr (.inr ⟨a, hk, _, a, hjk, hj, rfl⟩)
            rw [hindex, Option.some.injEq] at hneg
            omega
          rcases Nat.lt_trichotomy i (pos n) with hlt | heq | hlt
          · exact absurd (hpos n hn) (hlater hlt ha hb)
          · exact .inl ⟨n, hn, heq.symm⟩
          · exact absurd hin (hlater hlt hb ha)
      · rintro (⟨n, hn, rfl⟩ | ⟨hi, -⟩)
        · exact h.lt_of_index (hpos n hn)
        · exact hi
  · exact List.forall₂_map_left_iff.mpr
      (List.forall₂_same.mpr fun n hn => hpos n (List.mem_range.mp hn))
  · intro i hi
    exact of_decide_eq_true (List.mem_filter.mp hi).2

/-- **The loop carries tags along**: where the elements come from a list, it keeps what `firsts`
keeps of the elements with what they came from. -/
theorem filterFirsts_tagged {key? : α → Option κ} {key : α → κ} (f : β → Option α) (l : List β)
    (hkey : ∀ b ∈ l, ∀ a, f b = some a → key? a = some (key a)) :
    ∃ index, filterFirsts key? (l.map f) [] [] [] =
        some ((firsts (fun p : β × α => key p.2)
          (l.filterMap fun b => (f b).map (b, ·))).map Prod.snd, index) ∧
      Filtered (fun p : β × α => key p.2) (l.map fun b => (f b).map (b, ·))
        (firsts (fun p : β × α => key p.2) (l.filterMap fun b => (f b).map (b, ·))) index := by
  have hkey' : ∀ p : β × α, some p ∈ l.map (fun b => (f b).map (b, ·)) →
      key? p.2 = some (key p.2) := fun p hp => by
    obtain ⟨b, hb, htag⟩ := List.mem_map.mp hp
    obtain ⟨a, ha, rfl⟩ := Option.map_eq_some_iff.mp htag
    exact hkey b hb a ha
  have hspec : ∃ valid index, filterFirsts (fun p : β × α => key? p.2)
        (l.map fun b => (f b).map (b, ·)) [] [] [] = some (valid, index) ∧
      Filtered (fun p : β × α => key p.2) (l.map fun b => (f b).map (b, ·)) valid index :=
    filterFirsts_spec hkey'
  obtain ⟨valid, index, hfilter, hf⟩ := hspec
  have hvalid : valid =
      firsts (fun p : β × α => key p.2) (l.filterMap fun b => (f b).map (b, ·)) := by
    rw [hf.valid_eq, List.reduceOption, List.filterMap_map]
    rfl
  have hmap := filterFirsts_map key? Prod.snd (l.map fun b => (f b).map (b, ·)) [] [] []
  have hsnd : (l.map fun b => (f b).map (b, ·)).map (Option.map Prod.snd) = l.map f := by
    rw [List.map_map]
    refine List.map_congr_left fun b _ => ?_
    rw [Function.comp_apply, Option.map_map]
    exact congrFun Option.map_id (f b)
  rw [hsnd, hfilter, List.map_nil, Option.map_some] at hmap
  subst hvalid
  exact ⟨index, hmap, hf⟩

end Vuvuzela.Support
