import Vuvuzela.Convo.Handlers
import Vuvuzela.Source.Chain

/-!
# Convo — a round driven on one server

What `RunConvoRound` makes of a server of this repository.  `Open` and the `Add` calls load the
batch, in whichever order the server gets to them (`adds_eq`): position `i` holds what `peel`
makes of onion `i`.  The `Get` calls read the replies back, position by position (`gets_eq`,
`foldl_copyAt_eq`).  So the round ends as its `Close` ends (`runConvoRoundIn_eq_error`,
`runConvoRoundIn_eq_ok`).
-/

namespace Vuvuzela
open Support

variable {σ : Type}

/-- What can be allocated is far from the end of the `int`s. -/
theorem makeOk.lt {n : Int} (h : makeOk n) : n < 2 ^ 62 := by
  obtain ⟨-, h⟩ := h
  simp only [maxAlloc] at h
  omega

theorem lt_of_makeOk {n : Nat} (h : makeOk n) : n < 2 ^ 63 := by
  have := h.lt
  omega

theorem setAt?_map_range {α : Type} (f : Nat → α) {n i : Nat} (h : i < n) (a : α) :
    setAt? ((List.range n).map f) (i : Int) a =
      some ((List.range n).map (Function.update f i a)) := by
  rw [setAt?, if_pos (by simp [h]), Int.toNat_natCast, set_map_range]

/-- A table of the entries of a list is the list. -/
theorem map_range_getD {α β : Type} (f : α → β) (l : List α) (d : α) :
    ((List.range l.length).map fun i => f (l.getD i d)) = l.map f := by
  refine List.ext_getElem? fun k => ?_
  by_cases hk : k < l.length <;> simp [hk]

/-! ### Loading the batch -/

namespace ConvoService

/-- A round with `n` positions, which hold the keys `K` and the messages `M`. -/
def tabled (round : ConvoRound) (n : Nat) (K : Nat → Option BoxKey) (M : Nat → Option Bytes) :
    ConvoRound :=
  { round with sharedKeys := (List.range n).map K, incoming := (List.range n).map M }

/-- The loop of `Add`, at positions that exist: each onion sets the key of its position, and the
message if it opens. -/
theorem addLoop_eq (box : NaclBox) (cfg : Config) (nonce : Nonce) (round : ConvoRound) {n : Nat}
    (hn : n < 2 ^ 63) (offset : Nat) :
    ∀ (onions : List Bytes) (k : Nat) (K : Nat → Option BoxKey) (M : Nat → Option Bytes),
      offset + k + onions.length ≤ n →
      addLoop box cfg nonce offset k onions (tabled round n K M) =
        some (tabled round n
          (fun i => if inSpan (offset + k) onions.length i then
            some (peel box cfg sizeConvoExchange nonce (onions.getD (i - (offset + k)) [])).1
            else K i)
          (fun i => if inSpan (offset + k) onions.length i then
            ((peel box cfg sizeConvoExchange nonce
              (onions.getD (i - (offset + k)) [])).2).or (M i)
            else M i))
  | [], k, K, M, _ => by
      have h : ∀ i, ¬ inSpan (offset + k) ([] : List Bytes).length i := fun i h => by
        obtain ⟨h₁, h₂⟩ := h
        simp only [List.length_nil] at h₂
        omega
      simp only [addLoop, if_neg (h _)]
  | onion :: onions, k, K, M, hle => by
      rw [List.length_cons] at hle
      have hi : wrapInt ((offset : Int) + (k : Nat)) = (offset + k : Nat) := by
        rw [← Int.natCast_add]
        exact wrapInt_natCast (by omega)
      have hset : ∀ {α : Type} (f : Nat → α) (a : α),
          setAt? ((List.range n).map f) ((offset + k : Nat) : Int) a =
            some ((List.range n).map (Function.update f (offset + k) a)) :=
        fun f a => setAt?_map_range f (by omega) a
      -- the loop goes on from the table with this position set
      obtain ⟨slot, hslot⟩ : ∃ slot, peel box cfg sizeConvoExchange nonce onion = slot := ⟨_, rfl⟩
      have hstep : addLoop box cfg nonce offset k (onion :: onions) (tabled round n K M) =
          addLoop box cfg nonce offset (k + 1) onions (tabled round n
            (Function.update K (offset + k) (some slot.1))
            (Function.update M (offset + k) (slot.2.or (M (offset + k))))) := by
        rw [addLoop, hi, hslot]
        cases h : slot.2 with
        | none => simp only [tabled, hset, Option.none_or, Function.update_eq_self]; rfl
        | some m => simp only [tabled, hset, Option.some_or]; rfl
      rw [hstep, addLoop_eq box cfg nonce round hn offset onions (k + 1) _ _ (by omega)]
      have hcase : ∀ {α : Type} (f : Bytes → α → α) (X : Nat → α) (i : Nat),
          (if inSpan (offset + (k + 1)) onions.length i then
            f (onions.getD (i - (offset + (k + 1))) [])
              (Function.update X (offset + k) (f onion (X (offset + k))) i)
            else Function.update X (offset + k) (f onion (X (offset + k))) i) =
          if inSpan (offset + k) (onion :: onions).length i then
            f ((onion :: onions).getD (i - (offset + k)) []) (X i)
          else X i := by
        intro α f X i
        rcases Nat.lt_trichotomy i (offset + k) with h | h | h
        · rw [if_neg (fun hs => by have := hs.1; omega), if_neg (fun hs => by have := hs.1; omega),
            Function.update_of_ne (by omega)]
        · subst h
          rw [if_neg (fun hs => by have := hs.1; omega), if_pos ⟨Nat.le_refl _, by simp⟩]
          simp
        · have hiff : inSpan (offset + (k + 1)) onions.length i ↔
              inSpan (offset + k) (onion :: onions).length i := by
            simp only [inSpan, List.length_cons]
            omega
          have hidx : i - (offset + k) = (i - (offset + (k + 1))) + 1 := by omega
          simp only [hiff, Function.update_of_ne (show i ≠ offset + k by omega), hidx,
            List.getD_cons_succ]
      subst hslot
      have hK := fun i => hcase
        (fun onion _ => some (peel box cfg sizeConvoExchange nonce onion).1) K i
      have hM := fun i => hcase
        (fun onion old => ((peel box cfg sizeConvoExchange nonce onion).2).or old) M i
      simp only [hK, hM]

/-- A round whose batch is loaded. -/
def loaded (box : NaclBox) (cfg : Config) (Round : UInt32) (onions : List Bytes)
    (round : ConvoRound) : ConvoRound :=
  { round with
    numIncoming := onions.length
    sharedKeys := onions.map fun onion =>
      some (peel box cfg sizeConvoExchange (forwardNonce Round) onion).1
    incoming := onions.map fun onion =>
      (peel box cfg sizeConvoExchange (forwardNonce Round) onion).2
    status := .roundOpen }

/-- The round once the spans `done` were added. -/
def partLoaded (box : NaclBox) (cfg : Config) (Round : UInt32) (onions : List Bytes)
    (spanSize : Nat) (round : ConvoRound) (done : List Nat) : ConvoRound :=
  tabled (opened round onions.length) onions.length
    (fun i => if i / spanSize ∈ done then
      some (peel box cfg sizeConvoExchange (forwardNonce Round) (onions.getD i [])).1 else none)
    (fun i => if i / spanSize ∈ done then
      (peel box cfg sizeConvoExchange (forwardNonce Round) (onions.getD i [])).2 else none)

section Load

variable {box : NaclBox} {cfg : Config} {Round : UInt32} {onions : List Bytes} {spanSize : Nat}
  {round : ConvoRound}

theorem partLoaded_nil : partLoaded box cfg Round onions spanSize round [] =
    opened round onions.length := by
  simp [partLoaded, tabled, opened]

/-- Once every span was added, the batch is loaded. -/
theorem partLoaded_all {done : List Nat} (hs : 0 < spanSize)
    (hall : ∀ j < numSpans onions.length spanSize, j ∈ done) :
    partLoaded box cfg Round onions spanSize round done = loaded box cfg Round onions round := by
  have hmem : ∀ i ∈ List.range onions.length, i / spanSize ∈ done := fun i hi =>
    hall _ ((lt_numSpans hs).mpr
      (lt_of_le_of_lt (Nat.div_mul_le_self i spanSize) (List.mem_range.mp hi)))
  have hK : ((List.range onions.length).map fun i => if i / spanSize ∈ done then
      some (peel box cfg sizeConvoExchange (forwardNonce Round) (onions.getD i [])).1 else none) =
      onions.map fun onion =>
        some (peel box cfg sizeConvoExchange (forwardNonce Round) onion).1 := by
    rw [← map_range_getD _ onions []]
    exact List.map_congr_left fun i hi => if_pos (hmem i hi)
  have hM : ((List.range onions.length).map fun i => if i / spanSize ∈ done then
      (peel box cfg sizeConvoExchange (forwardNonce Round) (onions.getD i [])).2 else none) =
      onions.map fun onion => (peel box cfg sizeConvoExchange (forwardNonce Round) onion).2 := by
    rw [← map_range_getD _ onions []]
    exact List.map_congr_left fun i hi => if_pos (hmem i hi)
  simp only [partLoaded, tabled, hK, hM]
  rfl

/-- One span is added. -/
theorem addLoop_span {j : Nat} (hs : 0 < spanSize) (hn : onions.length < 2 ^ 63)
    (hj : j < numSpans onions.length spanSize) (done : List Nat) :
    addLoop box cfg (forwardNonce Round) ((spanAt onions.length spanSize j).start : Nat) 0
        ((onions.drop (spanAt onions.length spanSize j).start).take
          (spanAt onions.length spanSize j).count)
        (partLoaded box cfg Round onions spanSize round done) =
      some (partLoaded box cfg Round onions spanSize round (done ++ [j])) := by
  have hlt := (lt_numSpans hs).mp hj
  obtain ⟨span, hspan⟩ : ∃ span, spanAt onions.length spanSize j = span := ⟨_, rfl⟩
  have hcount : span.start + span.count ≤ onions.length := by
    subst hspan; simp only [spanAt]; omega
  have hlen : ((onions.drop span.start).take span.count).length = span.count := by
    rw [List.length_take, List.length_drop]; omega
  rw [hspan, partLoaded, addLoop_eq box cfg _ _ hn span.start _ 0 _ _ (by rw [hlen]; omega), hlen,
    Nat.add_zero]
  -- position by position: in the span, the onion there; elsewhere, what was there
  have hcase : ∀ {α : Type} (f : Bytes → Option α) (g : Option α → Option α → Option α),
      (∀ a, g a none = a) → (∀ a, g a a = a) →
      ((List.range onions.length).map fun i => if inSpan span.start span.count i then
        g (f (((onions.drop span.start).take span.count).getD (i - span.start) []))
          (if i / spanSize ∈ done then f (onions.getD i []) else none)
        else if i / spanSize ∈ done then f (onions.getD i []) else none) =
      (List.range onions.length).map fun i => if i / spanSize ∈ done ++ [j] then
        f (onions.getD i []) else none := by
    intro α f g hnone hsame
    refine List.map_congr_left fun i hi => ?_
    have hi' := List.mem_range.mp hi
    by_cases h : i / spanSize = j
    · have hin : inSpan span.start span.count i := hspan ▸ (inSpan_spanAt hs hi').mpr h
      have hget : ((onions.drop span.start).take span.count).getD (i - span.start) [] =
          onions.getD i [] := by
        obtain ⟨h₁, h₂⟩ := hin
        simp only [List.getD_eq_getElem?_getD]
        rw [List.getElem?_take_of_lt (by omega), List.getElem?_drop, Nat.add_sub_cancel' h₁]
      have hmem : i / spanSize ∈ done ++ [j] := by simp [h]
      rw [if_pos hin, hget, if_pos hmem]
      split
      · exact hsame _
      · exact hnone _
    · have hout : ¬ inSpan span.start span.count i := fun hin =>
        h ((inSpan_spanAt hs hi').mp (hspan ▸ hin))
      rw [if_neg hout]
      simp [h]
  have hK := hcase (fun onion => some (peel box cfg sizeConvoExchange (forwardNonce Round) onion).1)
    (fun a _ => a) (fun _ => rfl) (fun _ => rfl)
  have hM := hcase (fun onion => (peel box cfg sizeConvoExchange (forwardNonce Round) onion).2)
    Option.or (fun a => by cases a <;> rfl) (fun a => by cases a <;> rfl)
  simp only [tabled, hK, hM, partLoaded]

end Load

/-- The `Add` of one span. -/
theorem add_span {box : NaclBox} {cfg : Config} {Round : UInt32} {onions : List Bytes}
    {spanSize j : Nat} {round : ConvoRound} (hs : 0 < spanSize) (hn : onions.length < 2 ^ 63)
    (hj : j < numSpans onions.length spanSize) (srv : Server) (done : List Nat) :
    add box cfg ⟨Round, (spanAt onions.length spanSize j).start,
        (onions.drop (spanAt onions.length spanSize j).start).take
          (spanAt onions.length spanSize j).count⟩
        (srv.setConvo Round (partLoaded box cfg Round onions spanSize round done)) =
      .ok () (srv.setConvo Round
        (partLoaded box cfg Round onions spanSize round (done ++ [j]))) := by
  have hlt := (lt_numSpans hs).mp hj
  have hle : (spanAt onions.length spanSize j).start +
      ((onions.drop (spanAt onions.length spanSize j).start).take
        (spanAt onions.length spanSize j).count).length ≤ onions.length := by
    simp only [List.length_take, List.length_drop, spanAt]
    omega
  -- the bound `Add` checks is computed in `int`; it does not wrap for a batch that fits
  have hsum : ¬ (onions.length : Int) < wrapInt (((spanAt onions.length spanSize j).start : Int) +
      ((onions.drop (spanAt onions.length spanSize j).start).take
        (spanAt onions.length spanSize j).count).length) := by
    rw [← Int.natCast_add, wrapInt_natCast (by omega)]
    exact Int.not_lt.mpr (Int.ofNat_le.mpr hle)
  have hget : getRound Round .roundOpen
      (srv.setConvo Round (partLoaded box cfg Round onions spanSize round done)) =
      .ok (partLoaded box cfg Round onions spanSize round done) _ :=
    getRound_of_some (Server.setConvo_self ..) rfl
  simp only [add_eq, hget, addLoop_span hs hn hj done, Server.setConvo_setConvo]
  exact if_neg hsum

/-- **Any order of the `Add` calls loads the batch.** -/
theorem adds_eq (box : NaclBox) (st : Station) (next : NextServer σ) {Round : UInt32}
    {onions : List Bytes} {spanSize : Nat} (round : ConvoRound) (hs : 0 < spanSize)
    (hmake : makeOk onions.length) (srv : Server) (t : σ) :
    callMany st.addOrder ((spans onions.length spanSize).map fun span =>
        (serverClient box st next).convoAdd
          ⟨Round, span.start, (onions.drop span.start).take span.count⟩)
        (srv.setConvo Round (opened round onions.length), t) =
      .ok ((List.range (numSpans onions.length spanSize)).map fun _ => ())
        (srv.setConvo Round (loaded box st.cfg Round onions round), t) := by
  -- the invariant of the calls: after those in `done`, their spans are loaded
  obtain ⟨order, horder, h⟩ := callMany_spans st.addOrder hs
    (fun span => (serverClient box st next).convoAdd
      ⟨Round, span.start, (onions.drop span.start).take span.count⟩)
    (fun _ => ())
    (fun done => (srv.setConvo Round
      (partLoaded box st.cfg Round onions spanSize round done), t))
    (fun done j hj => onFst_of_ok t (add_span hs (lt_of_makeOk hmake) hj srv done))
  rw [partLoaded_nil, partLoaded_all hs fun j hj =>
    horder.mem_iff.mpr (List.mem_range.mpr hj)] at h
  exact h

end ConvoService

/-! ### Reading the replies back -/

theorem mapM_eq_ok {ε α β : Type} {f : α → Except ε β} {g : α → β} :
    ∀ {l : List α}, (∀ a ∈ l, f a = .ok (g a)) → l.mapM f = .ok (l.map g)
  | [], _ => rfl
  | a :: l, h => by
      rw [List.mapM_cons, h a List.mem_cons_self,
        mapM_eq_ok fun b hb => h b (List.mem_cons_of_mem _ hb)]
      rfl

theorem copyAt_map_range {α : Type} (f g : Nat → α) {n start c : Nat} (h : start + c ≤ n) :
    copyAt ((List.range n).map f) start ((List.range c).map g) =
      (List.range n).map fun i => if inSpan start c i then g (i - start) else f i := by
  refine List.ext_getElem? fun k => ?_
  simp only [copyAt, List.length_map, List.length_range]
  rw [List.take_of_length_le (l := (List.range c).map g) (by simp; omega)]
  -- `k` is before the piece, in it, after it, or past the end
  rcases Nat.lt_or_ge k n with hk | hk
  · rcases Nat.lt_or_ge k start with h₁ | h₁
    · have hout : ¬ inSpan start c k := fun hs => Nat.not_le.mpr h₁ hs.1
      rw [List.append_assoc, List.getElem?_append_left (by simp; omega)]
      simp [List.getElem?_take_of_lt h₁, hk, hout]
    · rcases Nat.lt_or_ge k (start + c) with h₂ | h₂
      · have hin : inSpan start c k := ⟨h₁, h₂⟩
        rw [List.getElem?_append_left (by simp; omega), List.getElem?_append_right (by simp; omega)]
        simp only [List.length_take, List.length_map, List.length_range,
          Nat.min_eq_left (show start ≤ n by omega)]
        simp [show k - start < c by omega, hk, hin]
      · have hout : ¬ inSpan start c k := fun hs => Nat.not_lt.mpr h₂ hs.2
        rw [List.getElem?_append_right (by simp; omega)]
        simp only [List.length_append, List.length_take, List.length_map, List.length_range,
          Nat.min_eq_left (show start ≤ n by omega), List.getElem?_drop,
          show start + c + (k - (start + c)) = k by omega]
        simp [hk, hout]
  · rw [List.getElem?_eq_none (by simp; omega), List.getElem?_eq_none (by simp; omega)]

/-- The pieces of the spans, copied to their places, make up the whole. -/
theorem foldl_copyAt_eq {α : Type} (reply : Nat → α) (d : α) {n spanSize : Nat}
    (hs : 0 < spanSize) :
    ((spans n spanSize).zip ((List.range (numSpans n spanSize)).map fun j =>
        (List.range (spanAt n spanSize j).count).map fun k =>
          reply ((spanAt n spanSize j).start + k))).foldl
      (fun replies p => copyAt replies p.1.start (p.2.take p.1.count))
      (List.replicate n d) = (List.range n).map reply := by
  rw [spans_eq hs, List.zip_map', List.foldl_map]
  -- after `m` spans, the positions of the spans before the `m`-th are filled
  have key : ∀ m, m ≤ numSpans n spanSize →
      (List.range m).foldl (fun replies j => copyAt replies (spanAt n spanSize j).start
        (((List.range (spanAt n spanSize j).count).map fun k =>
          reply ((spanAt n spanSize j).start + k)).take (spanAt n spanSize j).count))
        (List.replicate n d) =
      (List.range n).map fun i => if i / spanSize < m then reply i else d := by
    intro m
    induction m with
    | zero => intro _; simp
    | succ m ih =>
        intro hm
        have hlt := (lt_numSpans hs).mp hm
        rw [List.range_succ, List.foldl_append, ih (by omega), List.foldl_cons, List.foldl_nil,
          List.take_of_length_le (by simp), copyAt_map_range _ _ (by simp only [spanAt]; omega)]
        refine List.map_congr_left fun i hi => ?_
        have hin := inSpan_spanAt (j := m) hs (List.mem_range.mp hi)
        by_cases h : i / spanSize = m
        · rw [if_pos (hin.mpr h), if_pos (by omega), Nat.add_sub_cancel' (hin.mpr h).1]
        · have hiff : i / spanSize < m + 1 ↔ i / spanSize < m := by omega
          rw [if_neg (fun hs => h (hin.mp hs))]
          simp only [hiff]
  rw [key _ le_rfl]
  refine List.map_congr_left fun i hi => if_pos ?_
  exact (lt_numSpans hs).mpr
    (lt_of_le_of_lt (Nat.div_mul_le_self i spanSize) (List.mem_range.mp hi))

namespace ConvoService

/-- What `Get` returns for a position whose message got the reply `reply`, or none. -/
def replyOnion (box : NaclBox) (nonce : Nonce) (outgoingOnionSize : Nat)
    (filler : Nat → Nat → UInt8) (sharedKey : BoxKey) (reply : Option Bytes) (i : Nat) : Bytes :=
  let onion :=
    match reply with
    | none => []
    | some reply => box.sealAfterPrecomputation reply nonce sharedKey
  if onion.length ≠ outgoingOnionSize then randRead (filler i) outgoingOnionSize else onion

theorem getAt_natCast {α : Type} {x : List α} {i : Nat} {a : α} (h : x[i]? = some a) :
    getAt x (i : Int) = .ok a := by
  rw [getAt, if_neg (by omega), Int.toNat_natCast, h]

section Get

variable {box : NaclBox} {nonce : Nonce} {size : Nat} {filler : Nat → Nat → UInt8}
  {round : ConvoRound} {i : Nat} {sharedKey : BoxKey}

theorem getOnion_of_neg (hi : round.incomingIndex[i]? = some (-1)) :
    getOnion box nonce size filler round i =
      .ok (replyOnion box nonce size filler sharedKey none i) := by
  simp only [getOnion, getAt_natCast hi, bind, Except.bind, replyOnion, Int.toNat_natCast,
    Int.lt_irrefl, if_false]
  split <;> rfl

theorem getOnion_of_reply {n : Nat} {reply : Bytes}
    (hi : round.incomingIndex[i]? = some (n : Int)) (hreply : round.replies[n]? = some reply)
    (hkey : round.sharedKeys[i]? = some (some sharedKey)) :
    getOnion box nonce size filler round i =
      .ok (replyOnion box nonce size filler sharedKey (some reply) i) := by
  have hneg : (-1 : Int) < n := by omega
  simp only [getOnion, getAt_natCast hi, getAt_natCast hreply, getAt_natCast hkey, bind,
    Except.bind, replyOnion, Int.toNat_natCast, if_pos hneg]
  split <;> rfl

end Get

/-- The `Get` of one span. -/
theorem get_span {box : NaclBox} {st : Station} {Round : UInt32} {n spanSize j : Nat}
    {round : ConvoRound} {reply : Nat → Bytes} (hs : 0 < spanSize) (hmake : makeOk n)
    {srv : Server} (hround : srv.convoRounds Round = some round)
    (hclosed : round.status = .roundClosed)
    (hreply : ∀ i < n, getOnion box (backwardNonce Round) st.cfg.outgoingOnionSize st.filler round
      (i : Nat) = .ok (reply i)) (hj : j < numSpans n spanSize) :
    ConvoService.get box st.cfg st.filler
        ⟨Round, (spanAt n spanSize j).start, (spanAt n spanSize j).count⟩ srv =
      .ok ((List.range (spanAt n spanSize j).count).map fun k =>
        reply ((spanAt n spanSize j).start + k)) srv := by
  have hn := lt_of_makeOk hmake
  have hlt := (lt_numSpans hs).mp hj
  have hle : (spanAt n spanSize j).start + (spanAt n spanSize j).count ≤ n := by
    simp only [spanAt]; omega
  have hcount : makeOk (spanAt n spanSize j).count := by
    obtain ⟨-, h⟩ := hmake
    exact ⟨by omega, by omega⟩
  have honions : (List.range (spanAt n spanSize j).count).mapM (fun k : Nat =>
      getOnion box (backwardNonce Round) st.cfg.outgoingOnionSize st.filler round
        (wrapInt (((spanAt n spanSize j).start : Int) + k))) =
      .ok ((List.range (spanAt n spanSize j).count).map fun k =>
        reply ((spanAt n spanSize j).start + k)) :=
    mapM_eq_ok fun k hk => by
      have hk' := List.mem_range.mp hk
      rw [← Int.natCast_add, wrapInt_natCast (by omega)]
      exact hreply _ (by omega)
  simp only [ConvoService.get_eq, getRound_of_some hround hclosed, if_pos hcount,
    Int.toNat_natCast, honions]

/-- The `Get` calls read every position. -/
theorem gets_eq (box : NaclBox) (st : Station) (next : NextServer σ) {Round : UInt32}
    {n spanSize : Nat} {round : ConvoRound} {reply : Nat → Bytes} (hs : 0 < spanSize)
    (hmake : makeOk n) {srv : Server} (hround : srv.convoRounds Round = some round)
    (hclosed : round.status = .roundClosed)
    (hreply : ∀ i < n, getOnion box (backwardNonce Round) st.cfg.outgoingOnionSize st.filler round
      (i : Nat) = .ok (reply i)) (t : σ) :
    callMany st.getOrder ((spans n spanSize).map fun span =>
        (serverClient box st next).convoGet ⟨Round, span.start, span.count⟩) (srv, t) =
      .ok ((List.range (numSpans n spanSize)).map fun j =>
        (List.range (spanAt n spanSize j).count).map fun k =>
          reply ((spanAt n spanSize j).start + k)) (srv, t) := by
  obtain ⟨_, -, h⟩ := callMany_spans st.getOrder hs
    (fun span => (serverClient box st next).convoGet ⟨Round, span.start, span.count⟩)
    (fun j => (List.range (spanAt n spanSize j).count).map fun k =>
      reply ((spanAt n spanSize j).start + k))
    (fun _ => (srv, t))
    (fun _ j hj => onFst_of_ok t (get_span hs hmake hround hclosed hreply hj))
  exact h

end ConvoService

/-! ### The whole round -/

section Whole

variable {box : NaclBox} {st : Station} {next : NextServer σ} {Round : UInt32}
  {onions : List Bytes} {spanSize : Nat} {srv : Server} {t : σ} {round : ConvoRound}

theorem ConvoService.open_of_new {n : Nat} (hround : srv.convoRounds Round = some round)
    (hnew : round.status = .roundNew) (hmake : makeOk n) :
    ConvoService.open ⟨Round, n⟩ srv =
      .ok () (srv.setConvo Round (ConvoService.opened round n)) := by
  simp only [ConvoService.open_eq, ConvoService.getRound_of_some hround hnew, if_pos hmake]

/-- A round whose `Close` fails ends there. -/
theorem runConvoRoundIn_eq_error {f : Fault} {s : Server × σ} (hs : 0 < spanSize)
    (hround : srv.convoRounds Round = some round) (hnew : round.status = .roundNew)
    (hmake : makeOk onions.length)
    (hclose : ConvoService.close st.cfg next st.shuffler Round
      (srv.setConvo Round (ConvoService.loaded box st.cfg Round onions round), t) = .error f s) :
    runConvoRoundIn spanSize (serverClient box st next) Round onions (srv, t) =
      .error (f.context "Close") s := by
  refine (bind_of_ok (named_of_ok
    (onFst_of_ok t (ConvoService.open_of_new hround hnew hmake)))).trans ?_
  refine (bind_of_ok (named_of_ok
    (ConvoService.adds_eq box st next round hs hmake srv t))).trans ?_
  exact bind_of_error (named_of_error hclose)

/-- A round whose `Close` succeeds returns the onions of its positions. -/
theorem runConvoRoundIn_eq_ok {srv₁ : Server} {t₁ : σ} {round₁ : ConvoRound} {reply : Nat → Bytes}
    (hs : 0 < spanSize) (hround : srv.convoRounds Round = some round)
    (hnew : round.status = .roundNew) (hmake : makeOk onions.length)
    (hclose : ConvoService.close st.cfg next st.shuffler Round
      (srv.setConvo Round (ConvoService.loaded box st.cfg Round onions round), t) =
        .ok () (srv₁.setConvo Round round₁, t₁))
    (hclosed : round₁.status = .roundClosed)
    (hreply : ∀ i < onions.length, ConvoService.getOnion box (backwardNonce Round)
      st.cfg.outgoingOnionSize st.filler round₁ (i : Nat) = .ok (reply i)) :
    runConvoRoundIn spanSize (serverClient box st next) Round onions (srv, t) =
      .ok ((List.range onions.length).map reply)
        ((srv₁.setConvo Round round₁).dropConvo Round, t₁) := by
  refine (bind_of_ok (named_of_ok
    (onFst_of_ok t (ConvoService.open_of_new hround hnew hmake)))).trans ?_
  refine (bind_of_ok (named_of_ok
    (ConvoService.adds_eq box st next round hs hmake srv t))).trans ?_
  refine (bind_of_ok (named_of_ok hclose)).trans ?_
  refine (bind_of_ok (named_of_ok (ConvoService.gets_eq box st next hs hmake
    (Server.setConvo_self ..) hclosed hreply t₁))).trans ?_
  rw [foldl_copyAt_eq reply [] hs]
  rfl

end Whole

end Vuvuzela
