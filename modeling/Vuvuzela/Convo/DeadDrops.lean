import Vuvuzela.Source.Convo
import Vuvuzela.Support.Tally

/-!
# Convo — the dead drops of the last server

What the loops of the last server compute.  `positions` lists who used a dead drop; the table
the counting loop builds holds the first two of them, and its counts are those of the dead drops
used once and used more than once (`dropTable_spec`).  So a request alone in its dead drop gets
its own message back (`dropReplies_alone`), and the two requests of a dead drop get each
other's (`dropReplies_pair`).
-/

namespace Vuvuzela
open Support

/-- The positions of the exchanges that use a dead drop, in order. -/
def positions (exchanges : List ConvoExchange) (d : DeadDrop) : List Nat :=
  (exchanges.zipIdx.filter fun p => p.1.deadDrop = d).map Prod.snd

theorem positions_concat (exchanges : List ConvoExchange) (ex : ConvoExchange) (d : DeadDrop) :
    positions (exchanges ++ [ex]) d =
      positions exchanges d ++ if ex.deadDrop = d then [exchanges.length] else [] := by
  simp only [positions, List.zipIdx_append, List.filter_append, List.map_append]
  congr 1
  by_cases h : ex.deadDrop = d <;> simp [h]

theorem mem_positions {exchanges : List ConvoExchange} {d : DeadDrop} {q : Nat} :
    q ∈ positions exchanges d ↔ ∃ ex, exchanges[q]? = some ex ∧ ex.deadDrop = d := by
  simp only [positions, List.mem_map, List.mem_filter, decide_eq_true_eq, Prod.exists]
  constructor
  · rintro ⟨ex, i, ⟨hmem, hd⟩, rfl⟩
    exact ⟨ex, List.mem_zipIdx_iff_getElem?.mp hmem, hd⟩
  · rintro ⟨ex, hget, hd⟩
    exact ⟨ex, q, ⟨List.mem_zipIdx_iff_getElem?.mpr hget, hd⟩, rfl⟩

theorem pairwise_positions (exchanges : List ConvoExchange) (d : DeadDrop) :
    (positions exchanges d).Pairwise (· < ·) := by
  have hsub : (positions exchanges d).Sublist (exchanges.zipIdx.map Prod.snd) :=
    List.filter_sublist.map _
  refine List.Pairwise.sublist hsub ?_
  rw [List.zipIdx_map_snd]
  exact List.pairwise_lt_range'

theorem nodup_positions (exchanges : List ConvoExchange) (d : DeadDrop) :
    (positions exchanges d).Nodup :=
  (pairwise_positions exchanges d).imp Nat.ne_of_lt

theorem length_positions (exchanges : List ConvoExchange) (d : DeadDrop) :
    (positions exchanges d).length = (exchanges.map (·.deadDrop)).count d := by
  induction exchanges using List.reverseRecOn with
  | nil => rfl
  | append_singleton exchanges ex ih =>
      rw [positions_concat, List.length_append, ih, List.map_append, List.map_singleton,
        count_concat]
      split <;> rfl

/-- One step of the counting loop on the positions: the first two are kept. -/
theorem access_deadDrops {t : DropTable} (ht : ∀ d, (t.deadDrops d).length ≤ 2)
    (ex : ConvoExchange) (i : Nat) (d : DeadDrop) :
    (t.access ex i).deadDrops d =
      (t.deadDrops d ++ if ex.deadDrop = d then [i] else []).take 2 := by
  have hd := ht d
  -- at its own dead drop an access is the first, the second, or one too many
  by_cases h : ex.deadDrop = d
  · subst h
    simp only [DropTable.access, if_true]
    split
    · rename_i h₀
      simp [List.length_eq_zero_iff.mp h₀]
    · split
      · rename_i h₁
        simp only [Function.update_self]
        rw [List.take_of_length_le (by simp [h₁])]
      · rw [List.take_append_of_le_length (by omega), List.take_of_length_le (by omega)]
  · rw [if_neg h, List.append_nil, List.take_of_length_le hd]
    simp only [DropTable.access]
    split
    · exact Function.update_of_ne (Ne.symm h) ..
    · split
      · exact Function.update_of_ne (Ne.symm h) ..
      · rfl

/-- **The counting loop.** -/
theorem dropTable_spec (exchanges : List ConvoExchange) :
    (∀ d, (dropTable exchanges).deadDrops d = (positions exchanges d).take 2) ∧
    (dropTable exchanges).singles = once (exchanges.map (·.deadDrop)) ∧
    (dropTable exchanges).doubles = often (exchanges.map (·.deadDrop)) := by
  induction exchanges using List.reverseRecOn with
  | nil => exact ⟨fun _ => rfl, rfl, rfl⟩
  | append_singleton exchanges ex ih =>
      obtain ⟨hdrops, hsingles, hdoubles⟩ := ih
      have hstep : dropTable (exchanges ++ [ex]) =
          (dropTable exchanges).access ex exchanges.length := by
        simp [dropTable, List.zipIdx_append]
      have htwo : ∀ d, ((dropTable exchanges).deadDrops d).length ≤ 2 := fun d => by
        rw [hdrops, List.length_take]; omega
      refine ⟨fun d => ?_, ?_⟩
      · rw [hstep, access_deadDrops htwo, hdrops, positions_concat]
        rcases Nat.lt_or_ge (positions exchanges d).length 2 with h | h
        · rw [List.take_of_length_le (l := positions exchanges d) (by omega)]
        · rw [List.take_append_of_le_length (by rw [List.length_take]; omega), List.take_take,
            List.take_append_of_le_length h]
          rfl
      · have hlen : ((dropTable exchanges).deadDrops ex.deadDrop).length =
            min 2 ((exchanges.map (·.deadDrop)).count ex.deadDrop) := by
          rw [hdrops, List.length_take, length_positions]
        obtain ⟨n, hn⟩ : ∃ n, (exchanges.map (·.deadDrop)).count ex.deadDrop = n := ⟨_, rfl⟩
        rw [hn] at hlen
        simp only [List.map_append, List.map_singleton, once_concat, often_concat, hstep,
          DropTable.access, hlen, hn]
        -- the switch of the loop: nobody was here, one was, or two were
        rcases Nat.lt_trichotomy n 1 with h | rfl | h
        · obtain rfl : n = 0 := by omega
          simp [hsingles, hdoubles]
        · simp [hsingles, hdoubles]
          rfl
        · have h₀ : min 2 n = 2 := by omega
          have h₁ : n ≠ 0 := by omega
          have h₂ : n ≠ 1 := by omega
          simp [h₀, h₁, h₂, hsingles, hdoubles]

/-! ### The replies -/

theorem getElem?_dropReplies {exchanges : List ConvoExchange} {q : Nat} {ex : ConvoExchange}
    (hq : exchanges[q]? = some ex) :
    (dropReplies exchanges)[q]? = some (dropReply exchanges (dropTable exchanges) ex q) := by
  rw [dropReplies, List.getElem?_map, List.getElem?_zipIdx, hq]
  simp

/-- A request alone in its dead drop gets its own message. -/
theorem dropReplies_alone {exchanges : List ConvoExchange} {q : Nat} {ex : ConvoExchange}
    (hq : exchanges[q]? = some ex) (h : positions exchanges ex.deadDrop = [q]) :
    (dropReplies exchanges)[q]? = some ex.encryptedMessage.1 := by
  rw [getElem?_dropReplies hq, dropReply, (dropTable_spec exchanges).1, h]
  rfl

/-- The two requests of a dead drop get each other's messages. -/
theorem dropReplies_pair {exchanges : List ConvoExchange} {q q' : Nat} {ex ex' : ConvoExchange}
    (hq : exchanges[q]? = some ex) (hq' : exchanges[q']? = some ex') (hne : q ≠ q')
    (h : (positions exchanges ex.deadDrop).Perm [q, q']) :
    (dropReplies exchanges)[q]? = some ex'.encryptedMessage.1 := by
  rw [getElem?_dropReplies hq, dropReply, (dropTable_spec exchanges).1]
  obtain ⟨a, b, hab⟩ := List.length_eq_two.mp h.length_eq
  rw [hab] at h ⊢
  have ha : a = q ∨ a = q' := by simpa using h.mem_iff.mp List.mem_cons_self
  rcases ha with rfl | rfl
  · obtain rfl : b = q' := by simpa using h.cons_inv
    simp [List.getD_eq_getElem?_getD, hq']
  · obtain rfl : b = q := by simpa using (h.trans (List.Perm.swap ..)).cons_inv
    simp [List.getD_eq_getElem?_getD, hq', hne]

/-- Every request gets a whole message, also one that finds two others in its dead drop. -/
theorem length_dropReply {exchanges : List ConvoExchange} {q : Nat} {ex : ConvoExchange}
    (hq : exchanges[q]? = some ex) :
    (dropReply exchanges (dropTable exchanges) ex q).length = sizeEncryptedMessage := by
  have hmem : q ∈ positions exchanges ex.deadDrop := mem_positions.mpr ⟨ex, hq, rfl⟩
  rw [dropReply, (dropTable_spec exchanges).1]
  match hpos : positions exchanges ex.deadDrop with
  | [] => rw [hpos] at hmem; cases hmem
  | [_] => exact ex.encryptedMessage.2
  | a :: b :: _ => exact (exchanges.getD (if q = a then b else a) .zero).encryptedMessage.2

end Vuvuzela
