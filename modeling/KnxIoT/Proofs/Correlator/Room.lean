import KnxIoT.Proofs.Correlator.Settling
import Mathlib.Data.List.Nodup
import Mathlib.Data.List.Perm.Subperm

/-! # The correlator: room for another token

A correlator of the capacity `n` is `Seated n` if every token stands in its table once, and not more
than `n` do. Closing a pending token makes room (`count_discard_lt`), and while there is room a token
can be had (`exists_issue`). -/

namespace KnxIoT.Correlator

variable {c c' : Correlator} {t : Token} {p : Pending} {e : EngineEvent} {n : ℕ}

/-! ### Counting -/

theorem count_discard_le (c : Correlator) (t : Token) : (c.discard t).count ≤ c.count :=
  List.length_filter_le _ _

theorem count_discard_lt (h : c.find? t = some p) : (c.discard t).count < c.count := by
  refine List.length_filter_lt_length_iff_exists.mpr ?_
  by_contra hnone
  push Not at hnone
  have hne : c.find? t = none := by
    refine List.lookup_eq_none_iff.mpr fun x hx => ?_
    have hx : ¬ x.1 = t := by simpa using hnone x hx
    simpa using Ne.symm hx
  rw [hne] at h
  cases h

/-- A token is given out only while there is room, and giving it back leaves no more than before. -/
theorem count_of_issue (h : c.issue p = .ok (t, c')) : (c.capacity ≠ 0 → c.count < c.capacity) ∧
    c'.count ≤ c.count + 1 ∧ (c'.discard t).count ≤ c.count := by
  unfold issue at h
  split at h
  · cases h
  · next hfull =>
    cases h
    refine ⟨fun hne => ?_, ?_, ?_⟩
    · simp only [isFull, Bool.and_eq_true, bne_iff_ne, ne_eq, decide_eq_true_eq, not_and] at hfull
      exact Nat.lt_of_not_le (hfull hne)
    · rw [count, List.length_append]
      exact Nat.add_le_add_right (List.length_filter_le _ _) 1
    · rw [count, discard, List.filter_append, List.length_append]
      have hlast : [((Token.after c.issued), p)].filter (·.1 ≠ Token.after c.issued) = [] := by simp
      rw [hlast]
      exact Nat.le_trans (List.length_filter_le _ _) (List.length_filter_le _ _)

theorem exists_issue (h : c.count < c.capacity) (p : Pending) :
    ∃ t c', c.issue p = .ok (t, c') := by
  have hfull : c.isFull = false := by
    simp only [isFull, Bool.and_eq_false_iff, decide_eq_false_iff_not]
    exact Or.inr (Nat.not_le_of_lt h)
  unfold issue
  rw [if_neg (by rw [hfull]; exact Bool.false_ne_true)]
  exact ⟨_, _, rfl⟩

/-! ### Tables within their capacity -/

/-- **A table of the capacity `n`** with every token once, and not more than `n` of them. -/
structure Seated (n : ℕ) (c : Correlator) : Prop where
  capacity : c.capacity = n
  nodup : (c.table.map Prod.fst).Nodup
  within : c.count ≤ n

theorem Seated.discard (h : c.Seated n) (t : Token) : (c.discard t).Seated n where
  capacity := h.capacity
  nodup := h.nodup.sublist (List.filter_sublist.map _)
  within := Nat.le_trans (count_discard_le c t) h.within

theorem Seated.settle (h : c.Seated n) (e : EngineEvent) : (c.settle e).Seated n := by
  rcases settle_eq_self_or_discard c e with he | ⟨t, he⟩ <;> rw [he]
  · exact h
  · exact h.discard t

theorem Seated.settleAll (h : c.Seated n) (es : List EngineEvent) :
    (es.foldl Correlator.settle c).Seated n := by
  induction es generalizing c with
  | nil => exact h
  | cons e es ih => exact ih (h.settle e)

theorem Seated.issue (hn : n ≠ 0) (h : c.Seated n) (hi : c.issue p = .ok (t, c')) :
    c'.Seated n := by
  obtain ⟨hroom, hcount, -⟩ := count_of_issue hi
  have hlt := hroom (h.capacity ▸ hn)
  have hcap := (issue_eq_ok hi).2.2.1
  refine ⟨hcap.trans h.capacity, ?_, Nat.le_trans hcount (by rw [h.capacity] at hlt; exact hlt)⟩
  unfold Correlator.issue at hi
  split at hi
  · cases hi
  · cases hi
    rw [List.map_append, List.nodup_append]
    refine ⟨h.nodup.sublist (List.filter_sublist.map _), List.nodup_singleton _, ?_⟩
    intro u hu v hv
    obtain ⟨x, hx, rfl⟩ := List.mem_map.mp hu
    have hx := (List.mem_filter.mp hx).2
    rw [List.mem_singleton.mp hv]
    simpa using hx

theorem Seated.abandonAll (h : c.Seated n) : c.abandonAll.Seated n :=
  ⟨h.capacity, List.nodup_nil, Nat.zero_le n⟩

theorem Seated.count_le (h : c'.Seated n)
    (hsub : ∀ t p, c'.find? t = some p → ∃ q, c.find? t = some q) : c'.count ≤ c.count := by
  have hkeys : c'.table.map Prod.fst ⊆ c.table.map Prod.fst := by
    intro t ht
    by_contra hnot
    obtain ⟨⟨u, p⟩, hx, rfl⟩ := List.mem_map.mp ht
    have hsome : ∃ p, c'.find? u = some p := by
      rw [← Option.ne_none_iff_exists']
      intro hnone
      have := List.lookup_eq_none_iff.mp hnone _ hx
      simp at this
    obtain ⟨p, hp⟩ := hsome
    obtain ⟨q, hq⟩ := hsub u p hp
    have hnone : c.find? u = none := List.lookup_eq_none_iff.mpr fun y hy => by
      have hne : u ≠ y.1 := fun he => hnot (List.mem_map.mpr ⟨y, hy, he.symm⟩)
      simpa using hne
    rw [hnone] at hq
    cases hq
  simpa [count] using (List.subperm_of_subset h.nodup hkeys).length_le

end KnxIoT.Correlator
