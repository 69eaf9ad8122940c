import KnxIoT.Correlator
import KnxIoT.Proofs.Lists
import Mathlib.Algebra.Group.Nat.Defs

/-! # The correlator: its table

What each operation does to what the tokens stand for, seen through `find?`. A token that is given
out is new as long as the table is `Bounded`: its tokens are numbered up to the count of those given
out. The numbers run through 64 bits, so the count has to stay below `limit`. -/

namespace KnxIoT

namespace Token

/-- How many tokens can be given out before a number comes again or is 0. -/
def limit : ℕ := 2 ^ 64 - 1

theorem toNat_after {n : ℕ} (h : n < limit) : (after n).raw.toNat = n + 1 := by
  unfold limit at h
  rw [after, UInt64.toNat_ofNat_of_lt' (by simp only [UInt64.size]; omega)]

end Token

namespace Correlator

@[simp] theorem find?_discard (c : Correlator) (t u : Token) :
    (c.discard t).find? u = if u = t then none else c.find? u :=
  Lists.lookup_filter_ne t u c.table

theorem find?_eq_none_of_table {c : Correlator} (h : c.table = []) (u : Token) :
    c.find? u = none := by
  unfold find?; rw [h]; rfl

theorem table_eq_nil {c : Correlator} (h : ∀ u, c.find? u = none) : c.table = [] := by
  cases ht : c.table with
  | nil => rfl
  | cons x l =>
    have := h x.1
    unfold find? at this
    rw [ht, Lists.lookup_cons_ite, if_pos rfl] at this
    cases this

/-! ### Giving out tokens -/

/-- The tokens in the table are among those given out. -/
def Bounded (c : Correlator) : Prop :=
  ∀ u p, c.find? u = some p → u.raw.toNat ≤ c.issued

theorem bounded_of_table {c : Correlator} (h : c.table = []) : c.Bounded := by
  intro u p hu
  rw [find?_eq_none_of_table h] at hu
  cases hu

theorem Bounded.of_find? {c c' : Correlator} (h : c.Bounded)
    (hf : ∀ u p, c'.find? u = some p → c.find? u = some p) (hi : c.issued ≤ c'.issued) :
    c'.Bounded := fun u p hu => Nat.le_trans (h u p (hf u p hu)) hi

/-- The token that is given out next is not pending. -/
def Fresh (c : Correlator) : Prop := c.find? (.after c.issued) = none

/-- **What giving out a token does.** -/
theorem issue_eq_ok {c c' : Correlator} {p : Pending} {t : Token}
    (h : c.issue p = .ok (t, c')) :
    t = .after c.issued ∧ c'.issued = c.issued + 1 ∧ c'.capacity = c.capacity ∧
      ∀ u, c'.find? u = if u = t then some p else c.find? u := by
  unfold issue at h
  split at h
  · cases h
  · cases h
    refine ⟨rfl, rfl, rfl, fun u => ?_⟩
    unfold find?
    rw [List.lookup_append, Lists.lookup_filter_ne, Lists.lookup_cons_ite]
    split_ifs with hu
    · rfl
    · exact Option.or_none

theorem Bounded.find?_after {c : Correlator} (h : c.Bounded) (hl : c.issued < Token.limit) :
    c.Fresh := by
  unfold Fresh
  cases hf : c.find? (.after c.issued) with
  | none => rfl
  | some p =>
    have := h _ _ hf
    rw [Token.toNat_after hl] at this
    omega

/-- A token that is given out and given back leaves nothing behind. -/
theorem find?_discard_issue {c c' : Correlator} {p : Pending} {t : Token} (hb : c.Bounded)
    (hl : c.issued < Token.limit) (h : c.issue p = .ok (t, c')) (u : Token) :
    (c'.discard t).find? u = c.find? u := by
  obtain ⟨rfl, -, -, hf⟩ := issue_eq_ok h
  rw [find?_discard, hf]
  split_ifs with hu
  · rw [hu, hb.find?_after hl]
  · rfl

theorem table_issue {c c' : Correlator} {p : Pending} {t : Token}
    (hnew : c.Fresh) (h : c.issue p = .ok (t, c')) :
    c'.table = c.table ++ [(t, p)] := by
  unfold issue at h
  split at h
  · cases h
  · cases h
    exact congrArg (· ++ _) (Lists.filter_ne_of_lookup hnew)

theorem table_discard_issue {c c' : Correlator} {p : Pending} {t : Token}
    (hnew : c.Fresh) (h : c.issue p = .ok (t, c')) :
    (c'.discard t).table = c.table := by
  have ht := (issue_eq_ok h).1
  subst ht
  change c'.table.filter (·.1 ≠ .after c.issued) = c.table
  rw [table_issue hnew h, List.filter_append, Lists.filter_ne_of_lookup hnew]
  simp

theorem issue_eq_error {c : Correlator} {p : Pending} {e : BridgeError} (h : c.issue p = .error e) :
    e = .tooManyPending c.capacity := by
  unfold issue at h
  split at h
  · cases h
    rfl
  · cases h

end Correlator

end KnxIoT
