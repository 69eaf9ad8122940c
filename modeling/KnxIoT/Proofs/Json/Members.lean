import KnxIoT.Json
import Mathlib.Data.List.Induction
import Mathlib.Tactic.Common
import Mathlib.Tactic.SplitIfs

/-! # The members of an object

`collect` adds members one after the other. The keys of the result are `Ascending`, and under a key
stands the last value that was added under it (`mem_collect_iff`). If no key comes twice, nothing is
lost (`collect_perm`) and the order of adding does not matter (`collect_congr`). -/

namespace KnxIoT.Json

/-- The keys are in strict order. -/
def Ascending (ms : List (String × Json)) : Prop := ms.Pairwise fun m m' => m.1 < m'.1

/-- The members of an object to which the given ones are added in turn. -/
def collect (es : List (String × Json)) : List (String × Json) :=
  es.foldl (fun ms e => insert e.1 e.2 ms) []

variable {k key : String} {v value : Json} {m : String × Json} {ms es fs : List (String × Json)}

theorem lt_of_ne_of_not_lt {s t : String} (hne : s ≠ t) (h : ¬ s < t) : t < s := by
  by_contra hts
  exact hne (String.le_antisymm (String.not_lt.mp hts) (String.not_lt.mp h))

/-! ### One member -/

theorem insert_of_lt (h : key < k) :
    insert key value ((k, v) :: ms) = (key, value) :: (k, v) :: ms := by
  have hne : key ≠ k := fun heq => String.lt_irrefl key (heq ▸ h)
  rw [insert, if_neg hne, if_pos h]

theorem insert_of_gt (h : k < key) :
    insert key value ((k, v) :: ms) = (k, v) :: insert key value ms := by
  have hne : key ≠ k := fun heq => String.lt_irrefl k (heq ▸ h)
  have hle : ¬ key < k := fun hlt => String.lt_irrefl key (String.lt_trans hlt h)
  rw [insert, if_neg hne, if_neg hle]

theorem eq_or_mem_of_mem_insert (h : m ∈ insert key value ms) : m = (key, value) ∨ m ∈ ms := by
  induction ms with
  | nil => exact .inl (List.mem_singleton.mp h)
  | cons m' ms ih =>
    unfold insert at h
    split_ifs at h with heq hlt
    · rcases List.mem_cons.mp h with rfl | h
      · exact .inl (by rw [heq])
      · exact .inr (List.mem_cons_of_mem _ h)
    · exact List.mem_cons.mp h
    · rcases List.mem_cons.mp h with rfl | h
      · exact .inr List.mem_cons_self
      · exact (ih h).imp_right (List.mem_cons_of_mem _)

theorem Ascending.insert (h : Ascending ms) (key : String) (value : Json) :
    Ascending (Json.insert key value ms) := by
  induction ms with
  | nil => exact List.pairwise_singleton _ _
  | cons m ms ih =>
    obtain ⟨hhead, htail⟩ := List.pairwise_cons.mp h
    unfold Json.insert
    split_ifs with heq hlt
    · exact List.pairwise_cons.mpr ⟨hhead, htail⟩
    · refine List.pairwise_cons.mpr ⟨fun m' hm' => ?_, h⟩
      rcases List.mem_cons.mp hm' with rfl | hm'
      · exact hlt
      · exact String.lt_trans hlt (hhead m' hm')
    · refine List.pairwise_cons.mpr ⟨fun m' hm' => ?_, ih htail⟩
      rcases eq_or_mem_of_mem_insert hm' with rfl | hm'
      · exact lt_of_ne_of_not_lt heq hlt
      · exact hhead m' hm'

theorem mem_insert_self (key : String) (value : Json) (ms : List (String × Json)) :
    (key, value) ∈ insert key value ms := by
  induction ms with
  | nil => exact List.mem_singleton_self _
  | cons m ms ih =>
    unfold insert
    split_ifs with heq hlt
    · rw [heq]
      exact List.mem_cons_self
    · exact List.mem_cons_self
    · exact List.mem_cons_of_mem _ ih

theorem mem_insert_of_ne (hne : k ≠ key) : (k, v) ∈ insert key value ms ↔ (k, v) ∈ ms := by
  have hnew : ∀ value' : Json, (k, v) ≠ (key, value') := fun _ h => hne (Prod.mk.inj h).1
  induction ms with
  | nil => simp [insert, hne]
  | cons m ms ih =>
    unfold insert
    split_ifs with heq hlt
    · obtain ⟨key', value'⟩ := m
      obtain rfl : key = key' := heq
      rw [List.mem_cons, List.mem_cons, or_iff_right (hnew _), or_iff_right (hnew _)]
    · rw [List.mem_cons, or_iff_right (hnew _)]
    · rw [List.mem_cons, List.mem_cons]
      exact or_congr_right ih

theorem insert_perm (h : ∀ m ∈ ms, m.1 ≠ key) :
    (insert key value ms).Perm ((key, value) :: ms) := by
  induction ms with
  | nil => exact .refl _
  | cons m ms ih =>
    have hne : key ≠ m.1 := fun heq => h m List.mem_cons_self heq.symm
    have htail := ih fun m' hm' => h m' (List.mem_cons_of_mem _ hm')
    unfold insert
    rw [if_neg hne]
    split_ifs with hlt
    · exact .refl _
    · exact (htail.cons _).trans (.swap _ _ _)

theorem Ascending.eq_of_mem (h : Ascending ms) (hv : (k, v) ∈ ms) (hvalue : (k, value) ∈ ms) :
    v = value := by
  induction ms with
  | nil => cases hv
  | cons m ms ih =>
    obtain ⟨hhead, htail⟩ := List.pairwise_cons.mp h
    rcases List.mem_cons.mp hv with heq | hv' <;> rcases List.mem_cons.mp hvalue with heq' | hvalue'
    · rw [← heq'] at heq
      exact (Prod.mk.inj heq).2
    · subst heq
      exact absurd (hhead _ hvalue') (String.lt_irrefl k)
    · subst heq'
      exact absurd (hhead _ hv') (String.lt_irrefl k)
    · exact ih htail hv' hvalue'

/-! ### One after the other -/

theorem collect_concat (es : List (String × Json)) (e : String × Json) :
    collect (es ++ [e]) = insert e.1 e.2 (collect es) :=
  List.foldl_append ..

/-- **The keys are in order.** -/
theorem ascending_collect (es : List (String × Json)) : Ascending (collect es) := by
  induction es using List.reverseRecOn with
  | nil => exact .nil
  | append_singleton es e ih =>
    rw [collect_concat]
    exact ih.insert e.1 e.2

/-- The value is the last one under its key. -/
def LastUnder (es : List (String × Json)) (k : String) (v : Json) : Prop :=
  ∃ front back, es = front ++ (k, v) :: back ∧ ∀ e ∈ back, e.1 ≠ k

theorem lastUnder_concat_iff :
    LastUnder (es ++ [m]) k v ↔ m = (k, v) ∨ m.1 ≠ k ∧ LastUnder es k v := by
  constructor
  · rintro ⟨front, back, heq, hback⟩
    rcases back.eq_nil_or_concat with rfl | ⟨back, m', rfl⟩
    · obtain ⟨-, hm⟩ := List.append_inj' heq rfl
      exact .inl (List.cons.inj hm).1
    · rw [List.concat_eq_append, ← List.cons_append, ← List.append_assoc] at heq
      obtain ⟨rfl, hm⟩ := List.append_inj' heq rfl
      obtain rfl := (List.cons.inj hm).1
      exact .inr ⟨hback m (by simp), front, back, rfl, fun e he => hback e (by simp [he])⟩
  · rintro (rfl | ⟨hne, front, back, rfl, hback⟩)
    · exact ⟨es, [], rfl, fun _ he => nomatch he⟩
    · refine ⟨front, back ++ [m], by simp, fun e he => ?_⟩
      rcases List.mem_append.mp he with he | he
      · exact hback e he
      · rwa [List.mem_singleton.mp he]

/-- **Under each key stands the last value** that was added under it. -/
theorem mem_collect_iff : (k, v) ∈ collect es ↔ LastUnder es k v := by
  induction es using List.reverseRecOn with
  | nil =>
    constructor
    · exact fun h => nomatch h
    · rintro ⟨front, back, heq, -⟩
      exact absurd heq.symm (by simp)
  | append_singleton es e ih =>
    obtain ⟨key, value⟩ := e
    rw [collect_concat, lastUnder_concat_iff, Prod.mk.injEq]
    by_cases hk : k = key
    · subst hk
      have hmem := mem_insert_self k value (collect es)
      have hasc := (ascending_collect es).insert k value
      constructor
      · intro h
        exact .inl ⟨rfl, hasc.eq_of_mem hmem h⟩
      · rintro (⟨-, rfl⟩ | ⟨hne, -⟩)
        · exact hmem
        · exact absurd rfl hne
    · have hne : key ≠ k := Ne.symm hk
      rw [mem_insert_of_ne hk, ih, and_iff_right hne, or_iff_right fun h => hne h.1]

theorem mem_of_mem_collect (h : m ∈ collect es) : m ∈ es := by
  obtain ⟨front, back, rfl, -⟩ := mem_collect_iff.mp h
  exact List.mem_append_right _ List.mem_cons_self

/-- **Nothing is lost** if no key comes twice. -/
theorem collect_perm (h : (es.map Prod.fst).Nodup) : (collect es).Perm es := by
  induction es using List.reverseRecOn with
  | nil => exact .refl _
  | append_singleton es e ih =>
    rw [List.map_append, List.nodup_append] at h
    obtain ⟨hes, -, hne⟩ := h
    have hperm := ih hes
    rw [collect_concat]
    refine (insert_perm fun m hm heq => ?_).trans ?_
    · exact hne m.1 (List.mem_map_of_mem (hperm.mem_iff.mp hm)) e.1 (by simp) heq
    · exact (hperm.cons e).trans (List.perm_append_singleton e es).symm

/-- **The order of adding does not matter** if no key comes twice. -/
theorem collect_congr (h : (es.map Prod.fst).Nodup) (hperm : es.Perm fs) :
    collect es = collect fs := by
  have hfs : (fs.map Prod.fst).Nodup := (hperm.map Prod.fst).nodup_iff.mp h
  refine List.Perm.eq_of_pairwise (fun m m' _ _ hlt hlt' => ?_) (ascending_collect es)
    (ascending_collect fs) (((collect_perm h).trans hperm).trans (collect_perm hfs).symm)
  exact absurd (String.lt_trans hlt hlt') (String.lt_irrefl _)

end KnxIoT.Json
