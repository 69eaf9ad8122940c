import Mathlib.Data.List.Induction
import Mathlib.Tactic.Common

/-! # Lists

Facts about lists of any type: what stands where in a list, lists with their repetitions taken out,
the longest beginning with a property, and tables of keys and values. -/

namespace KnxIoT.Lists

variable {α β : Type}

/-! ### Positions -/

section Positions
variable {l pre post : List α} {x y : α} {i : ℕ}

theorem getElem?_concat_of_ne (h : (l ++ [x])[i]? = some y) (hi : i ≠ l.length) :
    l[i]? = some y := by
  rcases Nat.lt_or_ge i l.length with hlt | hge
  · rwa [List.getElem?_append_left hlt] at h
  · rw [List.getElem?_append_right hge, List.getElem?_eq_none (by simp; omega)] at h
    cases h

theorem eq_of_concat_eq (h : l ++ [x] = pre ++ y :: post) (hy : y ∉ l) : pre = l ∧ y = x := by
  rcases List.append_eq_append_iff.mp h with ⟨as, rfl, has⟩ | ⟨bs, rfl, hbs⟩
  · cases as with
    | nil =>
      simp only [List.nil_append, List.cons.injEq] at has
      exact ⟨by simp, has.1.symm⟩
    | cons z as => simp at has
  · cases bs with
    | nil =>
      simp only [List.nil_append, List.cons.injEq] at hbs
      exact ⟨by simp, hbs.1⟩
    | cons z bs =>
      obtain rfl := (List.cons.inj hbs).1
      exact absurd (by simp) hy

theorem exists_cons_of_ne (hxy : x ≠ y) (h : x :: l = pre ++ y :: post) :
    ∃ pre', pre = x :: pre' ∧ l = pre' ++ y :: post := by
  rcases List.cons_eq_append_iff.mp h with ⟨-, hl⟩ | ⟨pre', hpre, hl⟩
  · exact absurd (List.cons_eq_cons.mp hl).1.symm hxy
  · exact ⟨pre', hpre, hl⟩

theorem eq_take_append_cons_drop (h : l[i]? = some x) : l = l.take i ++ x :: l.drop (i + 1) := by
  obtain ⟨hlt, rfl⟩ := List.getElem?_eq_some_iff.mp h
  rw [← List.drop_eq_getElem_cons hlt, List.take_append_drop]

end Positions

/-- If `R` and then `s` are nothing first and then the names of the elements of `L`, each of these
names is `s`, or stands in `R` exactly once, and later than its element in `L`. -/
theorem once_of_shift {f : α → β} {L : List α} {R : List (Option β)} {s : Option β}
    (hshift : R ++ [s] = none :: L.map fun i => some (f i)) (hf : (L.map f).Nodup) {k : ℕ} {i : α}
    (hk : L[k]? = some i) :
    (s = some (f i) ∧ ∀ j : ℕ, R[j]? ≠ some (some (f i))) ∨
      (s ≠ some (f i) ∧ ∃ j > k, ∀ j' : ℕ, R[j']? = some (some (f i)) ↔ j' = j) := by
  have hlength : R.length = L.length := by simpa using congrArg List.length hshift
  have hkl : k < L.length := (List.getElem?_eq_some_iff.mp hk).1
  -- the name of `i` stands at one place in all
  have hplace : ∀ j, (R ++ [s])[j]? = some (some (f i)) ↔ j = k + 1 := by
    intro j
    rw [hshift]
    cases j with
    | zero => simp
    | succ j =>
      rw [List.getElem?_cons_succ, List.getElem?_map, Nat.succ_inj]
      constructor
      · intro hj
        obtain ⟨i', hi', hname⟩ := Option.map_eq_some_iff.mp hj
        have hkf : k < (L.map f).length := by rwa [List.length_map]
        refine ((List.getElem?_inj hkf hf).mp ?_).symm
        rw [List.getElem?_map, List.getElem?_map, hk, hi', Option.map_some, Option.map_some,
          Option.some.inj hname]
      · rintro rfl
        rw [hk, Option.map_some]
  have hleft : ∀ {j}, j < R.length → (R ++ [s])[j]? = R[j]? := List.getElem?_append_left
  have hlt : ∀ {j : ℕ}, R[j]? = some (some (f i)) → j < R.length := fun hj =>
    (List.getElem?_eq_some_iff.mp hj).1
  have hlast : (R ++ [s])[R.length]? = some s := List.getElem?_concat_length
  rcases Nat.lt_or_ge (k + 1) R.length with hk1 | hk1
  · refine Or.inr ⟨fun hs => ?_, k + 1, Nat.lt_succ_self k, fun j => ⟨fun hj => ?_, ?_⟩⟩
    · have := (hplace R.length).mp (by rw [hlast, hs])
      omega
    · exact (hplace j).mp (by rw [hleft (hlt hj), hj])
    · rintro rfl
      rw [← hleft hk1]
      exact (hplace _).mpr rfl
  · have hend : k + 1 = R.length := by omega
    refine Or.inl ⟨?_, fun j hj => ?_⟩
    · have := (hplace (k + 1)).mpr rfl
      rw [hend, hlast] at this
      exact Option.some.inj this
    · have := (hplace j).mp (by rw [hleft (hlt hj), hj])
      have := hlt hj
      omega

/-! ### Repetitions -/

section Repetitions
variable [DecidableEq α]

theorem eraseDups_concat (l : List α) (a : α) :
    (l ++ [a]).eraseDups = if a ∈ l then l.eraseDups else l.eraseDups ++ [a] := by
  rw [List.eraseDups_append]
  by_cases h : a ∈ l
  · simp [List.removeAll, h]
  · simp [List.removeAll, h, List.eraseDups_cons]

theorem nodup_eraseDups (l : List α) : l.eraseDups.Nodup := by
  induction l using List.reverseRecOn with
  | nil => simp
  | append_singleton l a ih =>
    rw [eraseDups_concat]
    split_ifs with h
    · exact ih
    · rw [List.nodup_append]
      refine ⟨ih, List.pairwise_singleton _ a, fun b hb c hc => ?_⟩
      rw [List.mem_singleton.mp hc]
      rintro rfl
      exact h (List.mem_eraseDups.mp hb)

end Repetitions

/-! ### Beginnings -/

theorem mem_takeWhile_mono {p q : α → Bool} (hpq : ∀ y, p y = true → q y = true) {y : α}
    {l : List α} (hy : y ∈ l.takeWhile p) : y ∈ l.takeWhile q := by
  induction l with
  | nil => exact hy
  | cons z l ih =>
    rw [List.takeWhile_cons] at hy ⊢
    split_ifs at hy with hz
    · rw [if_pos (hpq z hz)]
      rcases List.mem_cons.mp hy with rfl | hy
      · exact List.mem_cons_self
      · exact List.mem_cons_of_mem z (ih hy)
    · cases hy

theorem span_append {p : α → Bool} {t rest : List α} (ht : ∀ c ∈ t, p c = true)
    (hrest : ∀ c ∈ rest.head?, p c = false) :
    (t ++ rest).takeWhile p = t ∧ (t ++ rest).dropWhile p = rest := by
  rw [List.takeWhile_append_of_pos ht, List.dropWhile_append_of_pos ht]
  cases rest with
  | nil => exact ⟨List.append_nil t, rfl⟩
  | cons c rest =>
    have hc : ¬ p c = true := by simp [hrest c rfl]
    rw [List.takeWhile_cons_of_neg hc, List.dropWhile_cons_of_neg hc]
    exact ⟨List.append_nil t, rfl⟩

/-! ### Lists of lists, and of options -/

theorem mem_intercalate {sep : List α} {ws : List (List α)} {c : α}
    (h : c ∈ sep.intercalate ws) : c ∈ sep ∨ ∃ w ∈ ws, c ∈ w := by
  induction ws with
  | nil => cases h
  | cons w ws ih =>
    cases ws with
    | nil =>
      rw [List.intercalate_singleton] at h
      exact Or.inr ⟨w, by simp, h⟩
    | cons v ws =>
      rw [List.intercalate_cons_cons, List.mem_append, List.mem_append] at h
      rcases h with (h | h) | h
      · exact Or.inr ⟨w, by simp, h⟩
      · exact Or.inl h
      · exact (ih h).imp_right fun ⟨u, hu, hc⟩ => ⟨u, List.mem_cons_of_mem w hu, hc⟩

theorem mapM_id_eq_some_iff {l : List (Option α)} {r : List α} :
    l.mapM id = some r ↔ l = r.map some := by
  induction l generalizing r with
  | nil => cases r <;> simp
  | cons x l ih =>
    rw [List.mapM_cons]
    cases x with
    | none => cases r <;> simp
    | some a =>
      cases r with
      | nil => simp [Option.bind_eq_some_iff]
      | cons b r => simp [Option.bind_eq_some_iff, ih, and_comm]

/-! ### Tables -/

section Lookup
variable [DecidableEq α] {k : α} {v : β} {l : List (α × β)}

theorem lookup_cons_ite (u k : α) (v : β) (l : List (α × β)) :
    ((k, v) :: l).lookup u = if u = k then some v else l.lookup u := by
  rw [List.lookup_cons]
  by_cases h : u = k
  · simp [h]
  · rw [beq_false_of_ne h, if_neg h]

theorem lookup_filter_ne (k u : α) : ∀ l : List (α × β),
    (l.filter (·.1 ≠ k)).lookup u = if u = k then none else l.lookup u
  | [] => by simp
  | (k', v) :: l => by
    have ih := lookup_filter_ne k u l
    by_cases hk : k' = k
    · subst hk
      rw [List.filter_cons_of_neg (by simp), ih, lookup_cons_ite]
      split_ifs <;> rfl
    · rw [List.filter_cons_of_pos (by simpa using hk), lookup_cons_ite, lookup_cons_ite, ih]
      by_cases hu : u = k'
      · subst hu; rw [if_pos rfl, if_pos rfl, if_neg hk]
      · rw [if_neg hu, if_neg hu]

theorem filter_ne_of_lookup (h : l.lookup k = none) : l.filter (·.1 ≠ k) = l := by
  refine List.filter_eq_self.mpr fun x hx => ?_
  have hx := List.lookup_eq_none_iff.mp h x hx
  exact decide_eq_true (Ne.symm (by simpa using hx))

theorem lookup_eq_some_iff_mem (hn : (l.map (·.1)).Nodup) : l.lookup k = some v ↔ (k, v) ∈ l := by
  induction l with
  | nil => simp
  | cons e l ih =>
    obtain ⟨k', v'⟩ := e
    rw [List.map_cons, List.nodup_cons] at hn
    rw [lookup_cons_ite, List.mem_cons, Prod.mk.injEq]
    split_ifs with h
    · subst h
      have hnot : (k, v) ∉ l := fun hm => hn.1 (List.mem_map.mpr ⟨_, hm, rfl⟩)
      simp [hnot, eq_comm]
    · simp [h, ih hn.2]

theorem perm_of_lookup (hn : (l.map (·.1)).Nodup) (h : l.lookup k = some v) :
    ((k, v) :: l.filter (·.1 ≠ k)).Perm l := by
  induction l with
  | nil => cases h
  | cons e l ih =>
    obtain ⟨k', v'⟩ := e
    rw [List.map_cons, List.nodup_cons] at hn
    rw [lookup_cons_ite] at h
    split_ifs at h with hk
    · obtain rfl := Option.some.inj h
      subst hk
      have hnone : l.lookup k = none := by
        rw [Option.eq_none_iff_forall_ne_some]
        intro v' hv'
        exact hn.1 (List.mem_map.mpr ⟨_, (lookup_eq_some_iff_mem hn.2).mp hv', rfl⟩)
      rw [List.filter_cons_of_neg (by simp), filter_ne_of_lookup hnone]
    · rw [List.filter_cons_of_pos (by simpa using Ne.symm hk)]
      exact (List.Perm.swap _ _ _).trans ((ih hn.2 h).cons _)

end Lookup

end KnxIoT.Lists
