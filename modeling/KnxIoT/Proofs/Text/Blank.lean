import KnxIoT.Text.Blank
import Mathlib.Data.List.DropRight
import Mathlib.Data.List.TakeWhile
import Mathlib.Tactic.Common

/-! # Blanks at the ends of a text

Trimming takes off blanks and nothing else (`exists_trim`), so blanks that are added at the ends of
a text do not matter (`trim_append`), and a text that is `Tight` stays as it is (`trim_of_tight`).
At the end of the module it is said what the small readers of texts do: `splitOnce`, `unwrap` and
`dropStart?`. -/

namespace KnxIoT.Text

/-- Nothing but blanks. -/
def AllBlank (g : List Char) : Prop := ∀ c ∈ g, isBlank c = true

/-- No blank at either end. -/
def Tight (cs : List Char) : Prop :=
  (∀ c ∈ cs.head?, isBlank c = false) ∧ ∀ c ∈ cs.getLast?, isBlank c = false

instance (cs : List Char) : Decidable (Tight cs) :=
  @instDecidableAnd _ _ (Option.decidableForallMem _) (Option.decidableForallMem _)

theorem ne_of_isBlank {c d : Char} (hc : isBlank c = true) (hd : isBlank d = false) : c ≠ d := by
  rintro rfl
  rw [hc] at hd
  cases hd

section Trim
variable {g g' a b cs : List Char} {c : Char}

theorem allBlank_nil : AllBlank [] := fun _ hc => nomatch hc

theorem exists_trimEnd (cs : List Char) : ∃ g, AllBlank g ∧ cs = trimEnd cs ++ g :=
  ⟨cs.rtakeWhile isBlank, fun _ => List.mem_rtakeWhile_imp,
    List.rdropWhile_append_rtakeWhile.symm⟩

/-- **Trimming takes off blanks** and nothing else. -/
theorem exists_trim (cs : List Char) :
    ∃ g g', AllBlank g ∧ AllBlank g' ∧ cs = g ++ trim cs ++ g' := by
  obtain ⟨g', hg', heq⟩ := exists_trimEnd (cs.dropWhile isBlank)
  refine ⟨cs.takeWhile isBlank, g', fun _ => List.mem_takeWhile_imp, hg', ?_⟩
  rw [List.append_assoc, trim, ← heq, List.takeWhile_append_dropWhile]

theorem trimEnd_append_blank (h : AllBlank g) (cs : List Char) : trimEnd (cs ++ g) = trimEnd cs := by
  unfold trimEnd
  rw [List.reverse_append, List.dropWhile_append_of_pos fun c hc => h c (List.mem_reverse.mp hc)]

theorem trimEnd_append (hc : isBlank c = false) (a b : List Char) :
    trimEnd (a ++ c :: b) = a ++ c :: trimEnd b := by
  unfold trimEnd
  rw [List.reverse_append, List.reverse_cons, List.append_assoc, List.dropWhile_append]
  split_ifs with h
  · simp [List.isEmpty_iff.mp h, hc]
  · simp

/-- **Blanks at the ends do not matter.** -/
theorem trim_append (h : AllBlank g) (h' : AllBlank g') (cs : List Char) :
    trim (g ++ cs ++ g') = trim cs := by
  unfold trim
  rw [List.append_assoc, List.dropWhile_append_of_pos h, List.dropWhile_append]
  split_ifs with hnil
  · rw [List.isEmpty_iff.mp hnil, List.dropWhile_eq_nil_iff.mpr h']
  · exact trimEnd_append_blank h' _

theorem trim_blank_append (h : AllBlank g) (cs : List Char) : trim (g ++ cs) = trim cs := by
  simpa using trim_append h allBlank_nil cs

theorem trim_append_blank (h : AllBlank g) (cs : List Char) : trim (cs ++ g) = trim cs := by
  simpa using trim_append allBlank_nil h cs

theorem trim_of_allBlank (h : AllBlank g) : trim g = [] := by
  exact trim_append_blank h []

theorem trim_trimEnd (cs : List Char) : trim (trimEnd cs) = trim cs := by
  obtain ⟨g, hg, heq⟩ := exists_trimEnd cs
  conv_rhs => rw [heq, trim_append_blank hg]

theorem trim_cons (hc : isBlank c = false) (cs : List Char) : trim (c :: cs) = c :: trimEnd cs := by
  rw [trim, List.dropWhile_cons_of_neg (by simp [hc])]
  exact trimEnd_append hc [] cs

/-- **A text without blanks at its ends** stays as it is. -/
theorem trim_of_tight (h : Tight cs) : trim cs = cs := by
  cases cs with
  | nil => rfl
  | cons c cs =>
    have hhead : isBlank c = false := h.1 c rfl
    have hend : trimEnd (c :: cs) = c :: cs :=
      List.rdropWhile_eq_self_iff.mpr fun hne => by
        simp [h.2 _ (List.getLast?_eq_some_getLast hne)]
    rw [trim, List.dropWhile_cons_of_neg (by simp [hhead]), hend]

theorem tight_enclosed {l r : Char} (hl : isBlank l = false) (hr : isBlank r = false)
    (a : List Char) : Tight (l :: a ++ [r]) := by
  constructor
  · rintro c ⟨⟩
    exact hl
  · rw [List.getLast?_append]
    rintro c ⟨⟩
    exact hr

end Trim

section Readers
variable {a b : List Char} {c l r : Char}

/-- **A text is split at the first** character that is looked for. -/
theorem splitOnce_append (h : c ∉ a) (b : List Char) : splitOnce c (a ++ c :: b) = some (a, b) := by
  induction a with
  | nil => rw [List.nil_append, splitOnce, if_pos rfl]
  | cons d a ih =>
    have hd : c ≠ d := List.ne_of_not_mem_cons h
    rw [List.cons_append, splitOnce, if_neg hd.symm, ih (List.not_mem_of_not_mem_cons h)]
    rfl

theorem splitOnce_eq_none (h : c ∉ a) : splitOnce c a = none := by
  induction a with
  | nil => rfl
  | cons d a ih =>
    have hd : c ≠ d := List.ne_of_not_mem_cons h
    rw [splitOnce, if_neg hd.symm, ih (List.not_mem_of_not_mem_cons h)]
    rfl

/-- **What stands between two characters** is unwrapped. -/
theorem unwrap_append (l r : Char) (a : List Char) : unwrap l r (l :: a ++ [r]) = a := by
  simp [unwrap, dropLast?]

theorem unwrap_of_ne (h : ∀ c ∈ a.head?, c ≠ l) : unwrap l r a = a := by
  cases a with
  | nil => rfl
  | cons c a =>
    have hc : c ≠ l := h c rfl
    rw [unwrap, if_neg hc]

/-- **A beginning is taken off** if the text has it. -/
theorem dropStart?_eq_some_iff {p cs rest : List Char} :
    dropStart? p cs = some rest ↔ cs = p ++ rest := by
  induction p generalizing cs with
  | nil => simp [dropStart?]
  | cons a p ih =>
    cases cs with
    | nil => simp [dropStart?]
    | cons c cs =>
      rw [dropStart?]
      split_ifs with h
      · rw [ih, h, List.cons_append, List.cons.injEq]
        simp
      · simp [Ne.symm h]

end Readers

end KnxIoT.Text
