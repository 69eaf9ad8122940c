import KnxIoT.LinkFormat
import Mathlib.Tactic.Common

/-! # Link format: the scan

A text is scanned character by character, and its pieces are glued together as its parts are:
`splitFrom_append` says how the pieces of `a ++ b` come from those of `a` and of `b`. A separator
that counts ends a piece (`splitFrom_cut`). A text that is scanned in one piece and leaves the scan
outside of quotes and targets is `Closed`; targets, quoted values and texts without marks are. -/

namespace KnxIoT.LinkFormat

variable {sep : Char → Bool} {s : Scan} {a b : List Char} {c : Char}

namespace Scan

theorem run_append (s : Scan) (a b : List Char) : s.run (a ++ b) = (s.run a).run b :=
  List.foldl_append

theorem run_cons (s : Scan) (c : Char) (cs : List Char) : s.run (c :: cs) = (s.step c).run cs := rfl

theorem step_of_cuts (h : s.cuts sep c = true) : s.step c = s := by
  simp only [cuts, Bool.and_eq_true, bne_iff_ne] at h
  obtain ⟨⟨⟨⟨-, hquote⟩, hopen⟩, hclose⟩, -⟩ := h
  unfold step
  rw [if_neg hquote, if_neg hopen, if_neg hclose, ite_self]

theorem cuts_eq_false (h : sep c = false) : s.cuts sep c = false := by
  simp [cuts, h]

theorem step_of_ne (hquote : c ≠ '"') (hopen : c ≠ '<') (hclose : c ≠ '>') : s.step c = s := by
  unfold step
  rw [if_neg hquote, if_neg hopen, if_neg hclose, ite_self]

end Scan

/-! ### Pieces of a text that is put together -/

theorem splitFrom_cons_of_cuts (h : s.cuts sep c = true) (cs : List Char) :
    splitFrom sep s (c :: cs) = [] :: splitFrom sep s cs := by
  rw [splitFrom, if_pos h]

theorem splitFrom_cons (h : s.cuts sep c = false) {cs p : List Char} {ps : List (List Char)}
    (hp : splitFrom sep (s.step c) cs = p :: ps) :
    splitFrom sep s (c :: cs) = (c :: p) :: ps := by
  rw [splitFrom, if_neg (by simp [h]), hp]

/-- **The pieces of two texts are glued together** where the texts meet. -/
theorem splitFrom_append (sep : Char → Bool) (s : Scan) (a b : List Char) :
    ∃ ps p q qs, splitFrom sep s a = ps ++ [p] ∧ splitFrom sep (s.run a) b = q :: qs ∧
      splitFrom sep s (a ++ b) = ps ++ (p ++ q) :: qs := by
  induction a generalizing s with
  | nil =>
    have hb : ∃ q qs, splitFrom sep s b = q :: qs := by
      cases b with
      | nil => exact ⟨[], [], rfl⟩
      | cons d b =>
        unfold splitFrom
        split
        · exact ⟨_, _, rfl⟩
        · split <;> exact ⟨_, _, rfl⟩
    obtain ⟨q, qs, hq⟩ := hb
    exact ⟨[], [], q, qs, rfl, hq, hq⟩
  | cons d a ih =>
    obtain ⟨ps, p, q, qs, hps, hq, hpq⟩ := ih (s.step d)
    rw [Scan.run_cons, List.cons_append]
    cases hd : s.cuts sep d with
    | true =>
      rw [Scan.step_of_cuts hd] at hps hq hpq
      refine ⟨[] :: ps, p, q, qs, ?_, by rw [Scan.step_of_cuts hd]; exact hq, ?_⟩
      · rw [splitFrom_cons_of_cuts hd, hps, List.cons_append]
      · rw [splitFrom_cons_of_cuts hd, hpq, List.cons_append]
    | false =>
      cases ps with
      | nil => exact ⟨[], d :: p, q, qs, splitFrom_cons hd hps, hq, splitFrom_cons hd hpq⟩
      | cons w ws =>
        exact ⟨(d :: w) :: ws, p, q, qs, splitFrom_cons hd hps, hq, splitFrom_cons hd hpq⟩

/-- **A separator that counts** ends a piece and begins another one. -/
theorem splitFrom_cut (h : (s.run a).cuts sep c = true) (b : List Char) :
    splitFrom sep s (a ++ c :: b) = splitFrom sep s a ++ splitFrom sep (s.run a) b := by
  obtain ⟨ps, p, q, qs, hps, hq, hpq⟩ := splitFrom_append sep s a (c :: b)
  rw [splitFrom_cons_of_cuts h] at hq
  obtain ⟨rfl, rfl⟩ := List.cons_eq_cons.mp hq
  rw [hpq, hps, List.append_nil, List.append_cons]

/-! ### Texts in one piece -/

/-- No separator in the text counts. -/
def Whole (sep : Char → Bool) : Scan → List Char → Prop
  | _, [] => True
  | s, c :: cs => s.cuts sep c = false ∧ Whole sep (s.step c) cs

theorem whole_append : Whole sep s (a ++ b) ↔ Whole sep s a ∧ Whole sep (s.run a) b := by
  induction a generalizing s with
  | nil => exact (true_and (Whole sep s b)).symm.to_iff
  | cons c a ih => rw [List.cons_append, Whole, Whole, ih, and_assoc, Scan.run_cons]

/-- **A text in which no separator counts** is one piece. -/
theorem splitFrom_of_whole (h : Whole sep s a) : splitFrom sep s a = [a] := by
  induction a generalizing s with
  | nil => rfl
  | cons c a ih => exact splitFrom_cons h.1 (ih h.2)

theorem whole_of_idle (h : ∀ c ∈ a, s.step c = s ∧ s.cuts sep c = false) :
    Whole sep s a ∧ s.run a = s := by
  induction a with
  | nil => exact ⟨trivial, rfl⟩
  | cons c a ih =>
    obtain ⟨hstep, hcut⟩ := h c (by simp)
    rw [Whole, Scan.run_cons, hstep]
    obtain ⟨hw, hr⟩ := ih fun d hd => h d (by simp [hd])
    exact ⟨⟨hcut, hw⟩, hr⟩

theorem splitFrom_whole_append (h : Whole sep s a) (b : List Char) :
    ∃ q qs, splitFrom sep (s.run a) b = q :: qs ∧ splitFrom sep s (a ++ b) = (a ++ q) :: qs := by
  obtain ⟨ps, p, q, qs, hps, hq, hpq⟩ := splitFrom_append sep s a b
  rw [splitFrom_of_whole h] at hps
  obtain ⟨rfl, hp⟩ | ⟨ws, rfl, hps⟩ := List.cons_eq_append_iff.mp hps
  · obtain rfl := List.singleton_inj.mp hp
    exact ⟨q, qs, hq, hpq⟩
  · simp at hps

theorem splitFrom_append_whole (a : List Char) (h : Whole sep (s.run a) b) :
    ∃ ps p, splitFrom sep s a = ps ++ [p] ∧ splitFrom sep s (a ++ b) = ps ++ [p ++ b] := by
  obtain ⟨ps, p, q, qs, hps, hq, hpq⟩ := splitFrom_append sep s a b
  rw [splitFrom_of_whole h] at hq
  obtain ⟨rfl, rfl⟩ := List.cons_eq_cons.mp hq
  exact ⟨ps, p, hps, hpq⟩

/-- A text in one piece that ends outside of quotes and targets, if it begins there. -/
structure Closed (sep : Char → Bool) (cs : List Char) : Prop where
  whole : Whole sep .outside cs
  run : Scan.run .outside cs = .outside

namespace Closed

theorem nil : Closed sep [] := ⟨trivial, rfl⟩

theorem append (ha : Closed sep a) (hb : Closed sep b) : Closed sep (a ++ b) where
  whole := whole_append.mpr ⟨ha.whole, by rw [ha.run]; exact hb.whole⟩
  run := by rw [Scan.run_append, ha.run, hb.run]

theorem plain (h : ∀ c ∈ a, sep c = false ∧ c ≠ '"' ∧ c ≠ '<' ∧ c ≠ '>') : Closed sep a := by
  have hidle : ∀ c ∈ a, Scan.step .outside c = .outside ∧ Scan.cuts sep .outside c = false := by
    intro c hc
    obtain ⟨hsep, hquote, hopen, hclose⟩ := h c hc
    exact ⟨Scan.step_of_ne hquote hopen hclose, Scan.cuts_eq_false hsep⟩
  exact ⟨(whole_of_idle hidle).1, (whole_of_idle hidle).2⟩

/-- A text between two characters of which the first begins what the second ends. -/
theorem enclosed {l r : Char} (hl : Scan.step .outside l = s) (hr : s.step r = .outside)
    (hcut : Scan.outside.cuts sep l = false) (hcut' : s.cuts sep r = false)
    (h : ∀ c ∈ a, s.step c = s ∧ s.cuts sep c = false) : Closed sep (l :: a ++ [r]) := by
  obtain ⟨hw, hrun⟩ := whole_of_idle h
  constructor
  · rw [List.cons_append, Whole, hl, whole_append, hrun]
    exact ⟨hcut, hw, hcut', trivial⟩
  · rw [List.cons_append, Scan.run_cons, hl, Scan.run_append, hrun]
    exact hr

theorem quoted (h : '"' ∉ a) : Closed sep ('"' :: a ++ ['"']) := by
  refine enclosed (s := ⟨true, false⟩) rfl rfl (by simp [Scan.cuts]) (by simp [Scan.cuts]) ?_
  intro c hc
  have hne : c ≠ '"' := fun heq => h (heq ▸ hc)
  exact ⟨by simp [Scan.step, hne], by simp [Scan.cuts]⟩

/-- Inside a target only its end has a meaning, as long as there is no quote. -/
theorem target (hquote : '"' ∉ a) (hclose : '>' ∉ a) : Closed sep ('<' :: a ++ ['>']) := by
  refine enclosed (s := ⟨false, true⟩) rfl rfl (by simp [Scan.cuts]) (by simp [Scan.cuts]) ?_
  intro c hc
  have hne : c ≠ '"' := fun heq => hquote (heq ▸ hc)
  have hne' : c ≠ '>' := fun heq => hclose (heq ▸ hc)
  exact ⟨by simp [Scan.step, hne, hne'], by simp [Scan.cuts]⟩

end Closed

/-- **A closed text before a separator** is the first piece. -/
theorem splitTop_closed (h : Closed sep a) (hcut : Scan.outside.cuts sep c = true) (b : List Char) :
    splitTop sep (a ++ c :: b) = a :: splitTop sep b := by
  unfold splitTop
  rw [splitFrom_cut (by rw [h.run]; exact hcut), splitFrom_of_whole h.whole, h.run,
    List.singleton_append]

end KnxIoT.LinkFormat
