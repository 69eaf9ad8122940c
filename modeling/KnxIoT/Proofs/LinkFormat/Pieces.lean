import KnxIoT.Proofs.LinkFormat.Scan
import Mathlib.Data.List.Basic

/-! # Link format: cutting loses nothing

A text is cut at some of its positions, which lie between characters whatever the number of their
bytes. `IsCut` says at which: where a separator is met while the scan is outside of quotes and
targets. `Pieces` says what is left when one character is taken out at each of them. The pieces that
`splitTop` gives are those for the positions that are cuts (`exists_cuts`), they give the text back
when the characters are put in again (`Pieces.rejoin_eq`), and each of them is in one
piece (`splitTop_piece`); `splitTop_lossless` puts this together. -/

namespace KnxIoT.LinkFormat

variable {sep : Char → Bool} {s : Scan} {c : Char} {cs w : List Char}

/-! ### Pieces are whole -/

theorem Scan.cuts_iff (hsep : ∀ c ∈ ['"', '<', '>'], sep c = false) :
    s.cuts sep c = true ↔ s = .outside ∧ sep c = true := by
  obtain ⟨quoted, target⟩ := s
  simp only [Scan.cuts, Scan.outside, Bool.and_eq_true, Bool.not_eq_true', bne_iff_ne, mk.injEq]
  constructor
  · rintro ⟨⟨⟨⟨⟨hquoted, htarget⟩, -⟩, -⟩, -⟩, hc⟩
    exact ⟨⟨hquoted, htarget⟩, hc⟩
  · rintro ⟨⟨hquoted, htarget⟩, hc⟩
    have hne : ∀ d ∈ ['"', '<', '>'], c ≠ d := by
      rintro d hd rfl
      rw [hsep c hd] at hc
      cases hc
    exact ⟨⟨⟨⟨⟨hquoted, htarget⟩, hne _ (by simp)⟩, hne _ (by simp)⟩, hne _ (by simp)⟩, hc⟩

theorem Scan.eq_outside_of_cuts (h : s.cuts sep c = true) : s = .outside := by
  obtain ⟨quoted, target⟩ := s
  simp only [Scan.cuts, Bool.and_eq_true, Bool.not_eq_true'] at h
  obtain ⟨⟨⟨⟨⟨rfl, rfl⟩, -⟩, -⟩, -⟩, -⟩ := h
  rfl

theorem splitFrom_ne_nil (sep : Char → Bool) (s : Scan) (cs : List Char) :
    splitFrom sep s cs ≠ [] := by
  obtain ⟨ps, p, -, -, hps, -⟩ := splitFrom_append sep s cs []
  rw [hps]
  simp

/-- No separator in a piece counts; only the first piece begins where the scan does. -/
theorem whole_of_splitFrom {ws : List (List Char)} (h : splitFrom sep s cs = w :: ws) :
    Whole sep s w ∧ ∀ v ∈ ws, Whole sep .outside v := by
  induction cs generalizing s w ws with
  | nil =>
    obtain ⟨rfl, rfl⟩ := List.cons_eq_cons.mp h
    exact ⟨trivial, by simp⟩
  | cons c cs ih =>
    cases hcut : s.cuts sep c with
    | true =>
      rw [splitFrom_cons_of_cuts hcut] at h
      obtain ⟨rfl, rfl⟩ := List.cons_eq_cons.mp h
      obtain ⟨v, vs, hvs⟩ := List.exists_cons_of_ne_nil (splitFrom_ne_nil sep s cs)
      obtain ⟨hv, hrest⟩ := ih hvs
      rw [Scan.eq_outside_of_cuts hcut] at hv
      refine ⟨trivial, ?_⟩
      rw [hvs]
      exact List.forall_mem_cons.mpr ⟨hv, hrest⟩
    | false =>
      obtain ⟨v, vs, hvs⟩ := List.exists_cons_of_ne_nil (splitFrom_ne_nil sep (s.step c) cs)
      rw [splitFrom_cons hcut hvs] at h
      obtain ⟨rfl, rfl⟩ := List.cons_eq_cons.mp h
      obtain ⟨hv, hrest⟩ := ih hvs
      exact ⟨⟨hcut, hv⟩, hrest⟩

/-- **A piece is in one piece.** -/
theorem splitTop_piece (hw : w ∈ splitTop sep cs) : splitTop sep w = [w] := by
  obtain ⟨v, vs, hvs⟩ := List.exists_cons_of_ne_nil (splitFrom_ne_nil sep .outside cs)
  obtain ⟨hv, hrest⟩ := whole_of_splitFrom hvs
  unfold splitTop at hw ⊢
  rw [hvs] at hw
  rcases List.mem_cons.mp hw with rfl | hw
  · exact splitFrom_of_whole hv
  · exact splitFrom_of_whole (hrest w hw)

/-! ### Positions in a text -/

section Positions
variable {text : String} {p q : text.Pos} {a b : String}

theorem extract_eq_copy (h : p ≤ q) : text.extract p q = (text.slice p q h).copy := by
  rw [String.Slice.copy]
  simp

theorem extract_self (p : text.Pos) : text.extract p p = "" := by
  rw [extract_eq_copy (Std.le_refl p), String.copy_slice_self]

theorem extract_startPos_endPos (text : String) :
    text.extract text.startPos text.endPos = text := by
  apply String.toByteArray_inj.mp
  rw [String.toByteArray_extract]
  exact ByteArray.extract_zero_size

theorem extract_append_extract {r : text.Pos} (hpq : p ≤ q) (hqr : q ≤ r) :
    text.extract p q ++ text.extract q r = text.extract p r := by
  apply String.toByteArray_inj.mp
  rw [String.toByteArray_append, String.toByteArray_extract, String.toByteArray_extract,
    String.toByteArray_extract, ← ByteArray.extract_eq_extract_append_extract _ hpq hqr]

theorem le_iff_next_le (hp : p ≠ text.endPos) : p ≤ q ↔ q = p ∨ p.next hp ≤ q := by
  rw [String.Pos.next_le_iff_lt]
  constructor
  · intro hle
    by_cases heq : q = p
    · exact .inl heq
    · exact .inr (Std.lt_of_le_of_ne hle (Ne.symm heq))
  · rintro (rfl | hlt)
    · exact Std.le_refl q
    · exact Std.le_of_lt hlt

theorem extract_of_lt (h : p < q) :
    text.extract p q = String.singleton (p.get (String.Pos.ne_endPos_of_lt h)) ++
      text.extract (p.next (String.Pos.ne_endPos_of_lt h)) q := by
  rw [extract_eq_copy (Std.le_of_lt h), String.copy_slice_eq_append_of_lt h,
    extract_eq_copy (String.Pos.next_le_iff_lt.mpr h)]

/-- **A separator is met** at the position, while the scan is outside of quotes and targets. -/
def IsCut (sep : Char → Bool) (p : text.Pos) : Prop :=
  ∃ h : p ≠ text.endPos, sep (p.get h) = true ∧
    Scan.run .outside (text.sliceTo p).copy.toList = .outside

theorem isCut_iff (h : p.Splits a (String.singleton c ++ b)) :
    IsCut sep p ↔ Scan.run .outside a.toList = .outside ∧ sep c = true := by
  have hget : p.get h.ne_endPos_of_singleton = c := h.next.get_eq_of_singleton
  unfold IsCut
  rw [h.copy_sliceTo_eq]
  constructor
  · rintro ⟨_, hc, hrun⟩
    exact ⟨hrun, hget ▸ hc⟩
  · rintro ⟨hrun, hc⟩
    exact ⟨h.ne_endPos_of_singleton, hget.symm ▸ hc, hrun⟩

/-- **The pieces of a text** from a position on, when the character at each of the given positions
is left out. -/
inductive Pieces {text : String} : text.Pos → List text.Pos → List String → Prop
  | last (p : text.Pos) : Pieces p [] [text.extract p text.endPos]
  | cut {p q : text.Pos} {cuts : List text.Pos} {ws : List String} (h : q ≠ text.endPos) :
    Pieces (q.next h) cuts ws → Pieces p (q :: cuts) (text.extract p q :: ws)

theorem Pieces.extend {cuts : List text.Pos} {w : String} {ws : List String} (hp : p ≠ text.endPos)
    (h : Pieces (p.next hp) cuts (w :: ws)) (hcuts : ∀ q ∈ cuts, p.next hp ≤ q) :
    Pieces p cuts ((String.singleton (p.get hp) ++ w) :: ws) := by
  cases h with
  | last =>
    rw [← extract_of_lt (String.Pos.lt_endPos_iff p |>.mpr hp)]
    exact .last p
  | cut hq h =>
    rw [← extract_of_lt (String.Pos.next_le_iff_lt.mp (hcuts _ (by simp)))]
    exact .cut hq h

theorem Pieces.length {cuts : List text.Pos} {ws : List String} (h : Pieces p cuts ws) :
    ws.length = cuts.length + 1 := by
  induction h with
  | last p => rfl
  | cut hq _ ih => rw [List.length_cons, List.length_cons, ih]

/-- Texts with a character after each of them, as long as there are characters. -/
def rejoin : List String → List Char → String
  | [], _ => ""
  | w :: ws, [] => w ++ rejoin ws []
  | w :: ws, c :: cs => w ++ String.singleton c ++ rejoin ws cs

/-- **Nothing is lost:** with the characters that were left out the pieces are the text. -/
theorem Pieces.rejoin_eq {cuts : List text.Pos} {ws : List String} (h : Pieces p cuts ws)
    (hle : ∀ q ∈ cuts, p ≤ q) (hsorted : cuts.Pairwise (· < ·)) :
    rejoin ws (cuts.filterMap (·.get?)) = text.extract p text.endPos := by
  induction h with
  | last p => simp [rejoin]
  | @cut p q cuts ws hq h ih =>
    obtain ⟨hlt, hsorted⟩ := List.pairwise_cons.mp hsorted
    have hget : q.get? = some (q.get hq) := by rw [String.Pos.get?_eq_dif, dif_neg hq]
    have hrest := ih (fun r hr => String.Pos.next_le_iff_lt.mpr (hlt r hr)) hsorted
    have hend : q < text.endPos := (String.Pos.lt_endPos_iff q).mpr hq
    rw [List.filterMap_cons_some hget, rejoin, hrest, String.append_assoc,
      ← extract_of_lt hend, extract_append_extract (hle q (by simp)) (Std.le_of_lt hend)]

end Positions

/-- **The cuts of a text** are at the separators that are met outside of quotes and targets. -/
theorem exists_cuts (hsep : ∀ c ∈ ['"', '<', '>'], sep c = false) {text : String} {p : text.Pos}
    {a : String} (hp : p.Splits a (String.ofList cs)) :
    ∃ cuts : List text.Pos, (cuts.Pairwise (· < ·)) ∧ (∀ q, q ∈ cuts ↔ p ≤ q ∧ IsCut sep q) ∧
      Pieces p cuts ((splitFrom sep (Scan.run .outside a.toList) cs).map String.ofList) := by
  induction cs generalizing p a with
  | nil =>
    obtain rfl : p = text.endPos := hp.eq_endPos_iff.mpr rfl
    refine ⟨[], .nil, fun q => iff_of_false List.not_mem_nil ?_, ?_⟩
    · rintro ⟨hle, hend, -⟩
      exact hend ((String.Pos.endPos_le q).mp hle)
    · have hlast := Pieces.last text.endPos
      rw [extract_self] at hlast
      exact hlast
  | cons c cs ih =>
    rw [String.ofList_cons] at hp
    have hne := hp.ne_endPos_of_singleton
    obtain ⟨cuts, hsorted, hmem, hpieces⟩ := ih hp.next
    have hcuts : (Scan.run .outside a.toList).cuts sep c = true ↔ IsCut sep p :=
      (Scan.cuts_iff hsep).trans (isCut_iff hp).symm
    have hrun : Scan.run .outside (a ++ String.singleton c).toList =
        (Scan.run .outside a.toList).step c := by
      rw [String.toList_append, String.toList_singleton, Scan.run_append]
      rfl
    have hge : ∀ q ∈ cuts, p.next hne ≤ q := fun q hq => ((hmem q).mp hq).1
    rw [hrun] at hpieces
    cases hcut : (Scan.run .outside a.toList).cuts sep c with
    | true =>
      refine ⟨p :: cuts, List.pairwise_cons.mpr ⟨fun q hq => ?_, hsorted⟩, fun q => ?_, ?_⟩
      · exact String.Pos.next_le_iff_lt.mp (hge q hq)
      · rw [List.mem_cons, hmem, le_iff_next_le hne]
        constructor
        · rintro (rfl | ⟨hle, hq⟩)
          · exact ⟨.inl rfl, hcuts.mp hcut⟩
          · exact ⟨.inr hle, hq⟩
        · rintro ⟨rfl | hle, hq⟩
          · exact .inl rfl
          · exact .inr ⟨hle, hq⟩
      · rw [Scan.step_of_cuts hcut] at hpieces
        rw [splitFrom_cons_of_cuts hcut, List.map_cons]
        have hfirst := Pieces.cut (p := p) hne hpieces
        rw [extract_self] at hfirst
        exact hfirst
    | false =>
      obtain ⟨w, ws, hws⟩ := List.exists_cons_of_ne_nil
        (splitFrom_ne_nil sep ((Scan.run .outside a.toList).step c) cs)
      have hnot : ¬ IsCut sep p := fun h => by simp [hcuts.mpr h] at hcut
      refine ⟨cuts, hsorted, fun q => ?_, ?_⟩
      · rw [hmem, le_iff_next_le hne]
        constructor
        · rintro ⟨hle, hq⟩
          exact ⟨.inr hle, hq⟩
        · rintro ⟨rfl | hle, hq⟩
          · exact absurd hq hnot
          · exact ⟨hle, hq⟩
      · rw [hws, List.map_cons] at hpieces
        rw [splitFrom_cons hcut hws, List.map_cons, String.ofList_cons,
          ← hp.next.get_eq_of_singleton]
        exact hpieces.extend hne hge

/-- **Cutting loses nothing,** for every text and for separators that are no marks of the scan. The
cuts are the positions at which a separator is met outside of quotes and targets; what lies between
them are the pieces, one more than there are cuts. With the separators put in again they give the
text, and each of them is one piece when it is cut again. -/
theorem splitTop_lossless (hsep : ∀ c ∈ ['"', '<', '>'], sep c = false) (text : String) :
    ∃ cuts : List text.Pos, cuts.Pairwise (· < ·) ∧ (∀ p, p ∈ cuts ↔ IsCut sep p) ∧
      ∃ pieces, splitTop sep text.toList = pieces.map String.toList ∧
        Pieces text.startPos cuts pieces ∧ pieces.length = cuts.length + 1 ∧
        rejoin pieces (cuts.filterMap (·.get?)) = text ∧
        ∀ w ∈ pieces, splitTop sep w.toList = [w.toList] := by
  have hstart : ∀ p : text.Pos, text.startPos ≤ p := String.Pos.startPos_le
  have hsplits : text.startPos.Splits "" (String.ofList text.toList) := by
    rw [String.ofList_toList]
    exact String.splits_startPos text
  obtain ⟨cuts, hsorted, hmem, hpieces⟩ := exists_cuts hsep hsplits
  change Pieces text.startPos cuts ((splitTop sep text.toList).map String.ofList) at hpieces
  refine ⟨cuts, hsorted, fun p => ?_, _, ?_, hpieces, hpieces.length, ?_, fun w hw => ?_⟩
  · rw [hmem, and_iff_right (hstart p)]
  · have hback : String.toList ∘ String.ofList = id := funext fun _ => String.toList_ofList
    rw [List.map_map, hback, List.map_id]
  · rw [hpieces.rejoin_eq (fun q _ => hstart q) hsorted, extract_startPos_endPos]
  · obtain ⟨cs, hcs, rfl⟩ := List.mem_map.mp hw
    rw [String.toList_ofList]
    exact splitTop_piece hcs

/-- Semicolons in a target, in a quoted value with a bracket, and between characters of two
bytes. -/
theorem splitTop_lossless_marked : (∀ c ∈ ['"', '<', '>'], (c == ';') = false) ∧
    ∃ cuts : List ("<é;>é;k=\"ü;<\";ü" : String).Pos,
      (∀ p, p ∈ cuts ↔ IsCut (· == ';') p) ∧ cuts.length = 2 ∧
        Pieces ("<é;>é;k=\"ü;<\";ü" : String).startPos cuts ["<é;>é", "k=\"ü;<\"", "ü"] ∧
        rejoin ["<é;>é", "k=\"ü;<\"", "ü"] (cuts.filterMap (·.get?)) = "<é;>é;k=\"ü;<\";ü" ∧
        splitTop (· == ';') "k=\"ü;<\"".toList = ["k=\"ü;<\"".toList] := by
  have hsep : ∀ c ∈ ['"', '<', '>'], (c == ';') = false := by simp
  obtain ⟨cuts, -, hmem, pieces, hsplit, hpieces, hlength, hjoin, hagain⟩ :=
    splitTop_lossless hsep "<é;>é;k=\"ü;<\";ü"
  obtain rfl : pieces = ["<é;>é", "k=\"ü;<\"", "ü"] := by
    have hcut : splitTop (· == ';') "<é;>é;k=\"ü;<\";ü".toList =
        ["<é;>é", "k=\"ü;<\"", "ü"].map String.toList := by decide
    have hinj : Function.Injective String.toList := fun _ _ => String.toList_inj.mp
    exact List.map_injective_iff.mpr hinj (hsplit.symm.trans hcut)
  exact ⟨hsep, cuts, hmem, (Nat.succ.inj hlength).symm, hpieces, hjoin, hagain _ (by simp)⟩

end KnxIoT.LinkFormat
