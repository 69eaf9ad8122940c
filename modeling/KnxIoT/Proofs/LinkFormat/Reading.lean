import KnxIoT.Discovery.Marker
import KnxIoT.Proofs.LinkFormat.Scan
import KnxIoT.Proofs.Text.Blank

/-! # Link format: reading piece by piece

Links and their parameters are read in the same way: a text is cut into pieces, and every piece that
is not blank is read by itself (`readPieces`). Hence blanks around a link do not matter
(`read_trim`), and a text that ends outside of quotes and targets does not change how the links
behind it are read (`entries_independent`). -/

namespace KnxIoT.LinkFormat

open Text (AllBlank trim)

/-- Reads the pieces that are not blank. -/
def readPieces {α : Type} (f : List Char → α) (ps : List (List Char)) : List α :=
  ((ps.map trim).filter (· ≠ [])).map f

section Pieces
variable {α : Type} {f : List Char → α} {ps qs : List (List Char)}

theorem readPieces_append (f : List Char → α) (ps qs : List (List Char)) :
    readPieces f (ps ++ qs) = readPieces f ps ++ readPieces f qs := by
  unfold readPieces
  rw [List.map_append, List.filter_append, List.map_append]

theorem readPieces_cons (f : List Char → α) (p : List Char) (ps : List (List Char)) :
    readPieces f (p :: ps) = readPieces f [p] ++ readPieces f ps :=
  readPieces_append f [p] ps

theorem readPieces_blank {g : List Char} (hg : AllBlank g) : readPieces f [g] = [] := by
  simp [readPieces, Text.trim_of_allBlank hg]

theorem readPieces_singleton {p : List Char} (hp : trim p ≠ []) :
    readPieces f [p] = [f (trim p)] := by
  simp [readPieces, hp]

end Pieces

theorem parse_eq (text : String) :
    parse text = readPieces Link.read (splitTop separatesLinks text.toList) := rfl

/-! ### Blanks around a link -/

section Blanks
variable {sep : Char → Bool} {s : Scan} {g g' : List Char}

theorem whole_of_allBlank (hsep : ∀ c, Text.isBlank c = true → sep c = false) (s : Scan)
    (hg : AllBlank g) : Whole sep s g ∧ s.run g = s := by
  refine whole_of_idle fun c hc => ⟨Scan.step_of_ne ?_ ?_ ?_, Scan.cuts_eq_false (hsep c (hg c hc))⟩
  all_goals exact Text.ne_of_isBlank (hg c hc) (by decide)

/-- Blanks around a text are blanks around its first and its last piece. -/
theorem map_trim_splitTop (hsep : ∀ c, Text.isBlank c = true → sep c = false) (hg : AllBlank g)
    (hg' : AllBlank g') (cs : List Char) :
    (splitTop sep (g ++ cs ++ g')).map trim = (splitTop sep cs).map trim := by
  obtain ⟨hfront, hrun⟩ := whole_of_allBlank hsep .outside hg
  obtain ⟨q, qs, hq, hfirst⟩ := splitFrom_whole_append hfront (cs ++ g')
  obtain ⟨ps, p, hps, hlast⟩ :=
    splitFrom_append_whole cs (whole_of_allBlank hsep (Scan.run .outside cs) hg').1
  rw [hrun] at hq
  unfold splitTop
  rw [List.append_assoc, hfirst, List.map_cons, Text.trim_blank_append hg, ← List.map_cons, ← hq,
    hlast, hps, List.map_append, List.map_append, List.map_singleton, List.map_singleton,
    Text.trim_append_blank hg']

end Blanks

end KnxIoT.LinkFormat

namespace KnxIoT.Link

open LinkFormat Text

/-- The link of which the given pieces are the target and the parameters. -/
def ofPieces : List (List Char) → Link
  | [] => ⟨"", []⟩
  | target :: params =>
    ⟨String.ofList (unwrap '<' '>' (trim target)), readPieces readParam params⟩

theorem read_eq (cs : List Char) : read cs = ofPieces (splitTop (· == ';') cs) := by
  unfold read
  split
  · next h =>
    rw [h]
    rfl
  · next h =>
    rw [h]
    rfl

theorem ofPieces_congr {ps qs : List (List Char)} (h : ps.map trim = qs.map trim) :
    ofPieces ps = ofPieces qs := by
  cases ps with
  | nil =>
    cases qs with
    | nil => rfl
    | cons q qs => cases h
  | cons p ps =>
    cases qs with
    | nil => cases h
    | cons q qs =>
      obtain ⟨htarget, hparams⟩ := List.cons_eq_cons.mp h
      simp only [ofPieces, readPieces, htarget, hparams]

/-- **Blanks around a link** do not matter. -/
theorem read_trim (cs : List Char) : read (trim cs) = read cs := by
  obtain ⟨g, g', hg, hg', heq⟩ := exists_trim cs
  have hsep : ∀ c, isBlank c = true → (c == ';') = false := fun c hc =>
    beq_eq_false_iff_ne.mpr (ne_of_isBlank hc (by decide))
  conv_rhs => rw [heq]
  rw [read_eq, read_eq]
  exact ofPieces_congr (map_trim_splitTop hsep hg hg' (trim cs)).symm

end KnxIoT.Link

namespace KnxIoT.LinkFormat

/-! ### What was read before -/

theorem cuts_of_separatesLinks {c : Char} (hc : c ∈ [',', '\n', '\r']) :
    Scan.outside.cuts separatesLinks c = true := by
  simp only [List.mem_cons, List.not_mem_nil, or_false] at hc
  rcases hc with rfl | rfl | rfl <;> decide

/-- **A text that ends outside of quotes and targets** does not change how the links behind it are
read. -/
theorem entries_independent {a : String} (ha : Scan.run .outside a.toList = .outside) {c : Char}
    (hc : c ∈ [',', '\n', '\r']) (b : String) :
    parse (a.push c ++ b) = parse a ++ parse b ∧
      Discovery.serialsIn (a.push c ++ b) = Discovery.serialsIn a ++ Discovery.serialsIn b := by
  have hparse : parse (a.push c ++ b) = parse a ++ parse b := by
    have hsplit : splitTop separatesLinks (a.push c ++ b).toList =
        splitTop separatesLinks a.toList ++ splitTop separatesLinks b.toList := by
      rw [String.toList_append, String.toList_push, List.append_assoc, List.singleton_append]
      unfold splitTop
      rw [splitFrom_cut (by rw [ha]; exact cuts_of_separatesLinks hc), ha]
    rw [parse_eq, hsplit, readPieces_append, parse_eq, parse_eq]
  refine ⟨hparse, ?_⟩
  unfold Discovery.serialsIn
  rw [hparse, List.filterMap_append, List.filterMap_append]

/-- A text with stray quotes and brackets before a reply. -/
theorem entries_independent_stray :
    Scan.run .outside "x>;k=\"a,<\"b<\",\n\">=é;;".toList = .outside ∧
      '\r' ∈ [',', '\n', '\r'] ∧
      parse ("x>;k=\"a,<\"b<\",\n\">=é;;".push '\r' ++ "<>;ep=urn:knx:sn.A") =
        parse "x>;k=\"a,<\"b<\",\n\">=é;;" ++ parse "<>;ep=urn:knx:sn.A" ∧
      Discovery.serialsIn ("x>;k=\"a,<\"b<\",\n\">=é;;".push '\r' ++ "<>;ep=urn:knx:sn.A") =
        Discovery.serialsIn "x>;k=\"a,<\"b<\",\n\">=é;;" ++
          Discovery.serialsIn "<>;ep=urn:knx:sn.A" :=
  have hrun : Scan.run .outside "x>;k=\"a,<\"b<\",\n\">=é;;".toList = .outside := by decide
  have hsep : '\r' ∈ [',', '\n', '\r'] := by decide
  ⟨hrun, hsep, entries_independent hrun hsep _⟩

end KnxIoT.LinkFormat
