import KnxIoT.Proofs.LinkFormat.Reading

/-! # Link format: what was written is read

The same links can be written in many ways: values with or without quotes, blanks around the
semicolons and equals signs, commas or line breaks between the links, and pieces with nothing in
them. `Written` lists these ways. Every listing that is written in one of them is read as the links
that it was written from, and it announces the serial numbers in their markers
(`listings_round_trip`). -/

namespace KnxIoT

/-! ### Ways to write a listing -/

namespace LinkFormat

open Text (AllBlank Tight trim)

/-- The characters with a meaning in a listing. -/
def marks : List Char := [',', ';', '<', '>', '"', '\n', '\r']

/-- Blanks that do not break the line. -/
def Gap (g : List Char) : Prop := ∀ c ∈ g, Text.isBlank c = true ∧ c ∉ marks

instance (g : List Char) : Decidable (Gap g) := List.decidableBAll _ g

/-- No character has a meaning in a listing. -/
def Plain (cs : List Char) : Prop := ∀ c ∈ cs, c ∉ marks

instance (cs : List Char) : Decidable (Plain cs) := List.decidableBAll _ cs

/-- A key of a parameter: it begins and ends with a character that is not blank. -/
structure IsKey (k : List Char) : Prop where
  ne_nil : k ≠ []
  tight : Tight k
  plain : Plain k
  equals : '=' ∉ k

instance (k : List Char) : Decidable (IsKey k) :=
  decidable_of_iff (k ≠ [] ∧ Tight k ∧ Plain k ∧ '=' ∉ k)
    ⟨fun ⟨hn, ht, hp, he⟩ => ⟨hn, ht, hp, he⟩, fun ⟨hn, ht, hp, he⟩ => ⟨hn, ht, hp, he⟩⟩

/-- A parameter that can be written. -/
structure WritableParam (p : String × String) : Prop where
  key : IsKey p.1.toList
  value : '"' ∉ p.2.toList

instance (p : String × String) : Decidable (WritableParam p) :=
  decidable_of_iff (IsKey p.1.toList ∧ '"' ∉ p.2.toList)
    ⟨fun ⟨hk, hv⟩ => ⟨hk, hv⟩, fun ⟨hk, hv⟩ => ⟨hk, hv⟩⟩

/-- A link that can be written. -/
structure Writable (l : Link) : Prop where
  unquoted : '"' ∉ l.uri.toList
  unclosed : '>' ∉ l.uri.toList
  params : ∀ p ∈ l.params, WritableParam p

instance (l : Link) : Decidable (Writable l) :=
  decidable_of_iff ('"' ∉ l.uri.toList ∧ '>' ∉ l.uri.toList ∧ ∀ p ∈ l.params, WritableParam p)
    ⟨fun ⟨hq, hc, hp⟩ => ⟨hq, hc, hp⟩, fun ⟨hq, hc, hp⟩ => ⟨hq, hc, hp⟩⟩

/-- The ways to write a value. -/
inductive WrittenValue : String → List Char → Prop
  | quoted (v : String) : WrittenValue v ('"' :: v.toList ++ ['"'])
  | bare {v : String} (ht : Tight v.toList) (hp : Plain v.toList) :
      WrittenValue v v.toList

/-- The ways to write a parameter. -/
inductive WrittenParam : String × String → List Char → Prop
  | valued (k : String) {v : String} {g g' t : List Char} (hg : Gap g) (hg' : Gap g')
      (h : WrittenValue v t) : WrittenParam (k, v) (k.toList ++ (g ++ '=' :: (g' ++ t)))
  | omitted (k : String) : WrittenParam (k, "") k.toList

/-- A piece with something in it, or with nothing, and with gaps around it. -/
inductive Padded {α : Type} (W : α → List Char → Prop) : List α → List Char → Prop
  | empty {g : List Char} (hg : Gap g) : Padded W [] g
  | one {a : α} {g t g' : List Char} (hg : Gap g) (h : W a t) (hg' : Gap g') :
      Padded W [a] (g ++ t ++ g')

/-- The ways to write parameters, with a semicolon before each. -/
inductive WrittenParams : List (String × String) → List Char → Prop
  | nil : WrittenParams [] []
  | cons {ps qs : List (String × String)} {p t : List Char} (h : Padded WrittenParam ps p)
      (rest : WrittenParams qs t) : WrittenParams (ps ++ qs) (';' :: (p ++ t))

/-- The ways to write a link. -/
inductive WrittenLink : Link → List Char → Prop
  | mk (uri : String) {ps : List (String × String)} {g t : List Char} (hg : Gap g)
      (h : WrittenParams ps t) : WrittenLink ⟨uri, ps⟩ ('<' :: uri.toList ++ ['>'] ++ g ++ t)

/-- **The ways to write a listing.** -/
inductive Written : List Link → List Char → Prop
  | last {ls : List Link} {p : List Char} (h : Padded WrittenLink ls p) : Written ls p
  | cons {ls ls' : List Link} {p t : List Char} {c : Char} (h : Padded WrittenLink ls p)
      (hc : c ∈ [',', '\n', '\r']) (rest : Written ls' t) : Written (ls ++ ls') (p ++ c :: t)

/-! ### Every link can be written -/

section Exists

theorem gap_nil : Gap [] := fun _ hc => nomatch hc

theorem Padded.plain {α : Type} {W : α → List Char → Prop} {a : α} {t : List Char} (h : W a t) :
    Padded W [a] t := by
  have hpad : Padded W [a] ([] ++ t ++ []) := .one gap_nil h gap_nil
  simpa using hpad

theorem exists_writtenParams (ps : List (String × String)) : ∃ t, WrittenParams ps t := by
  induction ps with
  | nil => exact ⟨[], .nil⟩
  | cons p ps ih =>
    obtain ⟨t, ht⟩ := ih
    have hp : WrittenParam p _ := .valued p.1 gap_nil gap_nil (.quoted p.2)
    exact ⟨_, .cons (.plain hp) ht⟩

theorem exists_written (ls : List Link) : ∃ t, Written ls t := by
  induction ls with
  | nil => exact ⟨[], .last (.empty gap_nil)⟩
  | cons l ls ih =>
    obtain ⟨t, ht⟩ := ih
    obtain ⟨u, hu⟩ := exists_writtenParams l.params
    have hl : WrittenLink l _ := .mk l.uri gap_nil hu
    exact ⟨_, .cons (.plain hl) (c := ',') (by decide) ht⟩

end Exists

/-! ### What is written in one piece -/

section Closed
variable {sep : Char → Bool} {g t cs : List Char}

theorem Gap.allBlank (h : Gap g) : AllBlank g := fun c hc => (h c hc).1

theorem closed_of_plain (hsep : ∀ c, c ∉ marks → sep c = false) (h : Plain cs) :
    Closed sep cs := by
  refine .plain fun c hc => ⟨hsep c (h c hc), ?_, ?_, ?_⟩
  all_goals
    rintro rfl
    exact h _ hc (by decide)

theorem Gap.closed (hsep : ∀ c, c ∉ marks → sep c = false) (h : Gap g) : Closed sep g :=
  closed_of_plain hsep fun c hc => (h c hc).2

theorem Padded.closed {α : Type} {W : α → List Char → Prop} {as : List α} {p : List Char}
    (hsep : ∀ c, c ∉ marks → sep c = false) (h : Padded W as p)
    (hW : ∀ a ∈ as, ∀ t, W a t → Closed sep t) : Closed sep p := by
  cases h with
  | empty hg => exact hg.closed hsep
  | one hg h hg' => exact ((hg.closed hsep).append (hW _ (by simp) _ h)).append (hg'.closed hsep)

theorem WrittenValue.closed {v : String} (hsep : ∀ c, c ∉ marks → sep c = false)
    (hv : '"' ∉ v.toList) (h : WrittenValue v t) : Closed sep t := by
  cases h with
  | quoted => exact .quoted hv
  | bare _ hp => exact closed_of_plain hsep hp

theorem WrittenParam.closed {p : String × String} (hsep : ∀ c, c ∉ marks → sep c = false)
    (hp : WritableParam p) (h : WrittenParam p t) : Closed sep t := by
  have hkey : Closed sep p.1.toList := closed_of_plain hsep hp.key.plain
  cases h with
  | valued k hg hg' h =>
    have heq : Closed sep ['='] := closed_of_plain hsep (by decide)
    rw [← List.singleton_append]
    exact hkey.append ((hg.closed hsep).append (heq.append ((hg'.closed hsep).append
      (h.closed hsep hp.value))))
  | omitted k => exact hkey

theorem WrittenParams.closed {ps : List (String × String)} (hsep : ∀ c, c ∉ marks → sep c = false)
    (hsemi : sep ';' = false) (hps : ∀ p ∈ ps, WritableParam p) (h : WrittenParams ps t) :
    Closed sep t := by
  induction h with
  | nil => exact .nil
  | cons h _ ih =>
    obtain ⟨hnow, hlater⟩ := List.forall_mem_append.mp hps
    have hfirst : Closed sep [';'] := .plain (by simp [hsemi])
    rw [← List.singleton_append]
    exact hfirst.append ((h.closed hsep fun p hp t hpt => hpt.closed hsep (hnow p hp)).append
      (ih hlater))

theorem WrittenLink.closed {l : Link} (hsep : ∀ c, c ∉ marks → sep c = false)
    (hsemi : sep ';' = false) (hl : Writable l) (h : WrittenLink l t) : Closed sep t := by
  cases h with
  | mk uri hg h =>
    exact ((Closed.target hl.unquoted hl.unclosed).append (hg.closed hsep)).append
      (h.closed hsep hsemi hl.params)

theorem semicolon_of_plain {c : Char} (hc : c ∉ marks) : (c == ';') = false := by
  rw [beq_eq_false_iff_ne]
  rintro rfl
  exact hc (by decide)

theorem separatesLinks_of_plain {c : Char} (hc : c ∉ marks) : separatesLinks c = false := by
  simp only [marks, List.mem_cons, not_or] at hc
  simp [separatesLinks, hc]

end Closed

/-! ### Reading it -/

section Read
variable {g t : List Char}

theorem Padded.read {α : Type} {W : α → List Char → Prop} {f : List Char → α} {as : List α}
    {p : List Char} (h : Padded W as p)
    (hW : ∀ a ∈ as, ∀ t, W a t → trim t ≠ [] ∧ f (trim t) = a) : readPieces f [p] = as := by
  cases h with
  | empty hg => exact readPieces_blank hg.allBlank
  | @one a g t g' hg h hg' =>
    obtain ⟨hne, hf⟩ := hW a (by simp) t h
    have htrim : trim (g ++ t ++ g') = trim t := Text.trim_append hg.allBlank hg'.allBlank t
    rw [readPieces_singleton (by rwa [htrim]), htrim, hf]

/-- **A value** is what is left when quotes and blanks are taken off. -/
theorem WrittenValue.read {v : String} (hv : '"' ∉ v.toList) (h : WrittenValue v t) :
    Text.unwrap '"' '"' (trim t) = v.toList := by
  cases h with
  | quoted =>
    rw [Text.trim_of_tight (Text.tight_enclosed (by decide) (by decide) _), Text.unwrap_append]
  | bare ht hp =>
    rw [Text.trim_of_tight ht]
    refine Text.unwrap_of_ne fun c hc => ?_
    rintro rfl
    exact hv (List.mem_of_mem_head? hc)

theorem IsKey.trim_append {k : List Char} (hk : IsKey k) (cs : List Char) :
    trim (k ++ cs) = Text.trimEnd (k ++ cs) := by
  obtain ⟨c, k, rfl⟩ := List.exists_cons_of_ne_nil hk.ne_nil
  have hc : Text.isBlank c = false := hk.tight.1 c rfl
  rw [List.cons_append, Text.trim_cons hc]
  exact (Text.trimEnd_append hc [] (k ++ cs)).symm

/-- **A parameter** is read as its key and its value. -/
theorem WrittenParam.read {p : String × String} (hp : WritableParam p) (h : WrittenParam p t) :
    trim t ≠ [] ∧ Link.readParam (trim t) = p := by
  have hno : '=' ∉ p.1.toList := hp.key.equals
  cases h with
  | @valued k v g g' t hg hg' h =>
    -- Only behind the equals sign can blanks be taken off.
    have htrim : trim (k.toList ++ (g ++ '=' :: (g' ++ t))) =
        (k.toList ++ g) ++ '=' :: Text.trimEnd (g' ++ t) := by
      rw [hp.key.trim_append, ← List.append_assoc, Text.trimEnd_append (by decide)]
    have hgap : '=' ∉ g := fun hc => absurd (hg _ hc).1 (by decide)
    rw [htrim]
    refine ⟨by simp, ?_⟩
    rw [Link.readParam, Text.splitOnce_append (by simp [hno, hgap])]
    dsimp only
    rw [Text.trim_append_blank hg.allBlank, Text.trim_of_tight hp.key.tight, Text.trim_trimEnd,
      Text.trim_blank_append hg'.allBlank, h.read hp.value, String.ofList_toList,
      String.ofList_toList]
  | omitted k =>
    rw [Text.trim_of_tight hp.key.tight]
    refine ⟨hp.key.ne_nil, ?_⟩
    rw [Link.readParam, Text.splitOnce_eq_none hno, String.ofList_toList]

/-- **The pieces between semicolons** are the target and the parameters. -/
theorem WrittenParams.read {ps : List (String × String)} (hps : ∀ p ∈ ps, WritableParam p)
    (h : WrittenParams ps t) {a : List Char} (ha : Closed (· == ';') a) :
    ∃ pieces, splitTop (· == ';') (a ++ t) = a :: pieces ∧
      readPieces Link.readParam pieces = ps := by
  induction h generalizing a with
  | nil =>
    rw [List.append_nil]
    exact ⟨[], splitFrom_of_whole ha.whole, rfl⟩
  | @cons ps qs p t h _ ih =>
    obtain ⟨hnow, hlater⟩ := List.forall_mem_append.mp hps
    have hpiece := h.closed (fun _ => semicolon_of_plain) fun q hq t hqt =>
      hqt.closed (fun _ => semicolon_of_plain) (hnow q hq)
    obtain ⟨pieces, hsplit, hread⟩ := ih hlater hpiece
    refine ⟨p :: pieces, ?_, ?_⟩
    · rw [splitTop_closed ha (by decide), hsplit]
    · rw [readPieces_cons, hread, h.read fun q hq t hqt => hqt.read (hnow q hq)]

/-- **A link** is read as it was written. -/
theorem WrittenLink.read {l : Link} (hl : Writable l) (h : WrittenLink l t) :
    trim t ≠ [] ∧ Link.read (trim t) = l := by
  rw [Link.read_trim]
  cases h with
  | @mk uri ps g t hg h =>
    have htarget : Closed (· == ';') ('<' :: uri.toList ++ ['>'] ++ g) :=
      (Closed.target hl.unquoted hl.unclosed).append (hg.closed fun _ => semicolon_of_plain)
    obtain ⟨pieces, hsplit, hread⟩ := h.read hl.params htarget
    constructor
    · rw [List.cons_append, List.cons_append, List.cons_append, Text.trim_cons (by decide)]
      exact List.cons_ne_nil _ _
    · rw [Link.read_eq, hsplit, Link.ofPieces, hread, Text.trim_append_blank hg.allBlank,
        Text.trim_of_tight (Text.tight_enclosed (by decide) (by decide) _), Text.unwrap_append,
        String.ofList_toList]

/-- **A listing** is read as the links that it was written from. -/
theorem Written.read {ls : List Link} (hls : ∀ l ∈ ls, Writable l) (h : Written ls t) :
    readPieces Link.read (splitTop separatesLinks t) = ls := by
  have hclosed : ∀ {ls p}, (∀ l ∈ ls, Writable l) → Padded WrittenLink ls p →
      Closed separatesLinks p := fun hls h =>
    h.closed (fun _ => separatesLinks_of_plain) fun l hl t hlt =>
      hlt.closed (fun _ => separatesLinks_of_plain) (by decide) (hls l hl)
  induction h with
  | last h =>
    rw [splitTop, splitFrom_of_whole (hclosed hls h).whole]
    exact h.read fun l hl t hlt => hlt.read (hls l hl)
  | cons h hc _ ih =>
    obtain ⟨hnow, hlater⟩ := List.forall_mem_append.mp hls
    rw [splitTop_closed (hclosed hnow h) (cuts_of_separatesLinks hc), readPieces_cons, ih hlater,
      h.read fun l hl t hlt => hlt.read (hnow l hl)]

end Read

end LinkFormat

/-! ### Serial numbers -/

/-- The first parameter `ep` of the link has the value `urn:knx:sn.` followed by `s`. -/
def Link.Marks (l : Link) (s : List Char) : Prop :=
  ∃ before v after, l.params = before ++ ("ep", v) :: after ∧ (∀ p ∈ before, p.1 ≠ "ep") ∧
    v.toList = "urn:knx:sn.".toList ++ s

namespace Discovery

open Text (trim)

/-- **The serial numbers that links announce,** in the order of the links. -/
inductive Announced : List Link → List String → Prop
  | nil : Announced [] []
  | told {l : Link} {ls : List Link} {ss : List String} {s : List Char} (h : l.Marks s)
      (hs : trim s ≠ []) (rest : Announced ls ss) :
      Announced (l :: ls) (String.ofList (trim s) :: ss)
  | untold {l : Link} {ls : List Link} {ss : List String} (h : ∀ s, l.Marks s → trim s = [])
      (rest : Announced ls ss) : Announced (l :: ls) ss

theorem serialOfMarker?_eq_some_iff {v serial : String} : serialOfMarker? v = some serial ↔
    ∃ s, v.toList = serialPrefix.toList ++ s ∧ trim s ≠ [] ∧ String.ofList (trim s) = serial := by
  simp only [serialOfMarker?, Option.map_eq_some_iff, Option.filter_eq_some_iff,
    Text.dropStart?_eq_some_iff, decide_eq_true_eq]
  constructor
  · rintro ⟨_, ⟨⟨s, hs, rfl⟩, hne⟩, rfl⟩
    exact ⟨s, hs, hne, rfl⟩
  · rintro ⟨s, hs, hne, rfl⟩
    exact ⟨trim s, ⟨⟨s, hs, rfl⟩, hne⟩, rfl⟩

theorem serial_eq_some_iff {l : Link} {serial : String} :
    (l.param? markerParam).bind serialOfMarker? = some serial ↔
      ∃ s, l.Marks s ∧ trim s ≠ [] ∧ String.ofList (trim s) = serial := by
  simp only [Option.bind_eq_some_iff, Link.param?, List.lookup_eq_some_iff, bne_iff_ne,
    serialOfMarker?_eq_some_iff]
  constructor
  · rintro ⟨v, ⟨before, after, hl, hb⟩, s, hv, hs⟩
    exact ⟨s, ⟨before, v, after, hl, fun p hp => (hb p hp).symm, hv⟩, hs⟩
  · rintro ⟨s, ⟨before, v, after, hl, hb, hv⟩, hs⟩
    exact ⟨v, ⟨before, after, hl, fun p hp => (hb p hp).symm⟩, s, hv, hs⟩

/-- **What is read off the markers** is what the links announce. -/
theorem announced_serials (ls : List Link) :
    Announced ls ((ls.filterMap (·.param? markerParam)).filterMap serialOfMarker?) := by
  rw [List.filterMap_filterMap]
  induction ls with
  | nil => exact .nil
  | cons l ls ih =>
    rw [List.filterMap_cons]
    cases h : (l.param? markerParam).bind serialOfMarker? with
    | none =>
      refine .untold (fun s hs => ?_) ih
      by_contra hne
      rw [serial_eq_some_iff.mpr ⟨s, hs, hne, rfl⟩] at h
      cases h
    | some serial =>
      obtain ⟨s, hs, hne, rfl⟩ := serial_eq_some_iff.mp h
      exact .told hs hne ih

end Discovery

namespace LinkFormat

/-- **Listings are read as they were written:** links that can be written can be written in some way,
and in whichever way they are written, they are read again, and so are the serial numbers that they
announce. -/
theorem listings_round_trip {ls : List Link} (hls : ∀ l ∈ ls, Writable l) :
    (∃ text : String, Written ls text.toList) ∧ ∀ text : String, Written ls text.toList →
      parse text = ls ∧ Discovery.Announced ls (Discovery.serialsIn text) := by
  refine ⟨?_, fun text h => ?_⟩
  · obtain ⟨t, ht⟩ := exists_written ls
    exact ⟨String.ofList t, by rwa [String.toList_ofList]⟩
  · have hparse : parse text = ls := h.read hls
    refine ⟨hparse, ?_⟩
    rw [Discovery.serialsIn, hparse]
    exact Discovery.announced_serials ls

/-- Links with separators in a target and in a value. -/
def spread : List Link :=
  [⟨"coap://[fe80::1],<x;", [("title", " a,b;c "), ("obs", "")]⟩, ⟨"", [("ep", "urn:knx:sn. 00FA")]⟩]

/-- The links with gaps and empty pieces, over three lines. -/
def spreadText : String :=
  "\n<coap://[fe80::1],<x;> ; title\t= \" a,b;c \";; obs,\r<>;ep=urn:knx:sn. 00FA "

theorem written_spread : Written spread spreadText.toList := by
  have hnone : Padded WrittenLink [] [] := .empty gap_nil
  have htitle : WrittenParam ("title", " a,b;c ") _ :=
    .valued "title" (show Gap ['\t'] by decide) (show Gap [' '] by decide) (.quoted " a,b;c ")
  have hobs : Padded WrittenParam [("obs", "")] _ :=
    .one (show Gap [' '] by decide) (.omitted "obs") gap_nil
  have hep : WrittenParam ("ep", "urn:knx:sn. 00FA") _ :=
    .valued "ep" gap_nil gap_nil (.bare (by decide) (by decide))
  have hfirst : WrittenLink ⟨"coap://[fe80::1],<x;", [("title", " a,b;c "), ("obs", "")]⟩ _ :=
    .mk _ (show Gap [' '] by decide) (.cons (.one (show Gap [' '] by decide) htitle gap_nil)
      (.cons (.empty gap_nil) (.cons hobs .nil)))
  have hsecond : WrittenLink ⟨"", [("ep", "urn:knx:sn. 00FA")]⟩ _ :=
    .mk _ gap_nil (.cons (.plain hep) .nil)
  have hall : Written spread _ :=
    .cons hnone (c := '\n') (by decide) (.cons (.plain hfirst) (c := ',') (by decide)
      (.cons hnone (c := '\r') (by decide) (.last (.one gap_nil hsecond
        (show Gap [' '] by decide)))))
  refine (congrArg (Written spread) ?_).mp hall
  decide

theorem listings_round_trip_spread :
    (∀ l ∈ spread, Writable l) ∧ Written spread spreadText.toList ∧ parse spreadText = spread ∧
      Discovery.Announced spread ["00FA"] := by
  have hls : ∀ l ∈ spread, Writable l := by decide
  obtain ⟨hparse, hserials⟩ := (listings_round_trip hls).2 spreadText written_spread
  have hsn : Discovery.serialsIn spreadText = ["00FA"] := by decide +kernel
  rw [hsn] at hserials
  exact ⟨hls, written_spread, hparse, hserials⟩

end LinkFormat

end KnxIoT
