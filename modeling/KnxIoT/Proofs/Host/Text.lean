import KnxIoT.Host.Callback
import KnxIoT.Host.Feed
import KnxIoT.Proofs.Lists
import KnxIoT.Proofs.Text.Utf8

/-! # Texts that pass between a bridge and a host

A text without zero characters passes to a host and back unchanged: `textOf_eq` says what the host
reads, and `requiredText_textOf` what is read of that again. Conversely a text that comes from a
host has no zero character (`eq_of_requiredText`). A text that has some loses them on its way
(`plainText_eq_self_iff`).

`Text.words_intercalate` does the same for lists of words, which pass as one text, and
`wordsIn_textOf` says it of the words that a host wrote. -/

namespace KnxIoT

namespace Text

section Split
variable {p : Char → Bool} {w : List Char}

theorem splitWhere_of_none (h : ∀ c ∈ w, p c = false) : splitWhere p w = [w] := by
  induction w with
  | nil => rfl
  | cons c w ih =>
    rw [splitWhere, h c (by simp), ih fun d hd => h d (by simp [hd])]
    rfl

theorem splitWhere_append (h : ∀ c ∈ w, p c = false) {sep : Char} (hsep : p sep = true)
    (rest : List Char) : splitWhere p (w ++ sep :: rest) = w :: splitWhere p rest := by
  induction w with
  | nil => simp [splitWhere, hsep]
  | cons c w ih =>
    rw [List.cons_append, splitWhere, h c (by simp), ih fun d hd => h d (by simp [hd])]
    rfl

theorem of_mem_splitWhere {cs : List Char} (hw : w ∈ splitWhere p cs) : ∀ c ∈ w, p c = false := by
  induction cs generalizing w with
  | nil =>
    rw [splitWhere, List.mem_singleton] at hw
    simp [hw]
  | cons d cs ih =>
    rw [splitWhere] at hw
    split at hw
    · rcases List.mem_cons.mp hw with rfl | hw
      · simp
      · exact ih hw
    · next hd =>
      rw [Bool.not_eq_true] at hd
      split at hw
      · rw [List.mem_singleton] at hw
        simp [hw, hd]
      · next v vs heq =>
        rcases List.mem_cons.mp hw with rfl | hw
        · intro c hc
          rcases List.mem_cons.mp hc with rfl | hc
          · exact hd
          · exact ih (by rw [heq]; simp) c hc
        · exact ih (by rw [heq]; simp [hw])

theorem mem_of_mem_splitWhere {cs : List Char} (hw : w ∈ splitWhere p cs) : ∀ c ∈ w, c ∈ cs := by
  induction cs generalizing w with
  | nil =>
    rw [splitWhere, List.mem_singleton] at hw
    simp [hw]
  | cons d cs ih =>
    have later : ∀ v ∈ splitWhere p cs, ∀ c ∈ v, c ∈ d :: cs :=
      fun v hv c hc => List.mem_cons_of_mem d (ih hv c hc)
    rw [splitWhere] at hw
    split at hw
    · rcases List.mem_cons.mp hw with rfl | hw
      · simp
      · exact later w hw
    split at hw
    · rw [List.mem_singleton] at hw
      simp [hw]
    · next v vs heq =>
      rcases List.mem_cons.mp hw with rfl | hw
      · intro c hc
        rcases List.mem_cons.mp hc with rfl | hc
        · simp
        · exact later v (by rw [heq]; simp) c hc
      · exact later w (by rw [heq]; simp [hw])

end Split

/-- A word: it is not empty and has no blank in it. -/
def IsWord (w : List Char) : Prop := w ≠ [] ∧ ∀ c ∈ w, isBlank c = false

theorem isWord_of_mem_words {w cs : List Char} (h : w ∈ words cs) : IsWord w := by
  unfold words at h
  rw [List.mem_filter] at h
  exact ⟨by simpa using h.2, of_mem_splitWhere h.1⟩

theorem mem_of_mem_words {w cs : List Char} (h : w ∈ words cs) : ∀ c ∈ w, c ∈ cs :=
  mem_of_mem_splitWhere (List.mem_filter.mp h).1

/-- **Words with blanks between them are read as these words.** -/
theorem words_intercalate {ws : List (List Char)} (h : ∀ w ∈ ws, IsWord w) :
    words ([' '].intercalate ws) = ws := by
  have hfilter : (ws.filter (· ≠ [])) = ws :=
    List.filter_eq_self.mpr fun w hw => by simpa using (h w hw).1
  cases ws with
  | nil => rfl
  | cons w ws =>
    have hsplit : splitWhere isBlank ([' '].intercalate (w :: ws)) = w :: ws := by
      clear hfilter
      induction ws generalizing w with
      | nil =>
        rw [List.intercalate_singleton]
        exact splitWhere_of_none (h w (by simp)).2
      | cons v ws ih =>
        rw [List.intercalate_cons_cons, List.append_assoc, List.singleton_append,
          splitWhere_append (h w (by simp)).2 (by decide), ih v fun u hu => h u (by simp_all)]
    rw [words, hsplit, hfilter]

end Text

namespace Host

/-! ### Zero characters -/

/-- A text as a host reads it in memory, where a zero byte follows it. -/
def textOf (s : String) : CText := CText.ofBytes (Utf8.encode s ++ [0])

section Zero
variable {s : String} {t : CText}

theorem zero_not_mem {bs : Bytes} (h : ∀ b ∈ bs, 0 < b.toNat) : (0 : UInt8) ∉ bs :=
  fun h0 => absurd (h 0 h0) (Nat.lt_irrefl 0)

/-- **Only the zero character has a zero byte.** -/
theorem zero_mem_encodeChar (x : Char) : 0 ∈ String.utf8EncodeChar x ↔ x = '\x00' := by
  constructor
  · obtain ⟨a, bs, he, hs⟩ := Utf8.spells_encodeChar x
    rw [he]
    intro h
    cases hs with
    | one ha hx =>
      rw [hx, ← List.mem_singleton.mp h]
      rfl
    | two b ha _ hb _ =>
      rw [Utf8.maySecond_iff] at hb
      exact absurd h (zero_not_mem (by simp; omega))
    | three b c ha _ hb hc _ =>
      rw [Utf8.maySecond_iff] at hb
      rw [Utf8.isContinuation_iff] at hc
      exact absurd h (zero_not_mem (by simp; omega))
    | four b c d ha _ hb hc hd _ =>
      rw [Utf8.maySecond_iff] at hb
      rw [Utf8.isContinuation_iff] at hc hd
      exact absurd h (zero_not_mem (by simp; omega))
  · rintro rfl
    decide

theorem zero_mem_encode : 0 ∈ Utf8.encode s ↔ hasZero s = true := by
  simp [Utf8.encode, hasZero, zero_mem_encodeChar]

theorem hasZero_plainText (s : String) : hasZero (plainText s) = false := by
  simp [hasZero, plainText]

/-- **A text is handed over unchanged exactly if it has no zero character.** -/
theorem plainText_eq_self_iff : plainText s = s ↔ hasZero s = false := by
  constructor
  · intro h
    rw [← h]
    exact hasZero_plainText s
  · intro h
    have hall : ∀ c ∈ s.toList, (c ≠ '\x00' : Bool) = true := by
      simpa [hasZero] using h
    unfold plainText
    rw [List.filter_eq_self.mpr hall, String.ofList_toList]

/-- **A host reads all of a text that has no zero character.** -/
theorem textOf_eq (h : hasZero s = false) : textOf s = some (Utf8.encode s) := by
  have hall : ∀ b ∈ Utf8.encode s, (b ≠ 0 : Bool) = true := by
    intro b hb
    refine decide_eq_true fun h0 => ?_
    rw [h0, zero_mem_encode, h] at hb
    cases hb
  unfold textOf CText.ofBytes
  rw [List.takeWhile_append_of_pos hall]
  simp

/-- **What a host read and hands back** is the text again. -/
theorem requiredText_textOf (h : hasZero s = false) : requiredText (textOf s) = some s := by
  rw [textOf_eq h]
  exact Utf8.decode?_encode s

/-- A text as a host has it: there is no zero byte in it. -/
def CText.IsText (t : CText) : Prop := ∀ bs, t = some bs → 0 ∉ bs

/-- **A text that comes from a host** has no zero character, and the host would read it back as it
was. -/
theorem eq_of_requiredText (ht : t.IsText) (h : requiredText t = some s) :
    t = textOf s ∧ hasZero s = false := by
  obtain ⟨bs, rfl, hs⟩ := Option.bind_eq_some_iff.mp h
  have hzero : hasZero s = false := by
    rw [← Bool.not_eq_true, ← zero_mem_encode, Utf8.encode_of_decode? hs]
    exact ht bs rfl
  exact ⟨by rw [textOf_eq hzero, Utf8.encode_of_decode? hs], hzero⟩

/-- A text that may be missing is read back as an empty one. -/
theorem eq_of_optionalText {o : Option String} (ht : t.IsText) (h : optionalText t = some o) :
    textOf (o.getD "") = some (t.getD []) ∧ hasZero (o.getD "") = false := by
  cases t with
  | none =>
    cases h
    exact ⟨rfl, rfl⟩
  | some bs =>
    obtain ⟨s, hs, rfl⟩ := Option.map_eq_some_iff.mp h
    obtain ⟨heq, hz⟩ := eq_of_requiredText (s := s) ht hs
    exact ⟨heq.symm, hz⟩

end Zero

/-! ### Words -/

/-- The words that a host reads in a text. -/
def wordsIn (t : CText) : Option (List String) :=
  (optionalText t).map wordsOf

/-- **The words that a host wrote are those that it reads,** when they come back with blanks between
them. -/
theorem wordsIn_textOf {t : CText} {o : Option String} (ht : t.IsText)
    (h : optionalText t = some o) :
    wordsIn (textOf (plainText (" ".intercalate (wordsOf o)))) = wordsIn t := by
  have hzero : hasZero (o.getD "") = false := (eq_of_optionalText ht h).2
  have hchars : (" ".intercalate (wordsOf o)).toList =
      [' '].intercalate (Text.words (o.getD "").toList) := by
    rw [String.toList_intercalate]
    simp [wordsOf, Function.comp_def]
  have hplain : hasZero (" ".intercalate (wordsOf o)) = false := by
    rw [hasZero, List.any_eq_false, hchars]
    intro c hc
    rcases Lists.mem_intercalate hc with hc | ⟨w, hw, hc⟩
    · rw [List.mem_singleton.mp hc]
      decide
    · exact List.any_eq_false.mp hzero c (Text.mem_of_mem_words hw c hc)
  have hread : optionalText (textOf (" ".intercalate (wordsOf o))) =
      some (some (" ".intercalate (wordsOf o))) := by
    rw [textOf_eq hplain, optionalText, Utf8.decode?_encode]
    rfl
  rw [plainText_eq_self_iff.mpr hplain, wordsIn, hread, wordsIn, h, Option.map_some,
    Option.map_some, wordsOf, Option.getD_some, hchars,
    Text.words_intercalate fun w => Text.isWord_of_mem_words]
  rfl

end Host

end KnxIoT
