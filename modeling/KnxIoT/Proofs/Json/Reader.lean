import KnxIoT.Proofs.Json.Tokens

/-! # JSON: reading

A reader of JSON documents. It reads the documents and nothing else, each as its value
(`read?_eq_some_iff`), so a text is a document of at most one value (`Document.unique`). -/

namespace KnxIoT.Json

open Text (dropStart? dropStart?_eq_some_iff)

mutual

/-- A value. -/
def readValue? : ℕ → List Char → Option (Json × List Char)
  | 0, _ => none
  | _ + 1, [] => none
  | fuel + 1, c :: cs =>
    if c = '"' then (readQuoted? (c :: cs)).map fun (s, rest) => (.str s, rest)
    else if c = '[' then
      match dropStart? [']'] (skip cs) with
      | some rest => some (.arr [], rest)
      | none => (readItems? fuel cs).map fun (items, rest) => (.arr items, rest)
    else if c = '{' then
      match dropStart? ['}'] (skip cs) with
      | some rest => some (.obj [], rest)
      | none => (readMembers? fuel cs).map fun (members, rest) => (.obj members, rest)
    else (readWord? (c :: cs)).or (readNumber? (c :: cs))

/-- The items of an array up to its closing bracket. -/
def readItems? : ℕ → List Char → Option (List Json × List Char)
  | 0, _ => none
  | fuel + 1, cs =>
    (padded? (readValue? fuel) cs).bind fun (j, rest) =>
      match rest with
      | ',' :: rest => (readItems? fuel rest).map fun (js, rest) => (j :: js, rest)
      | ']' :: rest => some ([j], rest)
      | _ => none

/-- The members of an object up to its closing brace. -/
def readMembers? : ℕ → List Char → Option (List (String × Json) × List Char)
  | 0, _ => none
  | fuel + 1, cs =>
    (padded? readQuoted? cs).bind fun (k, rest) =>
      (dropStart? [':'] rest).bind fun rest =>
        (padded? (readValue? fuel) rest).bind fun (j, rest) =>
          match rest with
          | ',' :: rest => (readMembers? fuel rest).map fun (ms, rest) => ((k, j) :: ms, rest)
          | '}' :: rest => some ([(k, j)], rest)
          | _ => none

end

/-- **The value of a document.** -/
def read? (text : String) : Option Json :=
  match padded? (readValue? (2 * text.toList.length + 1)) text.toList with
  | some (j, []) => some j
  | _ => none

variable {c : Char} {cs rest t : List Char} {j : Json}

/-! ### Front and end -/

/-- The characters with which no value begins. -/
def stops : List Char := [' ', '\t', '\n', '\r', ']']

theorem Value.exists_cons (h : Value j t) : ∃ c t', t = c :: t' ∧ c ∉ stops := by
  cases h with
  | word h =>
    simp only [words, List.mem_cons, Prod.mk.injEq, List.not_mem_nil, or_false] at h
    rcases h with ⟨-, rfl⟩ | ⟨-, rfl⟩ | ⟨-, rfl⟩ <;> exact ⟨_, _, rfl, by decide⟩
  | number h =>
    obtain ⟨c, t', rfl, hc⟩ := h.exists_cons
    exact ⟨c, t', rfl, hc.not_mem rfl⟩
  | str h =>
    obtain ⟨h⟩ := h
    exact ⟨'"', _, rfl, by decide⟩
  | emptyArr hg => exact ⟨'[', _, rfl, by decide⟩
  | arr h => exact ⟨'[', _, rfl, by decide⟩
  | emptyObj hg => exact ⟨'{', _, rfl, by decide⟩
  | obj h => exact ⟨'{', _, rfl, by decide⟩

theorem Value.head_not_mem (h : Value j t) (r : List Char) : ∀ c ∈ (t ++ r).head?, c ∉ stops := by
  obtain ⟨c, t', rfl, hc⟩ := h.exists_cons
  rintro _ ⟨⟩
  exact hc

theorem not_mem_blanks (h : c ∉ stops) : c ∉ blanks := fun hc => h (List.mem_append_left [']'] hc)

theorem Padded.head_skip (h : Padded j t) (r : List Char) :
    ∀ c ∈ (skip (t ++ r)).head?, c ≠ ']' := by
  obtain @⟨_, g, t, g', hg, h, hg'⟩ := h
  have hhead := h.head_not_mem (g' ++ r)
  rw [List.append_assoc, List.append_assoc, skip_append hg fun c hc => not_mem_blanks (hhead c hc)]
  rintro c hc rfl
  exact hhead _ hc (by decide)

theorem PaddedKey.head_skip {k : String} (h : PaddedKey k t) (r : List Char) :
    (skip (t ++ r)).head? = some '"' := by
  obtain @⟨g, t, g', hg, h, hg'⟩ := h
  obtain ⟨h⟩ := h
  rw [List.append_assoc, List.append_assoc, skip_append hg]
  · rfl
  · rintro _ ⟨⟩
    decide

theorem dropStart?_skip_items {js : List Json} (h : Items js t) (r : List Char) :
    dropStart? [']'] (skip (t ++ r)) = none := by
  have hhead : ∀ c ∈ (skip (t ++ r)).head?, c ≠ ']' := by
    cases h with
    | one h => exact h.head_skip r
    | @cons _ _ t ts h hs =>
      rw [List.append_assoc]
      exact h.head_skip _
  rw [Option.eq_none_iff_forall_ne_some]
  intro rest hdrop
  rw [dropStart?_eq_some_iff] at hdrop
  exact hhead ']' (by rw [hdrop]; rfl) rfl

theorem dropStart?_skip_members {ms : List (String × Json)} (h : Members ms t) (r : List Char) :
    dropStart? ['}'] (skip (t ++ r)) = none := by
  have hhead : (skip (t ++ r)).head? = some '"' := by
    cases h with
    | one hk h =>
      rw [List.append_assoc]
      exact hk.head_skip _
    | cons hk h hs =>
      rw [List.append_assoc]
      exact hk.head_skip _
  rw [Option.eq_none_iff_forall_ne_some]
  intro rest hdrop
  rw [dropStart?_eq_some_iff] at hdrop
  rw [hdrop] at hhead
  exact absurd hhead (by simp)

/-! ### What is written is read -/

theorem readValue?_quote (fuel : ℕ) (cs : List Char) : readValue? (fuel + 1) ('"' :: cs) =
    (readQuoted? ('"' :: cs)).map fun (s, rest) => (.str s, rest) := by
  rw [readValue?, if_pos rfl]

theorem readValue?_bracket (fuel : ℕ) (cs : List Char) : readValue? (fuel + 1) ('[' :: cs) =
    match dropStart? [']'] (skip cs) with
    | some rest => some (.arr [], rest)
    | none => (readItems? fuel cs).map fun (items, rest) => (.arr items, rest) := by
  rw [readValue?, if_neg (by decide), if_pos rfl]

theorem readValue?_brace (fuel : ℕ) (cs : List Char) : readValue? (fuel + 1) ('{' :: cs) =
    match dropStart? ['}'] (skip cs) with
    | some rest => some (.obj [], rest)
    | none => (readMembers? fuel cs).map fun (members, rest) => (.obj members, rest) := by
  rw [readValue?, if_neg (by decide), if_neg (by decide), if_pos rfl]

theorem readValue?_other (h : c ∉ ['"', '[', '{']) (fuel : ℕ) (cs : List Char) :
    readValue? (fuel + 1) (c :: cs) = (readWord? (c :: cs)).or (readNumber? (c :: cs)) := by
  simp only [List.mem_cons, List.not_mem_nil, or_false, not_or] at h
  rw [readValue?, if_neg h.1, if_neg h.2.1, if_neg h.2.2]

theorem dropStart?_cons (c : Char) (rest : List Char) : dropStart? [c] (c :: rest) = some rest :=
  dropStart?_eq_some_iff.mpr rfl

theorem dropStart?_skip_gap {g : List Char} (hg : Gap g) (hc : c ∉ blanks) (rest : List Char) :
    dropStart? [c] (skip (g ++ ([c] ++ rest))) = some rest := by
  have hhead : ∀ d ∈ ([c] ++ rest).head?, d ∉ blanks := by
    rintro _ ⟨⟩
    exact hc
  rw [skip_append hg hhead, List.singleton_append, dropStart?_cons]

theorem readValue?_word {fuel : ℕ} (h : (j, t) ∈ words) (rest : List Char) :
    readValue? (fuel + 1) (t ++ rest) = some (j, rest) := by
  have hread : readWord? (t ++ rest) = some (j, rest) := readWord?_eq_some_iff.mpr ⟨t, h, rfl⟩
  have hfront : ∃ c t', t = c :: t' ∧ c ∉ ['"', '[', '{'] := by
    simp only [words, List.mem_cons, Prod.mk.injEq, List.not_mem_nil, or_false] at h
    rcases h with ⟨-, rfl⟩ | ⟨-, rfl⟩ | ⟨-, rfl⟩ <;> exact ⟨_, _, rfl, by decide⟩
  obtain ⟨c, t', rfl, hc⟩ := hfront
  rw [List.cons_append] at hread ⊢
  rw [readValue?_other hc, hread, Option.some_or]

theorem readValue?_number {fuel : ℕ} (h : Number j t) (hrest : ∀ c ∈ rest.head?, isNumeric c = false) :
    readValue? (fuel + 1) (t ++ rest) = some (j, rest) := by
  have hread := readNumber?_append h hrest
  obtain ⟨c, t', rfl, hc⟩ := h.exists_cons
  have hnot : c ∉ ['"', '[', '{'] := hc.not_mem rfl
  rw [List.cons_append] at hread ⊢
  rw [readValue?_other hnot, readWord?_of_isFirst hc, hread, Option.none_or]

theorem readValue?_str {fuel : ℕ} {s : String} (h : Quoted s t) (rest : List Char) :
    readValue? (fuel + 1) (t ++ rest) = some (.str s, rest) := by
  have hread : readQuoted? (t ++ rest) = some (s, rest) := readQuoted?_eq_some_iff.mpr ⟨t, h, rfl⟩
  obtain ⟨h⟩ := h
  rw [List.cons_append, List.cons_append] at hread ⊢
  rw [readValue?_quote, hread, Option.map_some]

theorem readValue?_arr {fuel : ℕ} {items : List Json} (h : Items items t)
    (hread : readItems? fuel (t ++ ']' :: rest) = some (items, rest)) :
    readValue? (fuel + 1) ('[' :: t ++ [']'] ++ rest) = some (.arr items, rest) := by
  rw [List.cons_append, List.cons_append, List.append_assoc, List.singleton_append,
    readValue?_bracket, dropStart?_skip_items h, hread, Option.map_some]

theorem readValue?_obj {fuel : ℕ} {members : List (String × Json)} (h : Members members t)
    (hread : readMembers? fuel (t ++ '}' :: rest) = some (members, rest)) :
    readValue? (fuel + 1) ('{' :: t ++ ['}'] ++ rest) = some (.obj members, rest) := by
  rw [List.cons_append, List.cons_append, List.append_assoc, List.singleton_append,
    readValue?_brace, dropStart?_skip_members h, hread, Option.map_some]

theorem padded?_quoted {k : String} (h : PaddedKey k t) (rest : List Char) :
    padded? readQuoted? (t ++ ':' :: rest) = some (k, ':' :: rest) := by
  obtain @⟨g, t, g', hg, h, hg'⟩ := h
  refine padded?_append hg hg' ?_ ?_ (readQuoted?_eq_some_iff.mpr ⟨t, h, rfl⟩)
  · obtain ⟨h⟩ := h
    rintro r _ ⟨⟩
    decide
  · rintro _ ⟨⟩
    decide

theorem isNumeric_of_mem_blanks (h : c ∈ blanks) : isNumeric c = false := by
  simp only [blanks, List.mem_cons, List.not_mem_nil, or_false] at h
  rcases h with rfl | rfl | rfl | rfl <;> rfl

theorem padded?_value {fuel : ℕ} {g g' : List Char} (hg : Gap g) (hg' : Gap g') (h : Value j t)
    (hrest : ∀ c ∈ rest.head?, c ∉ blanks ∧ isNumeric c = false)
    (hread : ∀ {rest : List Char}, (∀ c ∈ rest.head?, isNumeric c = false) →
      readValue? fuel (t ++ rest) = some (j, rest)) :
    padded? (readValue? fuel) (g ++ t ++ g' ++ rest) = some (j, rest) := by
  refine padded?_append hg hg' (fun r c hc => not_mem_blanks (h.head_not_mem r c hc))
    (fun c hc => (hrest c hc).1) (hread ?_)
  cases g' with
  | nil => exact fun c hc => (hrest c hc).2
  | cons c g' =>
    rintro _ ⟨⟩
    exact isNumeric_of_mem_blanks (hg' c List.mem_cons_self)

/-- The characters that end the text of a value. -/
def Ends (rest : List Char) : Prop := ∀ c ∈ rest.head?, c ∉ blanks ∧ isNumeric c = false

theorem ends_nil : Ends [] := fun _ hc => nomatch hc

theorem ends_cons (h : c ∈ [',', ']', '}']) (rest : List Char) : Ends (c :: rest) := by
  simp only [List.mem_cons, List.not_mem_nil, or_false] at h
  rintro _ ⟨⟩
  rcases h with rfl | rfl | rfl <;> exact ⟨by decide, rfl⟩

mutual

theorem readValue?_append : ∀ {j : Json} {t : List Char}, Value j t → ∀ (fuel : ℕ) (rest : List Char),
    2 * t.length ≤ fuel → (∀ c ∈ rest.head?, isNumeric c = false) →
      readValue? fuel (t ++ rest) = some (j, rest)
  | _, _, h, 0, rest, hfuel, hrest => by
    obtain ⟨c, t', rfl, -⟩ := h.exists_cons
    cases hfuel
  | _, _, .word h, fuel + 1, rest, hfuel, hrest => readValue?_word h rest
  | _, _, .number h, fuel + 1, rest, hfuel, hrest => readValue?_number h hrest
  | _, _, .str h, fuel + 1, rest, hfuel, hrest => readValue?_str h rest
  | _, _, .emptyArr hg, fuel + 1, rest, hfuel, hrest => by
    rw [List.cons_append, List.cons_append, List.append_assoc, readValue?_bracket,
      dropStart?_skip_gap hg (by decide)]
  | _, _, .arr h, fuel + 1, rest, hfuel, hrest =>
    readValue?_arr h (readItems?_append h fuel rest (by simp at hfuel; omega))
  | _, _, .emptyObj hg, fuel + 1, rest, hfuel, hrest => by
    rw [List.cons_append, List.cons_append, List.append_assoc, readValue?_brace,
      dropStart?_skip_gap hg (by decide)]
  | _, _, .obj h, fuel + 1, rest, hfuel, hrest =>
    readValue?_obj h (readMembers?_append h fuel rest (by simp at hfuel; omega))

theorem padded?_padded : ∀ {j : Json} {t : List Char}, Padded j t → ∀ (fuel : ℕ) (rest : List Char),
    2 * t.length ≤ fuel → Ends rest → padded? (readValue? fuel) (t ++ rest) = some (j, rest)
  | _, _, .mk hg h hg', fuel, rest, hfuel, hrest =>
    padded?_value hg hg' h hrest fun hend =>
      readValue?_append h fuel _ (by simp only [List.length_append] at hfuel; omega) hend

theorem readItems?_append : ∀ {js : List Json} {t : List Char}, Items js t →
    ∀ (fuel : ℕ) (rest : List Char), 2 * t.length + 1 ≤ fuel →
      readItems? fuel (t ++ ']' :: rest) = some (js, rest)
  | _, _, .one h, fuel + 1, rest, hfuel => by
    have hread := padded?_padded h fuel _ (by omega) (ends_cons (c := ']') (by decide) rest)
    rw [readItems?, hread, Option.bind_some]
    rfl
  | _, _, @Items.cons j js t ts h hs, fuel + 1, rest, hfuel => by
    simp only [List.length_append, List.length_cons] at hfuel
    have hreads := readItems?_append hs fuel rest (by omega)
    have hread := padded?_padded h fuel (',' :: (ts ++ ']' :: rest)) (by omega)
      (ends_cons (by decide) _)
    rw [List.append_assoc, List.cons_append, readItems?, hread, Option.bind_some]
    simp only [hreads, Option.map_some]

theorem readMembers?_append : ∀ {ms : List (String × Json)} {t : List Char}, Members ms t →
    ∀ (fuel : ℕ) (rest : List Char), 2 * t.length + 1 ≤ fuel →
      readMembers? fuel (t ++ '}' :: rest) = some (ms, rest)
  | _, _, .one hk h, fuel + 1, rest, hfuel => by
    simp only [List.length_append, List.length_cons] at hfuel
    have hread := padded?_padded h fuel _ (by omega) (ends_cons (c := '}') (by decide) rest)
    rw [List.append_assoc, List.cons_append, readMembers?, padded?_quoted hk, Option.bind_some]
    dsimp only
    rw [dropStart?_cons, Option.bind_some, hread, Option.bind_some]
    rfl
  | _, _, @Members.cons k j ms tk t ts hk h hs, fuel + 1, rest, hfuel => by
    simp only [List.length_append, List.length_cons] at hfuel
    have hreads := readMembers?_append hs fuel rest (by omega)
    have hread := padded?_padded h fuel (',' :: (ts ++ '}' :: rest)) (by omega)
      (ends_cons (by decide) _)
    rw [List.append_assoc, List.cons_append, List.append_assoc, List.cons_append, readMembers?,
      padded?_quoted hk, Option.bind_some]
    dsimp only
    rw [dropStart?_cons, Option.bind_some, hread, Option.bind_some]
    simp only [hreads, Option.map_some]

end

/-! ### What is read is written -/

theorem padded_of_padded? {fuel : ℕ}
    (hread : ∀ {cs rest : List Char} {j : Json}, readValue? fuel cs = some (j, rest) →
      ∃ t, Value j t ∧ cs = t ++ rest)
    (h : padded? (readValue? fuel) cs = some (j, rest)) : ∃ t, Padded j t ∧ cs = t ++ rest := by
  obtain ⟨g, g', hg, hg', hcs, hvalue⟩ := exists_of_padded? h
  obtain ⟨t, ht, hskip⟩ := hread hvalue
  exact ⟨_, .mk hg ht hg', hcs.trans (by rw [hskip]; simp)⟩

theorem paddedKey_of_padded? {k : String} (h : padded? readQuoted? cs = some (k, rest)) :
    ∃ t, PaddedKey k t ∧ cs = t ++ rest := by
  obtain ⟨g, g', hg, hg', hcs, hkey⟩ := exists_of_padded? h
  obtain ⟨t, ht, hskip⟩ := readQuoted?_eq_some_iff.mp hkey
  exact ⟨_, .mk hg ht hg', hcs.trans (by rw [hskip]; simp)⟩

theorem exists_gap_of_dropStart? {c : Char} (h : dropStart? [c] (skip cs) = some rest) :
    ∃ g, Gap g ∧ cs = g ++ c :: rest := by
  obtain ⟨g, hg, hcs⟩ := exists_skip cs
  exact ⟨g, hg, hcs.trans (by rw [dropStart?_eq_some_iff.mp h]; rfl)⟩

mutual

theorem value_of_readValue? : ∀ {fuel : ℕ} {cs rest : List Char} {j : Json},
    readValue? fuel cs = some (j, rest) → ∃ t, Value j t ∧ cs = t ++ rest
  | fuel + 1, c :: cs, rest, j, h => by
    unfold readValue? at h
    split_ifs at h with hquote hbracket hbrace
    · obtain ⟨⟨s, rest'⟩, hs, heq⟩ := Option.map_eq_some_iff.mp h
      obtain ⟨rfl, rfl⟩ := Prod.mk.inj heq
      obtain ⟨t, ht, hcs⟩ := readQuoted?_eq_some_iff.mp hs
      exact ⟨t, .str ht, hcs⟩
    · subst hbracket
      split at h
      · next hend =>
        obtain ⟨rfl, rfl⟩ := Prod.mk.inj (Option.some.inj h)
        obtain ⟨g, hg, rfl⟩ := exists_gap_of_dropStart? hend
        exact ⟨_, .emptyArr hg, by simp⟩
      · obtain ⟨⟨items, rest'⟩, hitems, heq⟩ := Option.map_eq_some_iff.mp h
        obtain ⟨rfl, rfl⟩ := Prod.mk.inj heq
        obtain ⟨t, ht, rfl⟩ := items_of_readItems? hitems
        exact ⟨_, .arr ht, by simp⟩
    · subst hbrace
      split at h
      · next hend =>
        obtain ⟨rfl, rfl⟩ := Prod.mk.inj (Option.some.inj h)
        obtain ⟨g, hg, rfl⟩ := exists_gap_of_dropStart? hend
        exact ⟨_, .emptyObj hg, by simp⟩
      · obtain ⟨⟨members, rest'⟩, hmembers, heq⟩ := Option.map_eq_some_iff.mp h
        obtain ⟨rfl, rfl⟩ := Prod.mk.inj heq
        obtain ⟨t, ht, rfl⟩ := members_of_readMembers? hmembers
        exact ⟨_, .obj ht, by simp⟩
    · rcases Option.or_eq_some_iff.mp h with hword | ⟨-, hnumber⟩
      · obtain ⟨t, ht, hcs⟩ := readWord?_eq_some_iff.mp hword
        exact ⟨t, .word ht, hcs⟩
      · obtain ⟨t, ht, hcs⟩ := number_of_readNumber? hnumber
        exact ⟨t, .number ht, hcs⟩

theorem items_of_readItems? : ∀ {fuel : ℕ} {cs rest : List Char} {js : List Json},
    readItems? fuel cs = some (js, rest) → ∃ t, Items js t ∧ cs = t ++ ']' :: rest
  | fuel + 1, cs, rest, js, h => by
    unfold readItems? at h
    obtain ⟨⟨j, rest₁⟩, hj, hmark⟩ := Option.bind_eq_some_iff.mp h
    obtain ⟨t, ht, rfl⟩ := padded_of_padded? value_of_readValue? hj
    dsimp only at hmark
    split at hmark
    · obtain ⟨⟨js', rest₂⟩, hjs, heq⟩ := Option.map_eq_some_iff.mp hmark
      obtain ⟨rfl, rfl⟩ := Prod.mk.inj heq
      obtain ⟨ts, hts, rfl⟩ := items_of_readItems? hjs
      exact ⟨_, .cons ht hts, by simp⟩
    · obtain ⟨rfl, rfl⟩ := Prod.mk.inj (Option.some.inj hmark)
      exact ⟨t, .one ht, rfl⟩
    · cases hmark

theorem members_of_readMembers? : ∀ {fuel : ℕ} {cs rest : List Char} {ms : List (String × Json)},
    readMembers? fuel cs = some (ms, rest) → ∃ t, Members ms t ∧ cs = t ++ '}' :: rest
  | fuel + 1, cs, rest, ms, h => by
    unfold readMembers? at h
    obtain ⟨⟨k, rest₁⟩, hk, hcolon⟩ := Option.bind_eq_some_iff.mp h
    obtain ⟨rest₂, hdrop, hvalue⟩ := Option.bind_eq_some_iff.mp hcolon
    obtain ⟨⟨j, rest₃⟩, hj, hmark⟩ := Option.bind_eq_some_iff.mp hvalue
    obtain ⟨tk, htk, rfl⟩ := paddedKey_of_padded? hk
    obtain rfl : rest₁ = ':' :: rest₂ := dropStart?_eq_some_iff.mp hdrop
    obtain ⟨t, ht, rfl⟩ := padded_of_padded? value_of_readValue? hj
    dsimp only at hmark
    split at hmark
    · obtain ⟨⟨ms', rest₄⟩, hms, heq⟩ := Option.map_eq_some_iff.mp hmark
      obtain ⟨rfl, rfl⟩ := Prod.mk.inj heq
      obtain ⟨ts, hts, rfl⟩ := members_of_readMembers? hms
      exact ⟨_, .cons htk ht hts, by simp⟩
    · obtain ⟨rfl, rfl⟩ := Prod.mk.inj (Option.some.inj hmark)
      exact ⟨_, .one htk ht, by simp⟩
    · cases hmark

end

/-- **The documents are read,** and nothing else. -/
theorem read?_eq_some_iff {text : String} : read? text = some j ↔ Document j text := by
  unfold read? Document
  constructor
  · intro h
    split at h
    · next j' hread =>
      obtain rfl := Option.some.inj h
      obtain ⟨t, ht, htext⟩ := padded_of_padded? value_of_readValue? hread
      rwa [htext, List.append_nil]
    · cases h
  · intro h
    have hread := padded?_padded h (2 * text.toList.length + 1) [] (by omega) ends_nil
    rw [List.append_nil] at hread
    rw [hread]

/-- **A text is a document of one value** at most. -/
theorem Document.unique {j' : Json} {text : String} (h : Document j text) (h' : Document j' text) :
    j = j' := by
  rw [← read?_eq_some_iff] at h h'
  exact Option.some.inj (h.symm.trans h')

end KnxIoT.Json
