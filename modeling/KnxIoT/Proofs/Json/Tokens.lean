import KnxIoT.Text.Blank
import KnxIoT.Proofs.Json.Grammar
import KnxIoT.Proofs.Lists
import KnxIoT.Proofs.Text.Blank

/-! # JSON: strings, words and numbers

Readers of the parts of a document that have no parts of their own, each taking one off the front of a
text: strings (`readQuoted?_eq_some_iff`), words (`readWord?_eq_some_iff`) and numbers
(`number?_eq_some_iff`). A number goes as far as its characters go (`readNumber?_append`). -/

namespace KnxIoT.Json

open Text (dropStart? dropStart?_eq_some_iff)

/-! ### The readers -/

/-- The text without the blanks at its front. -/
def skip (cs : List Char) : List Char := cs.dropWhile (· ∈ blanks)

/-- What `read` finds, with blanks around it. -/
def padded? {α : Type} (read : List Char → Option (α × List Char)) (cs : List Char) :
    Option (α × List Char) :=
  (read (skip cs)).map fun (x, rest) => (x, skip rest)

/-- A character whose number is written after `\u`. Two halves make one character. -/
def readUnit? (cs : List Char) : Option (Char × List Char) :=
  (unit? (cs.take 4)).bind fun n =>
    if IsHigh n then
      (dropStart? ['\\', 'u'] (cs.drop 4)).bind fun rest =>
        (unit? (rest.take 4)).bind fun low =>
          if IsLow low then some (joined n low, rest.drop 4) else none
    else if IsLow n then none
    else some (Char.ofNat n, cs.drop 4)

/-- A character of a string. -/
def readChar? : List Char → Option (Char × List Char)
  | [] => none
  | '\\' :: [] => none
  | '\\' :: e :: cs =>
    if e = 'u' then readUnit? cs else (ofLetter? e).map fun c => (c, cs)
  | c :: cs => if c = '"' ∨ c.toNat < 32 then none else some (c, cs)

/-- The characters of a string up to its closing quote. -/
def readChars? : ℕ → List Char → Option (List Char × List Char)
  | 0, _ => none
  | fuel + 1, cs =>
    match dropStart? ['"'] cs with
    | some rest => some ([], rest)
    | none =>
      (readChar? cs).bind fun (c, rest) =>
        (readChars? fuel rest).map fun (s, rest) => (c :: s, rest)

/-- A string between its quotes. -/
def readQuoted? : List Char → Option (String × List Char)
  | '"' :: cs => (readChars? cs.length cs).map fun (s, rest) => (String.ofList s, rest)
  | _ => none

/-- A value that is written as a word. -/
def readWord? (cs : List Char) : Option (Json × List Char) :=
  words.findSome? fun (j, t) => (dropStart? t cs).map fun rest => (j, rest)

/-- The characters of numbers. -/
def isNumeric (c : Char) : Bool :=
  Decimal.isDigit c || c ∈ ['-', '+', '.', 'e', 'E']

/-- Whether there is a minus sign at the front, and what follows it. -/
def takeMinus : List Char → Bool × List Char
  | '-' :: cs => (true, cs)
  | cs => (false, cs)

/-- The number that a text is. -/
def number? (t : List Char) : Option Json :=
  let (negative, cs) := takeMinus t
  let whole := cs.takeWhile Decimal.isDigit
  let tail := cs.dropWhile Decimal.isDigit
  let places := tail.takeWhile fun c => c ≠ 'e' ∧ c ≠ 'E'
  let power := tail.dropWhile fun c => c ≠ 'e' ∧ c ≠ 'E'
  if Natural whole ∧ Places places ∧ Power power then
    if places ++ power = [] then some (.int (signed negative whole))
    else (Decimal.readDouble? t).map .double
  else none

/-- A number, as far as its characters go. -/
def readNumber? (cs : List Char) : Option (Json × List Char) :=
  (number? (cs.takeWhile isNumeric)).map fun j => (j, cs.dropWhile isNumeric)

variable {c : Char} {cs rest s t : List Char} {j : Json}

/-! ### Blanks -/

theorem exists_skip (cs : List Char) : ∃ g, Gap g ∧ cs = g ++ skip cs :=
  ⟨cs.takeWhile (· ∈ blanks), fun _ hc => by simpa using List.mem_takeWhile_imp hc,
    List.takeWhile_append_dropWhile.symm⟩

theorem skip_append {g : List Char} (hg : Gap g) (hcs : ∀ c ∈ cs.head?, c ∉ blanks) :
    skip (g ++ cs) = cs := by
  unfold skip
  rw [List.dropWhile_append_of_pos fun c hc => decide_eq_true (hg c hc)]
  cases cs with
  | nil => rfl
  | cons c cs => exact List.dropWhile_cons_of_neg (by simpa using hcs c rfl)

section Padding
variable {α : Type} {read : List Char → Option (α × List Char)} {x : α} {g g' : List Char}

theorem padded?_append (hg : Gap g) (hg' : Gap g') (ht : ∀ r, ∀ c ∈ (t ++ r).head?, c ∉ blanks)
    (hrest : ∀ c ∈ rest.head?, c ∉ blanks) (hread : read (t ++ (g' ++ rest)) = some (x, g' ++ rest)) :
    padded? read (g ++ t ++ g' ++ rest) = some (x, rest) := by
  have hfront : skip (g ++ (t ++ (g' ++ rest))) = t ++ (g' ++ rest) := skip_append hg (ht _)
  have hback : skip (g' ++ rest) = rest := skip_append hg' hrest
  rw [padded?, List.append_assoc, List.append_assoc, hfront, hread, Option.map_some]
  dsimp only
  rw [hback]

theorem exists_of_padded? (h : padded? read cs = some (x, rest)) :
    ∃ g g', Gap g ∧ Gap g' ∧ cs = g ++ skip cs ∧ read (skip cs) = some (x, g' ++ rest) := by
  obtain ⟨⟨y, rest'⟩, hread, heq⟩ := Option.map_eq_some_iff.mp h
  obtain ⟨rfl, rfl⟩ := Prod.mk.inj heq
  obtain ⟨g, hg, hcs⟩ := exists_skip cs
  obtain ⟨g', hg', hrest⟩ := exists_skip rest'
  exact ⟨g, g', hg, hg', hcs, by rw [hread, ← hrest]⟩

end Padding

/-! ### Strings -/

theorem length_of_unit? {ds : List Char} {n : ℕ} (h : unit? ds = some n) : ds.length = 4 := by
  unfold unit? at h
  split at h
  · rfl
  · cases h

theorem readUnit?_eq_some_iff :
    readUnit? cs = some (c, rest) ↔ ∃ t, Coded c t ∧ cs = t ++ rest := by
  constructor
  · intro h
    obtain ⟨n, hn, h⟩ := Option.bind_eq_some_iff.mp h
    have hcs : cs = cs.take 4 ++ cs.drop 4 := (List.take_append_drop 4 cs).symm
    split_ifs at h with hhigh hlow
    · obtain ⟨rest₁, hdrop, h⟩ := Option.bind_eq_some_iff.mp h
      obtain ⟨low, hl, h⟩ := Option.bind_eq_some_iff.mp h
      split_ifs at h with hlow
      obtain ⟨rfl, rfl⟩ := Prod.mk.inj (Option.some.inj h)
      rw [dropStart?_eq_some_iff] at hdrop
      refine ⟨_, .pair hn hhigh hl hlow, hcs.trans ?_⟩
      rw [hdrop]
      simp
    · obtain ⟨rfl, rfl⟩ := Prod.mk.inj (Option.some.inj h)
      exact ⟨cs.take 4, .unit hn hhigh hlow, hcs⟩
  · rintro ⟨t, hc, rfl⟩
    unfold readUnit?
    cases hc with
    | @unit ds n h hhigh hlow =>
      have hlen := length_of_unit? h
      rw [List.take_left' hlen, List.drop_left' hlen, h, Option.bind_some, if_neg hhigh, if_neg hlow]
    | @pair ds ds' high low h hhigh h' hlow =>
      have hlen := length_of_unit? h
      have hlen' := length_of_unit? h'
      have hdrop : dropStart? ['\\', 'u'] ('\\' :: 'u' :: (ds' ++ rest)) = some (ds' ++ rest) :=
        dropStart?_eq_some_iff.mpr rfl
      rw [List.append_assoc, List.take_left' hlen, List.drop_left' hlen, h, Option.bind_some,
        if_pos hhigh, List.cons_append, List.cons_append, hdrop, Option.bind_some,
        List.take_left' hlen', List.drop_left' hlen', h', Option.bind_some, if_pos hlow]

theorem ofLetter?_u : ofLetter? 'u' = none := rfl

/-- **Characters of a string are read** as they may be written. -/
theorem readChar?_eq_some_iff :
    readChar? cs = some (c, rest) ↔ ∃ t, Spells c t ∧ cs = t ++ rest := by
  constructor
  · intro h
    unfold readChar? at h
    split at h
    · cases h
    · cases h
    · next e cs =>
      split_ifs at h with he
      · obtain ⟨t, ht, rfl⟩ := readUnit?_eq_some_iff.mp h
        exact ⟨_, .coded ht, by rw [he]; rfl⟩
      · obtain ⟨c', hc, heq⟩ := Option.map_eq_some_iff.mp h
        obtain ⟨rfl, rfl⟩ := Prod.mk.inj heq
        exact ⟨_, .letter hc, rfl⟩
    · next c' cs hslash hslash' =>
      split_ifs at h with hc
      obtain ⟨rfl, rfl⟩ := Prod.mk.inj (Option.some.inj h)
      rw [not_or, Nat.not_lt] at hc
      refine ⟨[c'], .plain hc.1 ?_ hc.2, rfl⟩
      rintro rfl
      cases cs with
      | nil => exact hslash rfl rfl
      | cons e cs => exact hslash' e cs rfl rfl
  · rintro ⟨t, hc, rfl⟩
    cases hc with
    | plain hquote hslash hcontrol =>
      have hneg : ¬ (c = '"' ∨ c.toNat < 32) := not_or.mpr ⟨hquote, Nat.not_lt.mpr hcontrol⟩
      rw [List.singleton_append, readChar?.eq_4 c rest (fun h _ => hslash h) fun _ _ h _ => hslash h,
        if_neg hneg]
    | @letter e c h =>
      have he : e ≠ 'u' := by
        rintro rfl
        rw [ofLetter?_u] at h
        cases h
      rw [List.cons_append, List.singleton_append, readChar?, if_neg he, h]
      rfl
    | @coded c t h =>
      rw [List.cons_append, List.cons_append, readChar?, if_pos rfl]
      exact readUnit?_eq_some_iff.mpr ⟨t, h, rfl⟩

theorem spelled_of_readChars? : ∀ {fuel : ℕ} {cs s rest : List Char},
    readChars? fuel cs = some (s, rest) → ∃ t, Spelled s t ∧ cs = t ++ '"' :: rest
  | fuel + 1, cs, s, rest, h => by
    unfold readChars? at h
    split at h
    · next hend =>
      obtain ⟨rfl, rfl⟩ := Prod.mk.inj (Option.some.inj h)
      rw [dropStart?_eq_some_iff] at hend
      exact ⟨[], .nil, hend⟩
    · obtain ⟨⟨c, rest₁⟩, hc, hmap⟩ := Option.bind_eq_some_iff.mp h
      obtain ⟨⟨s', rest₂⟩, hs, heq⟩ := Option.map_eq_some_iff.mp hmap
      obtain ⟨rfl, rfl⟩ := Prod.mk.inj heq
      obtain ⟨t, ht, rfl⟩ := readChar?_eq_some_iff.mp hc
      obtain ⟨ts, hts, rfl⟩ := spelled_of_readChars? hs
      exact ⟨t ++ ts, .cons ht hts, (List.append_assoc ..).symm⟩

theorem readChars?_cons {fuel : ℕ} (h : readChar? cs = some (c, rest)) :
    readChars? (fuel + 1) cs = (readChars? fuel rest).map fun (s, rest) => (c :: s, rest) := by
  rw [readChars?]
  split
  · next hend =>
    rw [dropStart?_eq_some_iff.mp hend] at h
    cases h
  · rw [h, Option.bind_some]

theorem readChars?_of_spelled (h : Spelled s t) (rest : List Char) :
    ∀ fuel, s.length < fuel → readChars? fuel (t ++ '"' :: rest) = some (s, rest) := by
  induction h with
  | nil =>
    intro fuel hfuel
    obtain ⟨fuel, rfl⟩ := Nat.exists_eq_add_one_of_ne_zero (Nat.ne_of_gt hfuel)
    rfl
  | @cons c cs t ts hc hcs ih =>
    intro fuel hfuel
    obtain ⟨fuel, rfl⟩ := Nat.exists_eq_add_one_of_ne_zero (Nat.ne_of_gt (Nat.zero_lt_of_lt hfuel))
    have hchar := readChar?_eq_some_iff.mpr ⟨t, hc, List.append_assoc t ts ('"' :: rest)⟩
    rw [readChars?_cons hchar, ih fuel (by simpa using hfuel), Option.map_some]

theorem Spells.length_pos (h : Spells c t) : 0 < t.length := by
  cases h <;> exact Nat.zero_lt_succ _

theorem Spelled.length_le (h : Spelled s t) : s.length ≤ t.length := by
  induction h with
  | nil => exact Nat.le_refl _
  | cons hc _ ih =>
    have hpos := hc.length_pos
    simp only [List.length_cons, List.length_append]
    omega

/-- **Strings are read.** -/
theorem readQuoted?_eq_some_iff {s : String} :
    readQuoted? cs = some (s, rest) ↔ ∃ t, Quoted s t ∧ cs = t ++ rest := by
  constructor
  · intro h
    unfold readQuoted? at h
    split at h
    · obtain ⟨⟨s', rest'⟩, hs, heq⟩ := Option.map_eq_some_iff.mp h
      obtain ⟨rfl, rfl⟩ := Prod.mk.inj heq
      obtain ⟨t, ht, rfl⟩ := spelled_of_readChars? hs
      exact ⟨_, .mk ht, by simp⟩
    · cases h
  · rintro ⟨t, ⟨ht⟩, rfl⟩
    have hlen := ht.length_le
    rw [List.cons_append, List.cons_append, List.append_assoc, readQuoted?, List.singleton_append,
      readChars?_of_spelled ht _ _ (by simp; omega)]
    rfl

/-! ### Words and numbers -/

theorem readWord?_eq_some_iff :
    readWord? cs = some (j, rest) ↔ ∃ t, (j, t) ∈ words ∧ cs = t ++ rest := by
  constructor
  · intro h
    obtain ⟨⟨j', t⟩, hmem, hmap⟩ := List.exists_of_findSome?_eq_some h
    obtain ⟨rest', hdrop, heq⟩ := Option.map_eq_some_iff.mp hmap
    obtain ⟨rfl, rfl⟩ := Prod.mk.inj heq
    exact ⟨t, hmem, dropStart?_eq_some_iff.mp hdrop⟩
  · rintro ⟨t, hmem, rfl⟩
    simp only [words, List.mem_cons, Prod.mk.injEq, List.not_mem_nil, or_false] at hmem
    rcases hmem with ⟨rfl, rfl⟩ | ⟨rfl, rfl⟩ | ⟨rfl, rfl⟩ <;> rfl

/-- The characters with which a number may begin. -/
def IsFirst (c : Char) : Prop := c = '-' ∨ Decimal.isDigit c = true

instance (c : Char) : Decidable (IsFirst c) := instDecidableOr

theorem IsFirst.not_mem {l : List Char} (h : IsFirst c) (hl : l.all (¬ IsFirst ·) = true) : c ∉ l :=
  fun hc => of_decide_eq_true (List.all_eq_true.mp hl c hc) h

theorem readWord?_of_isFirst (h : IsFirst c) (cs : List Char) : readWord? (c :: cs) = none := by
  rw [Option.eq_none_iff_forall_ne_some]
  rintro ⟨j, rest⟩ hread
  obtain ⟨t, hmem, heq⟩ := readWord?_eq_some_iff.mp hread
  simp only [words, List.mem_cons, Prod.mk.injEq, List.not_mem_nil, or_false] at hmem
  have hnot : c ∉ ['n', 't', 'f'] := h.not_mem rfl
  rcases hmem with ⟨-, rfl⟩ | ⟨-, rfl⟩ | ⟨-, rfl⟩ <;> obtain ⟨rfl, -⟩ := List.cons.inj heq <;>
    simp at hnot

theorem Natural.isFirst (h : Natural cs) : ∃ c cs', cs = c :: cs' ∧ Decimal.isDigit c = true := by
  obtain ⟨⟨hne, hall⟩, -⟩ := h
  obtain ⟨c, cs', rfl⟩ := List.exists_cons_of_ne_nil hne
  exact ⟨c, cs', rfl, List.all_eq_true.mp hall c List.mem_cons_self⟩

theorem Number.exists_cons (h : Number j t) : ∃ c t', t = c :: t' ∧ IsFirst c := by
  have hsign : ∀ (negative : Bool) {cs : List Char} (rest : List Char), Natural cs →
      ∃ c t', sign negative ++ (cs ++ rest) = c :: t' ∧ IsFirst c := by
    intro negative cs rest hcs
    obtain ⟨c, cs', rfl, hc⟩ := hcs.isFirst
    cases negative with
    | true => exact ⟨'-', _, rfl, .inl rfl⟩
    | false => exact ⟨c, _, rfl, .inr hc⟩
  cases h with
  | @whole negative cs h =>
    have := hsign negative [] h
    rwa [List.append_nil] at this
  | double negative h hplaces hpower hne hx => exact hsign negative _ h

theorem isDigit_ne {d : Char} (hc : Decimal.isDigit c = true) (hd : Decimal.isDigit d = false) :
    c ≠ d := by
  rintro rfl
  rw [hc] at hd
  cases hd

theorem sign_append_takeMinus (t : List Char) : sign (takeMinus t).1 ++ (takeMinus t).2 = t := by
  unfold takeMinus
  split <;> rfl

theorem takeMinus_sign_append (negative : Bool) (h : Natural cs) (rest : List Char) :
    takeMinus (sign negative ++ (cs ++ rest)) = (negative, cs ++ rest) := by
  obtain ⟨c, cs', rfl, hc⟩ := h.isFirst
  cases negative with
  | true => rfl
  | false =>
    rw [sign, if_neg Bool.false_ne_true, List.nil_append, List.cons_append, takeMinus]
    rintro _ heq
    rw [(List.cons.inj heq).1] at hc
    cases hc

theorem Digits.isDigit (h : Digits cs) : ∀ c ∈ cs, Decimal.isDigit c = true :=
  List.all_eq_true.mp h.2

theorem Places.mem (h : Places cs) (hc : c ∈ cs) : c = '.' ∨ Decimal.isDigit c = true := by
  cases cs with
  | nil => cases hc
  | cons d cs =>
    obtain ⟨hpoint, hdigits⟩ := h.resolve_left (List.cons_ne_nil d cs)
    rcases List.mem_cons.mp hc with rfl | hc
    · exact .inl (Option.some.inj hpoint)
    · exact .inr (hdigits.isDigit c hc)

theorem takeSign_mem (hc : c ∈ cs) :
    c = '-' ∨ c = '+' ∨ c ∈ (Decimal.takeSign cs).2 := by
  unfold Decimal.takeSign
  split
  · exact (List.mem_cons.mp hc).imp_right .inr
  · exact .inr (List.mem_cons.mp hc)
  · exact .inr (.inr hc)

theorem Power.head (h : Power cs) : ∀ c ∈ cs.head?, c = 'e' ∨ c = 'E' := by
  intro c hc
  cases cs with
  | nil => cases hc
  | cons d cs =>
    obtain ⟨hmark, -⟩ := h.resolve_left (List.cons_ne_nil d cs)
    rw [Option.mem_def] at hc
    rw [hc] at hmark
    exact hmark.imp Option.some.inj Option.some.inj

theorem Power.mem (h : Power cs) (hc : c ∈ cs) :
    c ∈ ['-', '+', '.', 'e', 'E'] ∨ Decimal.isDigit c = true := by
  cases cs with
  | nil => cases hc
  | cons d cs =>
    obtain ⟨-, hdigits⟩ := h.resolve_left (List.cons_ne_nil d cs)
    rcases List.mem_cons.mp hc with rfl | hc
    · rcases h.head c rfl with rfl | rfl <;> simp
    · rcases takeSign_mem hc with rfl | rfl | hc
      · simp
      · simp
      · exact .inr (hdigits.isDigit c hc)

theorem head_places_append {places power : List Char} (hplaces : Places places)
    (hpower : Power power) : ∀ c ∈ (places ++ power).head?, Decimal.isDigit c = false := by
  intro c hc
  cases places with
  | nil => rcases hpower.head c hc with rfl | rfl <;> rfl
  | cons d places =>
    obtain ⟨hpoint, -⟩ := hplaces.resolve_left (List.cons_ne_nil d places)
    obtain rfl : c = '.' := Option.some.inj (hc.symm.trans hpoint)
    rfl

theorem span_places {places power : List Char} (hplaces : Places places) (hpower : Power power) :
    (places ++ power).takeWhile (fun c => c ≠ 'e' ∧ c ≠ 'E') = places ∧
      (places ++ power).dropWhile (fun c => c ≠ 'e' ∧ c ≠ 'E') = power := by
  refine Lists.span_append (fun c hc => decide_eq_true ?_) fun c hc => decide_eq_false ?_
  · rcases hplaces.mem hc with rfl | hc
    · decide
    · exact ⟨isDigit_ne hc rfl, isDigit_ne hc rfl⟩
  · rintro ⟨he, hE⟩
    exact (hpower.head c hc).elim he hE

theorem number_of_number? (h : number? t = some j) : Number j t := by
  have hsign := sign_append_takeMinus t
  unfold number? at h
  generalize takeMinus t = r at h hsign
  obtain ⟨negative, cs⟩ := r
  dsimp only at h hsign
  have hcs : cs.takeWhile Decimal.isDigit ++ cs.dropWhile Decimal.isDigit = cs :=
    List.takeWhile_append_dropWhile
  generalize cs.takeWhile Decimal.isDigit = whole at h hcs
  generalize cs.dropWhile Decimal.isDigit = tail at h hcs
  have htail : tail.takeWhile (fun c => c ≠ 'e' ∧ c ≠ 'E') ++
      tail.dropWhile (fun c => c ≠ 'e' ∧ c ≠ 'E') = tail := List.takeWhile_append_dropWhile
  generalize tail.takeWhile (fun c => c ≠ 'e' ∧ c ≠ 'E') = places at h htail
  generalize tail.dropWhile (fun c => c ≠ 'e' ∧ c ≠ 'E') = power at h htail
  subst htail hcs hsign
  split_ifs at h with hok htail
  · obtain rfl := Option.some.inj h
    rw [htail, List.append_nil]
    exact .whole negative hok.1
  · obtain ⟨x, hx, rfl⟩ := Option.map_eq_some_iff.mp h
    exact .double negative hok.1 hok.2.1 hok.2.2 htail hx

theorem number?_of_number (h : Number j t) : number? t = some j := by
  unfold number?
  cases h with
  | @whole negative cs h =>
    have hminus := takeMinus_sign_append negative h []
    have hspan := @Lists.span_append _ Decimal.isDigit cs [] h.1.isDigit fun _ hc => nomatch hc
    rw [List.append_nil] at hminus hspan
    rw [hminus]
    dsimp only
    rw [hspan.1, hspan.2]
    exact (if_pos ⟨h, .inl rfl, .inl rfl⟩).trans (if_pos rfl)
  | @double negative cs places power x h hplaces hpower hne hx =>
    have hminus := takeMinus_sign_append negative h (places ++ power)
    have hspan := Lists.span_append h.1.isDigit (head_places_append hplaces hpower)
    have hmark := span_places hplaces hpower
    rw [hminus]
    dsimp only
    rw [hspan.1, hspan.2, hmark.1, hmark.2, if_pos ⟨h, hplaces, hpower⟩, if_neg hne, hx]
    rfl

/-- **Numbers are read.** -/
theorem number?_eq_some_iff : number? t = some j ↔ Number j t :=
  ⟨number_of_number?, number?_of_number⟩

theorem Number.isNumeric (h : Number j t) : ∀ c ∈ t, isNumeric c = true := by
  have hsign : ∀ {negative : Bool} {c : Char}, c ∈ sign negative → Json.isNumeric c = true := by
    intro negative c hc
    cases negative with
    | true =>
      obtain rfl := List.mem_singleton.mp hc
      rfl
    | false => cases hc
  have hdigit : ∀ {c : Char}, Decimal.isDigit c = true → Json.isNumeric c = true := by
    intro c hc
    rw [Json.isNumeric, hc, Bool.true_or]
  intro c hc
  cases h with
  | whole negative h =>
    rcases List.mem_append.mp hc with hc | hc
    · exact hsign hc
    · exact hdigit (h.1.isDigit c hc)
  | double negative h hplaces hpower hne hx =>
    rcases List.mem_append.mp hc with hc | hc
    · exact hsign hc
    rcases List.mem_append.mp hc with hc | hc
    · exact hdigit (h.1.isDigit c hc)
    rcases List.mem_append.mp hc with hc | hc
    · rcases hplaces.mem hc with rfl | hc
      · rfl
      · exact hdigit hc
    · rcases hpower.mem hc with hc | hc
      · rw [Json.isNumeric, decide_eq_true hc, Bool.or_true]
      · exact hdigit hc

theorem readNumber?_append (h : Number j t) (hrest : ∀ c ∈ rest.head?, isNumeric c = false) :
    readNumber? (t ++ rest) = some (j, rest) := by
  obtain ⟨htake, hdrop⟩ := Lists.span_append h.isNumeric hrest
  rw [readNumber?, htake, hdrop, number?_eq_some_iff.mpr h, Option.map_some]

theorem number_of_readNumber? (h : readNumber? cs = some (j, rest)) :
    ∃ t, Number j t ∧ cs = t ++ rest := by
  obtain ⟨j', hnumber, heq⟩ := Option.map_eq_some_iff.mp h
  obtain ⟨rfl, rfl⟩ := Prod.mk.inj heq
  exact ⟨_, number?_eq_some_iff.mp hnumber, List.takeWhile_append_dropWhile.symm⟩

end KnxIoT.Json
