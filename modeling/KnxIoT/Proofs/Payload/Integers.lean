import Mathlib.Algebra.Group.Int.Defs
import Mathlib.Algebra.Group.Nat.Defs
import KnxIoT.Proofs.Cbor.Reading
import KnxIoT.Proofs.Decimal.Whole
import KnxIoT.Proofs.Json.Reader
import KnxIoT.Proofs.Payload.Tree
import KnxIoT.Proofs.Text.Hex

/-! # Payloads: which integer was sent

An integer is sent in a head, or as a big number: a byte string under tag 2, or under tag 3 for
`-1 - n` (`Cbor.Denotes`). Its text is a number, a string of decimal digits, or, where the decoder
keeps the byte string under its tag (`Cbor.Kept`), a string of hexadecimal digits. No text is of two
of these kinds, and each kind tells its integers apart, but for the sign of those that are kept: the
tag is dropped. So the texts of two different integers are the same exactly if one of them is `n`,
the other is `-1 - n`, and the same bytes are kept for both (`same_text_iff`). -/

namespace KnxIoT

namespace Cbor

/-! ## Encodings of integers -/

/-- The integer of a big number: under tag 2 the number of the byte string, under tag 3 what is as
far below `-1`. -/
def bigInteger (number n : ℕ) : ℤ := if number = 2 then n else -1 - n

/-- **The encodings of an integer.** -/
inductive Denotes : ℤ → Bytes → Prop
  | unsigned {n : ℕ} {hd : Bytes} (h : (Head.unsigned n).Encoded hd) : Denotes n hd
  | negative {n : ℕ} {hd : Bytes} (h : (Head.negative n).Encoded hd) : Denotes (-1 - n) hd
  | big {number : ℕ} {len : Option ℕ} {content hd hd' bs : Bytes}
      (h : (Head.tag number).Encoded hd) (hnum : number = 2 ∨ number = 3)
      (h' : (Head.bytes len).Encoded hd') (hc : Content .bytes len content bs)
      (hlen : content.length ≤ 16) :
      Denotes (bigInteger number (ofBigEndian content)) (hd ++ (hd' ++ bs))

/-- **A big number whose bytes `c` are kept under the tag:** it is out of range for an integer, and
then zeros at the front are left out, or its byte string has no length. -/
inductive Kept : Bytes → Bytes → Prop
  | large {number : ℕ} {content hd hd' : Bytes} (h : (Head.tag number).Encoded hd)
      (hnum : number = 2 ∨ number = 3) (h' : (Head.bytes (some content.length)).Encoded hd')
      (hlen : content.length ≤ 16) (hn : UInt64.size ≤ ofBigEndian content) :
      Kept (significant content) (hd ++ (hd' ++ content))
  | openLength {number : ℕ} {content hd hd' bs : Bytes} (h : (Head.tag number).Encoded hd)
      (hnum : number = 2 ∨ number = 3) (h' : (Head.bytes none).Encoded hd')
      (hc : Content .bytes none content bs) : Kept content (hd ++ (hd' ++ bs))

theorem Denotes.ne_nil {i : ℤ} {bs : Bytes} (h : Denotes i bs) : bs ≠ [] := by
  rcases h with h | h | ⟨h, -⟩
  · exact h.ne_nil
  · exact h.ne_nil
  · exact List.append_ne_nil_of_left_ne_nil h.ne_nil _

theorem Kept.ne_nil {c bs : Bytes} (h : Kept c bs) : bs ≠ [] := by
  rcases h with ⟨h, -⟩ | ⟨h, -⟩
  · exact List.append_ne_nil_of_left_ne_nil h.ne_nil _
  · exact List.append_ne_nil_of_left_ne_nil h.ne_nil _

/-! ## Digits to the base 256 -/

theorem foldl_lt (bs : Bytes) (n : ℕ) :
    bs.foldl (fun n b => 256 * n + b.toNat) n < (n + 1) * 256 ^ bs.length := by
  induction bs generalizing n with
  | nil => simp
  | cons b bs ih =>
    have hb := b.toNat_lt
    calc (b :: bs).foldl (fun n b => 256 * n + b.toNat) n
        < (256 * n + b.toNat + 1) * 256 ^ bs.length := ih _
      _ ≤ (256 * (n + 1)) * 256 ^ bs.length := Nat.mul_le_mul_right _ (by omega)
      _ = (n + 1) * 256 ^ (bs.length + 1) := by rw [Nat.pow_succ]; ac_rfl

theorem ofBigEndian_lt (bs : Bytes) : ofBigEndian bs < 256 ^ bs.length := by
  have h := foldl_lt bs 0
  rwa [Nat.zero_add, Nat.one_mul] at h

theorem ofBigEndian_significant (bs : Bytes) : ofBigEndian (significant bs) = ofBigEndian bs := by
  induction bs with
  | nil => rfl
  | cons b bs ih =>
    unfold significant at ih ⊢
    by_cases hb : b = 0
    · rw [List.dropWhile_cons_of_pos (by simpa using hb), ih, hb]
      rfl
    · rw [List.dropWhile_cons_of_neg (by simpa using hb)]

theorem Argument.lt {info n : ℕ} {arg : Bytes} (h : Argument info (some n) arg) :
    n < UInt64.size := by
  rcases h with h | ⟨h, h', hlen⟩
  · exact h.trans (by decide)
  · have hle : arg.length ≤ 2 ^ 3 := hlen ▸ Nat.pow_le_pow_right (by omega) (by omega)
    calc ofBigEndian arg < 256 ^ arg.length := ofBigEndian_lt arg
      _ ≤ 256 ^ 2 ^ 3 := Nat.pow_le_pow_right (by omega) hle
      _ = UInt64.size := rfl

theorem Head.Encoded.unsigned_lt {n : ℕ} {hd : Bytes} (h : (Head.unsigned n).Encoded hd) :
    n < UInt64.size := by
  obtain ⟨h⟩ := h
  exact h.lt

/-! ## What is decoded -/

section Decoded
variable {number : ℕ} {content hd hd' bs : Bytes} {item : Item}

theorem decode?_flat (h : Flat item bs) : decode? bs = some item :=
  decode?_eq_some_item_iff.mpr ⟨bs, [], .of_flat h _, (List.append_nil bs).symm⟩

theorem bigNumber?_of_lt (hnum : number = 2 ∨ number = 3) (hn : ofBigEndian content < UInt64.size) :
    bigNumber? number content = some (.int (bigInteger number (ofBigEndian content))) := by
  rw [bigNumber?, bigInteger, if_pos hn, if_pos hn]
  rcases hnum with rfl | rfl <;> rfl

theorem bigNumber?_of_le (hnum : number = 2 ∨ number = 3) (hn : UInt64.size ≤ ofBigEndian content)
    (h : bigNumber? number content = some item) :
    item = .tag number (.bytes (significant content)) := by
  rw [bigNumber?, if_neg (Nat.not_lt.mpr hn), if_neg (Nat.not_lt.mpr hn)] at h
  rcases hnum with rfl | rfl
  · rw [if_pos rfl] at h
    exact (Option.some.inj h).symm
  · rw [if_neg (by decide)] at h
    split_ifs at h
    exact (Option.some.inj h).symm

theorem decode?_big (h : (Head.tag number).Encoded hd) (hnum : number = 2 ∨ number = 3)
    (h' : (Head.bytes (some content.length)).Encoded hd') (hlen : content.length ≤ 16) :
    decode? (hd ++ (hd' ++ content)) = bigNumber? number content := by
  have htake := (takeBytes?_reads content.length).front ⟨rfl, rfl⟩ []
  rw [List.append_nil] at htake
  have hbig : readBigNumber? number (hd' ++ content) =
      some ((bigNumber? number content).map fun item => (item, [])) := by
    rw [readBigNumber?, if_pos hnum, readHead?_reads.front h' content]
    dsimp only
    rw [if_pos hlen, htake, Option.bind_some]
  rw [decode?, readItem?, readHead?_reads.front h, Option.bind_some]
  dsimp only
  rw [hbig]
  cases bigNumber? number content <;> rfl

/-- Without a length it stays a byte string under its tag. -/
theorem decode?_open (h : (Head.tag number).Encoded hd) (h' : (Head.bytes none).Encoded hd')
    (hc : Content .bytes none content bs) :
    decode? (hd ++ (hd' ++ bs)) = some (.tag number (.bytes content)) := by
  have hbig : ¬ IsBig number (hd' ++ bs) := by
    rintro ⟨-, n, hd'', rest, -, h'', heq⟩
    have hread := readHead?_reads.front h' bs
    rw [heq, readHead?_reads.front h''] at hread
    cases hread
  refine decode?_eq_some_item_iff.mpr ⟨_, [], ?_, (List.append_nil _).symm⟩
  exact .inr (.tag h hbig (.of_flat (.bytes h' hc) _))

theorem Kept.decode? {c : Bytes} (h : Kept c bs) (hd : decode? bs = some item) :
    ∃ number, item = .tag number (.bytes c) := by
  rcases h with ⟨ht, hnum, h', hlen, hn⟩ | ⟨ht, hnum, h', hc⟩
  · rw [decode?_big ht hnum h' hlen] at hd
    exact ⟨_, bigNumber?_of_le hnum hn hd⟩
  · rw [decode?_open ht h' hc] at hd
    exact ⟨_, (Option.some.inj hd).symm⟩

/-- **The encoding of an integer is decoded** as the integer, or its bytes are kept. -/
theorem Denotes.decode? {i : ℤ} (h : Denotes i bs) (hd : decode? bs = some item) :
    (item = .int i ∧ i < UInt64.size) ∨
      ∃ c, Kept c bs ∧ (i = ofBigEndian c ∨ i = -1 - ofBigEndian c) := by
  rcases h with h | h | ⟨h, hnum, h', hc, hlen⟩
  · rw [decode?_flat (.unsigned h)] at hd
    exact Or.inl ⟨(Option.some.inj hd).symm, by exact_mod_cast h.unsigned_lt⟩
  · rw [decode?_flat (.negative h)] at hd
    exact Or.inl ⟨(Option.some.inj hd).symm, by omega⟩
  next number len content hd₁ hd₂ bs =>
  have hsign : ∀ n, bigInteger number n = n ∨ bigInteger number n = -1 - n := by
    intro n
    unfold bigInteger
    split_ifs
    · exact Or.inl rfl
    · exact Or.inr rfl
  rcases hc with ⟨hc⟩ | hc
  · by_cases hn : UInt64.size ≤ ofBigEndian content
    · refine Or.inr ⟨_, .large h hnum h' hlen hn, ?_⟩
      rw [ofBigEndian_significant]
      exact hsign _
    · rw [decode?_big h hnum h' hlen, bigNumber?_of_lt hnum (by omega)] at hd
      refine Or.inl ⟨(Option.some.inj hd).symm, ?_⟩
      rcases hsign (ofBigEndian content) with heq | heq <;> rw [heq] <;> omega
  · exact Or.inr ⟨_, .openLength h hnum h' (.openLength hc), hsign _⟩

end Decoded

end Cbor

namespace Payload

open Cbor (Denotes Kept Item ofBigEndian)

/-! ## Texts of integers -/

section Texts
variable {i j : ℤ} {c c' bs bs' : Bytes} {text text' : String} {item item' : Item}

theorem toJson_eq_of_compact (h : item.FloatFree) (h' : item'.FloatFree)
    (heq : (toJson item).compact = (toJson item').compact) : toJson item = toJson item' := by
  have hdoc := Json.document_compact (floatFree_toJson h)
  rw [heq] at hdoc
  exact hdoc.unique (Json.document_compact (floatFree_toJson h'))

theorem floatFree_int (i : ℤ) : (Item.int i).FloatFree := nofun

theorem floatFree_kept (number : ℕ) (c : Bytes) : (Item.tag number (.bytes c)).FloatFree :=
  .tag nofun

theorem toJson_kept (number : ℕ) (c : Bytes) :
    toJson (.tag number (.bytes c)) = .str (Hex.ofBytes c) := by
  rw [toJson_tag, toJson]

theorem ofBytes_injective (h : Hex.ofBytes c = Hex.ofBytes c') : c = c' := by
  have hread := Hex.toBytes?_ofBytes c
  rw [h, Hex.toBytes?_ofBytes] at hread
  exact (Option.some.inj hread).symm

/-- Digits of a negative number are not hexadecimal digits: there is the sign. -/
theorem intText_ne_ofBytes (hi : i < 0) : String.ofList (Json.intText i) ≠ Hex.ofBytes c := by
  intro h
  have hsign : '-' ∈ (Hex.ofBytes c).toList := by
    rw [← h, String.toList_ofList]
    rcases i with n | n
    · exact absurd hi (Int.not_lt.mpr (Int.natCast_nonneg n))
    · exact List.mem_cons_self
  exact absurd (Hex.mem_lower hsign) (by decide)

/-- **Integers have JSON values of their own.** -/
theorem toJson_int_injective (h : toJson (.int i) = toJson (.int j)) : i = j := by
  rw [toJson, toJson, ofInt, ofInt] at h
  split_ifs at h
  · exact Json.int.inj h
  · have hread := Decimal.readInt?_intText i
    rw [String.ofList_injective (Json.str.inj h), Decimal.readInt?_intText] at hread
    exact (Option.some.inj hread).symm

theorem toJson_int_ne (hi : i < UInt64.size) : toJson (.int i) ≠ .str (Hex.ofBytes c) := by
  rw [toJson, ofInt]
  split_ifs with hrange
  · rintro ⟨⟩
  · have hmin : Int64.minValue.toInt < 0 := by decide
    exact fun h => intText_ne_ofBytes (by omega) (Json.str.inj h)

theorem exists_decode (hne : bs ≠ []) (ht : jsonText? bs = some text) :
    ∃ item, Cbor.decode? bs = some item ∧ text = (toJson item).compact := by
  rw [jsonText?, if_neg hne] at ht
  obtain ⟨item, hd, htext⟩ := Option.map_eq_some_iff.mp ht
  exact ⟨item, hd, htext.symm⟩

theorem text_of_kept (h : Kept c bs) (ht : jsonText? bs = some text) :
    text = (Json.str (Hex.ofBytes c)).compact := by
  obtain ⟨item, hd, rfl⟩ := exists_decode h.ne_nil ht
  obtain ⟨number, rfl⟩ := h.decode? hd
  rw [toJson_kept]

/-- **The text of an integer** is that of the integer itself, or of the bytes that are kept. -/
theorem text_of_denotes (h : Denotes i bs) (ht : jsonText? bs = some text) :
    (text = (toJson (.int i)).compact ∧ i < UInt64.size) ∨
      ∃ c, Kept c bs ∧ (i = ofBigEndian c ∨ i = -1 - ofBigEndian c) := by
  obtain ⟨item, hd, rfl⟩ := exists_decode h.ne_nil ht
  rcases h.decode? hd with ⟨rfl, hi⟩ | hkept
  · exact Or.inl ⟨rfl, hi⟩
  · exact Or.inr hkept

theorem text_int_ne (hi : i < UInt64.size) :
    (toJson (.int i)).compact ≠ (Json.str (Hex.ofBytes c)).compact := by
  intro heq
  rw [← toJson_kept 2] at heq
  exact toJson_int_ne hi ((toJson_eq_of_compact (floatFree_int i) (floatFree_kept 2 c) heq).trans
    (toJson_kept 2 c))

/-- **Two integers have the same text** exactly if they are `n` and `-1 - n` for some `n` and the
same bytes are kept for both. -/
theorem same_text_iff (h : Denotes i bs) (h' : Denotes j bs') (ht : jsonText? bs = some text)
    (ht' : jsonText? bs' = some text') (hne : i ≠ j) :
    text = text' ↔ i = -1 - j ∧ ∃ c, Kept c bs ∧ Kept c bs' := by
  constructor
  · rintro rfl
    rcases text_of_denotes h ht with ⟨htext, hi⟩ | ⟨c, hk, hi⟩ <;>
      rcases text_of_denotes h' ht' with ⟨htext', hj⟩ | ⟨c', hk', hj⟩
    · have hval := toJson_eq_of_compact (floatFree_int i) (floatFree_int j)
        (htext.symm.trans htext')
      exact absurd (toJson_int_injective hval) hne
    · exact absurd (htext.symm.trans (text_of_kept hk' ht')) (text_int_ne hi)
    · exact absurd (htext'.symm.trans (text_of_kept hk ht)) (text_int_ne hj)
    · have htext := (text_of_kept hk ht).symm.trans (text_of_kept hk' ht')
      rw [← toJson_kept 2, ← toJson_kept 2] at htext
      have hval := toJson_eq_of_compact (floatFree_kept 2 c) (floatFree_kept 2 c') htext
      rw [toJson_kept, toJson_kept] at hval
      obtain rfl := ofBytes_injective (Json.str.inj hval)
      -- both are the number of the same bytes, or as far below `-1`
      exact ⟨by omega, c, hk, hk'⟩
  · rintro ⟨-, c, hk, hk'⟩
    rw [text_of_kept hk ht, text_of_kept hk' ht']

end Texts

section Demo

theorem encoded_tag {number : ℕ} (h : number < 24) :
    (Cbor.Head.tag number).Encoded [Cbor.firstByte 6 number] := .tag (.short h)

theorem denotes_beyond (number : ℕ) (h : number = 2 ∨ number = 3) :
    Denotes (Cbor.bigInteger number (2 ^ 64))
      (Cbor.firstByte 6 number :: [0x49, 0x01, 0, 0, 0, 0, 0, 0, 0, 0]) := by
  have hlen : (Cbor.Head.bytes (some 9)).Encoded [0x49] := .bytes (.short (by decide))
  have hbytes : Cbor.StringKind.bytes.Admits [0x01, 0, 0, 0, 0, 0, 0, 0, 0] := trivial
  exact .big (encoded_tag (by omega)) h hlen (.whole hbytes) (by decide)

/-- `2 ^ 63` is a number and `-1 - 2 ^ 63` a string of its digits; no bytes are kept for them. -/
theorem same_text_iff_below : ∃ text text',
    jsonText? [0x3B, 0x80, 0, 0, 0, 0, 0, 0, 0] = some text ∧
    jsonText? [0x1B, 0x80, 0, 0, 0, 0, 0, 0, 0] = some text' ∧
    (text = text' ↔ (-1 - 2 ^ 63 : ℤ) = -1 - 2 ^ 63 ∧
      ∃ c, Kept c [0x3B, 0x80, 0, 0, 0, 0, 0, 0, 0] ∧
        Kept c [0x1B, 0x80, 0, 0, 0, 0, 0, 0, 0]) ∧ text ≠ text' := by
  have harg : Cbor.Argument 27 (some (ofBigEndian [0x80, 0, 0, 0, 0, 0, 0, 0]))
      [0x80, 0, 0, 0, 0, 0, 0, 0] := .long (by decide) (by decide) rfl
  have h : Denotes (-1 - 2 ^ 63) [0x3B, 0x80, 0, 0, 0, 0, 0, 0, 0] := .negative (.negative harg)
  have h' : Denotes (2 ^ 63) [0x1B, 0x80, 0, 0, 0, 0, 0, 0, 0] := .unsigned (.unsigned harg)
  have ht : jsonText? [0x3B, 0x80, 0, 0, 0, 0, 0, 0, 0] = some "\"-9223372036854775809\"" := by
    decide +kernel
  have ht' : jsonText? [0x1B, 0x80, 0, 0, 0, 0, 0, 0, 0] = some "9223372036854775808" := by
    decide +kernel
  exact ⟨_, _, ht, ht', same_text_iff h h' ht ht' (by decide), by decide⟩

/-- **The sign of a big number is lost:** `2 ^ 64` and `-1 - 2 ^ 64` have the same text. -/
theorem sign_lost : ¬ ∀ (i j : ℤ) (bs bs' : Bytes) (text text' : String), Denotes i bs →
    Denotes j bs' → jsonText? bs = some text → jsonText? bs' = some text' → i ≠ j →
      text ≠ text' := by
  intro h
  have ht : jsonText? [0xC2, 0x49, 0x01, 0, 0, 0, 0, 0, 0, 0, 0] =
      some "\"010000000000000000\"" := by decide +kernel
  have ht' : jsonText? [0xC3, 0x49, 0x01, 0, 0, 0, 0, 0, 0, 0, 0] =
      some "\"010000000000000000\"" := by decide +kernel
  exact h _ _ _ _ _ _ (denotes_beyond 2 (Or.inl rfl)) (denotes_beyond 3 (Or.inr rfl)) ht ht'
    (by decide) rfl

end Demo

end Payload

end KnxIoT
