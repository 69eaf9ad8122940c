import KnxIoT.Json.Printer
import KnxIoT.Proofs.Decimal.Whole
import KnxIoT.Proofs.Json.Grammar
import KnxIoT.Proofs.Text.Hex

/-! # JSON: the compact text is a document

The compact text of a value without numbers with a fraction is a document of this value
(`document_compact`), by recursion on the value: every way in which a part is printed is one of the
ways in which it may be written. -/

namespace KnxIoT.Json

/-- The values inside a value, and the value itself. -/
inductive Part (p : Json) : Json → Prop
  | self : Part p p
  | item {items : List Json} {j : Json} (hj : j ∈ items) (h : Part p j) : Part p (.arr items)
  | member {members : List (String × Json)} {m : String × Json} (hm : m ∈ members)
      (h : Part p m.2) : Part p (.obj members)

/-- There are no numbers with a fraction. -/
def FloatFree (j : Json) : Prop := ∀ x, ¬ Part (.double x) j

/-! ### Strings -/

theorem spells_control {c : Char} (h : c.toNat < 32) :
    Spells c ['\\', 'u', '0', '0', Hex.digit (c.toNat / 16), Hex.digit (c.toNat % 16)] := by
  have hunit : unit? ['0', '0', Hex.digit (c.toNat / 16), Hex.digit (c.toNat % 16)] =
      some c.toNat := by
    rw [unit?, show Hex.value? '0' = some 0 from rfl, Hex.value?_digit _ (by omega),
      Hex.value?_digit _ (by omega)]
    refine congrArg some ?_
    omega
  have hcoded := Coded.unit hunit (fun h => by have := h.1; omega) fun h => by have := h.1; omega
  rw [Char.ofNat_toNat] at hcoded
  exact .coded hcoded

/-- **A character is escaped in a way in which it may be written.** -/
theorem spells_escape (c : Char) : Spells c (escape c) := by
  unfold escape
  split_ifs with h₁ h₂ h₃ h₄ h₅ h₆ h₇ h₈
  · rw [h₁]
    exact .letter rfl
  · rw [h₂]
    exact .letter rfl
  · rw [h₃]
    exact .letter rfl
  · rw [h₄]
    exact .letter rfl
  · rw [h₅]
    exact .letter rfl
  · rw [h₆]
    exact .letter rfl
  · rw [h₇]
    exact .letter rfl
  · exact spells_control h₈
  · exact .plain h₁ h₂ (by omega)

theorem spelled_escape (cs : List Char) : Spelled cs (cs.flatMap escape) := by
  induction cs with
  | nil => exact .nil
  | cons c cs ih => exact .cons (spells_escape c) ih

theorem quoted_quote (s : String) : Quoted s (quote s) := by
  have h := Quoted.mk (spelled_escape s.toList)
  rwa [String.ofList_toList] at h

/-! ### Numbers -/

theorem natural_toDigits (n : ℕ) : Natural (Nat.toDigits 10 n) := by
  refine ⟨⟨Nat.toDigits_ne_nil, List.all_eq_true.mpr fun _ => Decimal.isDigit_of_mem_toDigits⟩, ?_⟩
  intro hzero
  rcases Decimal.head?_toDigits n with rfl | hne
  · rfl
  · exact absurd hzero hne

theorem number_intText (n : ℤ) : Number (.int n) (intText n) := by
  rcases n with n | n
  · have h := Number.whole false (natural_toDigits n)
    rwa [signed, if_neg Bool.false_ne_true, Decimal.ofDigits_toDigits] at h
  · have h := Number.whole true (natural_toDigits (n + 1))
    rwa [signed, if_pos rfl, Decimal.ofDigits_toDigits] at h

/-! ### Values -/

theorem gap_nil : Gap [] := fun _ hc => nomatch hc

theorem padded_of_value {j : Json} {t : List Char} (h : Value j t) : Padded j t := by
  have hpadded := Padded.mk gap_nil h gap_nil
  rwa [List.nil_append, List.append_nil] at hpadded

theorem paddedKey_quote (k : String) : PaddedKey k (quote k) := by
  have hpadded := PaddedKey.mk gap_nil (quoted_quote k) gap_nil
  rwa [List.nil_append, List.append_nil] at hpadded

theorem value_arr {items : List Json} (h : items ≠ [] → Items items (commas (itemTexts items))) :
    Value (.arr items) (chars (.arr items)) := by
  cases items with
  | nil => exact .emptyArr gap_nil
  | cons j js => exact .arr (h (List.cons_ne_nil j js))

theorem value_obj {members : List (String × Json)}
    (h : members ≠ [] → Members members (commas (memberTexts members))) :
    Value (.obj members) (chars (.obj members)) := by
  cases members with
  | nil => exact .emptyObj gap_nil
  | cons m ms => exact .obj (h (List.cons_ne_nil m ms))

mutual

theorem value_chars : ∀ {j : Json}, FloatFree j → Value j (chars j)
  | .null, _ => .word (.head _)
  | .bool true, _ => .word (.tail _ (.head _))
  | .bool false, _ => .word (.tail _ (.tail _ (.head _)))
  | .int n, _ => .number (number_intText n)
  | .double x, h => absurd .self (h x)
  | .str s, _ => .str (quoted_quote s)
  | .arr _, h => value_arr fun hne => items_commas hne fun _ hi x hx => h x (.item hi hx)
  | .obj _, h => value_obj fun hne => members_commas hne fun _ hm x hx => h x (.member hm hx)

theorem items_commas : ∀ {js : List Json}, js ≠ [] → (∀ j ∈ js, FloatFree j) →
    Items js (commas (itemTexts js))
  | [], hne, _ => absurd rfl hne
  | [j], _, h => .one (padded_of_value (value_chars (h j List.mem_cons_self)))
  | j :: i :: js, _, h =>
    .cons (padded_of_value (value_chars (h j List.mem_cons_self)))
      (items_commas (List.cons_ne_nil i js) fun l hl => h l (List.mem_cons_of_mem j hl))

theorem members_commas : ∀ {ms : List (String × Json)}, ms ≠ [] → (∀ m ∈ ms, FloatFree m.2) →
    Members ms (commas (memberTexts ms))
  | [], hne, _ => absurd rfl hne
  | [(k, j)], _, h =>
    .one (paddedKey_quote k) (padded_of_value (value_chars (h (k, j) List.mem_cons_self)))
  | (k, j) :: m :: ms, _, h => by
    have hvalue := value_chars (h (k, j) List.mem_cons_self)
    have hmembers := members_commas (List.cons_ne_nil m ms) fun l hl => h l (List.mem_cons_of_mem _ hl)
    have htext := Members.cons (paddedKey_quote k) (padded_of_value hvalue) hmembers
    rwa [← List.cons_append, ← List.append_assoc] at htext

end

/-- **The compact text is a document.** -/
theorem document_compact {j : Json} (h : FloatFree j) : Document j j.compact := by
  rw [Document, compact, String.toList_ofList]
  exact padded_of_value (value_chars h)

end KnxIoT.Json
