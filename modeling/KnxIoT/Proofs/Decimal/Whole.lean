import KnxIoT.Decimal.Read
import KnxIoT.Json.Printer
import KnxIoT.Proofs.Text.Blank
import Mathlib.Data.Int.Notation

/-! # Whole numbers in decimal digits

The digits of a number are read back as the number (`readNat?_toDigits`, `readInt?_intText`), they have
no needless zero at the front (`head?_toDigits`) and no blank among them (`tight_intText`). -/

namespace KnxIoT.Decimal

variable {c : Char} {cs : List Char}

theorem isDigit_iff : isDigit c = true ↔ 48 ≤ c.toNat ∧ c.toNat ≤ 57 := by
  have hrange : ('0' ≤ c ∧ c ≤ '9') ↔ 48 ≤ c.toNat ∧ c.toNat ≤ 57 := by
    rw [Char.le_def, Char.le_def, UInt32.le_iff_toNat_le, UInt32.le_iff_toNat_le]
    exact Iff.rfl
  unfold isDigit digit?
  rw [← hrange]
  split_ifs with h
  · simp only [Option.isSome_some, h, and_self]
  · simp only [Option.isSome_none, h, Bool.false_eq_true]

theorem isDigit_eq (c : Char) : isDigit c = c.isDigit := by
  rw [Bool.eq_iff_iff, isDigit_iff, Char.isDigit, Bool.and_eq_true, decide_eq_true_iff,
    decide_eq_true_iff, ge_iff_le, UInt32.le_iff_toNat_le, UInt32.le_iff_toNat_le]
  exact Iff.rfl

theorem digit?_of_isDigit (h : isDigit c = true) : digit? c = some (c.toNat - '0'.toNat) := by
  unfold isDigit digit? at h
  unfold digit?
  split_ifs at h ⊢
  · rfl
  · cases h

theorem ofDigits_eq (h : ∀ c ∈ cs, isDigit c = true) : ofDigits cs = Nat.ofDigitChars 10 cs 0 := by
  rw [Nat.ofDigitChars_eq_foldl, ofDigits]
  refine List.foldl_ext _ _ _ fun n c hc => ?_
  rw [digit?_of_isDigit (h c hc), Option.getD_some]

theorem isDigit_of_mem_toDigits {n : ℕ} (h : c ∈ Nat.toDigits 10 n) : isDigit c = true := by
  rw [isDigit_eq]
  exact Nat.isDigit_of_mem_toDigits (by omega) (by omega) h

theorem ofDigits_toDigits (n : ℕ) : ofDigits (Nat.toDigits 10 n) = n := by
  rw [ofDigits_eq fun _ => isDigit_of_mem_toDigits, Nat.ofDigitChars_ten_toDigits]

/-- **The digits of a number are read back.** -/
theorem readNat?_toDigits (n : ℕ) : readNat? (Nat.toDigits 10 n) = some n := by
  have hall : (Nat.toDigits 10 n).all isDigit = true :=
    List.all_eq_true.mpr fun _ => isDigit_of_mem_toDigits
  rw [readNat?, if_pos ⟨Nat.toDigits_ne_nil, hall⟩, ofDigits_toDigits]

theorem head?_toDigits (n : ℕ) : n = 0 ∨ (Nat.toDigits 10 n).head? ≠ some '0' := by
  induction n using Nat.strong_induction_on with
  | _ n ih =>
    by_cases hn : n < 10
    · rw [Nat.toDigits_of_lt_base hn, List.head?_cons, Ne, Option.some.injEq, Nat.digitChar_eq_zero]
      exact Classical.em _
    · rcases ih (n / 10) (by omega) with hzero | hhead
      · omega
      · right
        rw [Nat.toDigits_of_base_le (by omega) (by omega), List.head?_append_of_ne_nil _
          Nat.toDigits_ne_nil]
        exact hhead

theorem takeSign_of_isDigit (h : ∀ c ∈ cs.head?, isDigit c = true) : takeSign cs = (false, cs) := by
  unfold takeSign
  split
  · exact absurd (h '-' rfl) (by decide)
  · exact absurd (h '+' rfl) (by decide)
  · rfl

theorem readInt?_intText (n : ℤ) : readInt? (Json.intText n) = some n := by
  rcases n with n | n
  · have hsign : takeSign (Nat.toDigits 10 n) = (false, Nat.toDigits 10 n) :=
      takeSign_of_isDigit fun c hc => isDigit_of_mem_toDigits (List.mem_of_mem_head? hc)
    rw [Json.intText, readInt?, hsign]
    dsimp only
    rw [readNat?_toDigits]
    rfl
  · rw [Json.intText, readInt?, takeSign]
    dsimp only
    rw [readNat?_toDigits]
    rfl

theorem ofList_intText (n : ℤ) : String.ofList (Json.intText n) = toString n := by
  rcases n with n | n
  · rfl
  · exact @String.ofList_append ['-'] _

theorem isBlank_of_isDigit (h : isDigit c = true) : Text.isBlank c = false := by
  rw [isDigit_iff] at h
  unfold Text.isBlank
  simp
  omega

/-- **There is no blank in a whole number.** -/
theorem tight_intText (n : ℤ) : Text.Tight (Json.intText n) := by
  have hplain : ∀ c ∈ Json.intText n, Text.isBlank c = false := by
    intro c hc
    rcases n with n | n
    · exact isBlank_of_isDigit (isDigit_of_mem_toDigits hc)
    · rcases List.mem_cons.mp hc with rfl | hc
      · decide
      · exact isBlank_of_isDigit (isDigit_of_mem_toDigits hc)
  exact ⟨fun c hc => hplain c (List.mem_of_mem_head? hc),
    fun c hc => hplain c (List.mem_of_getLast? hc)⟩

end KnxIoT.Decimal
