import KnxIoT.Text.Utf8
import Mathlib.Data.Nat.Notation
import Mathlib.Tactic.Common
import Mathlib.Tactic.SplitIfs

/-! # The order of texts

Texts are ordered by their characters. The bytes of a smaller character come before those of a larger
one, whatever follows (`before_encodeChar`), so the bytes of texts have the same order as the texts
(`encode_lt_encode`). -/

namespace KnxIoT.Utf8

/-- Two byte strings that are in order with any further bytes behind them. -/
def Before (bs bs' : Bytes) : Prop := ∀ rest rest' : Bytes, bs ++ rest < bs' ++ rest'

theorem before_of_lt {a b : ℕ} (h : a < b) (hb : b < 256) (bs bs' : Bytes) :
    Before (UInt8.ofNat a :: bs) (UInt8.ofNat b :: bs') := by
  intro rest rest'
  refine List.cons_lt_cons_iff.mpr (.inl (UInt8.lt_iff_toNat_lt.mpr ?_))
  rwa [UInt8.toNat_ofNat_of_lt' (Nat.lt_trans h hb), UInt8.toNat_ofNat_of_lt' hb]

theorem before_of_le {a b : ℕ} {bs bs' : Bytes} (h : a ≤ b) (hb : b < 256)
    (htail : a = b → Before bs bs') : Before (UInt8.ofNat a :: bs) (UInt8.ofNat b :: bs') := by
  rcases Nat.lt_or_eq_of_le h with hlt | rfl
  · exact before_of_lt hlt hb bs bs'
  · intro rest rest'
    exact List.cons_lt_cons_iff.mpr (.inr ⟨rfl, htail rfl rest rest'⟩)

/-- **The bytes of a smaller character come first.** -/
theorem before_encodeChar {x y : Char} (h : x < y) :
    Before (String.utf8EncodeChar x) (String.utf8EncodeChar y) := by
  have hlt : x.val.toNat < y.val.toNat := UInt32.lt_iff_toNat_lt.mp (Char.lt_def.mp h)
  have hy : y.val.toNat < 0x110000 := by
    rcases y.valid with hy | hy
    · exact Nat.lt_trans hy (by omega)
    · exact hy.2
  rw [String.utf8EncodeChar.eq_1, String.utf8EncodeChar.eq_1]
  generalize x.val.toNat = m at hlt
  generalize y.val.toNat = n at hlt hy
  -- a longer encoding has a larger first byte; those of one length are compared byte by byte
  split_ifs with hm₁ hn₁ hn₂ hn₃ hm₂ hn₁ hn₂ hn₃ hm₃ hn₁ hn₂ hn₃ hn₁ hn₂ hn₃
  · exact before_of_lt hlt (by omega) _ _
  · exact before_of_lt (by omega) (by omega) _ _
  · exact before_of_lt (by omega) (by omega) _ _
  · exact before_of_lt (by omega) (by omega) _ _
  · omega
  · refine before_of_le (by omega) (by omega) fun h₁ => ?_
    exact before_of_lt (by omega) (by omega) _ _
  · exact before_of_lt (by omega) (by omega) _ _
  · exact before_of_lt (by omega) (by omega) _ _
  · omega
  · omega
  · refine before_of_le (by omega) (by omega) fun h₁ => ?_
    refine before_of_le (by omega) (by omega) fun h₂ => ?_
    exact before_of_lt (by omega) (by omega) _ _
  · exact before_of_lt (by omega) (by omega) _ _
  · omega
  · omega
  · omega
  · refine before_of_le (by omega) (by omega) fun h₁ => ?_
    refine before_of_le (by omega) (by omega) fun h₂ => ?_
    refine before_of_le (by omega) (by omega) fun h₃ => ?_
    exact before_of_lt (by omega) (by omega) _ _

theorem flatMap_encodeChar_lt : ∀ {xs ys : List Char}, xs < ys →
    xs.flatMap String.utf8EncodeChar < ys.flatMap String.utf8EncodeChar
  | _, [], h => absurd h (List.not_lt_nil _)
  | [], y :: ys, _ => by
    obtain ⟨b, bs, hy⟩ := List.exists_cons_of_ne_nil (@String.utf8EncodeChar_ne_nil y)
    rw [List.flatMap_cons, hy]
    exact List.nil_lt_cons ..
  | x :: xs, y :: ys, h => by
    rw [List.flatMap_cons, List.flatMap_cons]
    rcases List.cons_lt_cons_iff.mp h with hlt | ⟨rfl, htail⟩
    · exact before_encodeChar hlt _ _
    · exact List.append_left_lt (flatMap_encodeChar_lt htail)

/-- **The bytes of texts have the order of the texts.** -/
theorem encode_lt_encode {s t : String} (h : s < t) : encode s < encode t :=
  flatMap_encodeChar_lt (String.lt_iff.mp h)

end KnxIoT.Utf8
