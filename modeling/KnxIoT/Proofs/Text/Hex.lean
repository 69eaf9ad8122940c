import KnxIoT.Text.Hex
import Mathlib.Data.Nat.Notation
import Mathlib.Tactic.Common

/-! # Hexadecimal digits

The digits of a byte string are in lower case (`mem_lower`), two for each byte (`length_ofBytes`), and
they are read back as the bytes (`toBytes?_ofBytes`). -/

namespace KnxIoT.Hex

/-- The digits in lower case. -/
def lower : List Char :=
  ['0', '1', '2', '3', '4', '5', '6', '7', '8', '9', 'a', 'b', 'c', 'd', 'e', 'f']

theorem value?_digit : ∀ n < 16, value? (digit n) = some n := by decide

theorem digit_mem_lower : ∀ n < 16, digit n ∈ lower := by decide

theorem mem_lower {bs : Bytes} {c : Char} (h : c ∈ (ofBytes bs).toList) : c ∈ lower := by
  rw [ofBytes, String.toList_ofList, List.mem_flatMap] at h
  obtain ⟨b, -, hc⟩ := h
  have hb := b.toNat_lt
  rw [byteDigits, List.mem_cons, List.mem_singleton] at hc
  rcases hc with rfl | rfl
  · exact digit_mem_lower _ (by omega)
  · exact digit_mem_lower _ (by omega)

theorem length_ofBytes (bs : Bytes) : (ofBytes bs).length = 2 * bs.length := by
  rw [ofBytes, String.length_ofList, List.length_flatMap]
  induction bs with
  | nil => rfl
  | cons b bs ih =>
    rw [List.map_cons, List.sum_cons, ih, List.length_cons, byteDigits]
    simp only [List.length_cons, List.length_nil]
    omega

theorem pairs?_byteDigits (b : UInt8) (cs : List Char) :
    pairs? (byteDigits b ++ cs) = (pairs? cs).map (b :: ·) := by
  have hb := b.toNat_lt
  have hhigh := value?_digit (b.toNat / 16) (by omega)
  have hlow := value?_digit (b.toNat % 16) (by omega)
  have hbyte : UInt8.ofNat (16 * (b.toNat / 16) + b.toNat % 16) = b := by
    rw [Nat.div_add_mod, UInt8.ofNat_toNat]
  rw [byteDigits, List.cons_append, List.singleton_append, pairs?, hhigh, hlow]
  cases pairs? cs with
  | none => rfl
  | some bs => exact congrArg (fun b => some (b :: bs)) hbyte

/-- **The digits of bytes are read back.** -/
theorem toBytes?_ofBytes (bs : Bytes) : toBytes? (ofBytes bs) = some bs := by
  rw [toBytes?, ofBytes, String.toList_ofList]
  induction bs with
  | nil => rfl
  | cons b bs ih => rw [List.flatMap_cons, pairs?_byteDigits, ih, Option.map_some]

end KnxIoT.Hex
