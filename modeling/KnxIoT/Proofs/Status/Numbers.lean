import KnxIoT.Status
import Mathlib.Data.Nat.Notation
import Mathlib.Tactic.Common

/-! # What the number of a status says

Engines number statuses in two ways, and callers see one number. The numbers from -2 to 22, except
20, have a name (`exists_named_iff`), and a status without a name is known by a number that should
be none of these. If it is one, the number leads to another status (`ofCode_code_iff`): the status
is `Masked`. Reading a number never gives such a status; reading a CoAP code does exactly if its
class is 0 and its detail is the number of a name (`masked_ofCoap_iff`). `number_identifies` draws
the consequences for whatever an engine reports. -/

namespace KnxIoT.Status

/-! ### Numbers with a name -/

theorem mem_named_or (s : Status) : s ∈ named ∨ ∃ n, s = other n := by
  cases s with
  | other n => exact .inr ⟨n, rfl⟩
  | _ => exact .inl (by decide)

theorem code_ofCode (n : Int32) : (ofCode n).code = n := by
  unfold ofCode
  cases h : named.find? (·.code = n) with
  | none => rfl
  | some s => simpa using List.find?_some h

theorem ofCode_code_of_mem {s : Status} (hs : s ∈ named) : ofCode s.code = s := by
  revert s
  decide

/-- **The numbers with a name** lie between -2 and 22. -/
theorem exists_named_iff {n : Int32} :
    (∃ t ∈ named, t.code = n) ↔ -2 ≤ n.toInt ∧ n.toInt ≤ 22 ∧ n.toInt ≠ 20 := by
  constructor
  · rintro ⟨t, ht, rfl⟩
    revert t
    decide
  · rintro ⟨hlow, hhigh, hgap⟩
    have htable : ∀ k < 25, k ≠ 22 → ∃ t ∈ named, t.code = Int32.ofInt ((k : ℕ) - 2) := by decide
    obtain ⟨t, ht, hcode⟩ := htable (n.toInt + 2).toNat (by omega) (by omega)
    refine ⟨t, ht, ?_⟩
    have hback : ((n.toInt + 2).toNat : Int) - 2 = n.toInt := by omega
    rw [hcode, hback, Int32.ofInt_toInt]

/-! ### Masked statuses -/

/-- The status has no name, but its number has one. -/
def Masked (s : Status) : Prop :=
  ∃ t ∈ named, s = other t.code

theorem not_masked_of_mem {s : Status} (hs : s ∈ named) : ¬ s.Masked := by
  rintro ⟨t, -, rfl⟩
  simp [named] at hs

theorem masked_other_iff {n : Int32} :
    (other n).Masked ↔ -2 ≤ n.toInt ∧ n.toInt ≤ 22 ∧ n.toInt ≠ 20 := by
  rw [← exists_named_iff]
  constructor
  · rintro ⟨t, ht, hn⟩
    exact ⟨t, ht, (other.inj hn).symm⟩
  · rintro ⟨t, ht, rfl⟩
    exact ⟨t, ht, rfl⟩

/-- **The number leads back to the status** unless another one masks it. -/
theorem ofCode_code_iff {s : Status} : ofCode s.code = s ↔ ¬ s.Masked := by
  rcases mem_named_or s with hs | ⟨n, rfl⟩
  · exact iff_of_true (ofCode_code_of_mem hs) (not_masked_of_mem hs)
  · constructor
    · rintro heq ⟨t, ht, hn⟩
      rw [hn] at heq
      have hother : t = other t.code := (ofCode_code_of_mem ht).symm.trans heq
      rw [hother] at ht
      simp [named] at ht
    · intro hn
      have hnone : named.find? (·.code = n) = none := by
        simp only [List.find?_eq_none, decide_eq_true_eq]
        rintro t ht rfl
        exact hn ⟨t, ht, rfl⟩
      change (named.find? (·.code = n)).getD (other n) = other n
      rw [hnone, Option.getD_none]

theorem not_masked_ofCode (n : Int32) : ¬ (ofCode n).Masked :=
  ofCode_code_iff.mp (by rw [code_ofCode])

/-- **A masked status and the one with its name** are all that share a number. -/
theorem eq_iff_code_eq {s t : Status} : s = t ↔ s.code = t.code ∧ (s.Masked ↔ t.Masked) := by
  constructor
  · rintro rfl
    exact ⟨rfl, Iff.rfl⟩
  · rintro ⟨hcode, hmask⟩
    by_cases hs : s.Masked
    · obtain ⟨t', -, ht⟩ := hmask.mp hs
      obtain ⟨s', -, hs⟩ := hs
      subst hs ht
      exact congrArg other hcode
    · rw [← ofCode_code_iff.mpr hs, ← ofCode_code_iff.mpr (mt hmask.mpr hs), hcode]

/-- The name under which a masked status is known is not the one that its number has. -/
theorem name_ofCode_code_iff {s : Status} : (ofCode s.code).name = s.name ↔ ¬ s.Masked := by
  constructor
  · rintro hname ⟨t, ht, rfl⟩
    have hnamed : ∀ t ∈ named, t.name ≠ "UNKNOWN_STATUS" := by decide
    refine hnamed t ht ?_
    rw [← ofCode_code_of_mem ht]
    exact hname
  · intro h
    rw [ofCode_code_iff.mpr h]

theorem isSuccess_ofCode_iff {n : Int32} :
    (ofCode n).isSuccess = true ↔ 0 ≤ n.toInt ∧ n.toInt ≤ 4 := by
  have hcode := code_ofCode n
  rcases mem_named_or (ofCode n) with hs | ⟨m, hm⟩
  · have htable : ∀ s ∈ named, s.isSuccess = true ↔ 0 ≤ s.code.toInt ∧ s.code.toInt ≤ 4 := by
      decide
    rw [htable _ hs, hcode]
  · rw [hm] at hcode
    obtain rfl : m = n := hcode
    have hmask : ¬ (other m).Masked := by
      rw [← hm]
      exact not_masked_ofCode m
    rw [masked_other_iff] at hmask
    rw [hm]
    exact iff_of_false Bool.false_ne_true (by omega)

theorem ofCoap_zero (d : UInt8) : ofCoap 0 d = other (Int32.ofNat d.toNat) := by
  have hclass : ∀ t ∈ named, t.coap?.map Prod.fst ≠ some 0 := by decide
  have hnone : named.find? (·.coap? = some (0, d)) = none := by
    simp only [List.find?_eq_none, decide_eq_true_eq]
    intro t ht hcoap
    refine hclass t ht ?_
    rw [hcoap]
    rfl
  unfold ofCoap
  rw [hnone, Option.getD_none, UInt8.toNat_zero, Nat.zero_mul, Nat.zero_add]

theorem toInt_code_ofCoap_zero (d : UInt8) : (ofCoap 0 d).code.toInt = d.toNat := by
  have hd := d.toNat_lt
  rw [ofCoap_zero]
  exact Int32.toInt_ofNat_of_lt (by omega)

/-- **A CoAP code is masked** if its class is 0 and its detail has a name as a number. -/
theorem masked_ofCoap_iff {c d : UInt8} :
    (ofCoap c d).Masked ↔ c = 0 ∧ d.toNat ≤ 22 ∧ d.toNat ≠ 20 := by
  by_cases hc : c = 0
  · subst hc
    have hint := toInt_code_ofCoap_zero d
    rw [ofCoap_zero] at hint ⊢
    change (Int32.ofNat d.toNat).toInt = d.toNat at hint
    rw [masked_other_iff, hint, eq_self_iff_true, true_and]
    omega
  · refine iff_of_false ?_ fun h => hc h.1
    unfold ofCoap
    cases h : named.find? (·.coap? = some (c, d)) with
    | some t => exact not_masked_of_mem (List.mem_of_find?_eq_some h)
    | none =>
      -- a class that is not 0 makes the number at least 100
      have hpos : c.toNat ≠ 0 := fun h => hc (UInt8.toNat_inj.mp h)
      have hlt := c.toNat_lt
      have hlt' := d.toNat_lt
      rw [Option.getD_none, masked_other_iff, Int32.toInt_ofNat_of_lt (by omega)]
      omega

/-! ### What engines report -/

/-- A status as an engine reports it: by a number, or by a CoAP class and detail. -/
inductive Report where
  | number (n : Int32)
  | coap (c d : UInt8)

namespace Report

/-- The status that is reported. -/
def status : Report → Status
  | number n => ofCode n
  | coap c d => ofCoap c d

/-- The report is a CoAP code of class 0 whose detail is a number with a name. -/
def Clashes : Report → Prop
  | number _ => False
  | coap c d => c = 0 ∧ d.toNat ≤ 22 ∧ d.toNat ≠ 20

theorem masked_status_iff {r : Report} : r.status.Masked ↔ r.Clashes := by
  cases r with
  | number n => exact iff_of_false (not_masked_ofCode n) id
  | coap c d => exact masked_ofCoap_iff

/-- **A status that is not a success has the number of one** only with class 0. -/
theorem poses_iff {r : Report} :
    r.status.isSuccess = false ∧ (ofCode r.status.code).isSuccess = true ↔
      ∃ d : UInt8, d.toNat ≤ 4 ∧ r = .coap 0 d := by
  constructor
  · rintro ⟨hfail, hsuccess⟩
    have hclash : r.Clashes := by
      by_contra h
      rw [ofCode_code_iff.mpr (mt masked_status_iff.mp h), hfail] at hsuccess
      cases hsuccess
    cases r with
    | number n => exact hclash.elim
    | coap c d =>
      obtain ⟨rfl, -, -⟩ := hclash
      refine ⟨d, ?_, rfl⟩
      have hle := (isSuccess_ofCode_iff.mp hsuccess).2
      change (ofCoap 0 d).code.toInt ≤ 4 at hle
      rw [toInt_code_ofCoap_zero] at hle
      omega
  · rintro ⟨d, hd, rfl⟩
    refine ⟨?_, isSuccess_ofCode_iff.mpr ?_⟩
    · change (ofCoap 0 d).isSuccess = false
      rw [ofCoap_zero]
      rfl
    · change 0 ≤ (ofCoap 0 d).code.toInt ∧ (ofCoap 0 d).code.toInt ≤ 4
      rw [toInt_code_ofCoap_zero]
      omega

end Report

/-- **The number of a reported status identifies it,** unless the report clashes: then the number
leads to a status with another name. Two different statuses share a number only if one of the
reports clashes and the other does not, and a status that is not a success has the number of one
only if the report has class 0 and a detail up to 4. -/
theorem number_identifies (r : Report) :
    (ofCode r.status.code = r.status ↔ ¬ r.Clashes) ∧
      ((ofCode r.status.code).name = r.status.name ↔ ¬ r.Clashes) ∧
      (∀ r' : Report, r.status = r'.status ↔
        r.status.code = r'.status.code ∧ (r.Clashes ↔ r'.Clashes)) ∧
      (r.status.isSuccess = false ∧ (ofCode r.status.code).isSuccess = true ↔
        ∃ d : UInt8, d.toNat ≤ 4 ∧ r = .coap 0 d) := by
  have hmask : ¬ r.status.Masked ↔ ¬ r.Clashes := not_congr Report.masked_status_iff
  refine ⟨ofCode_code_iff.trans hmask, name_ofCode_code_iff.trans hmask, fun r' => ?_,
    Report.poses_iff⟩
  rw [eq_iff_code_eq, Report.masked_status_iff, Report.masked_status_iff]

/-- Class 0 with detail 0 has the number of a success. -/
theorem number_shared : (ofCoap 0 0).code = ok.code ∧ ofCoap 0 0 ≠ ok ∧
    (ofCoap 0 0).isSuccess = false ∧ ok.isSuccess = true ∧
    ofCode (ofCoap 0 0).code ≠ ofCoap 0 0 ∧
    (ofCode (ofCoap 0 0).code).name ≠ (ofCoap 0 0).name := by
  decide

end KnxIoT.Status
