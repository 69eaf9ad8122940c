import KnxIoT.Text.Utf8
import KnxIoT.Proofs.Lists
import Mathlib.Tactic.SplitIfs

/-! # Reading back what was written

`Spells` lists the four forms that the bytes of a character can have. `front_of_spells` reads a
character off the front of its bytes, and by `spells_of_front` it is read off no other bytes. So
strict reading and writing are inverse to each other: `decode?_encode` and `encode_of_decode?`. -/

namespace KnxIoT.Utf8

/-! ### Bytes as numbers -/

theorem isContinuation_iff {b : UInt8} :
    isContinuation b = true ↔ 128 ≤ b.toNat ∧ b.toNat ≤ 191 := by
  unfold isContinuation
  rw [Bool.and_eq_true, decide_eq_true_iff, decide_eq_true_iff, UInt8.le_iff_toNat_le,
    UInt8.le_iff_toNat_le]
  exact Iff.rfl

theorem maySecond_iff {a b : UInt8} : maySecond a b = true ↔
    128 ≤ b.toNat ∧ b.toNat ≤ 191 ∧ (a.toNat = 224 → 160 ≤ b.toNat) ∧
      (a.toNat = 237 → b.toNat ≤ 159) ∧ (a.toNat = 240 → 144 ≤ b.toNat) ∧
      (a.toNat = 244 → b.toNat ≤ 143) := by
  have hnum : ∀ k : UInt8, a = k ↔ a.toNat = k.toNat := fun k => UInt8.toNat_inj.symm
  have hb := b.toNat_lt
  unfold maySecond
  simp only [hnum, UInt8.reduceToNat]
  split_ifs with h₁ h₂ h₃ h₄
  · simp only [Bool.and_eq_true, decide_eq_true_iff, UInt8.le_iff_toNat_le, UInt8.reduceToNat]
    omega
  · simp only [Bool.and_eq_true, decide_eq_true_iff, UInt8.le_iff_toNat_le, UInt8.reduceToNat]
    omega
  · simp only [Bool.and_eq_true, decide_eq_true_iff, UInt8.le_iff_toNat_le, UInt8.reduceToNat]
    omega
  · simp only [Bool.and_eq_true, decide_eq_true_iff, UInt8.le_iff_toNat_le, UInt8.reduceToNat]
    omega
  · rw [isContinuation_iff]
    omega

section Front
variable {a b c d : UInt8} {rest : Bytes}

theorem front_eq (a : UInt8) (rest : Bytes) : front a rest =
    if a.toNat < 128 then (some (Char.ofNat a.toNat), 0)
    else if a.toNat < 194 ∨ 244 < a.toNat then (none, 0)
    else match rest with
      | [] => (none, 0)
      | b :: rest =>
        if maySecond a b = false then (none, 0)
        else if a.toNat < 224 then (some (Char.ofNat (a.toNat % 32 * 64 + low b)), 1)
        else match rest with
          | [] => (none, 1)
          | c :: rest =>
            if isContinuation c = false then (none, 1)
            else if a.toNat < 240 then
              (some (Char.ofNat (a.toNat % 16 * 4096 + low b * 64 + low c)), 2)
            else match rest with
              | [] => (none, 2)
              | d :: _ =>
                if isContinuation d = false then (none, 2)
                else
                  (some (Char.ofNat
                    (a.toNat % 8 * 262144 + low b * 4096 + low c * 64 + low d)), 3) := by
  rcases rest with _ | ⟨b, _ | ⟨c, _ | ⟨d, rest⟩⟩⟩ <;>
    simp only [front, UInt8.lt_iff_toNat_lt, UInt8.reduceToNat, Bool.or_eq_true,
      decide_eq_true_iff, Bool.not_eq_true']

/-- **The sequences that spell a character,** with the bytes after the first one. -/
inductive Spells (a : UInt8) (x : Char) : Bytes → Prop
  | one (h : a.toNat < 128) (hx : x = Char.ofNat a.toNat) : Spells a x []
  | two (b : UInt8) (h : 194 ≤ a.toNat) (h' : a.toNat < 224) (hb : maySecond a b = true)
      (hx : x = Char.ofNat (a.toNat % 32 * 64 + low b)) : Spells a x [b]
  | three (b c : UInt8) (h : 224 ≤ a.toNat) (h' : a.toNat < 240) (hb : maySecond a b = true)
      (hc : isContinuation c = true)
      (hx : x = Char.ofNat (a.toNat % 16 * 4096 + low b * 64 + low c)) : Spells a x [b, c]
  | four (b c d : UInt8) (h : 240 ≤ a.toNat) (h' : a.toNat ≤ 244) (hb : maySecond a b = true)
      (hc : isContinuation c = true) (hd : isContinuation d = true)
      (hx : x = Char.ofNat (a.toNat % 8 * 262144 + low b * 4096 + low c * 64 + low d)) :
      Spells a x [b, c, d]

theorem front_of_spells {x : Char} {bs : Bytes} (h : Spells a x bs) (rest : Bytes) :
    front a (bs ++ rest) = (some x, bs.length) := by
  rw [front_eq]
  cases h with
  | one h hx =>
    rw [if_pos h, hx]
    rfl
  | two b h h' hb hx =>
    rw [if_neg (by omega), if_neg (by omega)]
    simp [hb, h', hx]
  | three b c h h' hb hc hx =>
    rw [if_neg (by omega), if_neg (by omega)]
    simp [hb, hc, Nat.not_lt.mpr h, h', hx]
  | four b c d h h' hb hc hd hx =>
    rw [if_neg (by omega), if_neg (by omega)]
    simp [hb, hc, hd, Nat.not_lt.mpr h, show ¬ a.toNat < 224 by omega, hx]

theorem spells_of_front {x : Char} (h : (front a rest).1 = some x) :
    ∃ bs rest', rest = bs ++ rest' ∧ Spells a x bs := by
  rw [front_eq] at h
  split at h
  · next ha => exact ⟨[], rest, rfl, .one ha (Option.some.inj h).symm⟩
  split at h
  · cases h
  next ha _ =>
  match rest, h with
  | [], h => cases h
  | b :: rest, h =>
    dsimp only at h
    split at h
    · cases h
    next hb =>
    rw [Bool.not_eq_false] at hb
    split at h
    · next h₂ => exact ⟨[b], rest, rfl, .two b (by omega) h₂ hb (Option.some.inj h).symm⟩
    match rest, h with
    | [], h => cases h
    | c :: rest, h =>
      dsimp only at h
      split at h
      · cases h
      next hc =>
      rw [Bool.not_eq_false] at hc
      split at h
      · next h₃ =>
        exact ⟨[b, c], rest, rfl, .three b c (by omega) h₃ hb hc (Option.some.inj h).symm⟩
      match rest, h with
      | [], h => cases h
      | d :: rest, h =>
        dsimp only at h
        split at h
        · cases h
        next hd =>
        rw [Bool.not_eq_false] at hd
        exact ⟨[b, c, d], rest, rfl, .four b c d (by omega) (by omega) hb hc hd
          (Option.some.inj h).symm⟩

end Front

/-! ### Writing a character -/

/-- **A character is spelled by the bytes that are written for it.** -/
theorem spells_encodeChar (x : Char) :
    ∃ a bs, String.utf8EncodeChar x = a :: bs ∧ Spells a x bs := by
  have hx : x = Char.ofNat x.toNat := (Char.ofNat_toNat x).symm
  have hvalid : x.toNat < 0xD800 ∨ 0xDFFF < x.toNat ∧ x.toNat < 0x110000 := x.valid
  have hv : x.val.toNat = x.toNat := rfl
  rw [String.utf8EncodeChar.eq_1, hv]
  have hbyte : ∀ {n : ℕ}, n < 256 → (UInt8.ofNat n).toNat = n := fun h => UInt8.toNat_ofNat_of_lt' h
  split_ifs with h₁ h₂ h₃
  · have ha : (UInt8.ofNat x.toNat).toNat = x.toNat := hbyte (by omega)
    exact ⟨_, _, rfl, .one (by omega) (by rw [ha]; exact hx)⟩
  · have ha : (UInt8.ofNat (x.toNat / 64 % 32 + 192)).toNat = _ := hbyte (by omega)
    have hb : (UInt8.ofNat (x.toNat % 64 + 128)).toNat = _ := hbyte (by omega)
    refine ⟨_, _, rfl, .two _ (by omega) (by omega) (maySecond_iff.mpr (by omega)) ?_⟩
    rw [low, ha, hb]
    exact hx.trans (congrArg Char.ofNat (by omega))
  · have ha : (UInt8.ofNat (x.toNat / 4096 % 16 + 224)).toNat = _ := hbyte (by omega)
    have hb : (UInt8.ofNat (x.toNat / 64 % 64 + 128)).toNat = _ := hbyte (by omega)
    have hc : (UInt8.ofNat (x.toNat % 64 + 128)).toNat = _ := hbyte (by omega)
    refine ⟨_, _, rfl, .three _ _ (by omega) (by omega) (maySecond_iff.mpr (by omega))
      (isContinuation_iff.mpr (by omega)) ?_⟩
    rw [low, low, ha, hb, hc]
    exact hx.trans (congrArg Char.ofNat (by omega))
  · have ha : (UInt8.ofNat (x.toNat / 262144 % 8 + 240)).toNat = _ := hbyte (by omega)
    have hb : (UInt8.ofNat (x.toNat / 4096 % 64 + 128)).toNat = _ := hbyte (by omega)
    have hc : (UInt8.ofNat (x.toNat / 64 % 64 + 128)).toNat = _ := hbyte (by omega)
    have hd : (UInt8.ofNat (x.toNat % 64 + 128)).toNat = _ := hbyte (by omega)
    refine ⟨_, _, rfl, .four _ _ _ (by omega) (by omega) (maySecond_iff.mpr (by omega))
      (isContinuation_iff.mpr (by omega)) (isContinuation_iff.mpr (by omega)) ?_⟩
    rw [low, low, low, ha, hb, hc, hd]
    exact hx.trans (congrArg Char.ofNat (by omega))

/-- **A character is spelled by no other bytes.** -/
theorem encodeChar_of_spells {a : UInt8} {x : Char} {bs : Bytes} (h : Spells a x bs) :
    String.utf8EncodeChar x = a :: bs := by
  have hnum : ∀ {n : ℕ}, n < 0xD800 ∨ 0xDFFF < n ∧ n < 0x110000 → (Char.ofNat n).val.toNat = n := by
    intro n hn
    rw [Char.ofNat, dif_pos hn]
    rfl
  have hbyte : ∀ {n : ℕ} {b : UInt8}, n = b.toNat → UInt8.ofNat n = b := by
    rintro n b rfl
    exact UInt8.ofNat_toNat
  rw [String.utf8EncodeChar.eq_1]
  cases h with
  | one h hx =>
    rw [hx, hnum (by omega), if_pos (by omega), hbyte rfl]
  | two b h h' hb hx =>
    rw [maySecond_iff] at hb
    have hn := hnum (n := a.toNat % 32 * 64 + low b) (by unfold low; omega)
    rw [hx, hn, if_neg (by unfold low; omega), if_pos (by unfold low; omega),
      hbyte (b := a) (by unfold low; omega), hbyte (b := b) (by unfold low; omega)]
  | three b c h h' hb hc hx =>
    rw [maySecond_iff] at hb
    rw [isContinuation_iff] at hc
    have hn := hnum (n := a.toNat % 16 * 4096 + low b * 64 + low c) (by unfold low; omega)
    rw [hx, hn, if_neg (by unfold low; omega), if_neg (by unfold low; omega),
      if_pos (by unfold low; omega), hbyte (b := a) (by unfold low; omega),
      hbyte (b := b) (by unfold low; omega), hbyte (b := c) (by unfold low; omega)]
  | four b c d h h' hb hc hd hx =>
    rw [maySecond_iff] at hb
    rw [isContinuation_iff] at hc hd
    have hn := hnum (n := a.toNat % 8 * 262144 + low b * 4096 + low c * 64 + low d)
      (by unfold low; omega)
    rw [hx, hn, if_neg (by unfold low; omega), if_neg (by unfold low; omega),
      if_neg (by unfold low; omega), hbyte (b := a) (by unfold low; omega),
      hbyte (b := b) (by unfold low; omega), hbyte (b := c) (by unfold low; omega),
      hbyte (b := d) (by unfold low; omega)]

/-! ### Whole texts -/

theorem scan_flatMap_encode (cs : List Char) :
    scan (cs.flatMap String.utf8EncodeChar) = cs.map some := by
  induction cs with
  | nil => simp [scan]
  | cons x cs ih =>
    obtain ⟨a, bs, he, hs⟩ := spells_encodeChar x
    rw [List.flatMap_cons, he, List.cons_append, scan, front_of_spells hs]
    simp [ih]

/-- **What was written is read back.** -/
theorem decode?_encode (s : String) : decode? (encode s) = some s := by
  unfold decode? decodeChars? encode
  rw [Lists.mapM_id_eq_some_iff.mpr (scan_flatMap_encode _), Option.map_some, String.ofList_toList]

theorem flatMap_encode_of_scan : ∀ (bs : Bytes) (cs : List Char), scan bs = cs.map some →
    cs.flatMap String.utf8EncodeChar = bs
  | [], [], _ => rfl
  | [], x :: cs, h => by simp [scan] at h
  | a :: rest, [], h => by simp [scan] at h
  | a :: rest, x :: cs, h => by
    rw [scan, List.map_cons, List.cons.injEq] at h
    obtain ⟨hx, htail⟩ := h
    obtain ⟨bs, rest', rfl, hs⟩ := spells_of_front hx
    rw [front_of_spells hs, List.drop_left] at htail
    have ih := flatMap_encode_of_scan rest' cs htail
    rw [List.flatMap_cons, encodeChar_of_spells hs, ih]
    rfl
termination_by bs => bs.length

/-- **Only what was written is read.** -/
theorem encode_of_decode? {bs : Bytes} {s : String} (h : decode? bs = some s) : encode s = bs := by
  unfold decode? decodeChars? at h
  obtain ⟨cs, hcs, rfl⟩ := Option.map_eq_some_iff.mp h
  refine flatMap_encode_of_scan bs _ ?_
  rw [String.toList_ofList]
  exact Lists.mapM_id_eq_some_iff.mp hcs

end KnxIoT.Utf8
