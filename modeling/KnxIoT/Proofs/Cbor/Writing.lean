import KnxIoT.Cbor.Writer
import KnxIoT.Proofs.Cbor.Parts
import KnxIoT.Proofs.Cbor.Reading
import Mathlib.Tactic.Ring

/-! # CBOR: what was written is read

An item is `Writable` at some levels of nesting if its numbers, lengths and tags fit into heads and no
tag is one of the big numbers. What is written for it is one of its encodings (`encoded_write`), so
it is read back (`decode?_write`). Numbers with a fraction are left out. -/

namespace KnxIoT.Cbor

/-! ### Heads -/

@[simp] theorem length_bigEndian (n x : ℕ) : (bigEndian n x).length = n := by
  induction n with
  | zero => rfl
  | succ n ih => rw [bigEndian, List.length_cons, ih]

theorem foldl_bigEndian (n x acc : ℕ) :
    (bigEndian n x).foldl (fun m b => 256 * m + b.toNat) acc = 256 ^ n * acc + x % 256 ^ n := by
  induction n generalizing acc with
  | zero => simp [bigEndian, Nat.mod_one]
  | succ n ih =>
    have hbyte : (UInt8.ofNat (x / Nat.pow 256 n)).toNat = x / 256 ^ n % 256 := UInt8.toNat_ofNat'
    have hmod : x % 256 ^ (n + 1) = x % 256 ^ n + 256 ^ n * (x / 256 ^ n % 256) := by
      rw [Nat.pow_succ, Nat.mod_mul]
    rw [bigEndian, List.foldl_cons, ih, hbyte, hmod, Nat.pow_succ]
    ring

theorem ofBigEndian_bigEndian {n x : ℕ} (hx : x < 256 ^ n) : ofBigEndian (bigEndian n x) = x := by
  rw [ofBigEndian, foldl_bigEndian, Nat.mul_zero, Nat.zero_add, Nat.mod_eq_of_lt hx]

/-- The argument of a written head is its shortest form. -/
theorem exists_writeHead (major : ℕ) {n : ℕ} (hn : n < 2 ^ 64) :
    ∃ info arg, Argument info (some n) arg ∧ writeHead major n = firstByte major info :: arg := by
  have hlong : ∀ w : ℕ, w < 4 → n < 256 ^ 2 ^ w → Argument (24 + w) (some n) (bigEndian (2 ^ w) n) := by
    intro w hw hn
    have h : Argument (24 + w) (some (ofBigEndian (bigEndian (2 ^ w) n))) (bigEndian (2 ^ w) n) :=
      .long (by omega) (by omega) (by rw [length_bigEndian, Nat.add_sub_cancel_left]; rfl)
    rwa [ofBigEndian_bigEndian hn] at h
  unfold writeHead
  dsimp only
  split_ifs with h₀ h₁ h₂ h₄
  · exact ⟨n, [], .short h₀, rfl⟩
  · exact ⟨24, _, hlong 0 (by omega) h₁, rfl⟩
  · exact ⟨25, _, hlong 1 (by omega) h₂, rfl⟩
  · exact ⟨26, _, hlong 2 (by omega) h₄, rfl⟩
  · exact ⟨27, _, hlong 3 (by omega) hn, rfl⟩

/-! ### Items -/

/-- The items that are read back, with parts nested at most so many levels deep. -/
inductive Item.Writable : ℕ → Item → Prop
  | int {levels : ℕ} {n : ℤ} (h : -2 ^ 64 ≤ n) (h' : n < 2 ^ 64) : Writable levels (.int n)
  | bytes {levels : ℕ} {bs : Bytes} (h : bs.length < 2 ^ 64) : Writable levels (.bytes bs)
  | text {levels : ℕ} {s : String} (h : Utf8.size s < 2 ^ 64) : Writable levels (.text s)
  | bool {levels : ℕ} (b : Bool) : Writable levels (.bool b)
  | null {levels : ℕ} : Writable levels .null
  | array {levels : ℕ} {items : List Item} (hlen : items.length < 2 ^ 64)
      (h : ∀ x ∈ items, Writable levels x) : Writable (levels + 1) (.array items)
  | map {levels : ℕ} {entries : List (Item × Item)} (hlen : entries.length < 2 ^ 64)
      (hk : ∀ e ∈ entries, Writable levels e.1) (hv : ∀ e ∈ entries, Writable levels e.2) :
      Writable (levels + 1) (.map entries)
  | tag {levels number : ℕ} {content : Item} (hnum : number < 2 ^ 64)
      (hbig : ¬ (number = 2 ∨ number = 3)) (h : Writable levels content) :
      Writable (levels + 1) (.tag number content)

theorem Item.Writable.floatFree {levels : ℕ} {item : Item} (h : item.Writable levels) :
    item.FloatFree := by
  induction h with
  | array _ _ ih => exact .array ih
  | map _ _ _ ihk ihv => exact .map fun e he => ⟨ihk e he, ihv e he⟩
  | tag _ _ _ ih => exact .tag ih
  | _ => exact nofun

theorem elements_writeItems {R : Item → Bytes → Prop} : ∀ {items : List Item},
    (∀ x ∈ items, R x (write x)) → Elements R items (writeItems items)
  | [], _ => .nil
  | x :: items, h => .cons (h x (by simp)) (elements_writeItems fun y hy => h y (by simp [hy]))

theorem elements_writeEntries {R : Item → Bytes → Prop} : ∀ {entries : List (Item × Item)},
    (∀ e ∈ entries, R e.1 (write e.1)) → (∀ e ∈ entries, R e.2 (write e.2)) →
      Elements (Paired R) entries (writeEntries entries)
  | [], _, _ => .nil
  | (k, v) :: entries, hk, hv => by
    have hpair : Paired R (k, v) (write k ++ write v) :=
      .mk (hk (k, v) List.mem_cons_self) (hv (k, v) List.mem_cons_self)
    have hes : Elements (Paired R) entries (writeEntries entries) :=
      elements_writeEntries (fun e he => hk e (List.mem_cons_of_mem _ he))
        fun e he => hv e (List.mem_cons_of_mem _ he)
    rw [writeEntries, ← List.append_assoc]
    exact .cons hpair hes

theorem flat_simple {n : ℕ} {item : Item} (h : n < 24) (hn : ofSimple? n = some item) :
    Flat item [firstByte 7 n] :=
  .simple (.simple (.short h) (by omega)) hn

/-- **What is written is an encoding.** -/
theorem encoded_write {levels : ℕ} {item : Item} (h : item.Writable levels) :
    Item.Encoded levels item (write item) := by
  induction h with
  | @int levels n h h' =>
    refine .of_flat ?_ levels
    rcases n with n | n
    · obtain ⟨info, arg, harg, hwrite⟩ := exists_writeHead 0 (n := n) (by simp at h'; omega)
      rw [write, hwrite]
      exact .unsigned (.unsigned harg)
    · obtain ⟨info, arg, harg, hwrite⟩ := exists_writeHead 1 (n := n) (by omega)
      rw [write, hwrite, show Int.negSucc n = -1 - (n : ℤ) by omega]
      exact .negative (.negative harg)
  | @bytes levels bs h =>
    obtain ⟨info, arg, harg, hwrite⟩ := exists_writeHead 2 h
    rw [write, hwrite]
    exact .of_flat (.bytes (.bytes harg) (.whole trivial)) levels
  | @text levels s h =>
    obtain ⟨info, arg, harg, hwrite⟩ := exists_writeHead 3 h
    rw [write, hwrite]
    exact .of_flat (.text (.text harg) (.whole ⟨s, rfl⟩)) levels
  | @bool levels b =>
    rcases b
    · exact .of_flat (flat_simple (n := 20) (by omega) rfl) levels
    · exact .of_flat (flat_simple (n := 21) (by omega) rfl) levels
  | @null levels => exact .of_flat (flat_simple (n := 22) (by omega) rfl) levels
  | @array levels items hlen h ih =>
    obtain ⟨info, arg, harg, hwrite⟩ := exists_writeHead 4 hlen
    rw [write, hwrite]
    exact .inr (.array (.array harg) (.counted (elements_writeItems ih)))
  | @map levels entries hlen hk hv ihk ihv =>
    obtain ⟨info, arg, harg, hwrite⟩ := exists_writeHead 5 hlen
    rw [write, hwrite]
    exact .inr (.map (.map harg) (.counted (elements_writeEntries ihk ihv)))
  | @tag levels number content hnum hbig h ih =>
    obtain ⟨info, arg, harg, hwrite⟩ := exists_writeHead 6 hnum
    rw [write, hwrite]
    exact .inr (.tag (.tag harg) (fun hb => hbig hb.1) ih)

/-- **What was written is read back,** whatever follows it. -/
theorem decode?_write {item : Item} (h : item.Writable maxNesting) (rest : Bytes) :
    decode? (write item ++ rest) = some item :=
  decode?_eq_some_item_iff.mpr ⟨_, rest, encoded_write h, rfl⟩

end KnxIoT.Cbor
