import KnxIoT.Payload
import KnxIoT.Proofs.Cbor.Parts
import KnxIoT.Proofs.Json.Members
import KnxIoT.Proofs.Json.Printing

/-! # The tree of an item

What arrays and maps become (`toJson_array`, `toJson_map`), and that all that stands inside the JSON
value of an item is the JSON value of something inside the item (`exists_part`). -/

namespace KnxIoT.Payload

open Cbor (Item)

variable {item : Item} {p : Json}

/-- The member that an entry of a map adds. -/
def member (e : Item × Item) : String × Json := (key e.1, toJson e.2)

theorem itemsToJson_eq (items : List Item) : itemsToJson items = items.map toJson := by
  induction items with
  | nil => rw [itemsToJson, List.map_nil]
  | cons x xs ih => rw [itemsToJson, List.map_cons, ih]

theorem entriesToJson_eq (entries : List (Item × Item)) (ms : List (String × Json)) :
    entriesToJson entries ms =
      (entries.map member).foldl (fun ms e => Json.insert e.1 e.2 ms) ms := by
  induction entries generalizing ms with
  | nil => rw [entriesToJson, List.map_nil, List.foldl_nil]
  | cons e entries ih =>
    obtain ⟨k, v⟩ := e
    rw [entriesToJson, ih, List.map_cons, List.foldl_cons, member]

theorem toJson_array (items : List Item) : toJson (.array items) = .arr (items.map toJson) := by
  rw [toJson, itemsToJson_eq]

theorem toJson_map (entries : List (Item × Item)) :
    toJson (.map entries) = .obj (Json.collect (entries.map member)) := by
  rw [toJson, entriesToJson_eq, Json.collect]

theorem toJson_int {n : ℤ} (hmin : Int64.minValue.toInt ≤ n) (hmax : n < UInt64.size) :
    toJson (.int n) = .int n := by
  rw [toJson, ofInt, if_pos ⟨hmin, hmax⟩]

theorem toJson_tag (number : ℕ) (content : Item) :
    toJson (.tag number content) = toJson content := by
  simp only [toJson]

theorem key_array (items : List Item) : key (.array items) = (toJson (.array items)).compact := by
  rw [key, toJson]

theorem key_map (entries : List (Item × Item)) :
    key (.map entries) = (toJson (.map entries)).compact := by
  rw [key, toJson]

theorem key_tag (number : ℕ) (content : Item) :
    key (.tag number content) = (toJson (.tag number content)).compact := by
  rw [key, toJson]

theorem key_eq_compact (htext : ∀ s, item ≠ .text s) (hint : ∀ n, item ≠ .int n) :
    key item = (toJson item).compact := by
  cases item with
  | text s => exact absurd rfl (htext s)
  | int n => exact absurd rfl (hint n)
  | bytes bs => rw [key, toJson]
  | array items => exact key_array items
  | map entries => exact key_map entries
  | tag number content => exact key_tag number content
  | bool b => rw [key, toJson]
  | null => rw [key, toJson]
  | double x =>
    rw [key, toJson]
    rcases hx : x.magnitude? with _ | m
    · rw [Option.isSome_none, if_neg Bool.false_ne_true, Json.compact, Json.compact, Json.chars,
        Json.chars, Json.doubleText, hx]
    · rw [Option.isSome_some, if_pos rfl]

theorem jsonText?_of_decode? {bs : Bytes} (h : Cbor.decode? bs = some item) :
    jsonText? bs = some (toJson item).compact := by
  have hne : bs ≠ [] := by
    rintro rfl
    rw [Cbor.decode?, Cbor.readItem?, Cbor.readHead?] at h
    cases h
  rw [jsonText?, if_neg hne, h, Option.map_some]

/-! ### What stands inside -/

theorem exists_untagged : ∀ item : Item,
    ∃ item' : Item, item'.Part item ∧ (∀ n c, item' ≠ .tag n c) ∧ toJson item' = toJson item
  | .tag number content => by
    obtain ⟨item', hpart, htag, heq⟩ := exists_untagged content
    exact ⟨item', .content hpart, htag, by rw [heq, toJson_tag]⟩
  | .int n => ⟨_, .self, nofun, rfl⟩
  | .bytes bs => ⟨_, .self, nofun, rfl⟩
  | .text s => ⟨_, .self, nofun, rfl⟩
  | .array items => ⟨_, .self, nofun, rfl⟩
  | .map entries => ⟨_, .self, nofun, rfl⟩
  | .bool b => ⟨_, .self, nofun, rfl⟩
  | .null => ⟨_, .self, nofun, rfl⟩
  | .double x => ⟨_, .self, nofun, rfl⟩

/-- Arrays, objects and doubles come from arrays, maps and doubles. -/
theorem shape_of_toJson (htag : ∀ n c, item ≠ .tag n c) :
    (∀ js, toJson item = .arr js → ∃ xs, item = .array xs) ∧
    (∀ ms, toJson item = .obj ms → ∃ entries, item = .map entries) ∧
    ∀ x, toJson item = .double x → item = .double x := by
  cases item with
  | tag n c => exact absurd rfl (htag n c)
  | int n =>
    rw [toJson, ofInt]
    split_ifs <;> simp
  | double x =>
    rw [toJson]
    split_ifs <;> simp
  | bytes bs => simp [toJson]
  | text s => simp [toJson]
  | array xs => simp [toJson]
  | map entries => simp [toJson]
  | bool b => simp [toJson]
  | null => simp [toJson]

/-- **What stands inside the JSON value** of an item is the JSON value of something inside it. -/
theorem exists_part (h : Json.Part p (toJson item)) :
    ∃ item' : Item, item'.Part item ∧ (∀ n c, item' ≠ .tag n c) ∧ toJson item' = p := by
  generalize hj : toJson item = j at h
  induction h generalizing item with
  | self => exact hj ▸ exists_untagged item
  | @item js j hmem h ih =>
    obtain ⟨item', hpart, htag, heq⟩ := exists_untagged item
    obtain ⟨xs, rfl⟩ := (shape_of_toJson htag).1 js (heq.trans hj)
    rw [hj, toJson_array, Json.arr.injEq] at heq
    obtain ⟨x, hx, rfl⟩ := List.mem_map.mp (heq ▸ hmem)
    obtain ⟨item'', hpart', htag', heq'⟩ := ih rfl
    exact ⟨item'', hpart'.trans ((Item.Part.item hx .self).trans hpart), htag', heq'⟩
  | @member ms m hmem h ih =>
    obtain ⟨item', hpart, htag, heq⟩ := exists_untagged item
    obtain ⟨entries, rfl⟩ := (shape_of_toJson htag).2.1 ms (heq.trans hj)
    rw [hj, toJson_map, Json.obj.injEq] at heq
    obtain ⟨e, he, rfl⟩ := List.mem_map.mp (Json.mem_of_mem_collect (heq ▸ hmem))
    obtain ⟨item'', hpart', htag', heq'⟩ := ih rfl
    exact ⟨item'', hpart'.trans ((Item.Part.value he .self).trans hpart), htag', heq'⟩

theorem floatFree_toJson (h : item.FloatFree) : (toJson item).FloatFree := by
  intro x hx
  obtain ⟨item', hpart, htag, heq⟩ := exists_part hx
  obtain rfl := (shape_of_toJson htag).2.2 x heq
  exact h x hpart

theorem ascending_of_part {ms : List (String × Json)} (h : Json.Part (.obj ms) (toJson item)) :
    Json.Ascending ms := by
  obtain ⟨item', hpart, htag, heq⟩ := exists_part h
  obtain ⟨entries, rfl⟩ := (shape_of_toJson htag).2.1 ms heq
  rw [toJson_map, Json.obj.injEq] at heq
  exact heq ▸ Json.ascending_collect _

end KnxIoT.Payload
