import KnxIoT.Proofs.Cbor.Writing
import KnxIoT.Proofs.Json.Reader
import KnxIoT.Proofs.Payload.Tree
import KnxIoT.Proofs.Text.Order

/-! # Payloads: the text is a document

The text of a CBOR payload without numbers with a fraction is a JSON document, and reading it gives the
tree that the item stands for (`rendering_is_document`). Which tree that is, `Renders` says case by
case. -/

namespace KnxIoT.Payload

open Cbor (Item)

/-- **What an item becomes:** `tree` gives its JSON value and `key` its text as a key. -/
structure Renders (tree : Item → Json) (key : Item → String) : Prop where
  /-- Integers that a type of 64 bits holds are numbers. -/
  number : ∀ n : ℤ, Int64.minValue.toInt ≤ n → n < UInt64.size → tree (.int n) = .int n
  /-- Other integers are strings of their digits. -/
  digits : ∀ n : ℤ, ¬ (Int64.minValue.toInt ≤ n ∧ n < UInt64.size) →
    tree (.int n) = .str (toString n)
  /-- Byte strings are strings of hexadecimal digits in lower case, two for each byte. -/
  bytes : ∀ bs : Bytes, ∃ s, tree (.bytes bs) = .str s ∧ s.length = 2 * bs.length ∧
    (∀ c ∈ s.toList, c ∈ Hex.lower) ∧ Hex.toBytes? s = some bs
  text : ∀ s, tree (.text s) = .str s
  bool : ∀ b, tree (.bool b) = .bool b
  null : tree .null = .null
  array : ∀ items, tree (.array items) = .arr (items.map tree)
  /-- Tags are dropped. -/
  tag : ∀ number content, tree (.tag number content) = tree content
  /-- Under each key of an object stands the value of the last entry with this key. -/
  map : ∀ entries, ∃ members, tree (.map entries) = .obj members ∧ Json.Ascending members ∧
    ∀ k j, (k, j) ∈ members ↔ ∃ front e back, entries = front ++ e :: back ∧ key e.1 = k ∧
      tree e.2 = j ∧ ∀ e' ∈ back, key e'.1 ≠ k
  key_text : ∀ s, key (.text s) = s
  key_int : ∀ n : ℤ, key (.int n) = toString n
  /-- Other keys are the JSON texts of what they become. -/
  key_other : ∀ item, (∀ s, item ≠ .text s) → (∀ n, item ≠ .int n) → key item = (tree item).compact

theorem lastUnder_map_iff {entries : List (Item × Item)} {k : String} {j : Json} :
    Json.LastUnder (entries.map member) k j ↔ ∃ front e back, entries = front ++ e :: back ∧
      key e.1 = k ∧ toJson e.2 = j ∧ ∀ e' ∈ back, key e'.1 ≠ k := by
  constructor
  · rintro ⟨front, back, heq, hback⟩
    obtain ⟨es, es', rfl, rfl, htail⟩ := List.map_eq_append_iff.mp heq
    obtain ⟨e, es'', rfl, he, rfl⟩ := List.map_eq_cons_iff.mp htail
    obtain ⟨hk, hj⟩ := Prod.mk.inj he
    exact ⟨es, e, es'', rfl, hk, hj, fun e' he' => hback _ (List.mem_map_of_mem he')⟩
  · rintro ⟨front, e, back, rfl, rfl, rfl, hback⟩
    refine ⟨front.map member, back.map member, by rw [List.map_append, List.map_cons]; rfl, ?_⟩
    intro m hm
    obtain ⟨e', he', rfl⟩ := List.mem_map.mp hm
    exact hback e' he'

theorem renders : Renders toJson key where
  number _ := toJson_int
  digits n h := by rw [toJson, ofInt, if_neg h, Decimal.ofList_intText]
  bytes bs := ⟨Hex.ofBytes bs, by rw [toJson], Hex.length_ofBytes bs, fun _ => Hex.mem_lower,
    Hex.toBytes?_ofBytes bs⟩
  text s := by rw [toJson]
  bool b := by rw [toJson]
  null := by rw [toJson]
  array := toJson_array
  tag := toJson_tag
  map entries := ⟨_, toJson_map entries, Json.ascending_collect _, fun _ _ =>
    Json.mem_collect_iff.trans lastUnder_map_iff⟩
  key_text s := by rw [key]
  key_int n := by rw [key, Decimal.ofList_intText]
  key_other _ := key_eq_compact

/-- **The text of a payload is a document.** The keys of every object in it are in the order of their
bytes, each once, and the document is read as the tree of the item. -/
theorem rendering_is_document (bs : Bytes) (text : String) (hne : bs ≠ [])
    (htext : jsonText? bs = some text) :
    Renders toJson key ∧ ∃ item, Cbor.decode? bs = some item ∧
      (item.FloatFree →
        Json.Document (toJson item) text ∧
        (∀ members, Json.Part (.obj members) (toJson item) →
          members.Pairwise fun m m' => Utf8.encode m.1 < Utf8.encode m'.1) ∧
        Json.read? text = some (toJson item) ∧
        ∀ tree, Json.Document tree text → tree = toJson item) := by
  rw [jsonText?, if_neg hne] at htext
  obtain ⟨item, hdecode, rfl⟩ := Option.map_eq_some_iff.mp htext
  refine ⟨renders, item, hdecode, fun hfree => ?_⟩
  have hdocument := Json.document_compact (floatFree_toJson hfree)
  refine ⟨hdocument, ?_, Json.read?_eq_some_iff.mpr hdocument, fun tree h => h.unique hdocument⟩
  intro members hpart
  exact (ascending_of_part hpart).imp Utf8.encode_lt_encode

/-- Keys of four kinds, two of them with the same text, a control character and an integer that no
type of 64 bits holds. -/
theorem rendering_is_document_of_keys :
    let bs : Bytes := [0xA5, 0x01, 0x62, 0x68, 0x69, 0x61, 0x31, 0xF5, 0x81, 0x41, 0xFF, 0x3B, 0xFF,
      0xFF, 0xFF, 0xFF, 0xFF, 0xFF, 0xFF, 0xFF, 0x61, 0x0A, 0xC1, 0xA0, 0xA1, 0x00, 0x20, 0x80]
    let item : Item := .map [(.int 1, .text "hi"), (.text "1", .bool true),
      (.array [.bytes [0xFF]], .int (-18446744073709551616)), (.text "\n", .tag 1 (.map [])),
      (.map [(.int 0, .int (-1))], .array [])]
    let text := "\x7b\"\\n\":\x7b\x7d,\"1\":true,\"[\\\"ff\\\"]\":\"-18446744073709551616\"," ++
      "\"\x7b\\\"0\\\":-1\x7d\":[]\x7d"
    jsonText? bs = some text ∧ Cbor.decode? bs = some item ∧ item.FloatFree ∧
      Json.Document (toJson item) text ∧ Json.read? text = some (toJson item) := by
  intro bs item text
  have htext : jsonText? bs = some text := by decide +kernel
  have hwritable : item.Writable Cbor.maxNesting := by
    refine .map (by decide) ?_ ?_ <;> simp only [List.forall_mem_cons]
    · exact ⟨.int (by omega) (by omega), .text (by decide),
        .array (by decide) (by simpa using .bytes (by decide)), .text (by decide),
        .map (by decide) (by simpa using .int (by omega) (by omega))
          (by simpa using .int (by omega) (by omega)), nofun⟩
    · exact ⟨.text (by decide), .bool true, .int (by omega) (by omega),
        .tag (by omega) (by omega) (.map (by decide) nofun nofun), .array (by decide) nofun, nofun⟩
  have hdecode : Cbor.decode? bs = some item := by
    have hwrite : Cbor.write item = bs := by decide +kernel
    have hread := Cbor.decode?_write hwritable []
    rwa [hwrite, List.append_nil] at hread
  obtain ⟨-, item', hdecode', h⟩ :=
    rendering_is_document bs text (List.cons_ne_nil _ _) htext
  obtain rfl := Option.some.inj (hdecode.symm.trans hdecode')
  obtain ⟨hdocument, -, hread, -⟩ := h hwritable.floatFree
  exact ⟨htext, hdecode, hwritable.floatFree, hdocument, hread⟩

end KnxIoT.Payload
