import KnxIoT.GroupMessage
import KnxIoT.Proofs.Cbor.Writing
import KnxIoT.Proofs.Decimal.Whole
import KnxIoT.Proofs.Payload.Tree

/-! # Group messages: the round trip

A group message whose value is a truth value or a whole number is rendered, from its body, as the
JSON object that says what the message says (`group_message_round_trip`). So the body tells
sender, service, group and value apart. A text of a whole number is read as that number, also with
blanks around it. -/

namespace KnxIoT

/-- Truth values and whole numbers. -/
inductive GroupValue.IsExact : GroupValue → Prop
  | bool (b : Bool) : IsExact (.bool b)
  | int (n : Int64) : IsExact (.int n)

/-- The value in JSON. -/
def GroupValue.toJson : GroupValue → Json
  | .bool b => .bool b
  | .int n => .int n.toInt
  | .double x => .double x

namespace GroupMessage

/-- What a message says, in JSON. -/
def toJson (m : GroupMessage) : Json :=
  .obj
    [("4", .int m.sender.toNat),
     ("5", .obj
       [("1", m.value.toJson),
        ("6", .str m.service.code),
        ("7", .int m.group.toNat)])]

/-- The same, spelled out. -/
def spelled (m : GroupMessage) : String :=
  "\x7b\"4\":" ++ toString m.sender.toNat ++ ",\"5\":\x7b\"1\":" ++ m.value.toJson.compact ++
    ",\"6\":\"" ++ m.service.code ++ "\",\"7\":" ++ toString m.group.toNat ++ "\x7d\x7d"

theorem compact_toJson (m : GroupMessage) : m.toJson.compact = m.spelled := by
  have hint : ∀ n : UInt32, Json.intText n.toNat = (toString n.toNat).toList := by
    intro n
    rw [Nat.toString_eq_ofList_toDigits, String.toList_ofList]
    rfl
  have hcode : Json.quote m.service.code = '"' :: m.service.code.toList ++ ['"'] := by
    rcases m.service <;> rfl
  have hvalue : Json.chars m.value.toJson = m.value.toJson.compact.toList :=
    String.toList_ofList.symm
  rw [← String.toList_inj, Json.compact, String.toList_ofList]
  simp only [toJson, spelled, Json.chars, Json.memberTexts, Json.commas, hint, hcode, hvalue,
    String.toList_append]
  simp [Json.quote, Json.escape]

theorem toJson_nat {n : ℕ} (h : n < 2 ^ 32) : Payload.toJson (.int n) = .int n := by
  have hmin : Int64.minValue.toInt = -2 ^ 63 := rfl
  have hsize : UInt64.size = 2 ^ 64 := rfl
  exact Payload.toJson_int (by omega) (by omega)

theorem toJson_value {v : GroupValue} (hv : v.IsExact) : Payload.toJson v.toItem = v.toJson := by
  rcases hv with b | n
  · rw [GroupValue.toItem, Payload.toJson]
    rfl
  · have hmax := n.toInt_lt
    have hsize : UInt64.size = 2 ^ 64 := rfl
    exact Payload.toJson_int n.minValue_le_toInt (by omega)

theorem toJson_toItem {m : GroupMessage} (hm : m.value.IsExact) :
    Payload.toJson m.toItem = m.toJson := by
  have hkeys : Payload.key (.int 1) = "1" ∧ Payload.key (.int 4) = "4" ∧ Payload.key (.int 5) = "5" ∧
      Payload.key (.int 6) = "6" ∧ Payload.key (.int 7) = "7" := by
    simp only [Payload.key]
    exact ⟨rfl, rfl, rfl, rfl, rfl⟩
  obtain ⟨h₁, h₄, h₅, h₆, h₇⟩ := hkeys
  have hsender := toJson_nat m.sender.toNat_lt
  have hgroup := toJson_nat m.group.toNat_lt
  have hvalue := toJson_value hm
  have hservice : Payload.toJson (.text m.service.code) = .str m.service.code := by
    rw [Payload.toJson]
  -- the three members are added in the order 6, 7, 1
  have hinner : Payload.toJson (.map
      [(.int 6, .text m.service.code), (.int 7, .int m.group.toNat), (.int 1, m.value.toItem)]) =
      .obj [("1", m.value.toJson), ("6", .str m.service.code), ("7", .int m.group.toNat)] := by
    rw [Payload.toJson_map]
    simp only [List.map, Payload.member, Json.collect, List.foldl, h₁, h₆, h₇, hgroup, hvalue,
      hservice]
    rw [Json.insert, Json.insert_of_gt (by decide), Json.insert, Json.insert_of_lt (by decide)]
  rw [toItem, toJson, Payload.toJson_map]
  simp only [List.map, Payload.member, Json.collect, List.foldl, h₄, h₅, hsender, hinner]
  rw [Json.insert, Json.insert_of_gt (by decide), Json.insert]

theorem writable_nat {levels n : ℕ} (h : n < 2 ^ 32) : Cbor.Item.Writable levels (.int n) :=
  .int (by omega) (by omega)

theorem writable_value {levels : ℕ} {v : GroupValue} (hv : v.IsExact) :
    v.toItem.Writable levels := by
  rcases hv with b | n
  · exact .bool b
  · have hmin := n.le_toInt
    have hmax := n.toInt_lt
    exact .int (by omega) (by omega)

theorem writable_code {levels : ℕ} (service : GroupService) :
    Cbor.Item.Writable levels (.text service.code) := by
  refine .text ?_
  rcases service <;> decide

theorem writable_toItem {m : GroupMessage} (hm : m.value.IsExact) :
    m.toItem.Writable Cbor.maxNesting := by
  have hinner : Cbor.Item.Writable 255 (.map
      [(.int 6, .text m.service.code), (.int 7, .int m.group.toNat), (.int 1, m.value.toItem)]) := by
    refine .map (by simp) ?_ ?_
    · simp only [List.forall_mem_cons]
      exact ⟨writable_nat (n := 6) (by omega), writable_nat (n := 7) (by omega),
        writable_nat (n := 1) (by omega), fun _ he => nomatch he⟩
    · simp only [List.forall_mem_cons]
      exact ⟨writable_code m.service, writable_nat m.group.toNat_lt, writable_value hm,
        fun _ he => nomatch he⟩
  refine .map (by simp) ?_ ?_
  · simp only [List.forall_mem_cons]
    exact ⟨writable_nat (n := 4) (by omega), writable_nat (n := 5) (by omega),
      fun _ he => nomatch he⟩
  · simp only [List.forall_mem_cons]
    exact ⟨writable_nat m.sender.toNat_lt, hinner, fun _ he => nomatch he⟩

/-! ### What the body tells -/

theorem code_inj {s s' : GroupService} (h : s.code = s'.code) : s = s' := by
  rcases s <;> rcases s' <;> first | rfl | exact absurd h (by decide)

theorem toItem_value_inj {v v' : GroupValue} (h : v.toItem = v'.toItem) : v = v' := by
  rcases v with b | n | x <;> rcases v' with b' | n' | x' <;>
    simp only [GroupValue.toItem, Cbor.Item.bool.injEq, Cbor.Item.int.injEq,
      Cbor.Item.double.injEq, Int64.toInt_inj, reduceCtorEq] at h
  · rw [h]
  · rw [h]
  · rw [h]

theorem toItem_inj {m m' : GroupMessage} (h : m.toItem = m'.toItem) : m = m' := by
  obtain ⟨sender, group, service, value⟩ := m
  obtain ⟨sender', group', service', value'⟩ := m'
  simp only [toItem, Cbor.Item.map.injEq, List.cons.injEq, Prod.mk.injEq, Cbor.Item.int.injEq,
    Cbor.Item.text.injEq, Int.natCast_inj, UInt32.toNat_inj, true_and, and_true] at h
  obtain ⟨hsender, hservice, hgroup, hvalue⟩ := h
  rw [hsender, hgroup, code_inj hservice, toItem_value_inj hvalue]

theorem decode?_encode {m : GroupMessage} (hm : m.value.IsExact) :
    Cbor.decode? m.encode = some m.toItem := by
  have h := Cbor.decode?_write (writable_toItem hm) []
  rwa [List.append_nil] at h

theorem jsonText?_encode {m : GroupMessage} (hm : m.value.IsExact) :
    Payload.jsonText? m.encode = some m.toJson.compact := by
  rw [Payload.jsonText?_of_decode? (decode?_encode hm), toJson_toItem hm]

theorem encode_inj {m m' : GroupMessage} (hm : m.value.IsExact) (hm' : m'.value.IsExact)
    (h : m.encode = m'.encode) : m = m' := by
  have hread := decode?_encode hm
  rw [h, decode?_encode hm'] at hread
  exact (toItem_inj (Option.some.inj hread)).symm

end GroupMessage

/-! ### Whole numbers as texts -/

theorem GroupValue.parse?_one (n : Int64) {g g' : List Char} (hg : Text.AllBlank g)
    (hg' : Text.AllBlank g') :
    GroupValue.parse? 1 (String.ofList (g ++ (toString n.toInt).toList ++ g')) = some (.int n) := by
  have htext : (toString n.toInt).toList = Json.intText n.toInt := by
    rw [← Decimal.ofList_intText, String.toList_ofList]
  have htrim : Text.trim (g ++ Json.intText n.toInt ++ g') = Json.intText n.toInt := by
    rw [Text.trim_append hg hg', Text.trim_of_tight (Decimal.tight_intText _)]
  have hread : GroupValue.readInt64? (Json.intText n.toInt) = some n := by
    rw [GroupValue.readInt64?, Decimal.readInt?_intText, Option.bind_some,
      if_pos ⟨n.minValue_le_toInt, n.toInt_le⟩, Int64.ofInt_toInt]
  unfold GroupValue.parse?
  rw [String.toList_ofList, htext, htrim]
  dsimp only
  rw [hread]
  rfl

/-- **Group messages survive the round trip.** The body of a message whose value is a truth value or
a whole number is rendered as the JSON object that says what the message says, and no other message
of this kind has the same body. The decimal text of a whole number, with any blanks around it, is
read as that number. -/
theorem group_message_round_trip (m : GroupMessage) (hm : m.value.IsExact) :
    Payload.jsonText? m.encode = some m.toJson.compact ∧ m.toJson.compact = m.spelled ∧
    (∀ m' : GroupMessage, m'.value.IsExact → m'.encode = m.encode → m' = m) ∧
    ∀ (n : Int64) (g g' : List Char), m.value = .int n → Text.AllBlank g → Text.AllBlank g' →
      GroupValue.parse? 1 (String.ofList (g ++ (toString n.toInt).toList ++ g')) = some m.value := by
  refine ⟨GroupMessage.jsonText?_encode hm, m.compact_toJson,
    fun m' hm' h => GroupMessage.encode_inj hm' hm h, ?_⟩
  intro n g g' hvalue hg hg'
  rw [hvalue]
  exact GroupValue.parse?_one n hg hg'

/-- The smallest value from the last address to a group, in its text and in its body. -/
theorem group_message_round_trip_extreme :
    let m : GroupMessage := ⟨4294967295, 65536, .response, .int Int64.minValue⟩
    Payload.jsonText? m.encode = some
      "\x7b\"4\":4294967295,\"5\":\x7b\"1\":-9223372036854775808,\"6\":\"rp\",\"7\":65536\x7d\x7d" ∧
    (∀ m' : GroupMessage, m'.value.IsExact → m'.encode = m.encode → m' = m) ∧
    GroupValue.parse? 1 "\t -9223372036854775808\u3000\n" = some m.value := by
  intro m
  have hfront : Text.AllBlank ['\t', ' '] := List.all_eq_true.mp rfl
  have hback : Text.AllBlank ['\u3000', '\n'] := List.all_eq_true.mp rfl
  obtain ⟨hjson, hspelled, hinj, hparse⟩ := group_message_round_trip m (.int _)
  have htext : m.spelled =
      "\x7b\"4\":4294967295,\"5\":\x7b\"1\":-9223372036854775808,\"6\":\"rp\",\"7\":65536\x7d\x7d" := by
    decide +kernel
  refine ⟨?_, hinj, ?_⟩
  · rw [hjson, hspelled, htext]
  · exact hparse Int64.minValue ['\t', ' '] ['\u3000', '\n'] rfl hfront hback

end KnxIoT
