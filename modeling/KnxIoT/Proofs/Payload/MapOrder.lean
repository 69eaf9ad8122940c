import KnxIoT.Proofs.Payload.Tree

/-! # Payloads: the order of entries

Two items that differ in the order in which the entries of maps stand, at any depth and in keys as well
as in values, have the same text if no map has two entries with the same key
(`map_order_irrelevant`). Then no entry of a map is lost either. -/

namespace KnxIoT.Payload

open Cbor (Item)

/-- Items that differ in the order of the entries of maps. -/
inductive Shuffled : Item → Item → Prop
  | refl (a : Item) : Shuffled a a
  | trans {a b c : Item} (h : Shuffled a b) (h' : Shuffled b c) : Shuffled a c
  | entries {es fs : List (Item × Item)} (h : es.Perm fs) : Shuffled (.map es) (.map fs)
  | item {front back : List Item} {x y : Item} (h : Shuffled x y) :
      Shuffled (.array (front ++ x :: back)) (.array (front ++ y :: back))
  | key {front back : List (Item × Item)} {k k' v : Item} (h : Shuffled k k') :
      Shuffled (.map (front ++ (k, v) :: back)) (.map (front ++ (k', v) :: back))
  | value {front back : List (Item × Item)} {k v v' : Item} (h : Shuffled v v') :
      Shuffled (.map (front ++ (k, v) :: back)) (.map (front ++ (k, v') :: back))
  | content {number : ℕ} {a b : Item} (h : Shuffled a b) :
      Shuffled (.tag number a) (.tag number b)

/-- In each map inside the item, every entry has a key of its own. -/
def DistinctKeys (a : Item) : Prop :=
  ∀ entries, (Item.map entries).Part a → (entries.map fun e => key e.1).Nodup

section Keys
variable {items : List Item} {es fs front back : List (Item × Item)} {a k k' v v' : Item} {number : ℕ}

theorem distinctKeys_array_iff :
    DistinctKeys (.array items) ↔ ∀ x ∈ items, DistinctKeys x := by
  constructor
  · intro h x hx entries hpart
    exact h entries (.item hx hpart)
  · rintro h entries (_ | ⟨hx, hpart⟩)
    exact h _ hx entries hpart

theorem distinctKeys_map_iff : DistinctKeys (.map es) ↔
    (es.map fun e => key e.1).Nodup ∧ ∀ e ∈ es, DistinctKeys e.1 ∧ DistinctKeys e.2 := by
  constructor
  · intro h
    exact ⟨h es .self, fun e he => ⟨fun entries hpart => h entries (.key he hpart),
      fun entries hpart => h entries (.value he hpart)⟩⟩
  · rintro ⟨hnodup, hes⟩ entries (_ | _ | ⟨he, hpart⟩ | ⟨he, hpart⟩)
    · exact hnodup
    · exact (hes _ he).1 entries hpart
    · exact (hes _ he).2 entries hpart

theorem distinctKeys_tag_iff : DistinctKeys (.tag number a) ↔ DistinctKeys a := by
  constructor
  · intro h entries hpart
    exact h entries (.content hpart)
  · rintro h entries (_ | _ | _ | _ | hpart)
    exact h entries hpart

theorem toJson_map_congr (hkey : key k = key k') (hvalue : toJson v = toJson v') :
    toJson (.map (front ++ (k, v) :: back)) = toJson (.map (front ++ (k', v') :: back)) := by
  have hmember : member (k, v) = member (k', v') := Prod.ext hkey hvalue
  rw [toJson_map, toJson_map, List.map_append, List.map_append, List.map_cons, List.map_cons, hmember]

theorem distinctKeys_map_congr (hkey : key k = key k') (hk : DistinctKeys k → DistinctKeys k')
    (hv : DistinctKeys v → DistinctKeys v') (h : DistinctKeys (.map (front ++ (k, v) :: back))) :
    DistinctKeys (.map (front ++ (k', v') :: back)) := by
  rw [distinctKeys_map_iff] at h ⊢
  obtain ⟨hnodup, hes⟩ := h
  constructor
  · rw [List.map_append, List.map_cons] at hnodup ⊢
    rwa [← hkey]
  · intro e he
    obtain ⟨hk₀, hv₀⟩ := hes (k, v) (by simp)
    rcases List.mem_append.mp he with he | he
    · exact hes e (List.mem_append_left _ he)
    rcases List.mem_cons.mp he with rfl | he
    · exact ⟨hk hk₀, hv hv₀⟩
    · exact hes e (List.mem_append_right _ (List.mem_cons_of_mem _ he))

theorem distinctKeys_array_congr {front back : List Item} {x y : Item}
    (hxy : DistinctKeys x → DistinctKeys y) (h : DistinctKeys (.array (front ++ x :: back))) :
    DistinctKeys (.array (front ++ y :: back)) := by
  rw [distinctKeys_array_iff] at h ⊢
  intro z hz
  rcases List.mem_append.mp hz with hz | hz
  · exact h z (List.mem_append_left _ hz)
  rcases List.mem_cons.mp hz with rfl | hz
  · exact hxy (h x (by simp))
  · exact h z (List.mem_append_right _ (List.mem_cons_of_mem _ hz))

theorem nodup_member (h : (es.map fun e => key e.1).Nodup) :
    ((es.map member).map Prod.fst).Nodup := by
  rw [List.map_map]
  exact h

end Keys

/-- The items become the same, as values and as keys. -/
structure Alike (a b : Item) : Prop where
  json : toJson a = toJson b
  key : Payload.key a = Payload.key b
  distinct : DistinctKeys b

/-- Where a key is the text of the JSON value, the value decides. -/
theorem Alike.of_json {a b : Item} (ha : Payload.key a = (toJson a).compact)
    (hb : Payload.key b = (toJson b).compact) (h : toJson a = toJson b) (hd : DistinctKeys b) :
    Alike a b :=
  ⟨h, by rw [ha, hb, h], hd⟩

/-- **Shuffled items become the same** if every entry has a key of its own. -/
theorem Shuffled.alike {a b : Item} (h : Shuffled a b) : DistinctKeys a → Alike a b := by
  induction h with
  | refl a => exact fun hd => ⟨rfl, rfl, hd⟩
  | trans _ _ ih ih' =>
    intro hd
    have hab := ih hd
    have hbc := ih' hab.distinct
    exact ⟨hab.json.trans hbc.json, hab.key.trans hbc.key, hbc.distinct⟩
  | @entries es fs hperm =>
    intro hd
    obtain ⟨hnodup, hes⟩ := distinctKeys_map_iff.mp hd
    have hjson : toJson (.map es) = toJson (.map fs) := by
      rw [toJson_map, toJson_map, Json.collect_congr (nodup_member hnodup) (hperm.map member)]
    have hd' : DistinctKeys (.map fs) := distinctKeys_map_iff.mpr
      ⟨(hperm.map _).nodup_iff.mp hnodup, fun e he => hes e (hperm.mem_iff.mpr he)⟩
    exact .of_json (key_map es) (key_map fs) hjson hd'
  | @item front back x y _ ih =>
    intro hd
    have hxy := ih (distinctKeys_array_iff.mp hd x (by simp))
    have hjson : toJson (.array (front ++ x :: back)) = toJson (.array (front ++ y :: back)) := by
      rw [toJson_array, toJson_array, List.map_append, List.map_append, List.map_cons, List.map_cons,
        hxy.json]
    exact .of_json (key_array _) (key_array _) hjson
      (distinctKeys_array_congr (fun _ => hxy.distinct) hd)
  | @key front back k k' v _ ih =>
    intro hd
    have hk := ih ((distinctKeys_map_iff.mp hd).2 (k, v) (by simp)).1
    exact .of_json (key_map _) (key_map _) (toJson_map_congr hk.key rfl)
      (distinctKeys_map_congr hk.key (fun _ => hk.distinct) id hd)
  | @value front back k v v' _ ih =>
    intro hd
    have hv := ih ((distinctKeys_map_iff.mp hd).2 (k, v) (by simp)).2
    exact .of_json (key_map _) (key_map _) (toJson_map_congr rfl hv.json)
      (distinctKeys_map_congr rfl id (fun _ => hv.distinct) hd)
  | @content number a b _ ih =>
    intro hd
    have hab := ih (distinctKeys_tag_iff.mp hd)
    have hjson : toJson (.tag number a) = toJson (.tag number b) := by
      rw [toJson_tag, toJson_tag, hab.json]
    exact .of_json (key_tag number a) (key_tag number b) hjson
      (distinctKeys_tag_iff.mpr hab.distinct)

theorem members_of_distinctKeys {a : Item} (hd : DistinctKeys a) {entries : List (Item × Item)}
    (hpart : (Item.map entries).Part a) :
    ∃ members, toJson (.map entries) = .obj members ∧ members.length = entries.length ∧
      ∀ e ∈ entries, (key e.1, toJson e.2) ∈ members := by
  have hperm := Json.collect_perm (nodup_member (hd entries hpart))
  refine ⟨_, toJson_map entries, ?_, fun e he => ?_⟩
  · rw [hperm.length_eq, List.length_map]
  · exact hperm.mem_iff.mpr (List.mem_map_of_mem he)

/-- **The order of entries does not matter** where every entry has a key of its own. -/
theorem map_order_irrelevant {a b : Item} (h : Shuffled a b) (hd : DistinctKeys a) :
    toJson a = toJson b ∧ (toJson a).compact = (toJson b).compact ∧
    (∀ bs bs', Cbor.decode? bs = some a → Cbor.decode? bs' = some b → jsonText? bs = jsonText? bs') ∧
    ∀ entries, (Item.map entries).Part a ∨ (Item.map entries).Part b →
      ∃ members, toJson (.map entries) = .obj members ∧ members.length = entries.length ∧
        ∀ e ∈ entries, (key e.1, toJson e.2) ∈ members := by
  obtain ⟨hjson, -, hd'⟩ := h.alike hd
  refine ⟨hjson, by rw [hjson], ?_, ?_⟩
  · intro bs bs' hbs hbs'
    rw [jsonText?_of_decode? hbs, jsonText?_of_decode? hbs', hjson]
  · rintro entries (hpart | hpart)
    · exact members_of_distinctKeys hd hpart
    · exact members_of_distinctKeys hd' hpart

/-- A map as a key, with a map among its values, in two orders. -/
theorem map_order_irrelevant_in_key :
    let inner : Item := .map [(.int 1, .null), (.int 2, .bool false)]
    let inner' : Item := .map [(.int 2, .bool false), (.int 1, .null)]
    let a : Item := .map [(.map [(.text "x", .int 3), (.text "y", inner)], .null), (.text "b", .null)]
    let b : Item := .map [(.text "b", .null), (.map [(.text "y", inner'), (.text "x", .int 3)], .null)]
    Shuffled a b ∧ DistinctKeys a ∧ toJson a = toJson b ∧ (toJson b).compact =
      "\x7b\"b\":null,\"\x7b\\\"x\\\":3,\\\"y\\\":\x7b\\\"1\\\":null,\\\"2\\\":false\x7d\x7d\":null\x7d" := by
  intro inner inner' a b
  have hinner : Shuffled inner inner' := .entries (.swap _ _ _)
  have hkey : Shuffled (.map [(.text "x", .int 3), (.text "y", inner)])
      (.map [(.text "y", inner'), (.text "x", .int 3)]) :=
    .trans (.entries (.swap _ _ _)) (@Shuffled.value [] _ _ _ _ hinner)
  have hshuffled : Shuffled a b := .trans (.entries (.swap _ _ _)) (@Shuffled.key [_] [] _ _ _ hkey)
  have hinner' : DistinctKeys inner := by
    refine distinctKeys_map_iff.mpr ⟨by decide +kernel, ?_⟩
    simp only [List.forall_mem_cons]
    exact ⟨⟨nofun, nofun⟩, ⟨nofun, nofun⟩, nofun⟩
  have hkey' : DistinctKeys (.map [(.text "x", .int 3), (.text "y", inner)]) := by
    refine distinctKeys_map_iff.mpr ⟨by decide +kernel, ?_⟩
    simp only [List.forall_mem_cons]
    exact ⟨⟨nofun, nofun⟩, ⟨nofun, hinner'⟩, nofun⟩
  have hdistinct : DistinctKeys a := by
    refine distinctKeys_map_iff.mpr ⟨by decide +kernel, ?_⟩
    simp only [List.forall_mem_cons]
    exact ⟨⟨hkey', nofun⟩, ⟨nofun, nofun⟩, nofun⟩
  have htext : (toJson b).compact =
      "\x7b\"b\":null,\"\x7b\\\"x\\\":3,\\\"y\\\":\x7b\\\"1\\\":null,\\\"2\\\":false\x7d\x7d\":null\x7d" := by
    decide +kernel
  exact ⟨hshuffled, hdistinct, (map_order_irrelevant hshuffled hdistinct).1, htext⟩

end KnxIoT.Payload
