import KnxIoT.Cbor.Item

/-! # CBOR: the parts of an item

An item has the items of arrays, the keys and values of maps and the contents of tags as parts, and the
parts of these (`Item.Part`). -/

namespace KnxIoT.Cbor

/-- The items inside an item, and the item itself. -/
inductive Item.Part (p : Item) : Item → Prop
  | self : Part p p
  | item {items : List Item} {x : Item} (hx : x ∈ items) (h : Part p x) : Part p (.array items)
  | key {entries : List (Item × Item)} {e : Item × Item} (he : e ∈ entries) (h : Part p e.1) :
      Part p (.map entries)
  | value {entries : List (Item × Item)} {e : Item × Item} (he : e ∈ entries) (h : Part p e.2) :
      Part p (.map entries)
  | content {number : Nat} {content : Item} (h : Part p content) : Part p (.tag number content)

theorem Item.Part.trans {a b c : Item} (hab : a.Part b) (hbc : b.Part c) : a.Part c := by
  induction hbc with
  | self => exact hab
  | item hx _ ih => exact .item hx ih
  | key he _ ih => exact .key he ih
  | value he _ ih => exact .value he ih
  | content _ ih => exact .content ih

/-- There are no numbers with a fraction. -/
def Item.FloatFree (item : Item) : Prop := ∀ x, ¬ (Item.double x).Part item

theorem Item.FloatFree.array {items : List Item} (h : ∀ x ∈ items, x.FloatFree) :
    (Item.array items).FloatFree := by
  rintro d (_ | ⟨hx, hpart⟩)
  exact h _ hx d hpart

theorem Item.FloatFree.map {entries : List (Item × Item)}
    (h : ∀ e ∈ entries, e.1.FloatFree ∧ e.2.FloatFree) : (Item.map entries).FloatFree := by
  rintro d (_ | _ | ⟨he, hpart⟩ | ⟨he, hpart⟩)
  · exact (h _ he).1 d hpart
  · exact (h _ he).2 d hpart

theorem Item.FloatFree.tag {number : Nat} {content : Item} (h : content.FloatFree) :
    (Item.tag number content).FloatFree := by
  rintro d (_ | _ | _ | _ | hpart)
  exact h d hpart

end KnxIoT.Cbor
