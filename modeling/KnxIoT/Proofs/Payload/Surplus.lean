import KnxIoT.Proofs.Cbor.Reading
import KnxIoT.Proofs.Payload.Tree

/-! # Payloads: what follows an item

A CBOR payload is rendered from the item at its front (`item_at_front_rendered`). There is at most
one way to cut an item off a payload, and a payload in which the item is not complete is refused. But
what follows the item is not looked at: two items one after the other are rendered like the first of
them (`surplus_rendered`). -/

namespace KnxIoT.Payload

open Cbor (Item maxNesting)

section Front
variable {item : Item} {front surplus bs : Bytes}

theorem jsonText?_front (h : Item.Encoded maxNesting item front) (surplus : Bytes) :
    jsonText? (front ++ surplus) = some (toJson item).compact :=
  jsonText?_of_decode? (Cbor.decode?_eq_some_item_iff.mpr ⟨front, surplus, h, rfl⟩)

theorem exists_front {text : String} (hne : bs ≠ []) (h : jsonText? bs = some text) :
    ∃ item front surplus, Item.Encoded maxNesting item front ∧ bs = front ++ surplus := by
  rw [jsonText?, if_neg hne] at h
  obtain ⟨item, hdecode, -⟩ := Option.map_eq_some_iff.mp h
  exact ⟨item, Cbor.decode?_eq_some_item_iff.mp hdecode⟩

theorem render_of_jsonText? {text : String} (h : jsonText? bs = some text) :
    render .cbor bs = ⟨.json, text⟩ := by
  simp only [render, h]

theorem render_of_none (h : jsonText? bs = none) : render .cbor bs = failed := by
  simp only [render, h]

end Front

/-- How a payload is rendered, by the items that it may begin with. -/
structure RendersFront (bs : Bytes) : Prop where
  /-- The text is that of an item at the front, whatever follows it. -/
  rendered : ∀ item front surplus, Item.Encoded maxNesting item front → bs = front ++ surplus →
    jsonText? bs = some (toJson item).compact ∧ render .cbor bs = ⟨.json, (toJson item).compact⟩
  /-- There is one such item at most. -/
  single : ∀ item item' front front' surplus surplus', Item.Encoded maxNesting item front →
    Item.Encoded maxNesting item' front' → bs = front ++ surplus → bs = front' ++ surplus' →
      item = item' ∧ front = front' ∧ surplus = surplus'
  /-- Without such an item there is no text. -/
  refused : bs ≠ [] → (∀ item front surplus, Item.Encoded maxNesting item front →
    bs ≠ front ++ surplus) → jsonText? bs = none ∧ render .cbor bs = failed
  /-- The beginning of an item is not enough. -/
  incomplete : bs ≠ [] → ∀ item missing, missing ≠ [] →
    Item.Encoded maxNesting item (bs ++ missing) → jsonText? bs = none ∧ render .cbor bs = failed

/-- **A payload is rendered from the one item at its front,** and what follows is ignored. -/
theorem item_at_front_rendered (bs : Bytes) : RendersFront bs where
  rendered := by
    rintro item front surplus h rfl
    have htext := jsonText?_front h surplus
    exact ⟨htext, render_of_jsonText? htext⟩
  single := by
    rintro item item' front front' surplus surplus' h h' heq heq'
    exact h.unique h' (heq.symm.trans heq')
  refused := by
    intro hne hnone
    have htext : jsonText? bs = none := by
      rw [Option.eq_none_iff_forall_ne_some]
      intro text htext
      obtain ⟨item, front, surplus, h, heq⟩ := exists_front hne htext
      exact hnone item front surplus h heq
    exact ⟨htext, render_of_none htext⟩
  incomplete := by
    intro hne item missing hmissing h
    have htext : jsonText? bs = none := by
      rw [Option.eq_none_iff_forall_ne_some]
      intro text htext
      obtain ⟨item', front, surplus, h', rfl⟩ := exists_front hne htext
      -- both the front and the whole are cut off the whole
      have heq : front ++ (surplus ++ missing) = (front ++ surplus ++ missing) ++ [] := by simp
      obtain ⟨-, -, hnil⟩ := h'.unique h heq
      exact hmissing (List.append_eq_nil_iff.mp hnil).2
    exact ⟨htext, render_of_none htext⟩

/-- **What follows an item does not make a payload fail:** `1` before `2` is rendered as `1`. -/
theorem surplus_rendered :
    ¬ (∀ item front surplus, Item.Encoded maxNesting item front → surplus ≠ [] →
        jsonText? (front ++ surplus) = none) ∧
      ¬ ∀ item front surplus, Item.Encoded maxNesting item front → surplus ≠ [] →
        render .cbor (front ++ surplus) = failed := by
  have hone : Item.Encoded maxNesting (.int 1) [0x01] :=
    .of_flat (.unsigned (.unsigned (.short (by decide)))) _
  have htext : jsonText? ([0x01] ++ [0x02]) = some (toJson (.int 1)).compact :=
    jsonText?_front hone [0x02]
  constructor
  · intro h
    have hnone := h _ _ [0x02] hone (List.cons_ne_nil _ _)
    rw [htext] at hnone
    cases hnone
  · intro h
    have hfailed := h _ _ [0x02] hone (List.cons_ne_nil _ _)
    rw [render_of_jsonText? htext] at hfailed
    exact nomatch congrArg Rendered.format hfailed

end KnxIoT.Payload
