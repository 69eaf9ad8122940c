import KnxIoT.Proofs.Bridge.Ledger
import KnxIoT.Proofs.Correlator.Table

/-! # The correlator: what an event closes

An event of the engine closes its token if it settles what the token stands for (`settle`), and no
other token (`find?_settle`). The three operations with which events are answered leave the table
that `settle` does. -/

namespace KnxIoT

theorem EngineEvent.settles_of_ne {e : EngineEvent} {t u : Token} (h : e.token? = some t)
    (hu : u ≠ t) (p : Pending) : e.settles u p = false := by
  unfold settles
  split <;> simp only [token?, Option.some.injEq] at h <;> first | rfl | simpa [h] using hu.symm

theorem EngineEvent.settles_of_token?_eq_none {e : EngineEvent} (h : e.token? = none) (u : Token)
    (p : Pending) : e.settles u p = false := by
  unfold settles
  split <;> first | rfl | cases h

namespace Correlator

/-- The table after an event: its token is closed if the event settles it. -/
def settle (c : Correlator) (e : EngineEvent) : Correlator :=
  match e.token? with
  | some t => if (c.find? t).any (e.settles t) then c.discard t else c
  | none => c

theorem settle_issued (c : Correlator) (e : EngineEvent) : (c.settle e).issued = c.issued := by
  unfold settle
  split
  · split_ifs <;> rfl
  · rfl

/-- **An event closes exactly the token that it settles.** -/
theorem find?_settle (c : Correlator) (e : EngineEvent) (u : Token) :
    (c.settle e).find? u = (c.find? u).filter fun p => !e.settles u p := by
  unfold settle
  cases he : e.token? with
  | none =>
    cases c.find? u with
    | none => rfl
    | some p => rw [Option.filter_some, EngineEvent.settles_of_token?_eq_none he]; rfl
  | some t =>
    by_cases hu : u = t
    · subst hu
      cases hf : c.find? u with
      | none => simp [hf]
      | some p => cases hs : e.settles u p <;> simp [hf, hs, Option.filter_some]
    · have hc : ∀ o : Option Pending, o.filter (fun p => !e.settles u p) = o := by
        rintro (_ | p)
        · rfl
        · rw [Option.filter_some, EngineEvent.settles_of_ne he hu]; rfl
      simp only [hc]
      split_ifs
      · rw [find?_discard, if_neg hu]
      · rfl

theorem find?_of_settle {c : Correlator} {e : EngineEvent} {u : Token} {p : Pending}
    (h : (c.settle e).find? u = some p) : c.find? u = some p := by
  rw [find?_settle, Option.filter_eq_some_iff] at h
  exact h.1

theorem find?_of_settleAll {c : Correlator} {es : List EngineEvent} {u : Token} {p : Pending}
    (h : (es.foldl settle c).find? u = some p) : c.find? u = some p := by
  induction es generalizing c with
  | nil => exact h
  | cons e es ih => exact find?_of_settle (ih h)

theorem settle_eq_self_or_discard (c : Correlator) (e : EngineEvent) :
    c.settle e = c ∨ ∃ t, c.settle e = c.discard t := by
  unfold settle
  split
  · split_ifs
    · exact Or.inr ⟨_, rfl⟩
    · exact Or.inl rfl
  · exact Or.inl rfl

theorem settle_eq_discard {c : Correlator} {e : EngineEvent} {t : Token} {p : Pending}
    (ht : e.token? = some t) (hp : c.find? t = some p) (hs : e.settles t p = true) :
    c.settle e = c.discard t := by
  unfold settle
  rw [ht]
  simp [hp, hs]

variable (c : Correlator) (t : Token)

theorem complete_snd (status : Status) (format : ContentFormat) (payload : Bytes)
    (source : Option Endpoint) : (c.complete t status format payload).2 =
      c.settle (.response t status format payload source) := by
  unfold complete takeRequest settle
  rcases ht : c.find? t with _ | ⟨ctx⟩ | k | i <;>
    simp [EngineEvent.token?, EngineEvent.settles, ht]

theorem acceptReply_snd (payload : Bytes) (source : Endpoint) :
    (c.acceptReply t).2 = c.settle (.discoveryReply t payload source) := by
  unfold acceptReply settle
  rcases ht : c.find? t with _ | ⟨ctx⟩ | ⟨_ | _⟩ | i <;>
    simp [EngineEvent.token?, EngineEvent.settles, ht]

theorem takeHandshake_snd (status : Int32) (identity secret : Bytes) :
    (c.takeHandshake t).2 = c.settle (.handshakeResult t status identity secret) := by
  unfold takeHandshake settle
  rcases ht : c.find? t with _ | ⟨ctx⟩ | k | i <;>
    simp [EngineEvent.token?, EngineEvent.settles, ht]

end Correlator

end KnxIoT
