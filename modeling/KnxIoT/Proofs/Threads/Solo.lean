import KnxIoT.Proofs.Threads.Frame
import KnxIoT.Proofs.Threads.Serving

/-! # The steps of one thread

`Alone` is what a thread does while no other thread takes a step. What its chores then come to is
said by `Brings`: sending events is `Bridge.pushAll`, passing on a signal is `Bridge.signal`, and
calling the engine is `Bridge.callEngine`. `Does` is the same for a call and a command. -/

namespace KnxIoT.Threads

variable {σ : Type}

/-! ### Steps of one thread -/

/-- How a thread moves on that has no chores: call `n` or, with deadlines that do not pass, the
worker, which has no program point. -/
def acting (eng : Engine σ) : Option ℕ → Core σ → Pc → Option (Core σ × List Chore × Pc)
  | some n, k, p => p.exec eng n k
  | none, k, p => (k.advance eng false).map fun next => (next.1, next.2, p)

/-- A step of one thread. -/
inductive Solo (eng : Engine σ) (a : Option ℕ) :
    Core σ × List Chore × Pc → Core σ × List Chore × Pc → Prop
  | chore {x : Chore} {k k' : Core σ} {more l : List Chore} {p : Pc}
      (h : x.exec k = some (k', more)) : Solo eng a (k, x :: l, p) (k', more ++ l, p)
  | act {k k' : Core σ} {more : List Chore} {p p' : Pc}
      (h : acting eng a k p = some (k', more, p')) : Solo eng a (k, [], p) (k', more, p')

/-- Steps of one thread only. -/
abbrev Alone (eng : Engine σ) (a : Option ℕ) :
    Core σ × List Chore × Pc → Core σ × List Chore × Pc → Prop :=
  Relation.ReflTransGen (Solo eng a)

/-- Nobody holds a lock. -/
structure Core.Unlocked (k : Core σ) : Prop where
  owner : k.owner = none
  place : k.place.locked = false

/-- By itself the thread makes `b` of the bridge, and perhaps rouses the worker. -/
def Brings (eng : Engine σ) (a : Option ℕ) (k : Core σ) (l : List Chore) (p : Pc) (b : Bridge σ)
    (l' : List Chore) (p' : Pc) : Prop :=
  ∃ k', Alone eng a (k, l, p) (k', l', p') ∧ k'.bridge = b ∧ k'.owner = none ∧
    (k'.place = k.place ∨ k'.place = k.place.rouse)

theorem Place.locked_rouse (p : Place) : p.rouse.locked = p.locked := by
  cases p <;> rfl

theorem Place.isOver_rouse (p : Place) : p.rouse.isOver = p.isOver := by
  cases p <;> rfl

theorem Place.rouse_rouse (p : Place) : p.rouse.rouse = p.rouse := by
  cases p <;> rfl

section Steps
variable {eng : Engine σ} {a : Option ℕ} {k : Core σ} {l l' l'' : List Chore} {p p' p'' : Pc}
  {b b' : Bridge σ}

namespace Brings

theorem refl (hk : k.Unlocked) : Brings eng a k l p k.bridge l p :=
  ⟨k, .refl, rfl, hk.owner, .inl rfl⟩

theorem trans (h : Brings eng a k l p b l' p') (hk : k.Unlocked)
    (h' : ∀ k' : Core σ, k'.bridge = b → k'.Unlocked → k'.place.isOver = k.place.isOver →
      Brings eng a k' l' p' b' l'' p'') : Brings eng a k l p b' l'' p'' := by
  obtain ⟨k₁, ha, hb, ho, hp⟩ := h
  have hlocked : k₁.place.locked = false := by
    rcases hp with hp | hp
    · rw [hp, hk.place]
    · rw [hp, Place.locked_rouse, hk.place]
  have hover : k₁.place.isOver = k.place.isOver := by
    rcases hp with hp | hp
    · rw [hp]
    · rw [hp, Place.isOver_rouse]
  obtain ⟨k₂, ha', hb', ho', hp'⟩ := h' k₁ hb ⟨ho, hlocked⟩ hover
  refine ⟨k₂, ha.trans ha', hb', ho', ?_⟩
  rcases hp with hp | hp <;> rcases hp' with hp' | hp' <;> rw [hp', hp]
  · exact .inl rfl
  · exact .inr rfl
  · exact .inr rfl
  · exact .inr (Place.rouse_rouse _)

theorem chore {x : Chore} {more : List Chore} (hk : k.Unlocked)
    (h : x.exec k = some ({ k with bridge := b }, more)) (hl : more ++ l = l') :
    Brings eng a k (x :: l) p b l' p :=
  hl ▸ ⟨_, .single (.chore h), rfl, hk.owner, .inl rfl⟩

theorem step (hk : k.Unlocked) (h : acting eng a k p = some ({ k with bridge := b }, l', p')) :
    Brings eng a k [] p b l' p' :=
  ⟨_, .single (.act h), rfl, hk.owner, .inl rfl⟩

/-! ### Chores -/

theorem latch (c : Cause) (hk : k.Unlocked)
    (hb : b = { k.bridge with wake := k.bridge.wake.latch }) :
    Brings eng a k (.latch c :: l) p b l p := by
  subst hb
  have hlatch : Brings eng a k (.latch c :: l) p { k.bridge with wake := k.bridge.wake.latch }
      (.look c :: l) p := chore hk rfl rfl
  refine hlatch.trans hk fun k₁ hb hk₁ _ => ?_
  rw [← hb]
  by_cases hparked : k₁.bridge.wake.parked
  · refine ⟨{ k₁ with place := k₁.place.rouse }, ?_, rfl, hk₁.owner, .inr rfl⟩
    have hlook : Chore.exec k₁ (.look c) = some (k₁, [.rouse c]) := by
      simp [Chore.exec, hk₁.place, hparked]
    have hrouse : Chore.exec k₁ (.rouse c) = some ({ k₁ with place := k₁.place.rouse }, []) := rfl
    exact .head (.chore hlook) (.single (.chore hrouse))
  · have hlook : Chore.exec k₁ (.look c) = some (k₁, []) := by
      simp [Chore.exec, hk₁.place, hparked]
    exact chore hk₁ hlook rfl

theorem send (e : EngineEvent) (hk : k.Unlocked) :
    Brings eng a k (.send e :: l) p (k.bridge.push e).2 l p := by
  by_cases hc : k.bridge.queue.closed
  · have hpush : (k.bridge.push e).2 = k.bridge := by simp [Bridge.push, hc]
    have hsend : Chore.exec k (.send e) = some (k, []) := by simp [Chore.exec, hc]
    rw [hpush]
    exact chore hk hsend rfl
  · have hpush : (k.bridge.push e).2 = { enqueue e k.bridge with wake := k.bridge.wake.latch } := by
      simp [Bridge.push, enqueue, hc]
    have hsend : Chore.exec k (.send e) =
        some ({ k with bridge := enqueue e k.bridge }, [.latch .event]) := by simp [Chore.exec, hc]
    rw [hpush]
    refine (chore hk hsend rfl).trans hk fun k₁ hb hk₁ _ => ?_
    exact latch _ hk₁ (by rw [hb]; rfl)

/-- **Sending one event after the other.** -/
theorem sends (es : List EngineEvent) (hk : k.Unlocked) (hb : b = k.bridge.pushAll es) :
    Brings eng a k (es.map .send ++ l) p b l p := by
  subst hb
  induction es generalizing k with
  | nil => exact refl hk
  | cons e es ih =>
    refine (send e hk).trans hk fun k₁ hb hk₁ _ => ?_
    have h := ih hk₁
    rwa [hb] at h

/-- **A signal reaches the worker while the loop runs.** -/
theorem signal (hk : k.Unlocked) : Brings eng a k (.signal :: l) p k.bridge.signal l p := by
  by_cases hq : k.bridge.loop.quit
  · have hs : k.bridge.signal = k.bridge := by
      simp [Bridge.signal, EventLoop.signal, EventLoop.passesSignal, hq]
    have hsignal : Chore.exec k .signal = some (k, []) := by simp [Chore.exec, hq]
    rw [hs]
    exact chore hk hsignal rfl
  · have hsignal : Chore.exec k .signal = some (k, [.ifRunning]) := by simp [Chore.exec, hq]
    refine (chore hk hsignal rfl).trans hk fun k₁ hb hk₁ _ => ?_
    rw [← hb] at hq ⊢
    by_cases hr : k₁.bridge.loop.isRunning
    · have hs : k₁.bridge.signal = { k₁.bridge with wake := k₁.bridge.wake.latch } := by
        simp [Bridge.signal, EventLoop.signal, EventLoop.passesSignal, hq, hr]
      have hif : Chore.exec k₁ .ifRunning = some (k₁, [.latch .request]) := by
        simp [Chore.exec, hk₁.owner, hr]
      refine (chore hk₁ hif rfl).trans hk₁ fun k₂ hb' hk₂ _ => ?_
      exact latch _ hk₂ (by rw [hs, hb'])
    · have hs : k₁.bridge.signal = k₁.bridge := by
        simp [Bridge.signal, EventLoop.signal, EventLoop.passesSignal, hr]
      have hif : Chore.exec k₁ .ifRunning = some (k₁, []) := by simp [Chore.exec, hk₁.owner, hr]
      rw [hs]
      exact chore hk₁ hif rfl

theorem call {c : EngineCall} (hk : k.Unlocked)
    (h : acting eng a k p = some ({ k with bridge := turn eng c k.bridge },
      Threads.sends eng c k.bridge ++ l, p')) :
    Brings eng a k [] p (k.bridge.callEngine eng c).2 l p' := by
  refine (Brings.step hk h).trans hk fun k₁ hb hk₁ _ => ?_
  exact sends _ hk₁ (by rw [hb]; rfl)

end Brings

end Steps

/-! ### What a call does -/

/-- What a call has replied. A stop that has ended the bridge replies that it is done. -/
def Pc.reply? : Pc → Option Reply
  | .returned r => some r
  | .stop .done => some (.unit (.ok ()))
  | _ => none

/-- Two bridges that differ in nothing but the order of what they took down. -/
def Alike (b b' : Bridge σ) : Prop :=
  ∃ log, b = { b' with log } ∧ log.Perm b'.log

theorem Alike.refl (b : Bridge σ) : Alike b b :=
  ⟨b.log, rfl, .refl _⟩

/-- **By itself call `n` does what the given piece of a command leads to.** -/
def Does (eng : Engine σ) (n : ℕ) (k : Core σ) (l : List Chore) (p : Pc)
    (piece : Bridge.Piece σ) : Prop :=
  ∃ b r k' p', Bridge.Finishes piece b r ∧ Alone eng (some n) (k, l, p) (k', [], p') ∧
    Alike k'.bridge b ∧ k'.owner = none ∧ p'.reply? = some r

section Call
variable {eng : Engine σ} {n : ℕ} {k : Core σ} {l : List Chore} {p p' : Pc}
  {piece : Bridge.Piece σ} {b : Bridge σ} {r : Reply}

namespace Does

theorem of_brings (h : Brings eng (some n) k l p b [] p') (hp : p'.reply? = some r)
    (hf : Bridge.Finishes piece b r) : Does eng n k l p piece := by
  obtain ⟨k', ha, hb, ho, -⟩ := h
  exact ⟨b, r, k', p', hf, ha, hb ▸ Alike.refl _, ho, hp⟩

theorem returned (hk : k.Unlocked) (hf : Bridge.Finishes piece k.bridge r) :
    Does eng n k [] (.returned r) piece :=
  of_brings (.refl hk) rfl hf

theorem exec (h : match p.exec eng n k with
    | some (k', l', p') => Does eng n k' l' p' piece
    | none => False) : Does eng n k [] p piece := by
  cases hs : p.exec eng n k with
  | none =>
    rw [hs] at h
    exact h.elim
  | some next =>
    rw [hs] at h
    obtain ⟨b, r, k', p', hf, ha, hb, ho, hp⟩ := h
    exact ⟨b, r, k', p', hf, .head (.act hs) ha, hb, ho, hp⟩

end Does

end Call

end KnxIoT.Threads
