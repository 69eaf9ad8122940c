import KnxIoT.Proofs.Bridge.Draining
import KnxIoT.Proofs.Threads.System
import Mathlib.Logic.Relation

/-! # Serving the queue one event at a time

A thread that serves the queue lets go of every lock between two events, and between two devices of
a discovery reply. `serves` shows that this comes to an end, and that it makes of the bridge what
the command makes of it whose notifications nobody answers (`Finishes`). -/

namespace KnxIoT

/-- **A command comes to an end** when no handler does anything: from one of its pieces on it leaves
the bridge `b` and replies `r`. -/
inductive Bridge.Finishes {σ : Type} : Bridge.Piece σ → Bridge σ → Reply → Prop
  | reply (b : Bridge σ) (r : Reply) : Finishes (b, .reply r) b r
  | notify {b b' : Bridge σ} {n : Notification} {rest : Rest} {r : Reply}
      (h : Finishes (b.proceed rest) b' r) : Finishes (b, .notify n rest) b' r

namespace Threads

variable {σ : Type}

/-- What a command has left to do that ends with `e`. -/
def Serving.rest (e : CycleEnd) : Serving → Rest
  | .announce t found serials source text => .announce t found serials source text e
  | _ => .drain e

/-- How many devices are left to be announced, and the reply itself. -/
def Serving.size : Serving → ℕ
  | .announce _ _ serials _ _ => serials.length + 1
  | _ => 0

theorem Serving.ofRest_ne_event (rest : Rest) (ev : EngineEvent) : ofRest rest ≠ .event ev := by
  cases rest <;> simp [ofRest]

/-- The queue is served on, one lock at a time. -/
def Serves : Bridge σ × Option Serving → Bridge σ × Option Serving → Prop :=
  Relation.ReflTransGen fun x y => ∃ s, x.2 = some s ∧ serveOne x.1 s = y

theorem Serves.head {b : Bridge σ} {s : Serving} {y : Bridge σ × Option Serving}
    (h : Serves (serveOne b s) y) : Serves (b, some s) y :=
  Relation.ReflTransGen.head ⟨s, rfl, rfl⟩ h

/-! ### Apart from how it ends, a cycle does the same -/

theorem announce_rest (t : Token) (source : Endpoint) (text : String) (e : CycleEnd) :
    ∀ (serials : List String) (found : ℕ) (b : Bridge σ),
      Bridge.announce t found source text e serials b =
        (let r := Bridge.announce t found source text (.wait none) serials b
        (r.1, r.2.1, (Serving.ofRest r.2.2).rest e)) ∧
      (Bridge.announce t found source text e serials b).1.queue = b.queue ∧
      (Serving.ofRest (Bridge.announce t found source text e serials b).2.2).size ≤ serials.length
  | [], found, b => ⟨rfl, rfl, Nat.le_refl _⟩
  | serial :: serials, found, b => by
    unfold Bridge.announce
    cases b.registry.upsert serial
      (Bridge.announced source b.settings.secureByDefault serial) with
    | ok r => exact ⟨rfl, rfl, Nat.le_refl _⟩
    | error why =>
      obtain ⟨h, hq, hs⟩ := announce_rest t source text e serials found b
      exact ⟨h, hq, Nat.le_succ_of_le hs⟩

theorem handle_rest (ev : EngineEvent) (e : CycleEnd) (b : Bridge σ) :
    b.handle ev e =
      ((b.handle ev (.wait none)).1,
        (b.handle ev (.wait none)).2.map fun r => (r.1, (Serving.ofRest r.2).rest e)) := by
  cases ev with
  | response t status format payload source =>
    rcases hc : b.correlator.complete t status format payload with ⟨_ | n, c⟩ <;>
      simp only [Bridge.handle, hc] <;> rfl
  | discoveryReply t payload source =>
    rcases ha : b.correlator.acceptReply t with ⟨_ | _, c⟩
    · simp only [Bridge.handle_discoveryReply_dropped ha]
      rfl
    · simp only [Bridge.handle_discoveryReply ha]
      rw [(announce_rest t source _ e _ 0 _).1]
      rfl
  | handshakeResult t status identity secret =>
    rcases ht : b.correlator.takeHandshake t with ⟨_ | i, c⟩ <;>
      simp only [Bridge.handle, ht] <;> rfl
  | _ => rfl

theorem handle_queue (ev : EngineEvent) (e : CycleEnd) (b : Bridge σ) :
    (b.handle ev e).1.queue = b.queue := by
  obtain ⟨registry, hs, h, -⟩ := Bridge.handle_frame e ev b
  rw [h]

/-! ### To the end -/

section Taking
variable {b : Bridge σ} {ev : EngineEvent} {events : List EngineEvent}

theorem serveOne_drain (hq : b.queue.events = ev :: events) :
    serveOne b .drain = (b.taking ev events, some (.event ev)) := by
  simp only [serveOne, hq]; rfl

theorem drain_cons (hq : b.queue.events = ev :: events) (e : CycleEnd) :
    b.drain e = match (b.taking ev events).handle ev e with
      | (b, some (n, rest)) => (b, .notify n rest)
      | (b, none) => Bridge.drainFrom e events b := by
  have hdrain : b.drain e = Bridge.drainFrom e (ev :: events) b := by rw [Bridge.drain, hq]
  exact hdrain.trans Bridge.drainFrom_cons

end Taking

theorem finishes_endCycle (e : CycleEnd) (b : Bridge σ) :
    Bridge.Finishes (b.endCycle e) (b.endCycle e).1 e.finalReply := by
  cases e <;> exact .reply _ _

/-- **Serving the queue comes to an end, as the command does that serves it.** The measure is the
length of the queue, then what is left of a discovery reply. -/
theorem serves (b : Bridge σ) (s : Serving) (hs : ∀ ev, s ≠ .event ev) :
    ∃ b', Serves (b, some s) (b', none) ∧
      ∀ e, Bridge.Finishes (b.proceed (s.rest e)) (b'.endCycle e).1 e.finalReply := by
  match s with
  | .event ev => exact absurd rfl (hs ev)
  | .announce t found serials source text =>
    obtain ⟨-, hq, hsize⟩ := announce_rest t source text (.wait none) serials found b
    obtain ⟨b', h, hf⟩ := serves
      (Bridge.announce t found source text (.wait none) serials b).1
      (Serving.ofRest (Bridge.announce t found source text (.wait none) serials b).2.2)
      (Serving.ofRest_ne_event _)
    refine ⟨b', .head h, fun e => ?_⟩
    simp only [Serving.rest, Bridge.proceed]
    rw [(announce_rest t source text e serials found b).1]
    exact .notify (hf e)
  | .drain =>
    rcases hq : b.queue.events with _ | ⟨ev, events⟩
    · refine ⟨b, .head ?_, fun e => ?_⟩
      · simp only [serveOne, hq]
        exact .refl
      · simp only [Serving.rest, Bridge.proceed, Bridge.drain, hq]
        exact finishes_endCycle e b
    · have h₁ := serveOne_drain hq
      rcases hh : (b.taking ev events).handle ev (.wait none) with ⟨b₂, told⟩
      have hevents : b₂.queue.events = events := by
        have h := handle_queue ev (.wait none) (b.taking ev events)
        rw [hh] at h
        rw [h, Bridge.taking_queue]
      rcases told with _ | ⟨n, rest⟩
      · obtain ⟨b', h, hf⟩ := serves b₂ .drain (by simp)
        refine ⟨b', .head (h₁ ▸ .head ?_), fun e => ?_⟩
        · simpa only [serveOne, hh] using h
        · have hfe := hf e
          simp only [Serving.rest, Bridge.proceed, Bridge.drain, hevents] at hfe
          simp only [Serving.rest, Bridge.proceed]
          rw [drain_cons hq, handle_rest, hh]
          exact hfe
      · obtain ⟨b', h, hf⟩ := serves b₂ (.ofRest rest) (Serving.ofRest_ne_event rest)
        refine ⟨b', .head (h₁ ▸ .head ?_), fun e => ?_⟩
        · simpa only [serveOne, hh] using h
        · simp only [Serving.rest, Bridge.proceed]
          rw [drain_cons hq, handle_rest, hh]
          exact .notify (hf e)
termination_by (b.queue.events.length, s.size)
decreasing_by
  · rw [hq]
    exact Prod.Lex.right _ (Nat.lt_succ_of_le hsize)
  all_goals
    rw [hevents, hq]
    exact Prod.Lex.left _ _ (Nat.lt_succ_self _)

end Threads

end KnxIoT
