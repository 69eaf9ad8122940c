import KnxIoT.Bridge.Lifecycle
import Mathlib.Tactic.Common

/-! # What the pieces of a command leave alone

Calling the engine, queueing events and waking the worker change the engine, the queue and the wake
signal only (`callEngine_eq`), and take down what happened.

* `Calm b b'`: from `b` to `b'` the settings stay and only plain things happen.
* `Steady b b'`: besides, the engine and the loop stay where they are in their lives. -/

namespace KnxIoT

/-- A happening at which no token is closed: no event is taken from the queue, and nobody stops the
bridge meanwhile. -/
def Happening.IsPlain : Happening → Prop
  | .taken _ => False
  | .engine (.init _) InitAnswer.readyButStopped => False
  | _ => True

theorem Happening.isPlain_engine {c : EngineCall} (h : ∀ i, c ≠ .init i) (a : c.Answer) :
    (Happening.engine c a).IsPlain := by
  cases c with
  | init i => exact absurd rfl (h i)
  | _ => trivial

namespace Bridge

variable {σ : Type}

/-- The events that the queue takes; a closed one takes none. -/
def accepted (b : Bridge σ) (es : List EngineEvent) : List EngineEvent :=
  if b.queue.closed then [] else es

/-- **Queueing events changes the queue and the wake signal only.** -/
theorem pushAll_eq (es : List EngineEvent) (b : Bridge σ) :
    b.pushAll es =
      { b with
        queue := { b.queue with events := b.queue.events ++ b.accepted es }
        wake := { b.wake with latched := b.wake.latched || !(b.accepted es).isEmpty }
        log := b.log ++ (b.accepted es).map .queued } := by
  induction es generalizing b with
  | nil => simp [pushAll, accepted]
  | cons e es ih =>
    have h : b.pushAll (e :: es) = (b.push e).2.pushAll es := rfl
    rw [h, ih]
    unfold push accepted
    by_cases hc : b.queue.closed
    · simp [hc]
    · simp [hc, note, WakeSignal.latch]

/-- The events that the engine queues during a call. -/
def pushedBy (eng : Engine σ) (c : EngineCall) (b : Bridge σ) : List EngineEvent :=
  b.accepted (eng c b.engine).pushed

/-- **Calling the engine changes the engine, the queue and the wake signal only.** -/
theorem callEngine_eq (eng : Engine σ) (c : EngineCall) (b : Bridge σ) :
    b.callEngine eng c = ((eng c b.engine).answer,
      { b with
        engine := (eng c b.engine).state
        queue := { b.queue with events := b.queue.events ++ b.pushedBy eng c }
        wake := { b.wake with latched := b.wake.latched || !(b.pushedBy eng c).isEmpty }
        log := b.log ++ .engine c (eng c b.engine).answer :: (b.pushedBy eng c).map .queued }) := by
  simp only [callEngine, pushAll_eq, note, pushedBy, accepted, List.append_assoc,
    List.singleton_append]

section CallEngine
variable (eng : Engine σ) (c : EngineCall) (b : Bridge σ)

@[simp] theorem callEngine_settings : (b.callEngine eng c).2.settings = b.settings := by
  rw [callEngine_eq]

@[simp] theorem callEngine_phase : (b.callEngine eng c).2.phase = b.phase := by
  rw [callEngine_eq]

@[simp] theorem callEngine_correlator : (b.callEngine eng c).2.correlator = b.correlator := by
  rw [callEngine_eq]

@[simp] theorem callEngine_loop : (b.callEngine eng c).2.loop = b.loop := by
  rw [callEngine_eq]

theorem callEngine_log : (b.callEngine eng c).2.log =
    b.log ++ .engine c (b.callEngine eng c).1 :: (b.pushedBy eng c).map .queued := by
  rw [callEngine_eq]

end CallEngine

/-! ### Calm and steady -/

/-- From `b` to `b'` the settings stay and only plain things happen. -/
structure Calm (b b' : Bridge σ) : Prop where
  settings : b'.settings = b.settings
  log : ∃ hs, b'.log = b.log ++ hs ∧ ∀ x ∈ hs, x.IsPlain

/-- From `b` to `b'` all is calm, and the engine and the loop stay where they are in their lives. -/
structure Steady (b b' : Bridge σ) : Prop extends Calm b b' where
  phase : b'.phase = b.phase
  quit : b'.loop.quit = b.loop.quit

theorem Calm.trans {b b' b'' : Bridge σ} (h : Calm b b') (h' : Calm b' b'') : Calm b b'' := by
  obtain ⟨hs, hl, hp⟩ := h.log
  obtain ⟨hs', hl', hp'⟩ := h'.log
  refine ⟨h'.settings.trans h.settings, hs ++ hs', by rw [hl', hl, List.append_assoc], ?_⟩
  intro x hx
  rcases List.mem_append.mp hx with hx | hx
  · exact hp x hx
  · exact hp' x hx

theorem Calm.of_eq {b b' : Bridge σ} (hs : b'.settings = b.settings) (hl : b'.log = b.log) :
    Calm b b' :=
  ⟨hs, [], by simp [hl], by simp⟩

theorem Steady.trans {b b' b'' : Bridge σ} (h : Steady b b') (h' : Steady b' b'') : Steady b b'' :=
  ⟨h.toCalm.trans h'.toCalm, h'.phase.trans h.phase, h'.quit.trans h.quit⟩

theorem Steady.of_eq {b b' : Bridge σ} (hs : b'.settings = b.settings) (hl : b'.log = b.log)
    (hp : b'.phase = b.phase) (hq : b'.loop.quit = b.loop.quit) : Steady b b' :=
  ⟨.of_eq hs hl, hp, hq⟩

theorem callEngine_steady (eng : Engine σ) (c : EngineCall) (b : Bridge σ)
    (h : (Happening.engine c (b.callEngine eng c).1).IsPlain) :
    Steady b (b.callEngine eng c).2 := by
  refine ⟨⟨callEngine_settings eng c b, _, callEngine_log eng c b, ?_⟩, callEngine_phase eng c b,
    by rw [callEngine_loop]⟩
  intro x hx
  rcases List.mem_cons.mp hx with rfl | hx
  · exact h
  · obtain ⟨e, -, rfl⟩ := List.mem_map.mp hx
    trivial

theorem signal_steady (b : Bridge σ) : Steady b b.signal := .of_eq rfl rfl rfl rfl

theorem push_steady (e : EngineEvent) (b : Bridge σ) : Steady b (b.push e).2 := by
  unfold push
  split_ifs
  · exact .of_eq rfl rfl rfl rfl
  · exact ⟨⟨rfl, [.queued e], rfl, by simp [Happening.IsPlain]⟩, rfl, rfl⟩

theorem push_correlator (e : EngineEvent) (b : Bridge σ) :
    (b.push e).2.correlator = b.correlator := by
  unfold push; split_ifs <;> rfl

/-- **Calling a live engine:** it is called, and answers. -/
theorem callLive_eq_ok {eng : Engine σ} {c : EngineCall} {b b' : Bridge σ} {a : c.Answer}
    (h : b.callLive eng c = .ok (a, b')) :
    b.phase = .live ∧ (a, b') = b.callEngine eng c := by
  unfold callLive refusal? at h
  cases hp : b.phase <;> rw [hp] at h <;> cases h
  exact ⟨rfl, rfl⟩

theorem callLive_correlator {eng : Engine σ} {c : EngineCall} {b b' : Bridge σ} {a : c.Answer}
    (h : b.callLive eng c = .ok (a, b')) : b'.correlator = b.correlator := by
  obtain ⟨-, he⟩ := callLive_eq_ok h
  obtain rfl : b' = (b.callEngine eng c).2 := by rw [← he]
  exact callEngine_correlator eng c b

theorem callLive_steady {eng : Engine σ} {c : EngineCall} {b b' : Bridge σ} {a : c.Answer}
    (hc : ∀ i, c ≠ .init i) (h : b.callLive eng c = .ok (a, b')) :
    Steady b b' ∧ b.phase = .live ∧ b'.correlator = b.correlator := by
  have hk := callLive_correlator h
  obtain ⟨hp, he⟩ := callLive_eq_ok h
  obtain rfl : b' = (b.callEngine eng c).2 := by rw [← he]
  exact ⟨callEngine_steady eng c b (Happening.isPlain_engine hc _), hp, hk⟩

end Bridge

end KnxIoT
