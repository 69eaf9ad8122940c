import KnxIoT.Proofs.Threads.Ways

/-! # What one step of a thread does

What a step does to the rest of the bridge, read off the ways there are to take it.

* `Use`: how a step uses the engine, as its phase before, what comes onto the log, and its phase
  after. No step begins an engine that is not idle, and none calls one that is not live.
* `Effect`: what a call does to the rest when it moves on. It leaves the wake signal alone; if it
  queues an event it has to notify, and if the engine takes a request it has to signal.
* `Chore.Frame` and `Walk.Frame`: what a chore and the worker do to the rest.
* `run_induction`: what every step keeps, every schedule keeps. -/

namespace KnxIoT

/-- A call of the engine. -/
def Happening.IsCall : Happening → Prop
  | .engine .. => True
  | _ => False

/-- The engine took something to be sent. -/
def Happening.IsSubmission : Happening → Prop
  | .engine c a => c.accepts a = true
  | _ => False

theorem Happening.IsSubmission.isCall {x : Happening} (h : x.IsSubmission) : x.IsCall := by
  cases x with
  | engine c a => trivial
  | _ => exact h

/-- Only what was asked for is taken. -/
theorem EngineCall.asks_of_accepts {c : EngineCall} {a : c.Answer} (h : c.accepts a = true) :
    c.Asks := by
  cases c <;> trivial

/-- A call that neither begins nor ends the engine. -/
def EngineCall.IsOrdinary : EngineCall → Prop
  | .init _ | .shutdown => False
  | _ => True

theorem EngineCall.Asks.isOrdinary {c : EngineCall} (h : c.Asks) : c.IsOrdinary := by
  cases c <;> first | exact h | trivial

namespace Threads

variable {σ : Type} {eng : Engine σ}

/-! ## The engine -/

/-- **How a step uses the engine.** -/
inductive Use : EnginePhase → List Happening → EnginePhase → Prop
  | rest (p : EnginePhase) {hs : List Happening} : (∀ x ∈ hs, ¬ x.IsCall) → Use p hs p
  | call {c : EngineCall} (a : c.Answer) : c.IsOrdinary → Use .live [.engine c a] .live
  | begin (i : Identity) (a : InitAnswer) (size : ℕ) (u : Unit) : InitAnswer.failure? a = none →
      Use .idle [.engine (.init i) a, .engine (.setMaxPayload size) u] .live
  | fail (i : Identity) (a : InitAnswer) : InitAnswer.failure? a ≠ none →
      Use .idle [.engine (.init i) a] .idle
  | shutdown (u : Unit) : Use .live [.engine .shutdown u] .released
  | close {p : EnginePhase} : p ≠ .live → Use p [] .released

theorem Use.nil (p : EnginePhase) : Use p [] p := .rest p (by simp)

theorem endEngine_use (eng : Engine σ) (b : Bridge σ) :
    ∃ hs, (endEngine eng b).1.log = b.log ++ hs ∧
    Use b.phase hs (endEngine eng b).1.phase ∧ ∀ x ∈ hs, ¬ x.IsSubmission := by
  by_cases hp : b.phase = .live
  · simp only [endEngine, hp]
    refine ⟨[.engine .shutdown (eng .shutdown b.engine).answer], rfl, .shutdown _, ?_⟩
    intro x hx
    rw [List.mem_singleton.mp hx]
    exact EngineCall.asks_of_accepts
  · simp only [endEngine, if_neg hp]
    exact ⟨[], by simp, .close hp, by simp⟩

/-! ## The queued events -/

/-- **Going on with the queued events** only takes events, changes devices and closes tokens. -/
theorem serveOne_frame {b b' : Bridge σ} {s : Serving} {rest : Option Serving}
    (h : serveOne b s = (b', rest)) : ∃ events registry correlator hs,
    b' = { b with queue := { b.queue with events }, registry, correlator, log := b.log ++ hs } ∧
      (b.queue.events = [] → events = []) ∧
      (∀ t p, correlator.find? t = some p → b.correlator.find? t = some p) ∧
      ∀ x ∈ hs, ¬ x.IsCall := by
  obtain rfl : b' = (serveOne b s).1 := (congrArg Prod.fst h).symm
  clear h
  cases s with
  | drain =>
    unfold serveOne
    cases hq : b.queue.events with
    | nil => exact ⟨[], b.registry, b.correlator, [], by simp [← hq], by simp, by simp, by simp⟩
    | cons e es =>
      exact ⟨es, b.registry, b.correlator, [.taken e], rfl, by simp, by simp,
        by simp [Happening.IsCall]⟩
  | event e =>
    obtain ⟨registry, hs, hb, hx⟩ := Bridge.handle_frame (.wait none) e b
    refine ⟨b.queue.events, registry, b.correlator.settle e, hs, ?_, id,
      fun t p => Correlator.find?_of_settle, ?_⟩
    · rw [← hb]
      simp only [serveOne]
      split <;> simp_all
    · intro x hm
      obtain ⟨t, n, rfl⟩ := hx x hm
      exact id
  | announce token found serials source text =>
    obtain ⟨registry, hs, hb, hx⟩ :=
      Bridge.announce_frame token source text (.wait none) serials found b
    refine ⟨b.queue.events, registry, b.correlator, hs, hb, id, by simp, ?_⟩
    intro x hm
    obtain ⟨n, rfl⟩ := hx x hm
    exact id

/-! ## Chores -/

/-- **What a chore does to the rest:** it neither takes events nor calls the engine. -/
structure Chore.Frame (k k' : Core σ) (more : List Chore) : Prop where
  polled : k'.polled = k.polled
  quit : k'.bridge.loop.quit = k.bridge.loop.quit
  phase : k'.bridge.phase = k.bridge.phase
  correlator : k'.bridge.correlator = k.bridge.correlator
  queue : k'.bridge.queue.events = k.bridge.queue.events ∨ .latch .event ∈ more
  log : ∃ hs, k'.bridge.log = k.bridge.log ++ hs ∧ ∀ y ∈ hs, ¬ y.IsCall

theorem Chore.Way.frame {k k' : Core σ} {more : List Chore} {x : Chore}
    (h : Chore.Way k x k' more) : Chore.Frame k k' more := by
  have hnil : k.bridge.log = k.bridge.log ++ [] := (List.append_nil _).symm
  cases h with
  | send e =>
    exact ⟨rfl, rfl, rfl, rfl, .inr (by simp), [.queued e], rfl, by simp [Happening.IsCall]⟩
  | _ => exact ⟨rfl, rfl, rfl, rfl, .inl rfl, [], hnil, by simp⟩

/-! ## Calls -/

/-- A chore that a call may get for anything but a stop. -/
def Chore.IsCommon : Chore → Prop
  | .send _ | .signal | .latch .event => True
  | _ => False

theorem sends_isCommon (eng : Engine σ) (c : EngineCall) (b : Bridge σ) :
    ∀ x ∈ sends eng c b, x.IsCommon := by
  intro x hx
  obtain ⟨e, -, rfl⟩ := List.mem_map.mp hx
  trivial

/-- **What a call does to the rest** when it moves on from `pc` to `pc'`. -/
structure Effect (pc : Pc) (k k' : Core σ) (more : List Chore) (pc' : Pc) : Prop where
  wake : k'.bridge.wake = k.bridge.wake
  polled : k'.polled = k.polled
  place : k'.place = k.place ∨ pc = .start .spawn ∧ k'.place = .check
  queue : k.bridge.queue.events = [] →
    k'.bridge.queue.events = [] ∨ .latch .event ∈ more
  log : ∃ hs, k'.bridge.log = k.bridge.log ++ hs ∧ Use k.bridge.phase hs k'.bridge.phase ∧
    ∀ x ∈ hs, x.IsSubmission → .signal ∈ more
  stop : ((∀ x ∈ more, x.IsCommon) ∧ k'.bridge.loop.quit = k.bridge.loop.quit) ∨
    (more = [.drain, .latch .stop] ∧ (∃ w, pc' = .stop (.join w)) ∧ k'.bridge.loop.quit = true)

namespace Effect

variable {k k' : Core σ} {more : List Chore} {pc pc' : Pc}

theorem quiet (hw : k'.bridge.wake = k.bridge.wake) (hn : k'.polled = k.polled)
    (hl : k'.place = k.place ∨ pc = .start .spawn ∧ k'.place = .check)
    (hq : k'.bridge.queue.events = k.bridge.queue.events) (hp : k'.bridge.phase = k.bridge.phase)
    (hg : k'.bridge.log = k.bridge.log) (hs : k'.bridge.loop.quit = k.bridge.loop.quit) :
    Effect pc k k' [] pc' :=
  ⟨hw, hn, hl, fun h => .inl (hq.trans h), ⟨[], by simp [hg], hp ▸ .nil _, by simp⟩,
    .inl ⟨by simp, hs⟩⟩

theorem refl (k : Core σ) : Effect pc k k [] pc' :=
  .quiet rfl rfl (.inl rfl) rfl rfl rfl rfl

theorem turn (c : EngineCall) (hp : k.bridge.phase = .live) (hc : c.IsOrdinary)
    (hm : ∀ x ∈ more, x.IsCommon)
    (hs : c.accepts (eng c k.bridge.engine).answer = true → .signal ∈ more) :
    Effect pc k { k with bridge := Threads.turn eng c k.bridge } more pc' := by
  have hp' : (Threads.turn eng c k.bridge).phase = .live := hp
  refine ⟨rfl, rfl, .inl rfl, .inl, ⟨[.engine c (eng c k.bridge.engine).answer], rfl, ?_, ?_⟩,
    .inl ⟨hm, rfl⟩⟩
  · rw [hp, hp']
    exact .call _ hc
  · intro x hx h
    rw [List.mem_singleton.mp hx] at h
    exact hs h

theorem failed {i : Identity} {e : BridgeError} (hp : k.bridge.phase = .idle)
    (he : InitAnswer.failure? (eng (.init i) k.bridge.engine).answer = some e) :
    Effect pc k { k with bridge := Threads.turn eng (.init i) k.bridge }
      (sends eng (.init i) k.bridge) pc' := by
  have hp' : (Threads.turn eng (.init i) k.bridge).phase = .idle := hp
  refine ⟨rfl, rfl, .inl rfl, .inl,
    ⟨[.engine (.init i) (eng (.init i) k.bridge.engine).answer], rfl, ?_, ?_⟩,
    .inl ⟨sends_isCommon _ _ _, rfl⟩⟩
  · rw [hp, hp']
    exact .fail i _ (by rw [he]; exact Option.some_ne_none e)
  · intro x hx h
    rw [List.mem_singleton.mp hx] at h
    exact (EngineCall.asks_of_accepts h).elim

theorem begun {i : Identity} {size : ℕ} (hp : k.bridge.phase = .idle)
    (he : InitAnswer.failure? (eng (.init i) k.bridge.engine).answer = none)
    (hm : ∀ x ∈ more, x.IsCommon) :
    Effect pc k { k with bridge :=
      { Threads.turn eng (.setMaxPayload size) (Threads.turn eng (.init i) k.bridge) with
        phase := .live } } more pc' := by
  refine ⟨rfl, rfl, .inl rfl, .inl,
    ⟨[.engine (.init i) (eng (.init i) k.bridge.engine).answer, .engine (.setMaxPayload size) ()],
      ?_, ?_, ?_⟩, .inl ⟨hm, rfl⟩⟩
  · exact List.append_assoc _ _ _
  · rw [hp]
    exact .begin i _ size () he
  · intro x hx h
    simp only [List.mem_cons, List.not_mem_nil, or_false] at hx
    rcases hx with rfl | rfl <;> exact (EngineCall.asks_of_accepts h).elim

theorem serve {s : Serving} {b : Bridge σ} {rest : Option Serving}
    (h : serveOne k.bridge s = (b, rest)) : Effect pc k { k with bridge := b } [] pc' := by
  obtain ⟨events, registry, correlator, hs, rfl, hq, -, hx⟩ := serveOne_frame h
  exact ⟨rfl, rfl, .inl rfl, fun h => .inl (hq h),
    ⟨hs, rfl, .rest _ hx, fun x hm h => absurd h.isCall (hx x hm)⟩, .inl ⟨by simp, rfl⟩⟩

theorem ended (k : Core σ) :
    Effect pc k { k with bridge := (endEngine eng k.bridge).1 } (endEngine eng k.bridge).2 pc' := by
  obtain ⟨hs, hl, hu, hx⟩ := endEngine_use eng k.bridge
  refine ⟨?_, rfl, .inl rfl, fun h => .inl ?_,
    ⟨hs, hl, hu, fun x hm h => absurd h (hx x hm)⟩, .inl ⟨?_, ?_⟩⟩
  · unfold endEngine; split_ifs <;> rfl
  · unfold endEngine; split_ifs <;> exact h
  · unfold endEngine; split_ifs
    · exact sends_isCommon _ _ _
    · simp
  · unfold endEngine; split_ifs <;> rfl

theorem quit_mono (h : Effect pc k k' more pc') (hq : k.bridge.loop.quit = true) :
    k'.bridge.loop.quit = true := by
  rcases h.stop with ⟨-, h⟩ | ⟨-, -, h⟩
  · rw [h, hq]
  · exact h

end Effect

section Ways
variable {k k' : Core σ} {more : List Chore} {pc' : Pc}

theorem StartPc.Way.effect {n : ℕ} {p : StartPc} (h : StartPc.Way eng n k p k' more pc') :
    Effect (.start p) k k' more pc' := by
  cases h with
  | late | check | refused | pass => exact .refl k
  | failed _ hp he => exact .failed hp he
  | begin _ _ hp he =>
    refine .begun hp he fun x hx => ?_
    exact (List.mem_append.mp hx).elim (sends_isCommon _ _ _ x) (sends_isCommon _ _ _ x)
  | spawn => exact .quiet rfl rfl (.inr ⟨rfl, rfl⟩) rfl rfl rfl rfl
  | enter | refuse | run => exact .quiet rfl rfl (.inl rfl) rfl rfl rfl rfl
  | release e => exact .ended k

theorem StopPc.Way.effect {p : StopPc} (h : StopPc.Way eng k p k' more pc') :
    Effect (.stop p) k k' more pc' := by
  cases h with
  | swap onWorker =>
    exact ⟨rfl, rfl, .inl rfl, .inl, ⟨[], by simp, .nil _, by simp⟩,
      .inr ⟨rfl, ⟨onWorker, rfl⟩, rfl⟩⟩
  | late | discarded => exact .refl k
  | join | finish | abandon | clear => exact .quiet rfl rfl (.inl rfl) rfl rfl rfl rfl
  | release => exact .ended k
  | @discard e es he =>
    exact ⟨rfl, rfl, .inl rfl, by simp [he], ⟨[.discarded e], rfl,
      .rest _ (by simp [Happening.IsCall]), by simp [Happening.IsSubmission]⟩,
      .inl ⟨by simp, rfl⟩⟩

theorem RequestPc.Way.effect {p : RequestPc} (h : RequestPc.Way eng k p k' more pc') :
    Effect (.request p) k k' more pc' := by
  cases h with
  | peer | issue | giveUp => exact .quiet rfl rfl (.inl rfl) rfl rfl rfl rfl
  | sent e hp ha =>
    refine .turn e.call hp e.asks.isOrdinary (fun x hx => ?_) fun _ => by simp
    rcases List.mem_append.mp hx with hx | hx
    · exact sends_isCommon eng e.call k.bridge x hx
    · rw [List.mem_singleton.mp hx]; trivial
  | rejected e hp ha =>
    exact .turn e.call hp e.asks.isOrdinary (sends_isCommon _ _ _) fun h => by simp [ha] at h
  | _ => exact .refl k

theorem PollPc.Way.effect {p : PollPc} (h : PollPc.Way eng k p k' more pc') :
    Effect (.poll p) k k' more pc' := by
  cases h with
  | cycle hp =>
    exact .turn _ hp trivial (sends_isCommon _ _ _) fun h => (EngineCall.asks_of_accepts h).elim
  | serve next hs => exact .serve hs
  | _ => exact .refl k

theorem LimitPc.Way.effect {p : LimitPc} (h : LimitPc.Way eng k p k' more pc') :
    Effect (.limit p) k k' more pc' := by
  cases h with
  | zero | keep => exact .refl k
  | store => exact .quiet rfl rfl (.inl rfl) rfl rfl rfl rfl
  | tell size hp =>
    exact .turn _ hp trivial (sends_isCommon _ _ _) fun h => (EngineCall.asks_of_accepts h).elim

/-- **What a call does when it moves on.** -/
theorem Pc.Way.effect {n : ℕ} {pc : Pc} (h : Pc.Way eng n k pc k' more pc') :
    Effect pc k k' more pc' := by
  cases h with
  | start h => exact h.effect
  | stop h => exact h.effect
  | request h => exact h.effect
  | poll h => exact h.effect
  | limit h => exact h.effect
  | lost e => exact .refl k
  | push e =>
    exact ⟨rfl, rfl, .inl rfl, fun _ => .inr (by simp), ⟨[.queued e], rfl,
      .rest _ (by simp [Happening.IsCall]), by simp [Happening.IsSubmission]⟩,
      .inl ⟨by simp [Chore.IsCommon], rfl⟩⟩
  | edit f => exact .quiet rfl rfl (.inl rfl) rfl rfl rfl rfl

end Ways

/-! ## The worker -/

theorem Walk.isCommon {k k' : Core σ} {more : List Chore} (h : Walk eng k k' more) :
    ∀ x ∈ more, x.IsCommon := by
  cases h with
  | poll => exact sends_isCommon _ _ _
  | _ => simp

/-- **What the worker does to the rest** when it moves on. -/
structure Walk.Frame (k k' : Core σ) : Prop where
  loop : k'.bridge.loop = k.bridge.loop
  owner : k'.owner = k.owner
  queue : k.bridge.queue.events = [] → k'.bridge.queue.events = []
  tokens : ∀ t p, k'.bridge.correlator.find? t = some p → k.bridge.correlator.find? t = some p
  log : ∃ hs, k'.bridge.log = k.bridge.log ++ hs ∧ Use k.bridge.phase hs k'.bridge.phase ∧
    ∀ x ∈ hs, ¬ x.IsSubmission
  polled : k'.polled = k.polled ∨ k'.polled = k'.bridge.log.length

theorem Walk.frame {k k' : Core σ} {more : List Chore} (h : Walk eng k k' more) :
    Walk.Frame k k' := by
  have hlog : ∃ hs, k.bridge.log = k.bridge.log ++ hs ∧ Use k.bridge.phase hs k.bridge.phase ∧
      ∀ x ∈ hs, ¬ x.IsSubmission := ⟨[], by simp, .nil _, by simp⟩
  cases h with
  | poll hp hl =>
    refine ⟨rfl, rfl, id, fun _ _ => id,
      ⟨[.engine .poll (eng .poll k.bridge.engine).answer], rfl, ?_, ?_⟩, .inr rfl⟩
    · have hp' : (turn eng .poll k.bridge).phase = .live := hl
      rw [hl, hp']
      exact .call _ trivial
    · intro x hx
      rw [List.mem_singleton.mp hx]
      exact EngineCall.asks_of_accepts
  | serve hp he =>
    obtain ⟨events, registry, correlator, hs, rfl, hq, ht, hx⟩ := serveOne_frame he
    exact ⟨rfl, rfl, hq, ht, ⟨hs, rfl, .rest _ hx, fun x hm h => hx x hm h.isCall⟩, .inl rfl⟩
  | _ => exact ⟨rfl, rfl, id, fun _ _ => id, hlog, .inl rfl⟩

/-! ## Moves -/

theorem Step.quit {s s' : Sys σ} (h : Step eng s s') (hq : s.core.bridge.loop.quit = true) :
    s'.core.bridge.loop.quit = true := by
  cases h with
  | call n c => exact hq
  | chore a _ he => exact (Chore.exec_way he).frame.quit.trans hq
  | act n _ he => exact (Pc.exec_way he).effect.quit_mono hq
  | work late _ he => rw [(Core.advance_walk he).frame.loop, hq]

/-- **How a step uses the engine.** -/
theorem Step.use {s s' : Sys σ} (h : Step eng s s') : ∃ hs,
    s'.core.bridge.log = s.core.bridge.log ++ hs ∧
      Use s.core.bridge.phase hs s'.core.bridge.phase := by
  cases h with
  | call n c => exact ⟨[], by simp, .nil _⟩
  | chore a _ he =>
    have hf := (Chore.exec_way he).frame
    obtain ⟨hs, hl, hq⟩ := hf.log
    exact ⟨hs, hl, hf.phase ▸ .rest _ hq⟩
  | act n _ he =>
    obtain ⟨hs, hl, hu, -⟩ := (Pc.exec_way he).effect.log
    exact ⟨hs, hl, hu⟩
  | work late _ he =>
    obtain ⟨hs, hl, hu, -⟩ := (Core.advance_walk he).frame.log
    exact ⟨hs, hl, hu⟩

theorem Step.released {s s' : Sys σ} (h : Step eng s s') (hp : s.core.bridge.phase = .released) :
    s'.core.bridge.phase = .released := by
  obtain ⟨hs, -, hu⟩ := h.use
  rw [hp] at hu
  generalize s'.core.bridge.phase = p at hu ⊢
  cases hu <;> rfl

/-- **What every step keeps, every schedule keeps.** -/
theorem run_induction {P : Sys σ → Prop} (hstep : ∀ s s', P s → Step eng s s' → P s') :
    ∀ (ms : List Move) {s s' : Sys σ}, P s → s.run eng ms = some s' → P s'
  | [], s, s', hs, h => by
    cases h; exact hs
  | m :: ms, s, s', hs, h => by
    simp only [Sys.run] at h
    split at h
    · cases h
    · next s1 h1 => exact run_induction hstep ms (hstep s s1 hs (move_step h1)) h

end Threads

end KnxIoT
