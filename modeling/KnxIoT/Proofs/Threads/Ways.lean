import KnxIoT.Proofs.Bridge.Draining
import KnxIoT.Proofs.Threads.System

/-! # The ways to leave a program point

One relation for each kind of program point, with one case for each way to leave it: what it needs,
what it makes of the bridge, which chores it leaves, and where it goes on. The functions are opened
here and nowhere else to find out what a step can have done.

* `Chore.Way`, for chores.
* `StartPc.Way`, `StopPc.Way`, `RequestPc.Way`, `PollPc.Way`, `LimitPc.Way`, and `Pc.Way` for calls
  of any kind.
* `Walk`, for the places of the worker.
* `Step`, for the four kinds of moves of all threads together. -/

namespace KnxIoT.Threads

variable {σ : Type} {eng : Engine σ} {n : ℕ} {k k' : Core σ} {more : List Chore} {pc' : Pc}

/-! ## Chores -/

/-- **The ways to do a chore.** -/
inductive Chore.Way (k : Core σ) : Chore → Core σ → List Chore → Prop
  | lost (e : EngineEvent) : k.bridge.queue.closed = true → Way k (.send e) k []
  | send (e : EngineEvent) : k.bridge.queue.closed = false →
      Way k (.send e) { k with bridge := enqueue e k.bridge } [.latch .event]
  | late : k.bridge.loop.quit = true → Way k .signal k []
  | signal : k.bridge.loop.quit = false → Way k .signal k [.ifRunning]
  | drop : k.owner = none → k.bridge.loop.isRunning = false → Way k .ifRunning k []
  | pass : k.owner = none → k.bridge.loop.isRunning = true →
      Way k .ifRunning k [.latch .request]
  | drain : k.owner = none → Way k .drain { k with bridge.loop := k.bridge.loop.drain } []
  | latch (c : Cause) :
      Way k (.latch c) { k with bridge.wake := k.bridge.wake.latch } [.look c]
  | awake (c : Cause) : k.place.locked = false → k.bridge.wake.parked = false →
      Way k (.look c) k []
  | asleep (c : Cause) : k.place.locked = false → k.bridge.wake.parked = true →
      Way k (.look c) k [.rouse c]
  | rouse (c : Cause) : Way k (.rouse c) { k with place := k.place.rouse } []

theorem Chore.exec_way {x : Chore} (h : x.exec k = some (k', more)) : Chore.Way k x k' more := by
  cases x with
  | send e =>
    simp only [exec] at h
    split_ifs at h with hc <;> cases h
    · exact .lost e hc
    · exact .send e (by simpa using hc)
  | signal =>
    cases h
    cases hq : k.bridge.loop.quit
    · exact .signal hq
    · exact .late hq
  | ifRunning =>
    simp only [exec] at h
    split_ifs at h with ho hr <;> cases h <;> rw [Option.not_isSome_iff_eq_none] at ho
    · exact .pass ho hr
    · exact .drop ho (by simpa using hr)
  | drain =>
    simp only [exec] at h
    split_ifs at h with ho
    cases h
    exact .drain (by simpa using ho)
  | latch c => cases h; exact .latch c
  | look c =>
    simp only [exec] at h
    split_ifs at h with hl hp <;> cases h <;> rw [Bool.not_eq_true] at hl
    · exact .asleep c hl hp
    · exact .awake c hl (by simpa using hp)
  | rouse c => cases h; exact .rouse c

/-! ## Calls -/

/-- **The ways to go on with a start.** -/
inductive StartPc.Way (eng : Engine σ) (n : ℕ) (k : Core σ) :
    StartPc → Core σ → List Chore → Pc → Prop
  | late (identity : Option Identity) : k.bridge.loop.quit = true →
      Way eng n k (.check identity) k [] (.returned (.unit (.error .shutDown)))
  | check (identity : Option Identity) : k.bridge.loop.quit = false →
      Way eng n k (.check identity) k [] (.start (.begin identity))
  /-- The engine is live, or it has ended. -/
  | refused (identity : Option Identity) {e : BridgeError} :
      (k.bridge.phase = .live ∧ e = .alreadyRunning) ∨
        (k.bridge.phase = .released ∧ e = .shutDown) →
      Way eng n k (.begin identity) k [] (.returned (.unit (.error e)))
  | failed {identity : Option Identity} {i : Identity} {e : BridgeError} :
      identity.getD k.bridge.settings.identity = i → k.bridge.phase = .idle →
      InitAnswer.failure? (eng (.init i) k.bridge.engine).answer = some e →
      Way eng n k (.begin identity) { k with bridge := turn eng (.init i) k.bridge }
        (sends eng (.init i) k.bridge) (.returned (.unit (.error e)))
  | begin {identity : Option Identity} {i : Identity} {size : ℕ} :
      identity.getD k.bridge.settings.identity = i → k.bridge.maxPayload = size →
      k.bridge.phase = .idle →
      InitAnswer.failure? (eng (.init i) k.bridge.engine).answer = none →
      Way eng n k (.begin identity)
        { k with bridge :=
          { turn eng (.setMaxPayload size) (turn eng (.init i) k.bridge) with phase := .live } }
        (sends eng (.init i) k.bridge ++
          sends eng (.setMaxPayload size) (turn eng (.init i) k.bridge)) (.start .enter)
  | enter : k.owner = none → Way eng n k .enter { k with owner := some n } [] (.start .read)
  /-- The loop lets nobody through that was told to stop, or that runs. -/
  | refuse {e : BridgeError} :
      (k.bridge.loop.quit = true ∧ e = .shutDown) ∨
        (k.bridge.loop.quit = false ∧ k.bridge.loop.state ≠ .stopped ∧ e = .alreadyRunning) →
      Way eng n k .read { k with owner := none } [] (.start (.release e))
  | pass {p : StartPc} : k.bridge.loop.quit = false → k.bridge.loop.state = .stopped →
      (k.bridge.settings.threading = .worker ∧ p = .spawn) ∨
        (k.bridge.settings.threading ≠ .worker ∧ p = .run) →
      Way eng n k .read k [] (.start p)
  | spawn : Way eng n k .spawn { k with place := .check, bridge.loop.worker := .due } []
      (.start .run)
  | run : Way eng n k .run { k with owner := none, bridge.loop.state := .running } []
      (.returned (.unit (.ok ())))
  | release (e : BridgeError) :
      Way eng n k (.release e) { k with bridge := (endEngine eng k.bridge).1 }
        (endEngine eng k.bridge).2 (.returned (.unit (.error e)))

theorem StartPc.exec_way {p : StartPc} (h : p.exec eng n k = some (k', more, pc')) :
    StartPc.Way eng n k p k' more pc' := by
  cases p with
  | check identity =>
    cases h
    cases hq : k.bridge.loop.quit
    · exact .check identity hq
    · exact .late identity hq
  | begin identity =>
    simp only [exec] at h
    split at h
    · next hp => cases h; exact .refused identity (.inl ⟨hp, rfl⟩)
    · next hp => cases h; exact .refused identity (.inr ⟨hp, rfl⟩)
    · next hp =>
      split at h
      · next e he => cases h; exact .failed rfl hp he
      · next he => cases h; exact .begin rfl rfl hp he
  | enter =>
    simp only [exec] at h
    split_ifs at h with ho
    cases h
    exact .enter (by simpa using ho)
  | read =>
    simp only [exec] at h
    split_ifs at h with hq hs ht <;> cases h
    · exact .refuse (.inl ⟨hq, rfl⟩)
    · exact .refuse (.inr ⟨by simpa using hq, hs, rfl⟩)
    · exact .pass (by simpa using hq) (not_not.mp hs) (.inl ⟨ht, rfl⟩)
    · exact .pass (by simpa using hq) (not_not.mp hs) (.inr ⟨ht, rfl⟩)
  | spawn => cases h; exact .spawn
  | run => cases h; exact .run
  | release e => cases h; exact .release e

/-- **The ways to go on with a stop.** -/
inductive StopPc.Way (eng : Engine σ) (k : Core σ) : StopPc → Core σ → List Chore → Pc → Prop
  | late (onWorker : Bool) : k.bridge.loop.quit = true →
      Way eng k (.swap onWorker) k [] (.returned (.unit (.ok ())))
  | swap (onWorker : Bool) : k.bridge.loop.quit = false →
      Way eng k (.swap onWorker) { k with bridge.loop.quit := true } [.drain, .latch .stop]
        (.stop (.join onWorker))
  | join {onWorker : Bool} : (onWorker || k.place.isOver) = true →
      Way eng k (.join onWorker) { k with bridge.loop := k.bridge.loop.join } [] (.stop .finish)
  | finish : k.owner = none →
      Way eng k .finish { k with bridge.loop := k.bridge.loop.finish } [] (.stop .release)
  | release :
      Way eng k .release { k with bridge := (endEngine eng k.bridge).1 }
        (endEngine eng k.bridge).2 (.stop .abandon)
  | abandon :
      Way eng k .abandon { k with bridge.correlator := k.bridge.correlator.abandonAll } []
        (.stop .discard)
  | discard {e : EngineEvent} {es : List EngineEvent} : k.bridge.queue.events = e :: es →
      Way eng k .discard
        { k with bridge := { k.bridge.note [.discarded e] with queue.events := es } } []
        (.stop .discard)
  | discarded : k.bridge.queue.events = [] → Way eng k .discard k [] (.stop .clear)
  | clear :
      Way eng k .clear { k with bridge.registry := k.bridge.registry.clear } [] (.stop .done)

theorem StopPc.exec_way {p : StopPc} (h : p.exec eng k = some (k', more, pc')) :
    StopPc.Way eng k p k' more pc' := by
  cases p with
  | swap onWorker =>
    simp only [exec, EventLoop.requestQuit] at h
    cases hq : k.bridge.loop.quit <;> rw [hq] at h <;> cases h
    · exact .swap onWorker hq
    · exact .late onWorker hq
  | join onWorker =>
    simp only [exec] at h
    split_ifs at h with ho
    cases h
    exact .join ho
  | finish =>
    simp only [exec] at h
    split_ifs at h with ho
    cases h
    exact .finish (by simpa using ho)
  | release => cases h; exact .release
  | abandon => cases h; exact .abandon
  | discard =>
    simp only [exec] at h
    split at h <;> cases h
    · next he => exact .discarded he
    · next e es he => exact .discard he
  | clear => cases h; exact .clear
  | done => cases h

/-- **The ways to go on with a request.** Before it has a token it changes nothing, but for the
number of a handshake. -/
inductive RequestPc.Way (eng : Engine σ) (k : Core σ) :
    RequestPc → Core σ → List Chore → Pc → Prop
  | tooLarge (r : Request) : k.bridge.maxPayload < r.payload.length →
      Way eng k (.size r) k []
        (.returned (.token (.error (.payloadTooLarge r.payload.length k.bridge.maxPayload))))
  | size (r : Request) : r.payload.length ≤ k.bridge.maxPayload →
      Way eng k (.size r) k [] (.request (.find r))
  | unknown (r : Request) : k.bridge.registry.find? r.identifier = none →
      Way eng k (.find r) k [] (.returned (.token (.error (.unknownDevice r.identifier))))
  | find (r : Request) {d : Device} : k.bridge.registry.find? r.identifier = some d →
      Way eng k (.find r) k [] (.request (.issue (.request r d)))
  | nobody (identifier password : String) : k.bridge.registry.find? identifier = none →
      Way eng k (.peer identifier password) k []
        (.returned (.token (.error (.unknownDevice identifier))))
  | peer (identifier password : String) {d : Device} :
      k.bridge.registry.find? identifier = some d →
      Way eng k (.peer identifier password)
        { k with bridge.registry := k.bridge.registry.modify identifier Bridge.withSerial } []
        (.request (.issue (.handshake identifier password (Bridge.withSerial d).endpoint)))
  | groupTooLarge (scope : UInt8) (m : GroupMessage) :
      k.bridge.maxPayload < m.encode.length →
      Way eng k (.group scope m) k []
        (.returned (.unit (.error (.payloadTooLarge m.encode.length k.bridge.maxPayload))))
  | group (scope : UInt8) (m : GroupMessage) : m.encode.length ≤ k.bridge.maxPayload →
      Way eng k (.group scope m) k [] (.request (.put (.group scope m)))
  | full (w : Wish) {e : BridgeError} :
      k.bridge.correlator.issue (w.pending k.bridge.settings) = .error e →
      Way eng k (.issue w) k [] (.returned (.token (.error e)))
  | issue (w : Wish) {t : Token} {c : Correlator} :
      k.bridge.correlator.issue (w.pending k.bridge.settings) = .ok (t, c) →
      Way eng k (.issue w) { k with bridge.correlator := c } [] (.request (.put (w.errand t)))
  | refused (e : Errand) {why : BridgeError} : k.bridge.refusal? = some why →
      Way eng k (.put e) k [] (e.drop (.error why))
  | sent (e : Errand) : k.bridge.phase = .live →
      e.call.accepts (eng e.call k.bridge.engine).answer = true →
      Way eng k (.put e) { k with bridge := turn eng e.call k.bridge }
        (sends eng e.call k.bridge ++ [.signal]) (.returned (e.reply (.ok ())))
  | rejected (e : Errand) : k.bridge.phase = .live →
      e.call.accepts (eng e.call k.bridge.engine).answer = false →
      Way eng k (.put e) { k with bridge := turn eng e.call k.bridge }
        (sends eng e.call k.bridge) (e.drop (.error (.submissionRejected e.word)))
  | giveUp (t : Token) (r : Reply) :
      Way eng k (.giveUp t r)
        { k with bridge.correlator := k.bridge.correlator.discard t } [] (.returned r)

theorem Errand.drop_cases (e : Errand) (r : Except BridgeError Unit) :
    (∃ t, e.token = some t ∧ e.drop r = .request (.giveUp t (e.reply r))) ∨
      (e.token = none ∧ e.drop r = .returned (e.reply r)) := by
  unfold drop
  cases e.token with
  | none => exact .inr ⟨rfl, rfl⟩
  | some t => exact .inl ⟨t, rfl, rfl⟩

theorem live_of_refusal?_eq_none {b : Bridge σ} (h : b.refusal? = none) : b.phase = .live := by
  unfold Bridge.refusal? at h
  split at h <;> first | assumption | cases h

theorem RequestPc.exec_way {p : RequestPc} (h : p.exec eng k = some (k', more, pc')) :
    RequestPc.Way eng k p k' more pc' := by
  cases p with
  | size r =>
    cases h
    split_ifs with hs
    · exact .tooLarge r hs
    · exact .size r (Nat.not_lt.mp hs)
  | find r =>
    simp only [exec] at h
    split at h <;> cases h
    · next hf => exact .unknown r hf
    · next d hf => exact .find r hf
  | peer identifier password =>
    simp only [exec] at h
    split at h <;> cases h
    · next hf => exact .nobody identifier password hf
    · next d hf => exact .peer identifier password hf
  | group scope m =>
    cases h
    split_ifs with hs
    · exact .groupTooLarge scope m hs
    · exact .group scope m (Nat.not_lt.mp hs)
  | issue w =>
    simp only [exec] at h
    split at h <;> cases h
    · next e hi => exact .full w hi
    · next t c hi => exact .issue w hi
  | put e =>
    simp only [exec] at h
    split at h
    · next why hr => cases h; exact .refused e hr
    · next hr =>
      split_ifs at h with ha <;> cases h
      · exact .sent e (live_of_refusal?_eq_none hr) ha
      · exact .rejected e (live_of_refusal?_eq_none hr) (by simpa using ha)
  | giveUp t r => cases h; exact .giveUp t r

/-! ### The queued events -/

/-- There is nothing left to be done only when the queue was found empty. -/
theorem serveOne_eq_none {b b' : Bridge σ} {s : Serving} (h : serveOne b s = (b', none)) :
    b' = b ∧ b.queue.events = [] := by
  cases s with
  | drain =>
    unfold serveOne at h
    cases hq : b.queue.events with
    | nil => rw [hq] at h; cases h; exact ⟨rfl, rfl⟩
    | cons e es => rw [hq] at h; cases h
  | event e =>
    simp only [serveOne] at h
    split at h <;> cases h
  | announce token found serials source text => cases h

/-- **The ways to go on with a poll cycle of the host.** -/
inductive PollPc.Way (eng : Engine σ) (k : Core σ) : PollPc → Core σ → List Chore → Pc → Prop
  | notRunning : k.owner = none → k.bridge.loop.isRunning = false →
      Way eng k .state k [] (.poll .quit)
  | workerDriven : k.owner = none → k.bridge.loop.isRunning = true →
      k.bridge.settings.threading = .worker →
      Way eng k .state k [] (.returned (.deadline (.error .workerDriven)))
  | state : k.owner = none → k.bridge.loop.isRunning = true →
      k.bridge.settings.threading ≠ .worker → Way eng k .state k [] (.poll .cycle)
  | quit : Way eng k .quit k []
      (.returned (.deadline (.error (if k.bridge.loop.quit then .shutDown else .notRunning))))
  | skip : k.bridge.phase ≠ .live → Way eng k .cycle k [] (.returned (.deadline (.ok none)))
  | cycle : k.bridge.phase = .live →
      Way eng k .cycle { k with bridge := turn eng .poll k.bridge } (sends eng .poll k.bridge)
        (.poll (.serve .drain (eng .poll k.bridge.engine).answer))
  | serve {s s' : Serving} (next : Option ℕ) {b : Bridge σ} : serveOne k.bridge s = (b, some s') →
      Way eng k (.serve s next) { k with bridge := b } [] (.poll (.serve s' next))
  | served (s : Serving) (next : Option ℕ) : k.bridge.queue.events = [] →
      Way eng k (.serve s next) k [] (.returned (.deadline (.ok next)))

theorem PollPc.exec_way {p : PollPc} (h : p.exec eng k = some (k', more, pc')) :
    PollPc.Way eng k p k' more pc' := by
  cases p with
  | state =>
    simp only [exec] at h
    split_ifs at h with ho hr ht <;> cases h <;> rw [Option.not_isSome_iff_eq_none] at ho
    · exact .notRunning ho (by simpa using hr)
    · exact .workerDriven ho (by simpa using hr) ht
    · exact .state ho (by simpa using hr) ht
  | quit => cases h; exact .quit
  | cycle =>
    simp only [exec] at h
    split_ifs at h with hp <;> cases h
    · exact .cycle hp
    · exact .skip hp
  | serve s next =>
    simp only [exec] at h
    split at h
    · next b s' hs => cases h; exact .serve next hs
    · next b hs =>
      cases h
      obtain ⟨rfl, hq⟩ := serveOne_eq_none hs
      exact .served s next hq

/-- **The ways to go on with a change of the limit.** -/
inductive LimitPc.Way (eng : Engine σ) (k : Core σ) : LimitPc → Core σ → List Chore → Pc → Prop
  | zero : Way eng k (.store 0) k [] (.returned (.unit (.error (.settings Settings.zeroPayload))))
  | store {size : ℕ} : size ≠ 0 →
      Way eng k (.store size) { k with bridge.maxPayload := size } [] (.limit (.tell size))
  | tell (size : ℕ) : k.bridge.phase = .live →
      Way eng k (.tell size) { k with bridge := turn eng (.setMaxPayload size) k.bridge }
        (sends eng (.setMaxPayload size) k.bridge) (.returned (.unit (.ok ())))
  | keep (size : ℕ) : k.bridge.phase ≠ .live →
      Way eng k (.tell size) k [] (.returned (.unit (.ok ())))

theorem LimitPc.exec_way {p : LimitPc} (h : p.exec eng k = some (k', more, pc')) :
    LimitPc.Way eng k p k' more pc' := by
  cases p with
  | store size =>
    simp only [exec] at h
    split_ifs at h with hz <;> cases h
    · subst hz; exact .zero
    · exact .store hz
  | tell size =>
    simp only [exec] at h
    split_ifs at h with hp <;> cases h
    · exact .tell size hp
    · exact .keep size hp

/-- **The ways to go on with a call.** -/
inductive Pc.Way (eng : Engine σ) (n : ℕ) (k : Core σ) : Pc → Core σ → List Chore → Pc → Prop
  | start {p : StartPc} {k' : Core σ} {more : List Chore} {pc' : Pc} :
      StartPc.Way eng n k p k' more pc' → Way eng n k (.start p) k' more pc'
  | stop {p : StopPc} {k' : Core σ} {more : List Chore} {pc' : Pc} :
      StopPc.Way eng k p k' more pc' → Way eng n k (.stop p) k' more pc'
  | request {p : RequestPc} {k' : Core σ} {more : List Chore} {pc' : Pc} :
      RequestPc.Way eng k p k' more pc' → Way eng n k (.request p) k' more pc'
  | poll {p : PollPc} {k' : Core σ} {more : List Chore} {pc' : Pc} :
      PollPc.Way eng k p k' more pc' → Way eng n k (.poll p) k' more pc'
  | limit {p : LimitPc} {k' : Core σ} {more : List Chore} {pc' : Pc} :
      LimitPc.Way eng k p k' more pc' → Way eng n k (.limit p) k' more pc'
  | lost (e : EngineEvent) : k.bridge.queue.closed = true →
      Way eng n k (.push e) k [] (.returned (.flag false))
  | push (e : EngineEvent) : k.bridge.queue.closed = false →
      Way eng n k (.push e) { k with bridge := enqueue e k.bridge } [.latch .event]
        (.returned (.flag true))
  | edit (f : Registry → Registry) :
      Way eng n k (.edit f) { k with bridge.registry := f k.bridge.registry } []
        (.returned (.unit (.ok ())))

theorem Pc.exec_way {pc : Pc} (h : pc.exec eng n k = some (k', more, pc')) :
    Pc.Way eng n k pc k' more pc' := by
  cases pc with
  | idle | returned r => cases h
  | start p => exact .start (StartPc.exec_way h)
  | stop p => exact .stop (StopPc.exec_way h)
  | request p => exact .request (RequestPc.exec_way h)
  | poll p => exact .poll (PollPc.exec_way h)
  | limit p => exact .limit (LimitPc.exec_way h)
  | push e =>
    simp only [exec] at h
    split_ifs at h with hc <;> cases h
    · exact .lost e hc
    · exact .push e (by simpa using hc)
  | edit f => cases h; exact .edit f

/-! ## The worker -/

/-- **What the worker does when it moves on,** one case for each way to leave a place. -/
inductive Walk (eng : Engine σ) (k : Core σ) : Core σ → List Chore → Prop
  | stop : k.place = .check ∨ (∃ next, k.place = .recheck next) → k.bridge.loop.quit = true →
      Walk eng k { k with place := .ended } []
  | goOn : k.place = .check → k.bridge.loop.quit = false → Walk eng k { k with place := .cycle } []
  | poll : k.place = .cycle → k.bridge.phase = .live →
      Walk eng k
        { k with
          bridge := turn eng .poll k.bridge
          place := .serving .drain (eng .poll k.bridge.engine).answer
          polled := (turn eng .poll k.bridge).log.length } (sends eng .poll k.bridge)
  | skip : k.place = .cycle → k.bridge.phase ≠ .live →
      Walk eng k { k with place := .recheck none } []
  | serve {s s' : Serving} {next : Option ℕ} {b : Bridge σ} : k.place = .serving s next →
      serveOne k.bridge s = (b, some s') →
      Walk eng k { k with bridge := b, place := .serving s' next } []
  | served {s : Serving} {next : Option ℕ} : k.place = .serving s next →
      k.bridge.queue.events = [] → Walk eng k { k with place := .recheck next } []
  | wait {next : Option ℕ} : k.place = .recheck next → k.bridge.loop.quit = false →
      Walk eng k { k with place := .swap next } []
  | take {next : Option ℕ} {p : Place} :
      (k.place = .swap next ∧ p = .check) ∨ (k.place = .scan next ∧ p = .leave) →
      k.bridge.wake.latched = true →
      Walk eng k { k with bridge.wake.latched := false, place := p } []
  | miss {next : Option ℕ} {p : Place} :
      (k.place = .swap next ∧ p = .enter next) ∨ (k.place = .scan next ∧ p = .decide next) →
      k.bridge.wake.latched = false → Walk eng k { k with place := p } []
  | enter {next : Option ℕ} : k.place = .enter next →
      Walk eng k { k with bridge.wake.parked := true, place := .scan next } []
  | expire {next : Option ℕ} : k.place = .decide next → Walk eng k { k with place := .leave } []
  | park {next : Option ℕ} : k.place = .decide next →
      Walk eng k { k with place := .parked next } []
  | rouse {next : Option ℕ} : k.place = .parked next →
      Walk eng k { k with place := .roused next } []
  | relock {next : Option ℕ} : k.place = .roused next →
      Walk eng k { k with place := .scan next } []
  | leave : k.place = .leave →
      Walk eng k { k with bridge.wake.parked := false, place := .check } []

theorem Core.advance_walk {late : Bool} (h : k.advance eng late = some (k', more)) :
    Walk eng k k' more := by
  unfold advance at h
  split at h
  · cases h
  · cases h
  · next hp =>
    cases h
    cases hq : k.bridge.loop.quit
    · exact .goOn hp hq
    · exact .stop (.inl hp) hq
  · next hp =>
    split_ifs at h with hl <;> cases h
    · exact .poll hp hl
    · exact .skip hp hl
  · next s next hp =>
    split at h
    · next b s' hs => cases h; exact .serve hp hs
    · next b hs =>
      cases h
      obtain ⟨rfl, hq⟩ := serveOne_eq_none hs
      exact .served hp hq
  · next n hp =>
    cases h
    cases hq : k.bridge.loop.quit
    · exact .wait hp hq
    · exact .stop (.inr ⟨_, hp⟩) hq
  · next n hp =>
    cases hw : k.bridge.wake.latched
    · rw [k.bridge.wake.consume_of_not_latched hw] at h
      cases h; exact .miss (.inl ⟨hp, rfl⟩) hw
    · rw [k.bridge.wake.consume_of_latched hw] at h
      cases h; exact .take (.inl ⟨hp, rfl⟩) hw
  · next n hp => cases h; exact .enter hp
  · next n hp =>
    cases hw : k.bridge.wake.latched
    · rw [k.bridge.wake.consume_of_not_latched hw] at h
      cases h; exact .miss (.inr ⟨hp, rfl⟩) hw
    · rw [k.bridge.wake.consume_of_latched hw] at h
      cases h; exact .take (.inr ⟨hp, rfl⟩) hw
  · next n hp =>
    cases h
    split_ifs
    · exact .expire hp
    · exact .park hp
  · next n hp => cases h; exact .rouse hp
  · next n hp => cases h; exact .relock hp
  · next hp => cases h; exact .leave hp

/-! ## Moves -/

/-- **The four kinds of moves.** -/
inductive Step (eng : Engine σ) (s : Sys σ) : Sys σ → Prop
  | call (n : ℕ) (c : Call) : s.pcs n = .idle → s.chores (some n) = [] →
      Step eng s
        { s with
          chores := Function.update s.chores (some n) c.entry.1
          pcs := Function.update s.pcs n c.entry.2 }
  | chore (a : Option ℕ) {x : Chore} {xs more : List Chore} {k : Core σ} :
      s.chores a = x :: xs → x.exec s.core = some (k, more) →
      Step eng s { s with core := k, chores := Function.update s.chores a (more ++ xs) }
  | act (n : ℕ) {more : List Chore} {k : Core σ} {pc : Pc} : s.chores (some n) = [] →
      (s.pcs n).exec eng n s.core = some (k, more, pc) →
      Step eng s
        { core := k
          chores := Function.update s.chores (some n) more
          pcs := Function.update s.pcs n pc }
  | work (late : Bool) {more : List Chore} {k : Core σ} : s.chores none = [] →
      s.core.advance eng late = some (k, more) →
      Step eng s { s with core := k, chores := Function.update s.chores none more }

theorem move_step {s s' : Sys σ} {m : Move} (h : s.move eng m = some s') : Step eng s s' := by
  cases m with
  | call n c =>
    simp only [Sys.move] at h
    split at h <;> cases h
    next hp hn => exact .call n c hp hn
  | chore a =>
    simp only [Sys.move] at h
    split at h
    · cases h
    · next x xs hx =>
      split at h <;> cases h
      next he => exact .chore a hx he
  | act n =>
    simp only [Sys.move] at h
    split at h
    · cases h
    · next hn =>
      split at h <;> cases h
      next he => exact .act n hn he
  | work late =>
    simp only [Sys.move] at h
    split at h
    · cases h
    · next hn =>
      split at h <;> cases h
      next he => exact .work late hn he

end KnxIoT.Threads
