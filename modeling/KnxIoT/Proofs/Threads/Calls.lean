import KnxIoT.Proofs.Threads.Solo

/-! # What a call does by itself

The program points of a call are its command, cut wherever a lock is let go. Put together again they
do what the command does: one theorem for each kind of call, which runs through its points in order.
-/

namespace KnxIoT.Threads

variable {σ : Type} {eng : Engine σ} {n : ℕ} {k : Core σ} {l : List Chore} {p p' : Pc}
  {piece : Bridge.Piece σ} {b : Bridge σ} {r : Reply}

theorem finishes_refuse (b : Bridge σ) (r : Request) (status : Status) (e : BridgeError) :
    Bridge.Finishes (b.refuse r status e) b (.token (.error e)) := by
  unfold Bridge.refuse
  split_ifs
  · exact .notify (.reply _ _)
  · exact .reply _ _

/-! ### Requests -/

namespace Errand

/-- The token is given up, if there is one. -/
def forget (e : Errand) (b : Bridge σ) : Bridge σ :=
  match e.token with
  | some t => b.giveUp t
  | none => b

/-- Sends it, and tells how that went. -/
def carryOut (eng : Engine σ) (e : Errand) (b : Bridge σ) : Except BridgeError Unit × Bridge σ :=
  match b.callLive eng e.call with
  | .error why => (.error why, e.forget b)
  | .ok (a, b) =>
    if e.call.accepts a then (.ok (), b.signal)
    else (.error (.submissionRejected e.word), e.forget b)

theorem drop_alone (e : Errand) (r : Except BridgeError Unit) (hk : k.Unlocked) :
    Brings eng (some n) k [] (e.drop r) (e.forget k.bridge) [] (.returned (e.reply r)) := by
  unfold drop forget
  cases e.token with
  | none => exact .refl hk
  | some t => exact .step hk rfl

/-- **A request is sent as a whole command sends it.** -/
theorem put_alone (e : Errand) (hk : k.Unlocked) :
    Brings eng (some n) k [] (.request (.put e)) (e.carryOut eng k.bridge).2 []
      (.returned (e.reply (e.carryOut eng k.bridge).1)) := by
  unfold carryOut Bridge.callLive
  cases hr : k.bridge.refusal? with
  | some why =>
    have hput : acting eng (some n) k (.request (.put e)) = some (k, [], e.drop (.error why)) := by
      simp only [acting, Pc.exec, RequestPc.exec, hr]
    refine (Brings.step hk hput).trans hk fun k₁ hb hk₁ _ => ?_
    rw [← hb]
    exact drop_alone e _ hk₁
  | none =>
    have hcall : k.bridge.callEngine eng e.call =
        ((eng e.call k.bridge.engine).answer, (k.bridge.callEngine eng e.call).2) := rfl
    rw [hcall]
    dsimp only
    by_cases ha : e.call.accepts (eng e.call k.bridge.engine).answer
    · have hput : acting eng (some n) k (.request (.put e)) =
          some ({ k with bridge := turn eng e.call k.bridge },
            sends eng e.call k.bridge ++ [.signal], .returned (e.reply (.ok ()))) := by
        simp only [acting, Pc.exec, RequestPc.exec, hr, ha, if_true]
      rw [if_pos ha]
      refine (Brings.call hk hput).trans hk fun k₁ hb hk₁ _ => ?_
      rw [← hb]
      exact .signal hk₁
    · have hput : acting eng (some n) k (.request (.put e)) =
          some ({ k with bridge := turn eng e.call k.bridge },
            sends eng e.call k.bridge ++ [], e.drop (.error (.submissionRejected e.word))) := by
        simp only [acting, Pc.exec, RequestPc.exec, hr, ha, List.append_nil]
        rfl
      rw [if_neg ha]
      refine (Brings.call hk hput).trans hk fun k₁ hb hk₁ _ => ?_
      rw [← hb]
      exact drop_alone e _ hk₁

end Errand

theorem put_does {e : Errand} (hk : k.Unlocked) (hf : Bridge.Finishes piece
    (e.carryOut eng k.bridge).2 (e.reply (e.carryOut eng k.bridge).1)) :
    Does eng n k [] (.request (.put e)) piece :=
  .of_brings (e.put_alone hk) rfl hf

theorem issue_does (w : Wish) (hk : k.Unlocked)
    (herror : ∀ e, k.bridge.correlator.issue (w.pending k.bridge.settings) = .error e →
      Bridge.Finishes piece k.bridge (.token (.error e)))
    (hok : ∀ t c, k.bridge.correlator.issue (w.pending k.bridge.settings) = .ok (t, c) →
      Bridge.Finishes piece ((w.errand t).carryOut eng { k.bridge with correlator := c }).2
        ((w.errand t).reply ((w.errand t).carryOut eng { k.bridge with correlator := c }).1)) :
    Does eng n k [] (.request (.issue w)) piece := by
  refine .exec ?_
  cases hi : k.bridge.correlator.issue (w.pending k.bridge.settings) with
  | error e =>
    simp only [Pc.exec, RequestPc.exec, hi]
    exact .returned hk (herror e hi)
  | ok issued =>
    simp only [Pc.exec, RequestPc.exec, hi]
    exact put_does ⟨hk.owner, hk.place⟩ (hok _ _ hi)

theorem submit_does (r : Request) (hk : k.Unlocked) :
    Does eng n k [] (.request (.size r)) (k.bridge.submit eng r) := by
  unfold Bridge.submit
  refine .exec ?_
  by_cases hsize : k.bridge.maxPayload < r.payload.length
  · simp only [Pc.exec, RequestPc.exec, if_pos hsize]
    exact .returned hk (.reply _ _)
  simp only [Pc.exec, RequestPc.exec, if_neg hsize]
  refine .exec ?_
  cases hd : k.bridge.registry.find? r.identifier with
  | none =>
    simp only [Pc.exec, RequestPc.exec, hd]
    exact .returned hk (finishes_refuse _ _ _ _)
  | some d =>
    simp only [Pc.exec, RequestPc.exec, hd]
    refine issue_does _ hk (fun e hi => ?_) fun t c hi => ?_
    · simp only [Wish.pending] at hi
      rw [hi]
      exact .reply _ _
    · simp only [Wish.pending] at hi
      rw [hi]
      unfold Errand.carryOut
      simp only [Wish.errand, Errand.forget, Errand.reply]
      generalize Bridge.callLive eng (.submit (Bridge.engineRequest r d t))
        { k.bridge with correlator := c } = result
      rcases result with why | ⟨_ | _, b⟩
      · exact .reply _ _
      · exact finishes_refuse _ _ _ _
      · exact .reply _ _

theorem discover_does (scope : UInt8) (query : String) (hk : k.Unlocked) :
    Does eng n k [] (.request (.issue (.discovery scope query)))
      (k.bridge.discover eng scope query) := by
  unfold Bridge.discover
  refine issue_does _ hk (fun e hi => ?_) fun t c hi => ?_
  · simp only [Wish.pending] at hi
    rw [hi]
    exact .reply _ _
  · simp only [Wish.pending] at hi
    rw [hi]
    unfold Errand.carryOut
    simp only [Wish.errand, Errand.forget, Errand.reply]
    generalize Bridge.callLive eng (.discover query scope t)
      { k.bridge with correlator := c } = result
    rcases result with why | ⟨_ | _, b⟩
    · exact .reply _ _
    · exact .reply _ _
    · exact .reply _ _

theorem handshake_does (identifier password : String) (hk : k.Unlocked) :
    Does eng n k [] (.request (.peer identifier password))
      (k.bridge.handshake eng identifier password) := by
  unfold Bridge.handshake
  refine .exec ?_
  cases hd : k.bridge.registry.find? identifier with
  | none =>
    simp only [Pc.exec, RequestPc.exec, hd]
    exact .returned hk (.reply _ _)
  | some d =>
    simp only [Pc.exec, RequestPc.exec, hd]
    refine issue_does _ ⟨hk.owner, hk.place⟩ (fun e hi => ?_) fun t c hi => ?_
    · simp only [Wish.pending] at hi
      rw [hi]
      exact .reply _ _
    · simp only [Wish.pending] at hi
      rw [hi]
      unfold Errand.carryOut
      simp only [Wish.errand, Errand.forget, Errand.reply]
      generalize Bridge.callLive eng
        (.handshake (Bridge.withSerial d).endpoint password (Utf8.encode identifier) t)
        { k.bridge with
          registry := k.bridge.registry.modify identifier Bridge.withSerial
          correlator := c } = result
      rcases result with why | ⟨_ | _, b⟩
      · exact .reply _ _
      · exact .notify (.reply _ _)
      · exact .reply _ _

theorem groupMessage_does (scope : UInt8) (m : GroupMessage) (hk : k.Unlocked) :
    Does eng n k [] (.request (.group scope m)) (k.bridge.groupMessage eng scope m) := by
  unfold Bridge.groupMessage
  refine .exec ?_
  by_cases hsize : k.bridge.maxPayload < m.encode.length
  · simp only [Pc.exec, RequestPc.exec, if_pos hsize]
    exact .returned hk (.reply _ _)
  · simp only [Pc.exec, RequestPc.exec, if_neg hsize]
    refine put_does hk ?_
    unfold Errand.carryOut
    simp only [Errand.group, Errand.forget, Errand.reply]
    generalize Bridge.callLive eng _ k.bridge = result
    rcases result with why | ⟨_ | _, b⟩
    · exact .reply _ _
    · exact .reply _ _
    · exact .reply _ _

/-! ### Other calls -/

theorem tell_does (size : ℕ) (hk : k.Unlocked) :
    Does eng n k [] (.limit (.tell size))
      (Bridge.replying .unit (match k.bridge.callLive eng (.setMaxPayload size) with
        | .ok ((), b) => (.ok (), b)
        | .error _ => (.ok (), k.bridge))) := by
  unfold Bridge.callLive
  by_cases hphase : k.bridge.phase = .live
  · have hrefusal : k.bridge.refusal? = none := by simp only [Bridge.refusal?, hphase]
    have htell : acting eng (some n) k (.limit (.tell size)) =
        some ({ k with bridge := turn eng (.setMaxPayload size) k.bridge },
          sends eng (.setMaxPayload size) k.bridge ++ [], .returned (.unit (.ok ()))) := by
      simp only [acting, Pc.exec, LimitPc.exec, if_pos hphase, List.append_nil]
    simp only [hrefusal]
    exact .of_brings (.call hk htell) rfl (.reply _ _)
  · have hrefusal : k.bridge.refusal? ≠ none := by
      unfold Bridge.refusal?
      cases hp : k.bridge.phase <;> simp_all
    obtain ⟨why, hwhy⟩ := Option.ne_none_iff_exists'.mp hrefusal
    simp only [hwhy]
    refine .exec ?_
    simp only [Pc.exec, LimitPc.exec, if_neg hphase]
    exact .returned hk (.reply _ _)

theorem setMaxPayload_does (size : ℕ) (hk : k.Unlocked) :
    Does eng n k [] (.limit (.store size))
      (Bridge.replying .unit (k.bridge.setMaxPayload eng size)) := by
  unfold Bridge.setMaxPayload
  refine .exec ?_
  by_cases hsize : size = 0
  · simp only [Pc.exec, LimitPc.exec, if_pos hsize]
    exact .returned hk (.reply _ _)
  · simp only [Pc.exec, LimitPc.exec, if_neg hsize]
    exact tell_does size ⟨hk.owner, hk.place⟩

/-- Where a poll of the host is that has the given rest to serve. -/
def polling (next : Option ℕ) : Option Serving → Pc
  | some s => .poll (.serve s next)
  | none => .returned (.deadline (.ok next))

theorem serve_alone {s : Serving} (next : Option ℕ) (h : Serves (k.bridge, some s) (b, none)) :
    Alone eng (some n) (k, [], polling next (some s))
      ({ k with bridge := b }, [], polling next none) := by
  have hstep : ∀ x y : Bridge σ × Option Serving, (∃ s, x.2 = some s ∧ serveOne x.1 s = y) →
      Solo eng (some n) ({ k with bridge := x.1 }, [], polling next x.2)
        ({ k with bridge := y.1 }, [], polling next y.2) := by
    rintro ⟨b₁, o⟩ y ⟨s, ho, rfl⟩
    cases ho
    refine .act ?_
    simp only [acting, polling, Pc.exec, PollPc.exec]
    rcases serveOne b₁ s with ⟨b₂, _ | s'⟩ <;> rfl
  exact Relation.ReflTransGen.lift (fun x : Bridge σ × Option Serving =>
    ({ k with bridge := x.1 }, [], polling next x.2)) hstep _ _ h

theorem poll_does (hk : k.Unlocked) : Does eng n k [] (.poll .state) (k.bridge.poll eng) := by
  unfold Bridge.poll
  refine .exec ?_
  by_cases hr : !k.bridge.loop.isRunning
  · simp only [Pc.exec, PollPc.exec, hk.owner, Option.isSome_none, if_pos hr]
    refine .exec ?_
    exact .returned hk (.reply _ _)
  by_cases ht : k.bridge.settings.threading = .worker
  · simp only [Pc.exec, PollPc.exec, hk.owner, Option.isSome_none, if_neg hr, if_pos ht]
    exact .returned hk (.reply _ _)
  simp only [Pc.exec, PollPc.exec, hk.owner, Option.isSome_none, if_neg hr, if_neg ht]
  unfold Bridge.pollCycle
  by_cases hphase : k.bridge.phase = .live
  · rw [if_pos hphase]
    have hcycle : acting eng (some n) k (.poll .cycle) =
      some ({ k with bridge := turn eng .poll k.bridge }, sends eng .poll k.bridge ++ [],
        .poll (.serve .drain (eng .poll k.bridge.engine).answer)) := by
      simp only [acting, Pc.exec, PollPc.exec, if_pos hphase, List.append_nil]
    obtain ⟨k₁, ha, hb, ho, -⟩ := Brings.call hk hcycle
    obtain ⟨b, hs, hf⟩ := serves k₁.bridge .drain (by simp)
    refine ⟨_, _, _, _, ?_, ha.trans (serve_alone _ hs), .refl _, ho, rfl⟩
    rw [hb] at hf
    exact hf (.reply (.deadline (.ok (eng .poll k.bridge.engine).answer)))
  · refine .exec ?_
    simp only [Pc.exec, PollPc.exec, if_neg hphase]
    exact .returned hk (.reply _ _)

theorem push_does (e : EngineEvent) (hk : k.Unlocked) :
    Does eng n k [] (.push e) (Bridge.replying .flag (k.bridge.push e)) := by
  by_cases hc : k.bridge.queue.closed
  · have hpush : k.bridge.push e = (false, k.bridge) := by simp [Bridge.push, hc]
    rw [hpush]
    refine .exec ?_
    simp only [Pc.exec, hc, if_true]
    exact .returned hk (.reply _ _)
  · have hpush : k.bridge.push e =
        (true, { enqueue e k.bridge with wake := k.bridge.wake.latch }) := by
      simp [Bridge.push, enqueue, hc]
    rw [hpush]
    have hexec : acting eng (some n) k (.push e) = some ({ k with bridge := enqueue e k.bridge },
        [.latch .event], .returned (.flag true)) := by simp [acting, Pc.exec, hc]
    have hbrings : Brings eng (some n) k [] (.push e)
        { enqueue e k.bridge with wake := k.bridge.wake.latch } [] (.returned (.flag true)) := by
      refine (Brings.step hk hexec).trans hk fun k₁ hb hk₁ _ => ?_
      exact .latch _ hk₁ (by rw [hb]; rfl)
    exact .of_brings hbrings rfl (.reply _ _)

/-! ### Ending -/

theorem pushAll_phase (es : List EngineEvent) (phase : EnginePhase) (b : Bridge σ) :
    ({ b with phase } : Bridge σ).pushAll es = { b.pushAll es with phase } := by
  simp only [Bridge.pushAll_eq, Bridge.accepted]

theorem release_alone (hk : k.Unlocked) (h : acting eng (some n) k p =
    some ({ k with bridge := (endEngine eng k.bridge).1 }, (endEngine eng k.bridge).2, p')) :
    Brings eng (some n) k [] p (k.bridge.release eng) [] p' := by
  unfold endEngine at h
  unfold Bridge.release
  by_cases hphase : k.bridge.phase = .live
  · rw [if_pos hphase] at h ⊢
    refine (Brings.step hk h).trans hk fun k₁ hb hk₁ _ => ?_
    rw [← List.append_nil (sends eng .shutdown k.bridge)]
    exact .sends _ hk₁ (by rw [hb, pushAll_phase]; rfl)
  · rw [if_neg hphase] at h ⊢
    exact .step hk h

theorem discard_alone (hk : k.Unlocked) :
    Brings eng (some n) k [] (.stop .discard) k.bridge.discardQueue [] (.stop .clear) := by
  obtain ⟨es, hes⟩ : ∃ es, es = k.bridge.queue.events := ⟨_, rfl⟩
  induction es generalizing k with
  | nil =>
    have hempty : k.bridge.discardQueue = k.bridge := by
      have hqueue : ({ k.bridge.queue with events := [] } : EventQueue) = k.bridge.queue := by
        rw [hes]
      simp only [Bridge.discardQueue, Bridge.note, ← hes, List.map_nil, List.append_nil]
      rw [hqueue]
    rw [hempty]
    exact .step hk (by simp only [acting, Pc.exec, StopPc.exec, ← hes])
  | cons e es ih =>
    have hexec : acting eng (some n) k (.stop .discard) =
        some ({ k with bridge := { k.bridge.note [.discarded e] with queue.events := es } }, [],
          .stop .discard) := by simp only [acting, Pc.exec, StopPc.exec, ← hes]
    refine (Brings.step hk hexec).trans hk fun k₁ hb hk₁ _ => ?_
    have hnext : k.bridge.discardQueue = k₁.bridge.discardQueue := by
      rw [hb]
      simp [Bridge.discardQueue, Bridge.note, ← hes]
    rw [hnext]
    exact ih hk₁ (by rw [hb])

/-- **The end of a stop.** -/
theorem finishStop_alone (hk : k.Unlocked) :
    Brings eng (some n) k [] (.stop .release) (k.bridge.finishStop eng) [] (.stop .done) := by
  have hrelease : Brings eng (some n) k [] (.stop .release) (k.bridge.release eng) []
      (.stop .abandon) := release_alone hk rfl
  refine hrelease.trans hk fun k₁ hb₁ hk₁ _ => ?_
  have habandon : Brings eng (some n) k₁ [] (.stop .abandon)
      { k₁.bridge with correlator := k₁.bridge.correlator.abandonAll } [] (.stop .discard) :=
    .step hk₁ rfl
  refine habandon.trans hk₁ fun k₂ hb₂ hk₂ _ => ?_
  refine (discard_alone hk₂).trans hk₂ fun k₃ hb₃ hk₃ _ => ?_
  refine .step hk₃ ?_
  rw [Bridge.finishStop, ← hb₁, ← hb₂, ← hb₃]
  rfl

theorem stopLoop_eq (hq : b.loop.quit = false) (hw : ∀ d, b.loop.worker ≠ .waiting d) :
    b.stopLoop = (true, { b with
      loop := ({ b.loop with quit := true } : EventLoop).drain.join.finish
      wake := b.wake.latch }) := by
  have hwake : ({ b.loop with quit := true } : EventLoop).drain.wake b.wake.latch =
      (({ b.loop with quit := true } : EventLoop).drain, b.wake.latch) := by
    unfold EventLoop.wake EventLoop.drain
    cases hworker : b.loop.worker with
    | waiting d => exact absurd hworker (hw d)
    | _ => rfl
  simp only [Bridge.stopLoop, EventLoop.stop, EventLoop.requestQuit, hq]
  rw [hwake]

/-- **The first stop,** with no worker to wait for. -/
theorem stop_alone {onWorker : Bool} (hk : k.Unlocked)
    (hover : onWorker = true ∨ k.place.isOver = true) (hq : k.bridge.loop.quit = false)
    (hw : ∀ d, k.bridge.loop.worker ≠ .waiting d) :
    Brings eng (some n) k [] (.stop (.swap onWorker)) (k.bridge.stopLoop.2.finishStop eng) []
      (.stop .done) := by
  have hswap : acting eng (some n) k (.stop (.swap onWorker)) =
      some ({ k with bridge := { k.bridge with loop := { k.bridge.loop with quit := true } } },
        [.drain, .latch .stop], .stop (.join onWorker)) := by
    simp only [acting, Pc.exec, StopPc.exec, EventLoop.requestQuit, hq]
  refine (Brings.step hk hswap).trans hk fun k₁ hb₁ hk₁ hover₁ => ?_
  have hdrain : Chore.exec k₁ .drain =
      some ({ k₁ with bridge := { k₁.bridge with loop := k₁.bridge.loop.drain } }, []) := by
    simp [Chore.exec, hk₁.owner]
  refine (Brings.chore hk₁ hdrain rfl).trans hk₁ fun k₂ hb₂ hk₂ hover₂ => ?_
  refine (Brings.latch _ hk₂ rfl).trans hk₂ fun k₃ hb₃ hk₃ hover₃ => ?_
  have hjoin : acting eng (some n) k₃ (.stop (.join onWorker)) =
      some ({ k₃ with bridge := { k₃.bridge with loop := k₃.bridge.loop.join } }, [],
        .stop .finish) := by
    have hfree : (onWorker || k₃.place.isOver) = true := by
      rw [hover₃, hover₂, hover₁]
      simpa using hover
    simp only [acting, Pc.exec, StopPc.exec, if_pos hfree]
  refine (Brings.step hk₃ hjoin).trans hk₃ fun k₄ hb₄ hk₄ _ => ?_
  have hfinish : acting eng (some n) k₄ (.stop .finish) =
      some ({ k₄ with bridge := { k₄.bridge with loop := k₄.bridge.loop.finish } }, [],
        .stop .release) := by
    simp [acting, Pc.exec, StopPc.exec, hk₄.owner]
  refine (Brings.step hk₄ hfinish).trans hk₄ fun k₅ hb₅ hk₅ _ => ?_
  have hb : k₅.bridge = k.bridge.stopLoop.2 := by
    rw [stopLoop_eq hq hw, hb₅, hb₄, hb₃, hb₂, hb₁]
  rw [← hb]
  exact finishStop_alone hk₅

theorem stop_does {onWorker : Bool} (hk : k.Unlocked)
    (hover : onWorker = true ∨ k.place.isOver = true)
    (hw : ∀ d, k.bridge.loop.worker ≠ .waiting d) :
    Does eng n k [] (.stop (.swap onWorker)) (k.bridge.stop eng, .reply (.unit (.ok ()))) := by
  cases hq : k.bridge.loop.quit with
  | true =>
    have hstop : k.bridge.stop eng = k.bridge := by
      have hloop : ({ k.bridge.loop with quit := true } : EventLoop) = k.bridge.loop := by
        rw [← hq]
      simp only [Bridge.stop, Bridge.stopLoop, EventLoop.stop, EventLoop.requestQuit, hq, hloop]
    rw [hstop]
    refine .exec ?_
    simp only [Pc.exec, StopPc.exec, EventLoop.requestQuit, hq]
    exact .returned hk (.reply _ _)
  | false =>
    have hstop : k.bridge.stop eng = k.bridge.stopLoop.2.finishStop eng := by
      unfold Bridge.stop
      rw [stopLoop_eq hq hw]
    rw [hstop]
    exact .of_brings (stop_alone hk hover hq hw) rfl (.reply _ _)

/-! ### Starting -/

namespace Alike
variable {b' : Bridge σ}

theorem callEngine (eng : Engine σ) (c : EngineCall) (h : Alike b b') :
    Alike (b.callEngine eng c).2 (b'.callEngine eng c).2 := by
  obtain ⟨log, rfl, hlog⟩ := h
  rw [Bridge.callEngine_eq, Bridge.callEngine_eq]
  exact ⟨_, rfl, hlog.append_right _⟩

theorem release (eng : Engine σ) (h : Alike b b') : Alike (b.release eng) (b'.release eng) := by
  have hcall := h.callEngine eng .shutdown
  obtain ⟨log, rfl, hlog⟩ := h
  unfold Bridge.release
  by_cases hphase : b'.phase = .live
  · rw [if_pos hphase, if_pos hphase]
    obtain ⟨log', hb, hlog'⟩ := hcall
    exact ⟨log', by rw [hb], hlog'⟩
  · rw [if_neg hphase, if_neg hphase]
    exact ⟨log, rfl, hlog⟩

theorem startLoop (eng : Engine σ) (h : Alike b b') :
    (b.startLoop eng).1 = (b'.startLoop eng).1 ∧
      Alike (b.startLoop eng).2 (b'.startLoop eng).2 := by
  have hrelease := h.release eng
  obtain ⟨log, rfl, hlog⟩ := h
  unfold Bridge.startLoop
  dsimp only
  cases b'.loop.start b'.settings.threading with
  | ok loop => exact ⟨rfl, log, rfl, hlog⟩
  | error e => exact ⟨rfl, hrelease⟩

end Alike

theorem startLoop_alone (eng : Engine σ) (n : ℕ) (hk : k.Unlocked) :
    ∃ k', Alone eng (some n) (k, [], .start .enter)
      (k', [], .returned (.unit (k.bridge.startLoop eng).1)) ∧ k'.owner = none ∧
      k'.bridge = (k.bridge.startLoop eng).2 := by
  have henter : acting eng (some n) k (.start .enter) =
      some ({ k with owner := some n }, [], .start .read) := by
    simp [acting, Pc.exec, StartPc.exec, hk.owner]
  have hback : ({ k with owner := none } : Core σ) = k := by rw [← hk.owner]
  -- A loop that does not start gives back its lock, and the engine ends again.
  have hfail : ∀ e, k.bridge.loop.start k.bridge.settings.threading = .error e →
      acting eng (some n) { k with owner := some n } (.start .read) =
        some ({ k with owner := none }, [], .start (.release e)) → ∃ k', Alone eng (some n)
          (k, [], .start .enter) (k', [], .returned (.unit (k.bridge.startLoop eng).1)) ∧
            k'.owner = none ∧ k'.bridge = (k.bridge.startLoop eng).2 := by
    intro e he hread
    rw [hback] at hread
    have hrelease : Brings eng (some n) k [] (.start (.release e)) (k.bridge.release eng) []
      (.returned (.unit (.error e))) := release_alone hk rfl
    obtain ⟨k', ha, hb, ho, -⟩ := hrelease
    have hloop : k.bridge.startLoop eng = (.error e, k.bridge.release eng) := by
      rw [Bridge.startLoop, he]
    rw [hloop]
    exact ⟨k', .head (.act henter) (.head (.act hread) ha), ho, hb⟩
  by_cases hq : k.bridge.loop.quit
  · refine hfail .shutDown ?_ ?_
    · rw [EventLoop.start, if_pos hq]
    · simp only [acting, Pc.exec, StartPc.exec, if_pos hq]
  by_cases hs : k.bridge.loop.state ≠ .stopped
  · refine hfail .alreadyRunning ?_ ?_
    · rw [EventLoop.start, if_neg hq, if_pos hs]
    · simp only [acting, Pc.exec, StartPc.exec, if_neg hq, if_pos hs]
  have hread : acting eng (some n) { k with owner := some n } (.start .read) =
      some ({ k with owner := some n }, [],
        .start (if k.bridge.settings.threading = .worker then .spawn else .run)) := by
    simp only [acting, Pc.exec, StartPc.exec, if_neg hq, if_neg hs]
  have hloop : k.bridge.startLoop eng = (.ok (), { k.bridge with loop := { k.bridge.loop with
      state := .running
      worker := if k.bridge.settings.threading = .worker then .due
        else k.bridge.loop.worker } }) := by
    rw [Bridge.startLoop, EventLoop.start, if_neg hq, if_neg hs]
  rw [hloop]
  by_cases ht : k.bridge.settings.threading = .worker
  · rw [if_pos ht] at hread ⊢
    exact ⟨_, .head (.act henter) (.head (.act hread) (.head (.act rfl) (.single (.act rfl)))),
      rfl, rfl⟩
  · rw [if_neg ht] at hread ⊢
    exact ⟨_, .head (.act henter) (.head (.act hread) (.single (.act rfl))), rfl, rfl⟩

/-- What the engine queues while it begins comes after both of its calls. -/
theorem begin_alike (eng : Engine σ) (init : EngineCall) (b : Bridge σ) :
    Alike
      ((({ turn eng (.setMaxPayload b.maxPayload) (turn eng init b) with
        phase := .live } : Bridge σ).pushAll (eng init b.engine).pushed).pushAll
          (eng (.setMaxPayload b.maxPayload) (turn eng init b).engine).pushed)
      ((b.callEngine eng init).2.goLive eng) := by
  unfold Bridge.goLive turn
  rw [Bridge.callEngine_eq, Bridge.callEngine_eq, Bridge.pushAll_eq, Bridge.pushAll_eq]
  refine ⟨_, rfl, ?_⟩
  simp only [Bridge.note, Bridge.accepted, Bridge.pushedBy, List.append_assoc, List.cons_append,
    List.nil_append]
  refine List.Perm.append_left _ (List.Perm.cons _ ?_)
  exact List.perm_middle.symm

theorem failed_does {identity : Option Identity} {i : Identity} {e : BridgeError} (hk : k.Unlocked)
    (hphase : k.bridge.phase = .idle) (hi : identity.getD k.bridge.settings.identity = i)
    (ha : (eng (.init i) k.bridge.engine).answer = InitAnswer.failed e) :
    Does eng n k [] (.start (.begin identity))
      (Bridge.replying .unit (.error e, (k.bridge.callEngine eng (.init i)).2)) := by
  have hbegin : acting eng (some n) k (.start (.begin identity)) =
      some ({ k with bridge := turn eng (.init i) k.bridge }, sends eng (.init i) k.bridge ++ [],
        .returned (.unit (.error e))) := by
    subst hi
    simp only [acting, Pc.exec, StartPc.exec, hphase, ha, InitAnswer.failure?, List.append_nil]
  exact .of_brings (.call hk hbegin) rfl (.reply _ _)

theorem ready_does {identity : Option Identity} {i : Identity} (hk : k.Unlocked)
    (hphase : k.bridge.phase = .idle) (hi : identity.getD k.bridge.settings.identity = i)
    (ha : (eng (.init i) k.bridge.engine).answer = InitAnswer.ready) :
    Does eng n k [] (.start (.begin identity)) (Bridge.replying .unit
      (((k.bridge.callEngine eng (.init i)).2.goLive eng).startLoop eng)) := by
  obtain ⟨tell, htell⟩ : ∃ c, c = EngineCall.setMaxPayload k.bridge.maxPayload := ⟨_, rfl⟩
  have hbegin : acting eng (some n) k (.start (.begin identity)) =
      some ({ k with bridge :=
          { turn eng tell (turn eng (.init i) k.bridge) with phase := .live } },
        sends eng (.init i) k.bridge ++ sends eng tell (turn eng (.init i) k.bridge),
        .start .enter) := by
    subst hi htell
    simp only [acting, Pc.exec, StartPc.exec, hphase, ha, InitAnswer.failure?]
    rfl
  have hsent : Brings eng (some n) k [] (.start (.begin identity))
      ((({ turn eng tell (turn eng (.init i) k.bridge) with
        phase := .live } : Bridge σ).pushAll (eng (.init i) k.bridge.engine).pushed).pushAll
          (eng tell (turn eng (.init i) k.bridge).engine).pushed) [] (.start .enter) := by
    refine (Brings.step hk hbegin).trans hk fun k₁ hb₁ hk₁ _ => ?_
    refine (Brings.sends _ hk₁ rfl).trans hk₁ fun k₂ hb₂ hk₂ _ => ?_
    rw [← List.append_nil (sends eng tell (turn eng (.init i) k.bridge))]
    exact .sends _ hk₂ (by rw [hb₂, hb₁])
  obtain ⟨k₁, hfirst, hb₁, ho₁, hp₁⟩ := hsent
  have hk₁ : k₁.Unlocked := by
    refine ⟨ho₁, ?_⟩
    rcases hp₁ with hp | hp
    · rw [hp, hk.place]
    · rw [hp, Place.locked_rouse, hk.place]
  obtain ⟨k₂, hthen, ho₂, hb₂⟩ := startLoop_alone eng n hk₁
  subst htell
  have halike := begin_alike eng (.init i) k.bridge
  rw [← hb₁] at halike
  obtain ⟨hr, hs⟩ := halike.startLoop eng
  rw [← hb₂] at hs
  rw [hr] at hthen
  exact ⟨_, _, k₂, _, .reply _ _, hfirst.trans hthen, hs, ho₂, rfl⟩

/-- **A start during which nobody stops the bridge.** What the engine queues while it begins is
taken down after both of its calls. -/
theorem start_does (identity : Option Identity) (hk : k.Unlocked)
    (hinit : (eng (.init (identity.getD k.bridge.settings.identity)) k.bridge.engine).answer ≠
      InitAnswer.readyButStopped) :
    Does eng n k [] (.start (.check identity))
      (Bridge.replying .unit (k.bridge.start eng identity)) := by
  unfold Bridge.start Bridge.startRefusal?
  refine .exec ?_
  by_cases hq : k.bridge.loop.quit
  · simp only [Pc.exec, StartPc.exec, if_pos hq]
    exact .returned hk (.reply _ _)
  simp only [Pc.exec, StartPc.exec, if_neg hq]
  cases hphase : k.bridge.phase with
  | live =>
    refine .exec ?_
    simp only [Pc.exec, StartPc.exec, hphase]
    exact .returned hk (.reply _ _)
  | released =>
    refine .exec ?_
    simp only [Pc.exec, StartPc.exec, hphase]
    exact .returned hk (.reply _ _)
  | idle =>
    obtain ⟨i, hi⟩ : ∃ i, identity.getD k.bridge.settings.identity = i := ⟨_, rfl⟩
    obtain ⟨a, ha⟩ : ∃ a : InitAnswer, (eng (.init i) k.bridge.engine).answer = a := ⟨_, rfl⟩
    have hcall : k.bridge.callEngine eng (.init i) =
        (a, (k.bridge.callEngine eng (.init i)).2) := by
      rw [← ha]
      rfl
    rw [hi] at hinit ⊢
    dsimp only
    rw [hcall]
    cases a with
    | failed e => exact failed_does hk hphase hi ha
    | readyButStopped => exact absurd ha hinit
    | ready => exact ready_does hk hphase hi ha

end KnxIoT.Threads
