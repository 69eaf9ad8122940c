import KnxIoT.Proofs.Threads.Calls

/-! # A thread that nobody disturbs

`call_alone`: there is a schedule in which a call runs from its beginning to its reply and no other
thread takes a step, and it leaves the bridge as the command does (`Bridge.perform`), with the same
reply. `cycle_alone`: so there is for a cycle of the worker, which then waits, goes on or has ended
as `EventLoop.afterCycle` says. -/

namespace KnxIoT.Threads

variable {σ : Type} {k : Core σ} {b : Bridge σ}

/-! ### The worker -/

/-- Where the worker is, as the loop says it. -/
def Place.worker : Place → Worker
  | .absent => .absent
  | .parked next => .waiting next.isSome
  | .ended => .gone
  | _ => .due

/-- The bridge as it is without threads: a worker that waits is in its loop, not asleep. -/
def Core.still (k : Core σ) : Bridge σ :=
  { k.bridge with
    loop := { k.bridge.loop with worker := k.place.worker }
    wake := k.bridge.wake.park false }

/-- Whether the worker has nothing to do by itself, or begins its loop anew. -/
def Place.AtRest : Place → Prop
  | .check | .parked _ | .ended => True
  | _ => False

theorem ended_still (next : Option ℕ) (hq : k.bridge.loop.quit = true)
    (hparked : k.bridge.wake.parked = false) :
    ({ k with place := .ended } : Core σ).still = (k.bridge.endCycle (.wait next)).1 := by
  have hwake : k.bridge.wake.park false = k.bridge.wake := by
    rw [WakeSignal.park, ← hparked]
  simp only [Core.still, Place.worker, Bridge.endCycle, EventLoop.afterCycle, hq, if_true, hwake]

/-- **After a cycle the worker waits, goes on or ends,** as the loop says. -/
theorem wait_alone (eng : Engine σ) (next : Option ℕ) (p : Pc) (hplace : k.place = .recheck next)
    (hparked : k.bridge.wake.parked = false) :
    ∃ k', Alone eng none (k, [], p) (k', [], p) ∧ k'.place.AtRest ∧
      k'.still = (k.bridge.endCycle (.wait next)).1 := by
  by_cases hq : k.bridge.loop.quit
  · refine ⟨{ k with place := .ended }, .single (.act ?_), trivial, ended_still next hq hparked⟩
    simp only [acting, Core.advance, hplace, if_pos hq]
    rfl
  have hrecheck : acting eng none k p = some ({ k with place := .swap next }, [], p) := by
    simp only [acting, Core.advance, hplace, if_neg hq]
    rfl
  cases hl : k.bridge.wake.latched with
  | true =>
    have hswap : acting eng none { k with place := .swap next } p =
        some ({ k with
          bridge.wake := { k.bridge.wake with latched := false }, place := .check }, [], p) := by
      simp only [acting, Core.advance, WakeSignal.consume_of_latched _ hl]
      rfl
    refine ⟨_, .head (.act hrecheck) (.single (.act hswap)), trivial, ?_⟩
    simp [Core.still, Place.worker, Bridge.endCycle, EventLoop.afterCycle, EventLoop.wake,
      WakeSignal.consume_of_latched _ hl, WakeSignal.park, hq, hparked]
  | false =>
    -- Nothing is latched, neither before the worker goes to sleep nor after it.
    have hasleep : ({ k.bridge.wake with parked := true } : WakeSignal).latched = false := hl
    have hswap : acting eng none { k with place := .swap next } p =
        some ({ k with place := .enter next }, [], p) := by
      simp only [acting, Core.advance, WakeSignal.consume_of_not_latched _ hl]
      rfl
    have hscan : acting eng none
        { k with bridge.wake := { k.bridge.wake with parked := true }, place := .scan next } p =
          some ({ k with
            bridge.wake := { k.bridge.wake with parked := true }, place := .decide next }, [],
              p) := by
      simp only [acting, Core.advance, WakeSignal.consume_of_not_latched _ hasleep]
      rfl
    refine ⟨{ k with bridge.wake := { k.bridge.wake with parked := true }, place := .parked next },
      .head (.act hrecheck) (.head (.act hswap) (.head (.act rfl) (.head (.act hscan)
        (.single (.act rfl))))), trivial, ?_⟩
    have hwake : ({ k.bridge.wake with parked := true } : WakeSignal).park false =
        k.bridge.wake := by
      rw [WakeSignal.park, ← hparked]
    simp only [Core.still, Place.worker, Bridge.endCycle, EventLoop.afterCycle, EventLoop.wake,
      WakeSignal.consume_of_not_latched _ hl, if_neg hq, hwake]

/-- Where the worker is that has the given rest to serve. -/
def working (next : Option ℕ) : Option Serving → Place
  | some s => .serving s next
  | none => .recheck next

theorem workerServe_alone (eng : Engine σ) {s : Serving} (next : Option ℕ) (p : Pc)
    (h : Serves (k.bridge, some s) (b, none)) :
    Alone eng none ({ k with place := working next (some s) }, [], p)
      ({ k with bridge := b, place := working next none }, [], p) := by
  have hstep : ∀ x y : Bridge σ × Option Serving, (∃ s, x.2 = some s ∧ serveOne x.1 s = y) →
      Solo eng none ({ k with bridge := x.1, place := working next x.2 }, [], p)
        ({ k with bridge := y.1, place := working next y.2 }, [], p) := by
    rintro ⟨b₁, o⟩ y ⟨s, ho, rfl⟩
    cases ho
    refine .act ?_
    simp only [acting, working, Core.advance]
    rcases serveOne b₁ s with ⟨b₂, _ | s'⟩ <;> rfl
  exact Relation.ReflTransGen.lift (fun x : Bridge σ × Option Serving =>
    ({ k with bridge := x.1, place := working next x.2 }, [], p)) hstep _ _ h

theorem serves_wake {x y : Bridge σ × Option Serving} (h : Serves x y) : y.1.wake = x.1.wake := by
  induction h with
  | refl => rfl
  | tail _ hstep ih =>
    obtain ⟨s, -, hs⟩ := hstep
    obtain ⟨_, _, _, _, hb, -⟩ := serveOne_frame hs
    rw [hb, ← ih]

/-- **A cycle of the worker that nobody disturbs.** It leaves the bridge, and the worker in it, as
the command for a cycle does. -/
theorem worker_alone (eng : Engine σ) (p : Pc) (howner : k.owner = none) (hplace : k.place = .check)
    (hparked : k.bridge.wake.parked = false) :
    ∃ r k', Bridge.Finishes (k.bridge.workerCycle eng) k'.still r ∧
      Alone eng none (k, [], p) (k', [], p) ∧ k'.place.AtRest := by
  unfold Bridge.workerCycle
  by_cases hq : k.bridge.loop.quit
  · rw [if_pos hq]
    have hend := finishes_endCycle (.wait none) k.bridge
    rw [← ended_still none hq hparked] at hend
    refine ⟨_, _, hend, .single (.act ?_), trivial⟩
    simp only [acting, Core.advance, hplace, if_pos hq]
    rfl
  rw [if_neg hq]
  unfold Bridge.pollCycle
  have hcheck : acting eng none k p = some ({ k with place := .cycle }, [], p) := by
    simp only [acting, Core.advance, hplace, if_neg hq]
    rfl
  by_cases hphase : k.bridge.phase = .live
  · rw [if_pos hphase]
    obtain ⟨next, hnext⟩ : ∃ o : Option ℕ, (eng .poll k.bridge.engine).answer = o := ⟨_, rfl⟩
    obtain ⟨k₁, hk₁⟩ : ∃ k₁ : Core σ, k₁ = { k with
      bridge := turn eng .poll k.bridge
      place := .serving .drain next
      polled := (turn eng .poll k.bridge).log.length } := ⟨_, rfl⟩
    have hcycle : acting eng none { k with place := .cycle } p =
        some (k₁, sends eng .poll k.bridge ++ [], p) := by
      rw [hk₁, ← hnext]
      simp only [acting, Core.advance, if_pos hphase, List.append_nil]
      rfl
    have hfree : k₁.Unlocked := by
      rw [hk₁]
      exact ⟨howner, rfl⟩
    obtain ⟨k₂, hsends, hb₂, ho₂, hp₂⟩ : Brings eng none k₁ (sends eng .poll k.bridge ++ []) p
      (k.bridge.callEngine eng .poll).2 [] p := .sends _ hfree (by rw [hk₁]; rfl)
    have hplace₂ : k₂.place = .serving .drain next := by
      rw [hk₁] at hp₂
      exact hp₂.elim id id
    obtain ⟨b, hserves, hfinishes⟩ := serves k₂.bridge .drain (by simp)
    have hserve : Alone eng none (k₂, [], p)
        ({ k₂ with bridge := b, place := .recheck next }, [], p) := by
      have h := workerServe_alone eng next p hserves
      rwa [working, ← hplace₂] at h
    have hparked' : ({ k₂ with bridge := b, place := .recheck next } :
        Core σ).bridge.wake.parked = false := by
      rw [serves_wake hserves, hb₂, Bridge.callEngine_eq]
      exact hparked
    obtain ⟨k', ha, hrest, hstill⟩ := wait_alone eng next p rfl hparked'
    have hend := hfinishes (.wait next)
    rw [← hstill, hb₂, ← hnext] at hend
    exact ⟨_, k', hend, .head (.act hcheck) (.head (.act hcycle) (hsends.trans (hserve.trans ha))),
      hrest⟩
  · rw [if_neg hphase]
    have hcycle : acting eng none { k with place := .cycle } p =
        some ({ k with place := .recheck none }, [], p) := by
      simp only [acting, Core.advance, if_neg hphase]
      rfl
    have hk₁ : ({ k with place := .recheck none } : Core σ).bridge.wake.parked = false := hparked
    obtain ⟨k', ha, hrest, hstill⟩ := wait_alone eng none p rfl hk₁
    have hend := finishes_endCycle (.wait none) k.bridge
    rw [← hstill] at hend
    exact ⟨_, k', hend, .head (.act hcheck) (.head (.act hcycle) ha), hrest⟩

/-! ### As schedules -/

/-- A move of one thread. -/
def Move.IsOf (a : Option ℕ) : Move → Prop
  | .call .. => False
  | .chore a' => a' = a
  | .act n => some n = a
  | .work late => none = a ∧ late = false

/-- All other threads are where they were. -/
structure Sys.SameBut (a : Option ℕ) (s s' : Sys σ) : Prop where
  chores : ∀ a' ≠ a, s'.chores a' = s.chores a'
  pcs : ∀ n, some n ≠ a → s'.pcs n = s.pcs n

theorem Sys.SameBut.refl (a : Option ℕ) (s : Sys σ) : s.SameBut a s :=
  ⟨fun _ _ => rfl, fun _ _ => rfl⟩

theorem Sys.SameBut.trans {a : Option ℕ} {s s' s'' : Sys σ} (h : s.SameBut a s')
    (h' : s'.SameBut a s'') : s.SameBut a s'' :=
  ⟨fun a' ha => (h'.chores a' ha).trans (h.chores a' ha),
    fun n hn => (h'.pcs n hn).trans (h.pcs n hn)⟩

variable {eng : Engine σ} {a : Option ℕ}

/-- A system in which thread `a` is as given. -/
def Sys.At (s : Sys σ) (a : Option ℕ) (x : Core σ × List Chore × Pc) : Prop :=
  s.core = x.1 ∧ s.chores a = x.2.1 ∧ ∀ n, a = some n → s.pcs n = x.2.2

theorem Solo.move {x y : Core σ × List Chore × Pc} (h : Solo eng a x y) {s : Sys σ}
    (hs : s.At a x) : ∃ m s', m.IsOf a ∧ s.move eng m = some s' ∧ s'.At a y ∧ s.SameBut a s' := by
  obtain ⟨hcore, hchores, hpc⟩ := hs
  cases h with
  | @chore x k k' more l p h =>
    refine ⟨.chore a, { s with core := k', chores := Function.update s.chores a (more ++ l) },
      rfl, ?_, ⟨rfl, Function.update_self .., hpc⟩,
      ⟨fun a' ha => Function.update_of_ne ha .., fun _ _ => rfl⟩⟩
    simp only [Sys.move, hchores, hcore, h]
  | @act k k' more p p' h =>
    cases a with
    | none =>
      simp only [acting, Option.map_eq_some_iff] at h
      obtain ⟨⟨k₁, more₁⟩, hadvance, heq⟩ := h
      cases heq
      refine ⟨.work false, { s with core := k₁, chores := Function.update s.chores none more₁ },
        ⟨rfl, rfl⟩, ?_, ⟨rfl, Function.update_self none more₁ s.chores, by simp⟩,
        ⟨fun a' ha => Function.update_of_ne ha .., fun _ _ => rfl⟩⟩
      simp only [Sys.move, hchores, hcore, hadvance]
    | some n =>
      refine ⟨.act n, ⟨k', Function.update s.chores (some n) more, Function.update s.pcs n p'⟩,
        rfl, ?_, ⟨rfl, Function.update_self .., ?_⟩,
        ⟨fun a' ha => Function.update_of_ne ha .., fun m hm => Function.update_of_ne ?_ ..⟩⟩
      · have hp : s.pcs n = p := hpc n rfl
        simp only [acting] at h
        simp only [Sys.move, hchores, hcore, hp, h]
      · rintro m ⟨⟩
        exact Function.update_self ..
      · rintro rfl
        exact hm rfl

/-- **Steps of one thread are a schedule.** -/
theorem Alone.run {x y : Core σ × List Chore × Pc} (h : Alone eng a x y) {s : Sys σ}
    (hs : s.At a x) :
    ∃ ms s', (∀ m ∈ ms, m.IsOf a) ∧ s.run eng ms = some s' ∧ s'.At a y ∧ s.SameBut a s' := by
  induction h using Relation.ReflTransGen.head_induction_on generalizing s with
  | refl => exact ⟨[], s, by simp, rfl, hs, .refl a s⟩
  | head hstep _ ih =>
    obtain ⟨m, s₁, hm, hmove, hs₁, hsame⟩ := hstep.move hs
    obtain ⟨ms, s₂, hms, hrun, hs₂, hsame'⟩ := ih hs₁
    refine ⟨m :: ms, s₂, ?_, ?_, hs₂, hsame.trans hsame'⟩
    · rintro m' (_ | ⟨_, hm'⟩)
      · exact hm
      · exact hms m' hm'
    · simp only [Sys.run, hmove, hrun]

/-- The command that a call carries out. Devices are entered and changed by several commands. -/
def Call.command : Call → Option (Bridge.Command σ)
  | .start identity => some (.start identity)
  | .stop _ => some .stop
  | .submit r => some (.submit r)
  | .discover scope query => some (.discover scope query)
  | .handshake identifier password => some (.handshake identifier password)
  | .groupMessage scope m => some (.groupMessage scope m)
  | .setMaxPayload size => some (.setMaxPayload size)
  | .poll => some .poll
  | .signal => some .signal
  | .push e => some (.push e)
  | .edit _ => none

/-- A call that by itself comes to its end: nobody stops the bridge while it begins, and no worker
is left that a stop has to wait for. -/
def Call.Undisturbed (eng : Engine σ) (k : Core σ) : Call → Prop
  | .start identity =>
    (eng (.init (identity.getD k.bridge.settings.identity)) k.bridge.engine).answer ≠
      InitAnswer.readyButStopped
  | .stop onWorker =>
    (onWorker = true ∨ k.place.isOver = true) ∧ ∀ d, k.bridge.loop.worker ≠ .waiting d
  | _ => True

theorem entry_does {c : Call} {cmd : Bridge.Command σ} (installed : Category → Bool) {n : ℕ}
    {k : Core σ} (hc : c.command = some cmd) (hk : k.Unlocked) (hu : c.Undisturbed eng k) :
    Does eng n k c.entry.1 c.entry.2 (k.bridge.perform eng installed cmd) := by
  cases c with
  | edit f => cases hc
  | start identity => cases hc; exact start_does identity hk hu
  | stop onWorker => cases hc; exact stop_does hk hu.1 hu.2
  | submit r => cases hc; exact submit_does r hk
  | discover scope query => cases hc; exact discover_does scope query hk
  | handshake identifier password => cases hc; exact handshake_does identifier password hk
  | groupMessage scope m => cases hc; exact groupMessage_does scope m hk
  | setMaxPayload size => cases hc; exact setMaxPayload_does size hk
  | poll => cases hc; exact poll_does hk
  | signal => cases hc; exact .of_brings (.signal hk) rfl (.reply _ _)
  | push e => cases hc; exact push_does e hk

/-- **A call that nobody disturbs does what its command does:** it leaves the bridge alike, with the
same reply. -/
theorem call_alone {c : Call} {cmd : Bridge.Command σ} (installed : Category → Bool) {n : ℕ}
    {s : Sys σ} (hc : c.command = some cmd) (hpc : s.pcs n = .idle)
    (hchores : s.chores (some n) = []) (hk : s.core.Unlocked) (hu : c.Undisturbed eng s.core) :
    ∃ b r ms s', Bridge.Finishes (s.core.bridge.perform eng installed cmd) b r ∧
      (∀ m ∈ ms, m.IsOf (some n)) ∧ s.run eng (.call n c :: ms) = some s' ∧
      Alike s'.core.bridge b ∧ (s'.pcs n).reply? = some r ∧ s.SameBut (some n) s' := by
  obtain ⟨b, r, k', p', hf, ha, hb, -, hp⟩ := entry_does (n := n) installed hc hk hu
  obtain ⟨s₁, hs₁⟩ : ∃ s₁ : Sys σ, s₁ = { s with
    chores := Function.update s.chores (some n) c.entry.1
    pcs := Function.update s.pcs n c.entry.2 } := ⟨_, rfl⟩
  have hcall : s.move eng (.call n c) = some s₁ := by simp only [Sys.move, hpc, hchores, hs₁]
  have hat : s₁.At (some n) (s.core, c.entry.1, c.entry.2) := by
    rw [hs₁]
    refine ⟨rfl, Function.update_self .., ?_⟩
    rintro m ⟨⟩
    exact Function.update_self ..
  have hsame : s.SameBut (some n) s₁ := by
    rw [hs₁]
    refine ⟨fun a ha => Function.update_of_ne ha .., fun m hm => Function.update_of_ne ?_ ..⟩
    rintro rfl
    exact hm rfl
  obtain ⟨ms, s', hms, hrun, ⟨hcore, -, hpc'⟩, hsame'⟩ := ha.run hat
  refine ⟨b, r, ms, s', hf, hms, ?_, ?_, ?_, hsame.trans hsame'⟩
  · simp only [Sys.run, hcall, hrun]
  · rw [hcore]
    exact hb
  · rw [hpc' n rfl]
    exact hp

/-- **A cycle of the worker that nobody disturbs does what the command for a cycle does.** -/
theorem cycle_alone (eng : Engine σ) {s : Sys σ} (hchores : s.chores none = [])
    (howner : s.core.owner = none) (hplace : s.core.place = .check)
    (hparked : s.core.bridge.wake.parked = false) :
    ∃ r ms s', Bridge.Finishes (s.core.bridge.workerCycle eng) s'.core.still r ∧
      (∀ m ∈ ms, m.IsOf none) ∧ s.run eng ms = some s' ∧ s'.core.place.AtRest ∧
      s.SameBut none s' := by
  obtain ⟨r, k', hf, ha, hrest⟩ := worker_alone eng .idle howner hplace hparked
  obtain ⟨ms, s', hms, hrun, ⟨hcore, -, -⟩, hsame⟩ := ha.run ⟨rfl, hchores, by simp⟩
  refine ⟨r, ms, s', ?_, hms, hrun, ?_, hsame⟩
  · rw [hcore]
    exact hf
  · rw [hcore]
    exact hrest

end KnxIoT.Threads
