import KnxIoT.Proofs.Bridge.Moves
import KnxIoT.Proofs.Bridge.Runs

/-! # What beginning and ending make of a bridge

`Started` lists what starting can do, `stop_of_quit` and `stop_of_go` what stopping does. From this
and from the moves of the other commands, `Orderly` holds of every bridge of a run, without a limit
for its tokens: once told to stop, its engine has ended and nothing is pending, and the loop runs
only while the engine is live.

A bridge is also used from outside of the programs of its run, by somebody who queues an event:
`Turn` is a step or such an event, and `Kept.use` the induction over any number of turns. -/

namespace KnxIoT.Bridge

variable {σ : Type}

/-! ### Starting and stopping -/

section Life
variable {eng : Engine σ} {b : Bridge σ}

/-- **What starting can do.** -/
inductive Started (eng : Engine σ) (b : Bridge σ) : Bridge σ → Prop
  | refused : Started eng b b
  | failed (i : Identity) (e : BridgeError) (go : b.loop.quit = false) (idle : b.phase = .idle)
      (answer : (b.callEngine eng (.init i)).1 = .failed e) :
      Started eng b (b.callEngine eng (.init i)).2
  | ready (i : Identity) (go : b.loop.quit = false) (idle : b.phase = .idle)
      (answer : (b.callEngine eng (.init i)).1 = .ready) :
      Started eng b (((b.callEngine eng (.init i)).2.goLive eng).startLoop eng).2
  | stopped (i : Identity) (go : b.loop.quit = false) (idle : b.phase = .idle)
      (answer : (b.callEngine eng (.init i)).1 = .readyButStopped) :
      Started eng b
        ((((b.callEngine eng (.init i)).2.stopLoop.2.goLive eng).startLoop eng).2.finishStop eng)

theorem start_started (eng : Engine σ) (identity : Option Identity) :
    Started eng b (b.start eng identity).2 := by
  unfold start
  split
  · exact .refused
  next href =>
  obtain ⟨hgo, hidle⟩ : b.loop.quit = false ∧ b.phase = .idle := by
    unfold startRefusal? at href
    split_ifs at href with hq
    cases hp : b.phase <;> rw [hp] at href <;> cases href
    exact ⟨by simpa using hq, rfl⟩
  split
  all_goals
    rename_i hcall
    have hanswer := congrArg Prod.fst hcall
    have hbridge := congrArg Prod.snd hcall
    dsimp only at hanswer hbridge ⊢
    rw [← hbridge]
  · exact .failed _ _ hgo hidle hanswer
  · exact .ready _ hgo hidle hanswer
  · exact .stopped _ hgo hidle hanswer

theorem stopLoop_go (h : b.loop.quit = false) :
    b.stopLoop.2.loop.quit = true ∧ b.stopLoop.2.loop.state = .stopped := by
  unfold stopLoop EventLoop.stop EventLoop.requestQuit
  simp only [h]
  unfold EventLoop.wake
  split
  · split <;> exact ⟨rfl, rfl⟩
  · exact ⟨rfl, rfl⟩

theorem stop_of_quit (h : b.loop.quit = true) : b.stop eng = b := by
  have hs : b.stopLoop = (false, b) := by
    obtain ⟨settings, engine, phase, queue, registry, correlator, ⟨state, quit, worker⟩, wake,
      maxPayload, log⟩ := b
    cases h
    rfl
  unfold stop
  rw [hs]

theorem stop_of_go (h : b.loop.quit = false) : b.stop eng = b.stopLoop.2.finishStop eng := by
  have hdone : b.stopLoop.1 = true := by
    rw [(stopLoop_facts b).1, h]
    rfl
  unfold stop
  split
  · next hs => rw [hs]
  · next hs => rw [hs] at hdone; cases hdone

theorem callEngine_closed (eng : Engine σ) (c : EngineCall) (b : Bridge σ) :
    (b.callEngine eng c).2.queue.closed = b.queue.closed := by rw [callEngine_eq]

/-- From `b` to `b'` only the engine, its queue and its phase change. -/
structure Aloof (b b' : Bridge σ) : Prop where
  settings : b'.settings = b.settings
  registry : b'.registry = b.registry
  correlator : b'.correlator = b.correlator
  loop : b'.loop = b.loop
  closed : b'.queue.closed = b.queue.closed

theorem Aloof.trans {b b' b'' : Bridge σ} (h : Aloof b b') (h' : Aloof b' b'') : Aloof b b'' :=
  ⟨h'.settings.trans h.settings, h'.registry.trans h.registry, h'.correlator.trans h.correlator,
    h'.loop.trans h.loop, h'.closed.trans h.closed⟩

theorem callEngine_aloof (eng : Engine σ) (c : EngineCall) (b : Bridge σ) :
    Aloof b (b.callEngine eng c).2 :=
  ⟨callEngine_settings eng c b, callEngine_registry eng c b, callEngine_correlator eng c b,
    callEngine_loop eng c b, callEngine_closed eng c b⟩

theorem release_aloof (eng : Engine σ) (b : Bridge σ) : Aloof b (b.release eng) := by
  unfold release
  dsimp only
  split_ifs
  · obtain ⟨hs, hr, hk, hl, hc⟩ := callEngine_aloof eng .shutdown b
    exact ⟨hs, hr, hk, hl, hc⟩
  · exact ⟨rfl, rfl, rfl, rfl, rfl⟩

theorem goLive_aloof (eng : Engine σ) (b : Bridge σ) : Aloof b (b.goLive eng) := by
  obtain ⟨hs, hr, hk, hl, hc⟩ := callEngine_aloof eng (.setMaxPayload b.maxPayload) b
  exact ⟨hs, hr, hk, hl, hc⟩

/-- Starting the loop, or ending the engine because it does not start. -/
theorem startLoop_cases (eng : Engine σ) (b : Bridge σ) :
    (b.loop.quit = false ∧ ∃ loop : EventLoop, (b.startLoop eng).2 = { b with loop } ∧
      loop.quit = false ∧ loop.state = .running) ∨
    ((b.loop.quit = true ∨ b.loop.state ≠ .stopped) ∧ (b.startLoop eng).2 = b.release eng) := by
  unfold startLoop
  split
  · next loop h =>
    unfold EventLoop.start at h
    split_ifs at h with hq hs
    all_goals
      cases h
      exact Or.inl ⟨by simpa using hq, _, rfl, by simpa using hq, rfl⟩
  · next e h =>
    unfold EventLoop.start at h
    split_ifs at h with hq hs
    · exact Or.inr ⟨Or.inl hq, rfl⟩
    · exact Or.inr ⟨Or.inr hs, rfl⟩

theorem startLoop_closed (eng : Engine σ) (b : Bridge σ) :
    (b.startLoop eng).2.queue.closed = b.queue.closed := by
  rcases startLoop_cases eng b with ⟨-, loop, h, -⟩ | ⟨-, h⟩ <;> rw [h]
  exact (release_aloof eng b).closed

/-- **What a bridge is after it has stopped.** -/
structure Ended (b b' : Bridge σ) : Prop where
  settings : b'.settings = b.settings
  phase : b'.phase = .released
  table : b'.correlator.table = []
  registry : b'.registry = b.registry.clear
  closed : b'.queue.closed = b.queue.closed
  quit : b'.loop.quit = true
  state : b'.loop.state = .stopped

theorem finishStop_ended (eng : Engine σ) (hq : b.loop.quit = true) (hs : b.loop.state = .stopped) :
    Ended b (b.finishStop eng) := by
  obtain ⟨h₁, h₂, h₃, h₄, h₅⟩ := release_aloof eng b
  have hp := (release_facts eng b).2.1
  exact ⟨h₁, hp, rfl, congrArg Registry.clear h₂, h₅, (congrArg _ h₄).trans hq,
    (congrArg _ h₄).trans hs⟩

theorem stop_ended (eng : Engine σ) (h : b.loop.quit = false) : Ended b (b.stop eng) := by
  obtain ⟨hq, hs⟩ := stopLoop_go h
  rw [stop_of_go h]
  obtain ⟨h₁, h₂, h₃, h₄, h₅, h₆, h₇⟩ := finishStop_ended eng hq hs
  exact ⟨h₁, h₂, h₃, h₄, h₅, h₆, h₇⟩

/-- **What stopping can do:** nothing the second time. -/
theorem stop_cases (eng : Engine σ) (b : Bridge σ) :
    (b.loop.quit = true ∧ b.stop eng = b) ∨ (b.loop.quit = false ∧ Ended b (b.stop eng)) := by
  cases hq : b.loop.quit with
  | true => exact Or.inl ⟨rfl, stop_of_quit hq⟩
  | false => exact Or.inr ⟨rfl, stop_ended eng hq⟩

theorem stop_quit (eng : Engine σ) (b : Bridge σ) : (b.stop eng).loop.quit = true := by
  rcases stop_cases eng b with ⟨hq, h⟩ | ⟨-, h⟩
  · rw [h, hq]
  · exact h.quit

theorem stop_settings (eng : Engine σ) (b : Bridge σ) : (b.stop eng).settings = b.settings := by
  rcases stop_cases eng b with ⟨-, h⟩ | ⟨-, h⟩
  · rw [h]
  · exact h.settings

/-- A bridge that is told to stop while its engine begins. -/
theorem begun_ended (eng : Engine σ) (i : Identity) (h : b.loop.quit = false) : Ended b
    ((((b.callEngine eng (.init i)).2.stopLoop.2.goLive eng).startLoop eng).2.finishStop eng) := by
  have h₁ := callEngine_aloof eng (.init i) b
  obtain ⟨hq, hs⟩ := stopLoop_go (b := (b.callEngine eng (.init i)).2) (by rw [h₁.loop, h])
  have h₂ := goLive_aloof eng (b.callEngine eng (.init i)).2.stopLoop.2
  have hr : (((b.callEngine eng (.init i)).2.stopLoop.2.goLive eng).startLoop eng).2 =
      ((b.callEngine eng (.init i)).2.stopLoop.2.goLive eng).release eng := by
    rcases startLoop_cases eng ((b.callEngine eng (.init i)).2.stopLoop.2.goLive eng) with
      ⟨hgo, -⟩ | ⟨-, h⟩
    · rw [h₂.loop, hq] at hgo
      cases hgo
    · exact h
  have h₃ := h₂.trans (release_aloof eng _)
  rw [hr]
  obtain ⟨k₁, k₂, k₃, k₄, k₅, k₆, k₇⟩ := finishStop_ended eng
    (by rw [h₃.loop, hq]) (by rw [h₃.loop, hs])
  exact ⟨k₁.trans (h₃.settings.trans h₁.settings), k₂, k₃,
    k₄.trans (by rw [h₃.registry]; exact congrArg Registry.clear h₁.registry),
    k₅.trans (h₃.closed.trans h₁.closed), k₆, k₇⟩

end Life

/-! ### What a bridge keeps -/

/-- **What every bridge of a run is like,** as to its life. -/
structure Orderly (b : Bridge σ) : Prop where
  released : b.loop.quit = true → b.phase = .released
  empty : b.loop.quit = true → b.correlator.table = []
  closed : b.queue.closed = true → b.loop.quit = true
  running : b.loop.state = .running → b.phase = .live

section Orderly
variable {eng : Engine σ} {E : String → DeviceUpdate → Prop} {b b' : Bridge σ}

theorem orderly_make {settings : Settings} {engine : σ} (h : make settings engine = .ok b) :
    Orderly b := by
  rw [make_eq_ok h]
  exact ⟨nofun, nofun, nofun, nofun⟩

theorem Orderly.of_eq (h : Orderly b) (hp : b'.phase = b.phase) (hl : b'.loop.quit = b.loop.quit)
    (hs : b'.loop.state = b.loop.state) (hc : b'.queue.closed = b.queue.closed)
    (hk : b.loop.quit = true → b.correlator.table = [] → b'.correlator.table = []) :
    Orderly b' where
  released hq := by rw [hl] at hq; rw [hp]; exact h.released hq
  empty hq := by rw [hl] at hq; exact hk hq (h.empty hq)
  closed hc' := by rw [hc] at hc'; rw [hl]; exact h.closed hc'
  running hr := by rw [hs] at hr; rw [hp]; exact h.running hr

theorem Ended.orderly (h : Ended b b') : Orderly b' where
  released _ := h.phase
  empty _ := h.table
  closed _ := h.quit
  running hr := by rw [h.state] at hr; cases hr

theorem settle_table {k : Correlator} (h : k.table = []) (e : EngineEvent) :
    (k.settle e).table = [] :=
  Correlator.table_eq_nil fun t => by
    rw [Correlator.find?_settle, Correlator.find?_eq_none_of_table h]
    rfl

theorem vain_table {k k' : Correlator} {p : Pending} {t : Token} (h : k.table = [])
    (hi : k.issue p = .ok (t, k')) : (k'.discard t).table = [] := by
  refine Correlator.table_eq_nil fun u => ?_
  rw [Correlator.find?_discard, (Correlator.issue_eq_ok hi).2.2.2]
  split_ifs
  · rfl
  · exact Correlator.find?_eq_none_of_table h u

/-- **A move keeps a bridge orderly.** -/
theorem Move.orderly (h : Move eng E b b') (hb : Orderly b) : Orderly b' := by
  cases h with
  | call c live hc =>
    obtain ⟨-, -, hk, hl, hcl⟩ := callEngine_aloof eng c b
    exact hb.of_eq (callEngine_phase eng c b) (by rw [hl]) (by rw [hl]) hcl
      fun _ ht => by rw [hk]; exact ht
  | push e =>
    unfold Bridge.push
    split_ifs
    · exact hb
    · exact hb.of_eq rfl rfl rfl rfl fun _ ht => ht
  | settle e => exact hb.of_eq rfl rfl rfl rfl fun _ ht => settle_table ht e
  | grant live h =>
    refine hb.of_eq rfl rfl rfl rfl fun hq _ => ?_
    rw [hb.released hq] at live
    cases live
  | vain h => exact hb.of_eq rfl rfl rfl rfl fun _ ht => vain_table ht h
  | rouse state quit => exact hb.of_eq rfl quit state rfl fun _ ht => ht
  | _ => exact hb.of_eq rfl rfl rfl rfl fun _ ht => ht

theorem Started.orderly (h : Started eng b b') (hb : Orderly b) : Orderly b' := by
  cases h with
  | refused => exact hb
  | failed i e go idle answer =>
    obtain ⟨-, -, hk, hl, hc⟩ := callEngine_aloof eng (.init i) b
    exact hb.of_eq (callEngine_phase eng _ b) (by rw [hl]) (by rw [hl]) hc
      fun _ ht => by rw [hk]; exact ht
  | ready i go idle answer =>
    have h₁ := (callEngine_aloof eng (.init i) b).trans (goLive_aloof eng _)
    have hcl : ∀ {b'' : Bridge σ}, b''.queue.closed = b.queue.closed → b''.queue.closed ≠ true := by
      intro b'' he hc
      rw [he] at hc
      rw [hb.closed hc] at go
      cases go
    rcases startLoop_cases eng ((b.callEngine eng (.init i)).2.goLive eng) with
      ⟨-, loop, he, hq, -⟩ | ⟨-, he⟩ <;> rw [he]
    · exact ⟨fun hq' => absurd (hq.symm.trans hq') nofun,
        fun hq' => absurd (hq.symm.trans hq') nofun, fun hc => absurd hc (hcl h₁.closed),
        fun _ => rfl⟩
    · have h₂ := h₁.trans (release_aloof eng _)
      have hgo : ¬ (((b.callEngine eng (.init i)).2.goLive eng).release eng).loop.quit = true := by
        rw [h₂.loop, go]
        exact nofun
      refine ⟨fun hq => absurd hq hgo, fun hq => absurd hq hgo, fun hc => absurd hc (hcl h₂.closed),
        fun hr => ?_⟩
      rw [h₂.loop] at hr
      rw [hb.running hr] at idle
      cases idle
  | stopped i go idle answer => exact (begun_ended eng i go).orderly

theorem stop_orderly (eng : Engine σ) (hb : Orderly b) : Orderly (b.stop eng) := by
  rcases stop_cases eng b with ⟨-, h⟩ | ⟨-, h⟩
  · rw [h]
    exact hb
  · exact h.orderly

/-- **Beginning or ending something keeps a bridge orderly.** -/
theorem life_orderly (installed : Category → Bool) {c : Command σ} (hc : c.IsLife)
    (hb : Orderly b) : Orderly (b.perform eng installed c).1 := by
  cases c with
  | start identity => exact (start_started eng identity).orderly hb
  | stop => exact stop_orderly eng hb
  | dispose =>
    obtain ⟨hr, he, -, hs⟩ := stop_orderly eng hb
    exact ⟨hr, he, fun _ => stop_quit eng b, hs⟩
  | _ => exact hc.elim

theorem Started.settings (h : Started eng b b') : b'.settings = b.settings := by
  cases h with
  | refused => rfl
  | failed i e go idle answer => exact (callEngine_aloof eng (.init i) b).settings
  | ready i go idle answer =>
    have h := (callEngine_aloof eng (.init i) b).trans (goLive_aloof eng _)
    exact (startLoop_facts eng _).1.settings.trans h.settings
  | stopped i go idle answer => exact (begun_ended eng i go).settings

/-- **Starting leaves the pending tokens as they are,** unless somebody stops the bridge while its
engine begins. -/
theorem Started.correlator (h : Started eng b b') : b'.correlator = b.correlator ∨
    b'.correlator.table = [] ∧ ∃ i, (eng (.init i) b.engine).answer = .readyButStopped := by
  cases h with
  | refused => exact Or.inl rfl
  | failed i e go idle answer => exact Or.inl (callEngine_correlator eng (.init i) b)
  | ready i go idle answer =>
    exact Or.inl ((startLoop_facts eng _).2.1.trans
      ((goLive_facts eng _).2.1.trans (callEngine_correlator eng (.init i) b)))
  | stopped i go idle answer =>
    rw [callEngine_eq] at answer
    exact Or.inr ⟨(begun_ended eng i go).table, i, answer⟩

theorem life_settings (eng : Engine σ) (installed : Category → Bool) {c : Command σ}
    (hc : c.IsLife) (b : Bridge σ) : (b.perform eng installed c).1.settings = b.settings := by
  cases c with
  | start identity => exact (start_started eng identity).settings
  | stop => exact stop_settings eng b
  | dispose => exact stop_settings eng b
  | _ => exact hc.elim

/-- The registry is as it was, or the bridge has stopped and it is cleared. -/
def Clears (b b' : Bridge σ) : Prop :=
  (b'.loop.quit = b.loop.quit ∧ b'.registry = b.registry) ∨
    (b.loop.quit = false ∧ b'.loop.quit = true ∧ b'.registry = b.registry.clear)

theorem Started.clears (h : Started eng b b') : Clears b b' := by
  cases h with
  | refused => exact Or.inl ⟨rfl, rfl⟩
  | failed i e go idle answer =>
    have h := callEngine_aloof eng (.init i) b
    exact Or.inl ⟨by rw [h.loop], h.registry⟩
  | ready i go idle answer =>
    have h₁ := (callEngine_aloof eng (.init i) b).trans (goLive_aloof eng _)
    rcases startLoop_cases eng ((b.callEngine eng (.init i)).2.goLive eng) with
      ⟨-, loop, he, hq, -⟩ | ⟨-, he⟩ <;> rw [he]
    · exact Or.inl ⟨hq.trans go.symm, h₁.registry⟩
    · have h₂ := h₁.trans (release_aloof eng _)
      exact Or.inl ⟨by rw [h₂.loop], h₂.registry⟩
  | stopped i go idle answer =>
    have h := begun_ended eng i go
    exact Or.inr ⟨go, h.quit, h.registry⟩

theorem stop_clears (eng : Engine σ) (b : Bridge σ) : Clears b (b.stop eng) := by
  rcases stop_cases eng b with ⟨-, h⟩ | ⟨hq, h⟩
  · rw [h]
    exact Or.inl ⟨rfl, rfl⟩
  · exact Or.inr ⟨hq, h.quit, h.registry⟩

/-- **Beginning or ending something leaves the registry as it is,** or clears it when the bridge
stops. -/
theorem life_clears (eng : Engine σ) (installed : Category → Bool) {c : Command σ}
    (hc : c.IsLife) (b : Bridge σ) : Clears b (b.perform eng installed c).1 := by
  cases c with
  | start identity => exact (start_started eng identity).clears
  | stop => exact stop_clears eng b
  | dispose => exact stop_clears eng b
  | _ => exact hc.elim

end Orderly

/-! ### Runs, also with events from outside -/

/-- Somebody outside queues an event. -/
def queueFromOutside (m : Machine σ) (e : EngineEvent) : Machine σ :=
  let b := (m.state.push e).2
  { m.record (b.log.map .happened) with state := { b with log := [] } }

/-- **One turn:** a step of the run, or an event that is queued from outside. -/
inductive Turn (eng : Engine σ) : Machine σ → Machine σ → Prop
  | step (m : Machine σ) : Turn eng m (m.step (system eng))
  | push (m : Machine σ) (e : EngineEvent) : Turn eng m (queueFromOutside m e)

/-- Any number of turns. -/
abbrev Use (eng : Engine σ) : Machine σ → Machine σ → Prop :=
  Relation.ReflTransGen (Turn eng)

section Use
variable {eng : Engine σ} {m m' : Machine σ}

theorem use_run (eng : Engine σ) (m : Machine σ) (n : ℕ) : Use eng m (m.run (system eng) n) := by
  induction n with
  | zero => exact .refl
  | succ n ih =>
    rw [Dispatch.Machine.run_succ]
    exact ih.tail (.step _)

theorem use_stacked (hu : Use eng m m') (hs : Dispatch.Machine.Stacked m.stack) :
    Dispatch.Machine.Stacked m'.stack := by
  induction hu with
  | refl => exact hs
  | tail _ hturn ih =>
    cases hturn with
    | step => exact Dispatch.Machine.stacked_step _ ih
    | push e => exact ih

theorem use_log (hu : Use eng m m') (hs : Dispatch.Machine.Stacked m.stack)
    (hm : m.state.log = []) : m'.state.log = [] := by
  induction hu with
  | refl => exact hm
  | tail hu hturn ih =>
    cases hturn with
    | push e => rfl
    | step =>
      cases Dispatch.Machine.step_advance (system eng) (use_stacked hu hs) with
      | aside es state trace asides rests => rw [state]; exact ih
      | start c hn p next below stack piece state trace rests => rw [state, piece]; rfl
      | proceed a d c hn p below stack piece state trace rests => rw [state, piece]; rfl

end Use

/-- Any device may be entered in the ways of a bridge. -/
structure Free (E : String → DeviceUpdate → Prop) : Prop where
  byHand : ∀ i a, E i (registration i a)
  found : ∀ s source secure, E s (announced source secure s)

theorem Free.admits {E : String → DeviceUpdate → Prop} (h : Free E) (b : Bridge σ) :
    Admits E b := fun _ => h.found

theorem free_any : Free fun _ _ => True := ⟨fun _ _ => trivial, fun _ _ _ => trivial⟩

/-- **What commands keep** that enter devices as `E` allows. -/
structure Kept (eng : Engine σ) (E : String → DeviceUpdate → Prop) (P : Bridge σ → Prop) :
    Prop where
  free : Free E
  move : ∀ {b b' : Bridge σ}, Move eng E b b' → P b → P b'
  life : ∀ {b : Bridge σ} (installed : Category → Bool) {c : Command σ}, c.IsLife → P b →
    P (b.perform eng installed c).1
  takeDown : ∀ {b : Bridge σ}, P b → P { b with log := [] }

section Kept
variable {eng : Engine σ} {E : String → DeviceUpdate → Prop} {P : Bridge σ → Prop}

theorem Free.announces (h : Free E) (rest : Rest) : Announces E rest := by
  cases rest with
  | announce t found serials source text e => exact fun s _ secure => h.found s source secure
  | _ => trivial

theorem Kept.moves (h : Kept eng E P) {b b' : Bridge σ} (hm : Moves eng E b b') (hb : P b) :
    P b' := by
  induction hm with
  | refl => exact hb
  | tail _ hmove ih => exact h.move hmove ih

theorem Kept.perform (h : Kept eng E P) (installed : Category → Bool) (c : Command σ)
    {b : Bridge σ} (hb : P b) : P (b.perform eng installed c).1 := by
  by_cases hc : c.IsLife
  · exact h.life installed hc hb
  · exact h.moves (perform_moves eng installed hc (fun i a _ => h.free.byHand i a)
      (h.free.admits b)).moves hb

theorem Kept.proceed (h : Kept eng E P) (rest : Rest) {b : Bridge σ} (hb : P b) :
    P (b.proceed rest).1 :=
  h.moves (proceed_moves eng (h.free.announces rest) (h.free.admits b)).moves hb

/-- **What commands keep, a step keeps.** -/
theorem Kept.step (h : Kept eng E P) {m : Machine σ} (hs : Dispatch.Machine.Stacked m.stack)
    (hm : P m.state) : P (m.step (system eng)).state := by
  cases Dispatch.Machine.step_advance (system eng) hs with
  | aside es state trace asides rests => rw [state]; exact hm
  | start c hn p next below stack piece state trace rests =>
    subst piece
    rw [state]
    exact h.takeDown (h.perform _ c hm)
  | proceed a d c hn p below stack piece state trace rests =>
    subst piece
    rw [state]
    exact h.takeDown (h.proceed a hm)

/-- **What commands keep, any use keeps.** -/
theorem Kept.use (h : Kept eng E P) {m m' : Machine σ} (hu : Use eng m m')
    (hs : Dispatch.Machine.Stacked m.stack) (hm : P m.state) : P m'.state := by
  induction hu with
  | refl => exact hm
  | tail hu hturn ih =>
    cases hturn with
    | step => exact h.step (use_stacked hu hs) ih
    | push e => exact h.takeDown (h.move (.push _ e) ih)

end Kept

theorem orderly_kept (eng : Engine σ) : Kept eng (fun _ _ => True) (Orderly (σ := σ)) where
  free := free_any
  move h hb := h.orderly hb
  life installed _ hc hb := life_orderly installed hc hb
  takeDown hb := ⟨hb.released, hb.empty, hb.closed, hb.running⟩

theorem settings_kept (eng : Engine σ) (s : Settings) :
    Kept eng (fun _ _ => True) fun b => b.settings = s where
  free := free_any
  move h hb := h.settings.trans hb
  life installed _ hc hb := (life_settings eng installed hc _).trans hb
  takeDown hb := hb

end KnxIoT.Bridge
