import KnxIoT.Bench.ScriptedEngine
import KnxIoT.Proofs.Bridge.Life

/-! # What is left after a stop

From the moment at which a bridge is told to stop nothing is pending, and the registry is empty. A
device enters it again in two ways only: somebody registers it by hand, or it is one of those that
an announcement still had to come when the bridge was told to stop. For the announcement of a
discovery reply goes on after each of its notifications, and also after the one in whose handler the
bridge was stopped.

`final_step` carries this through a step, with the announcements that wait on the stack;
`registry_after_stop` is the result for whole runs, and `stop_not_final` a run in which a device
comes back although nobody has registered it. -/

namespace KnxIoT.Bridge

variable {σ : Type}

/-- Somebody has told the bridge to stop. -/
def Stopped (tr : List (Entry σ)) : Prop := ∃ x ∈ tr, abandons x = true

/-- Somebody has registered the device by hand after the bridge was told to stop. -/
def RegisteredAfterStop (tr : List (Entry σ)) (identifier : String) : Prop :=
  ∃ pre address post, tr = pre ++ .called (.register identifier address) :: post ∧ Stopped pre

/-- **The device was still to be announced** when the bridge was told to stop, in one of the first
`n` steps. -/
def LeftOver (eng : Engine σ) (m : Machine σ) (n : ℕ) (identifier : String) : Prop :=
  ∃ k < n, ¬ Stopped (m.run (system eng) k).trace ∧ Stopped (m.run (system eng) (k + 1)).trace ∧
    ∃ t found serials source text e d,
      .rest (.announce t found serials source text e) d ∈ (m.run (system eng) k).stack ∧
        identifier ∈ serials

section Trace
variable {tr es : List (Entry σ)} {i : String}

theorem stopped_iff_any : Stopped tr ↔ tr.any abandons = true := List.any_eq_true.symm

theorem stopped_append : Stopped (tr ++ es) ↔ Stopped tr ∨ Stopped es := by
  simp only [Stopped, List.mem_append, or_and_right, exists_or]

theorem stopped_singleton {x : Entry σ} : Stopped [x] ↔ abandons x = true := by
  simp only [Stopped, List.mem_singleton, exists_eq_left]

theorem RegisteredAfterStop.append (h : RegisteredAfterStop tr i) :
    RegisteredAfterStop (tr ++ es) i := by
  obtain ⟨pre, address, post, rfl, hs⟩ := h
  exact ⟨pre, address, post ++ es, by simp, hs⟩

end Trace

/-! ### Pieces of a command -/

section Pieces
variable {eng : Engine σ} {b : Bridge σ} {A : String → Prop}

theorem Touch.identifiers {r r' : Registry} (h : Touch (fun i _ => A i) r r')
    (hr : ∀ d ∈ r.devices, A d.identifier) : ∀ d ∈ r'.devices, A d.identifier := by
  cases h with
  | enter allowed h => exact Registry.forall_upsert h hr (fun d hd _ => hr d hd) fun _ => allowed
  | rename known h =>
    refine Registry.forall_upsert h hr (fun d hd _ => hr d hd) fun hnone => ?_
    rw [hnone] at known
    cases known
  | secure i on => exact Registry.forall_modify hr fun d hd _ => hr d hd
  | number i =>
    refine Registry.forall_modify hr fun d hd _ => ?_
    unfold withSerial
    split_ifs <;> exact hr d hd
  | clear => exact fun d hd => nomatch hd

theorem Move.identifiers {b b' : Bridge σ} (h : Move eng (fun i _ => A i) b b')
    (hb : ∀ d ∈ b.registry.devices, A d.identifier) :
    ∀ d ∈ b'.registry.devices, A d.identifier := by
  rcases h.registry with h | h
  · rw [h]
    exact hb
  · exact h.identifiers hb

theorem Moves.identifiers {b b' : Bridge σ} (h : Moves eng (fun i _ => A i) b b')
    (hb : ∀ d ∈ b.registry.devices, A d.identifier) :
    ∀ d ∈ b'.registry.devices, A d.identifier := by
  induction h with
  | refl => exact hb
  | tail _ h ih => exact h.identifiers ih

theorem not_searching (hb : Orderly b) (hq : b.loop.quit = true) : ¬ b.Searching := by
  rintro ⟨t, k, hf⟩
  rw [Correlator.find?_eq_none_of_table (hb.empty hq)] at hf
  cases hf

/-- **A piece after the stop:** it enters only devices of the kind `A`, and leaves only such to be
announced. -/
structure EntersOnly (A : String → Prop) (p : Piece σ) : Prop where
  devices : ∀ d ∈ p.1.registry.devices, A d.identifier
  quit : p.1.loop.quit = true
  rests : ∀ n a, p.2 = .notify n a → Announces (fun i _ => A i) a

/-- A command after the stop enters a device only if it is told to register it. -/
theorem perform_after_stop (installed : Category → Bool) (c : Command σ) (hb : Orderly b)
    (hq : b.loop.quit = true) (hc : ∀ i a, c = .register i a → A i)
    (hA : ∀ d ∈ b.registry.devices, A d.identifier) : EntersOnly A (b.perform eng installed c) := by
  by_cases hlife : c.IsLife
  · rcases life_clears eng installed hlife b with ⟨hq', hr⟩ | ⟨hgo, -, -⟩
    · refine ⟨by rw [hr]; exact hA, hq'.trans hq, fun n a h => ?_⟩
      obtain ⟨r, rfl⟩ := perform_brief installed hlife.not_isCycle n a h
      trivial
    · rw [hq] at hgo
      cases hgo
  · obtain ⟨hm, hr⟩ := perform_moves eng (E := fun i _ => A i) installed hlife hc
      fun h => absurd h (not_searching hb hq)
    exact ⟨hm.identifiers hA, hm.quit.trans hq, hr⟩

theorem proceed_after_stop (eng : Engine σ) {rest : Rest} (hb : Orderly b)
    (hq : b.loop.quit = true) (hr : Announces (fun i _ => A i) rest)
    (hA : ∀ d ∈ b.registry.devices, A d.identifier) : EntersOnly A (b.proceed rest) := by
  obtain ⟨hm, hr'⟩ := proceed_moves eng hr fun h => absurd h (not_searching hb hq)
  exact ⟨hm.identifiers hA, hm.quit.trans hq, hr'⟩

/-- Somebody stops the bridge while its engine begins. -/
def Stops (hs : List Happening) : Prop := ∃ i, .engine (.init i) InitAnswer.readyButStopped ∈ hs

theorem not_stops_of_calm {b b' : Bridge σ} (hl : b.log = []) (h : Calm b b') : ¬ Stops b'.log := by
  rintro ⟨i, hi⟩
  obtain ⟨hs, he, hp⟩ := h.log
  rw [he, hl, List.nil_append] at hi
  exact hp _ hi

theorem stopped_of_happened {hs : List Happening} :
    Stopped (hs.map .happened : List (Entry σ)) ↔ Stops hs := by
  constructor
  · rintro ⟨x, hx, ha⟩
    obtain ⟨y, hy, rfl⟩ := List.mem_map.mp hx
    unfold abandons at ha
    split at ha
    · next h => cases h
    · next h => cases h
    · next i h => cases h; exact ⟨i, hy⟩
    · cases ha
  · rintro ⟨i, hi⟩
    exact ⟨_, List.mem_map_of_mem hi, rfl⟩

/-- A start that is not refused stops the bridge exactly if somebody else told it to meanwhile. -/
theorem Started.stops {b' : Bridge σ} (h : Started eng b b') (hl : b.log = [])
    (hq : b.loop.quit = false) : b'.loop.quit = true ↔ Stops b'.log := by
  have plain : ∀ {b' : Bridge σ}, Calm b b' → b'.loop.quit = false →
      (b'.loop.quit = true ↔ Stops b'.log) := by
    intro b' hc hq'
    rw [hq']
    exact iff_of_false nofun (not_stops_of_calm hl hc)
  cases h with
  | refused => exact plain (.of_eq rfl rfl) hq
  | failed i e go idle answer =>
    refine plain (callEngine_steady eng _ b ?_).toCalm (by rw [callEngine_loop, hq])
    rw [answer]
    trivial
  | ready i go idle answer =>
    have h₁ : Calm b (b.callEngine eng (.init i)).2 := by
      refine (callEngine_steady eng _ b ?_).toCalm
      rw [answer]
      trivial
    obtain ⟨h₂, -, hl₂⟩ := goLive_facts eng (b.callEngine eng (.init i)).2
    obtain ⟨h₃, -, hq₃⟩ := startLoop_facts eng ((b.callEngine eng (.init i)).2.goLive eng)
    exact plain (h₁.trans (h₂.trans h₃)) (by rw [hq₃, hl₂, callEngine_loop, hq])
  | stopped i go idle answer =>
    obtain ⟨-, h₁, -, -⟩ := stopLoop_facts (b.callEngine eng (.init i)).2
    obtain ⟨h₂, -, -⟩ := goLive_facts eng (b.callEngine eng (.init i)).2.stopLoop.2
    obtain ⟨h₃, -, -⟩ :=
      startLoop_facts eng ((b.callEngine eng (.init i)).2.stopLoop.2.goLive eng)
    obtain ⟨hs, he, -⟩ :=
      (h₁.trans (h₂.trans (h₃.trans (finishStop_facts eng _).1))).log
    refine iff_of_true (begun_ended eng i go).quit ⟨i, ?_⟩
    rw [he, callEngine_log, answer]
    simp

/-- **A piece before the stop,** after the entries `opening`: it stops the bridge exactly if its
entries say so, and then the registry is empty and nothing more will be announced. -/
structure MayStop (opening : List (Entry σ)) (p : Piece σ) : Prop where
  quit : p.1.loop.quit = true ↔ Stopped opening ∨ Stops p.1.log
  empty : p.1.loop.quit = true → p.1.registry.devices = []
  brief : p.1.loop.quit = true → Brief p

theorem mayStop_of_moves {E : String → DeviceUpdate → Prop} {opening : List (Entry σ)} {p : Piece σ}
    (hl : b.log = []) (hq : b.loop.quit = false) (ho : ¬ Stopped opening)
    (h : Moves eng E b p.1) : MayStop opening p := by
  have hgo : ¬ p.1.loop.quit = true := by
    rw [h.quit, hq]
    exact nofun
  refine ⟨iff_of_false hgo ?_, fun hq' => absurd hq' hgo, fun hq' => absurd hq' hgo⟩
  obtain ⟨hs, he, hp⟩ := h.log
  rw [hl, List.nil_append] at he
  rw [he]
  rintro (h | ⟨i, hi⟩)
  · exact ho h
  · exact absurd (hp _ hi) nofun

theorem perform_before_stop (installed : Category → Bool) (c : Command σ) (hl : b.log = [])
    (hq : b.loop.quit = false) : MayStop [.called c] (b.perform eng installed c) := by
  by_cases hlife : c.IsLife
  · refine ⟨?_, fun hq' => ?_, fun _ => perform_brief installed hlife.not_isCycle⟩
    · rw [stopped_singleton]
      cases c with
      | start identity =>
        exact ((start_started eng identity).stops hl hq).trans (or_iff_right nofun).symm
      | stop => exact iff_of_true (stop_quit eng b) (Or.inl rfl)
      | dispose => exact iff_of_true (stop_quit eng b) (Or.inl rfl)
      | _ => exact hlife.elim
    · rcases life_clears eng installed hlife b with ⟨hsame, -⟩ | ⟨-, -, hr⟩
      · rw [hsame, hq] at hq'
        cases hq'
      · rw [hr]
        rfl
  · have hopen : ¬ Stopped [.called c] := by
      rw [stopped_singleton]
      cases c with
      | start identity => exact absurd trivial hlife
      | stop => exact absurd trivial hlife
      | dispose => exact absurd trivial hlife
      | _ => simp [abandons]
    exact mayStop_of_moves hl hq hopen (perform_moves eng (E := fun _ _ => True) installed hlife
      (fun i a _ => free_any.byHand i a) (free_any.admits b)).moves

theorem proceed_before_stop (eng : Engine σ) (rest : Rest) (hl : b.log = [])
    (hq : b.loop.quit = false) : MayStop [] (b.proceed rest) := by
  exact mayStop_of_moves hl hq (by simp [Stopped])
    (proceed_moves eng (free_any.announces rest) (free_any.admits b)).moves

end Pieces

/-! ### Runs -/

/-- What may be registered after a stop. -/
def MayReturn (eng : Engine σ) (m : Machine σ) (n : ℕ) (identifier : String) : Prop :=
  RegisteredAfterStop (m.run (system eng) n).trace identifier ∨ LeftOver eng m n identifier

/-- **What a run keeps as to its end,** after `n` steps. -/
structure Final (eng : Engine σ) (m : Machine σ) (n : ℕ) : Prop where
  quit : (m.run (system eng) n).state.loop.quit = true ↔ Stopped (m.run (system eng) n).trace
  devices : Stopped (m.run (system eng) n).trace →
    ∀ d ∈ (m.run (system eng) n).state.registry.devices, MayReturn eng m n d.identifier
  rests : Stopped (m.run (system eng) n).trace →
    ∀ a d, .rest a d ∈ (m.run (system eng) n).stack →
      Announces (fun i _ => MayReturn eng m n i) a

section Run
variable {eng : Engine σ} {m : Machine σ} {n : ℕ}

theorem MayReturn.succ {i : String} (hs : Dispatch.Machine.Stacked m.stack)
    (h : MayReturn eng m n i) : MayReturn eng m (n + 1) i := by
  rcases h with h | ⟨k, hk, h⟩
  · obtain ⟨es, he⟩ := Dispatch.Machine.run_trace_mono (system eng) hs (Nat.le_succ n)
    unfold MayReturn
    rw [← he]
    exact Or.inl h.append
  · exact Or.inr ⟨k, by omega, h⟩

theorem Announces.imp {E E' : String → DeviceUpdate → Prop} (h : ∀ i u, E i u → E' i u)
    {rest : Rest} (hr : Announces E rest) : Announces E' rest := by
  cases rest with
  | announce t found serials source text e => exact fun s hs secure => h _ _ (hr s hs secure)
  | _ => trivial

theorem not_abandons_closing {c : Command σ} {o : Dispatch.Outcome Rest Reply}
    {h : Option HandlerName} : abandons (o.closing c h : Entry σ) = false := by
  cases o <;> rfl

theorem stopped_entries {c : Command σ} {p : Piece σ} {h : Option HandlerName} :
    Stopped (entries c p h) ↔ Stops p.1.log := by
  unfold entries
  rw [stopped_append, stopped_of_happened]
  simp [Stopped, not_abandons_closing]

/-- The announcements that wait after a step may bring back their devices. -/
theorem Final.waiting (hm : Final eng m n) (hs : Dispatch.Machine.Stacked m.stack)
    (h : Stopped (m.run (system eng) (n + 1)).trace) {a : Rest} {d : Bool}
    (ha : .rest a d ∈ (m.run (system eng) n).stack) :
    Announces (fun i _ => MayReturn eng m (n + 1) i) a := by
  by_cases hn : Stopped (m.run (system eng) n).trace
  · exact (hm.rests hn a d ha).imp fun i _ hi => hi.succ hs
  · cases a with
    | announce t found serials source text e =>
      exact fun i hi _ => Or.inr ⟨n, by omega, hn, h, t, found, serials, source, text, e, d, ha, hi⟩
    | _ => trivial

/-- **A piece of a command,** which begins after `n` steps. -/
theorem Final.piece {c : Command σ} {p : Piece σ} {h : Option HandlerName}
    (opening : List (Entry σ)) (hm : Final eng m n) (hs : Dispatch.Machine.Stacked m.stack)
    (state : (m.run (system eng) (n + 1)).state = { p.1 with log := [] })
    (trace : (m.run (system eng) (n + 1)).trace =
      (m.run (system eng) n).trace ++ (opening ++ entries c p h))
    (rests : ∀ a d, .rest a d ∈ (m.run (system eng) (n + 1)).stack →
      .rest a d ∈ (m.run (system eng) n).stack ∨ ∃ n, p.2 = .notify n a)
    (after : Stopped (m.run (system eng) n).trace →
      EntersOnly (MayReturn eng m (n + 1)) p)
    (before : (m.run (system eng) n).state.loop.quit = false → MayStop opening p) :
    Final eng m (n + 1) := by
  have hiff : Stopped (m.run (system eng) (n + 1)).trace ↔
      Stopped (m.run (system eng) n).trace ∨ Stopped opening ∨ Stops p.1.log := by
    rw [trace, stopped_append, stopped_append, stopped_entries]
  have hreg : (m.run (system eng) (n + 1)).state.registry = p.1.registry := by rw [state]
  have hloop : (m.run (system eng) (n + 1)).state.loop = p.1.loop := by rw [state]
  cases hq : (m.run (system eng) n).state.loop.quit with
  | true =>
    have hstop := hm.quit.mp hq
    have hp := after hstop
    refine ⟨?_, fun _ => by rw [hreg]; exact hp.devices, fun hst a d ha => ?_⟩
    · rw [hloop]
      exact iff_of_true hp.quit (hiff.mpr (Or.inl hstop))
    · rcases rests a d ha with ha | ⟨n', hout⟩
      · exact hm.waiting hs hst ha
      · exact hp.rests n' a hout
  | false =>
    have hp := before hq
    have hgo : ¬ Stopped (m.run (system eng) n).trace := fun hst => by
      rw [hm.quit.mpr hst] at hq
      cases hq
    have hquit : (m.run (system eng) (n + 1)).state.loop.quit = true ↔
        Stopped (m.run (system eng) (n + 1)).trace := by
      rw [hiff, or_iff_right hgo, hloop]
      exact hp.quit
    refine ⟨hquit, fun hst => ?_, fun hst a d ha => ?_⟩
    · rw [hreg, hp.empty (by rw [← hloop]; exact hquit.mpr hst)]
      exact nofun
    · rcases rests a d ha with ha | ⟨n', hout⟩
      · exact hm.waiting hs hst ha
      · obtain ⟨r, rfl⟩ := hp.brief (by rw [← hloop]; exact hquit.mpr hst) n' a hout
        trivial

/-- **One step.** -/
theorem final_step (hs : Dispatch.Machine.Stacked m.stack) (hl : m.state.log = [])
    (ho : Orderly m.state) (hm : Final eng m n) : Final eng m (n + 1) := by
  have hrun := Dispatch.Machine.run_succ (system eng) n m
  have hlog := use_log (use_run eng m n) hs hl
  have hord := (orderly_kept eng).use (use_run eng m n) hs ho
  have hold : Stopped (m.run (system eng) n).trace →
      ∀ d ∈ (m.run (system eng) n).state.registry.devices, MayReturn eng m (n + 1) d.identifier :=
    fun h d hd => (hm.devices h d hd).succ hs
  cases Dispatch.Machine.step_advance (system eng) (Dispatch.Machine.stacked_run _ hs n) with
  | aside es state trace asides rests =>
    rw [← hrun] at state trace rests
    have hes : ¬ Stopped es := by
      rintro ⟨x, hx, ha⟩
      have := asides x hx
      unfold abandons at ha
      split at ha
      · exact this.elim
      · exact this.elim
      · exact this.elim
      · cases ha
    have hiff : Stopped (m.run (system eng) (n + 1)).trace ↔
        Stopped (m.run (system eng) n).trace := by
      rw [trace, stopped_append, or_iff_left hes]
    exact ⟨by rw [state, hiff]; exact hm.quit, fun h => by rw [state]; exact hold (hiff.mp h),
      fun h a d ha => hm.waiting hs h (rests a d ha)⟩
  | start c hn p next below stack piece state trace rests =>
    rw [← hrun] at state trace rests
    subst piece
    exact hm.piece [.called c] hs state trace rests
      (fun h => perform_after_stop _ c hord (hm.quit.mpr h)
        (fun i a hc => Or.inl ⟨_, a, _, by rw [trace, hc], h⟩) (hold h))
      fun hq => perform_before_stop _ c hlog hq
  | proceed a d c hn p below stack piece state trace rests =>
    rw [← hrun] at state trace rests
    subst piece
    exact hm.piece [] hs state trace rests
      (fun h => proceed_after_stop eng hord (hm.quit.mpr h)
        ((hm.rests h a d (by rw [stack]; simp)).imp fun _ _ hi => hi.succ hs) (hold h))
      fun hq => proceed_before_stop eng a hlog hq

/-- **A run keeps what it keeps as to its end.** -/
theorem final_run (hs : Dispatch.Machine.Stacked m.stack) (hl : m.state.log = [])
    (ho : Orderly m.state) (hm : Final eng m 0) (n : ℕ) : Final eng m n := by
  induction n with
  | zero => exact hm
  | succ n ih => exact final_step hs hl ho ih

end Run

/-- **What is left after a stop,** when `n` steps of a run have been made. -/
structure Finality (eng : Engine σ) (m : Machine σ) (n : ℕ) : Prop where
  /-- Nothing is pending any more. -/
  pending : Stopped (m.run (system eng) n).trace →
    (m.run (system eng) n).state.correlator.count = 0
  /-- A device that is known was registered after the stop, or was still to be announced then. -/
  devices : Stopped (m.run (system eng) n).trace →
    ∀ i ∈ (m.run (system eng) n).state.registry.identifiers,
      RegisteredAfterStop (m.run (system eng) n).trace i ∨ LeftOver eng m n i
  /-- So no device is known as long as nobody registers one, if no announcement was interrupted. -/
  empty : Stopped (m.run (system eng) n).trace →
    (∀ i, ¬ RegisteredAfterStop (m.run (system eng) n).trace i) → (∀ i, ¬ LeftOver eng m n i) →
      (m.run (system eng) n).state.registry.count = 0

/-- **What a stop leaves behind,** in every run of a program on a new bridge, wherever in it the
bridge is told to stop. -/
theorem registry_after_stop {settings : Settings} {engine : σ} {b : Bridge σ} (eng : Engine σ)
    (hb : make settings engine = .ok b) (p : Program σ) (n : ℕ) :
    Finality eng (Dispatch.Machine.load { state := b } p) n := by
  have ho := orderly_make hb
  obtain ⟨hl, hq⟩ : b.log = [] ∧ b.loop.quit = false := by
    rw [make_eq_ok hb]
    exact ⟨rfl, rfl⟩
  have hstart : ¬ Stopped ([] : List (Entry σ)) := by simp [Stopped]
  have hfirst : Final eng (Dispatch.Machine.load { state := b } p) 0 :=
    ⟨iff_of_false (by simp [Dispatch.Machine.run, Dispatch.Machine.load, hq]) hstart,
      fun h => absurd h hstart, fun h => absurd h hstart⟩
  have hst : Dispatch.Machine.Stacked
    (Dispatch.Machine.load { state := b } p : Machine σ).stack := trivial
  have hm := final_run hst hl ho hfirst n
  have hord := (orderly_kept eng).use (use_run eng _ n) hst ho
  have hdev := hm.devices
  refine ⟨fun h => ?_, fun h i hi => ?_, fun h hreg hleft => ?_⟩
  · rw [Correlator.count, hord.empty (hm.quit.mpr h)]
    rfl
  · obtain ⟨d, hd, rfl⟩ := List.mem_map.mp hi
    exact hdev h d hd
  · refine List.length_eq_zero_iff.mpr (List.eq_nil_iff_forall_not_mem.mpr fun d hd => ?_)
    exact (hdev h d hd).elim (hreg _) (hleft _)

/-- Whether the device is still to be announced at a frame. -/
def announces (identifier : String) : Dispatch.Frame (Command σ) Rest Reply → Bool
  | .rest (.announce _ _ serials ..) _ => decide (identifier ∈ serials)
  | _ => false

theorem leftOver_of_announces {eng : Engine σ} {m : Machine σ} {n k : ℕ} {i : String} (hk : k < n)
    (hgo : (m.run (system eng) k).trace.any abandons = false)
    (hstop : (m.run (system eng) (k + 1)).trace.any abandons = true)
    (hi : (m.run (system eng) k).stack.any (announces i) = true) : LeftOver eng m n i := by
  obtain ⟨f, hf, hi⟩ := List.any_eq_true.mp hi
  refine ⟨k, hk, ?_, stopped_iff_any.mpr hstop, ?_⟩
  · rw [stopped_iff_any, hgo]
    simp
  · unfold announces at hi
    split at hi
    · exact ⟨_, _, _, _, _, _, _, hf, of_decide_eq_true hi⟩
    · cases hi

section Demo

/-- A program with a handler that stops the bridge as soon as it hears of a device. -/
def stopAtFirstDevice : Program Bench.ScriptedEngine :=
  .install [.stateChanged] (.mk "stopper" fun _ _ => .command .stop fun _ => .done) fun _ =>
    .command (.start none) fun _ => .command .discoverDefault fun _ => .command .poll fun _ => .done

/-- An engine that reports a discovery reply with two devices. -/
def twoDevices : Bench.ScriptedEngine :=
  { batches := [[.discoveryReply (.after 0)
      (Utf8.encode "<>;ep=urn:knx:sn.A,<>;ep=urn:knx:sn.B") (.unicast "fe80::1")]] }

/-- The run of the program with that engine, whose owner drives it. -/
def stoppedAmidReply (b : Bridge Bench.ScriptedEngine) (n : ℕ) : Machine Bench.ScriptedEngine :=
  (Dispatch.Machine.load { state := b } stopAtFirstDevice : Machine _).run
    (system Bench.ScriptedEngine.engine) n

/-- Whether a device is registered by hand at an entry. -/
def registers : Entry σ → Bool
  | .called (.register _ _) => true
  | _ => false

theorem not_registeredAfterStop {tr : List (Entry σ)} (h : tr.any registers = false) (i : String) :
    ¬ RegisteredAfterStop tr i := by
  rintro ⟨pre, address, post, rfl, -⟩
  rw [List.any_append, List.any_cons, Bool.or_eq_false_iff, Bool.or_eq_false_iff] at h
  exact absurd h.2.1 nofun

/-- The handler stops the bridge when it hears of the device `A`; the device `B`, which was still to
be announced, is registered after that and stays. -/
theorem registry_after_stop_amid_reply :
    ∃ b, make { threading := .cooperative } twoDevices = .ok b ∧
      Finality Bench.ScriptedEngine.engine
        (Dispatch.Machine.load { state := b } stopAtFirstDevice) 12 ∧
      LeftOver Bench.ScriptedEngine.engine
        (Dispatch.Machine.load { state := b } stopAtFirstDevice) 12 "B" ∧
      (stoppedAmidReply b 12).state.registry.identifiers = ["B"] := by
  have hb : make { threading := .cooperative } twoDevices = .ok _ := rfl
  refine ⟨_, hb, registry_after_stop _ hb _ _, ?_, by decide +kernel⟩
  refine leftOver_of_announces (k := 4) (by omega) ?_ ?_ ?_
  · decide +kernel
  · decide +kernel
  · decide +kernel

/-- **A stop is not final for the registry:** after a run in which the bridge is stopped and no
device is registered by hand, a device is known. -/
theorem stop_not_final :
    ∃ b, make { threading := .cooperative } twoDevices = .ok b ∧
      (stoppedAmidReply b 12).stack = [] ∧ Stopped (stoppedAmidReply b 12).trace ∧
      (∀ i, ¬ RegisteredAfterStop (stoppedAmidReply b 12).trace i) ∧
      (stoppedAmidReply b 12).state.registry.count = 1 := by
  refine ⟨_, rfl, List.isEmpty_iff.mp (by decide +kernel), stopped_iff_any.mpr (by decide +kernel),
    not_registeredAfterStop (by decide +kernel), by decide +kernel⟩

end Demo

end KnxIoT.Bridge
