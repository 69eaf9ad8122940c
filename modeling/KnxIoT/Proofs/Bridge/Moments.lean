import KnxIoT.Proofs.Bridge.Runs

/-! # The moments at which events are handled

A poll cycle handles one event after the other, so a step of a run has several moments at which an
event is handled. `moments` lists those of a step with the bridge as it is then. `Cycle` says how
they hang together and what the last one comes to; draining the queue goes that way
(`cycle_handlings`), and a step leaves what its moments come to (`carried_of_mem`). In a run there
is a moment for every event that the trace has taken (`exists_handledAt`), and what is pending then
is what the trace before says (`HandledAt.facts`). -/

namespace KnxIoT.Bridge

variable {σ : Type}

/-- A moment at which an event is handled. -/
structure Moment (σ : Type) where
  /-- What had happened before the event was taken from the queue. -/
  past : List (Entry σ)
  /-- The event. -/
  event : EngineEvent
  /-- How the poll cycle is going to end. -/
  finish : CycleEnd
  /-- The bridge, with the event taken from its queue. -/
  bridge : Bridge σ

/-- What handling the event makes of the bridge, and who is told. -/
def Moment.outcome (M : Moment σ) : Bridge σ × Option (Notification × Rest) :=
  M.bridge.handle M.event M.finish

/-- The moments of a poll cycle that handles the given events, until somebody is told; `past` is
what had happened before the log of the bridge began. -/
def handlings (past : List (Entry σ)) (e : CycleEnd) : List EngineEvent → Bridge σ → List (Moment σ)
  | [], _ => []
  | ev :: rest, b =>
    let b' := { b.note [.taken ev] with queue := { b.queue with events := rest } }
    ⟨past ++ b.log.map .happened, ev, e, b'⟩ ::
      match b'.handle ev e with
      | (_, some _) => []
      | (b, none) => handlings past e rest b

/-- The cycle that a command runs, if it runs one: its end, and the bridge after the engine went
on. -/
def cycle? (eng : Engine σ) (c : Command σ) (b : Bridge σ) : Option (CycleEnd × Bridge σ) :=
  let (next, b') := b.callEngine eng .poll
  match c with
  | .poll =>
    if b.loop.isRunning ∧ b.settings.threading ≠ .worker ∧ b.phase = .live then
      some (.reply (.deadline (.ok next)), b')
    else none
  | .cycle => if !b.loop.quit ∧ b.phase = .live then some (.wait next, b') else none
  | _ => none

/-- **The moments of the next step** at which events are handled. -/
def moments (eng : Engine σ) (m : Machine σ) : List (Moment σ) :=
  match m.stack with
  | .run (.command c _) :: _ =>
    match cycle? eng c m.state with
    | some (e, b) => handlings (m.trace ++ [.called c]) e b.queue.events b
    | none => []
  | .rest (.drain e) _ :: _ => handlings m.trace e m.state.queue.events m.state
  | _ => []

/-! ### How a cycle goes -/

/-- The moment at which a bridge takes `ev` from its queue and leaves `rest` in it. -/
def moment (past : List (Entry σ)) (e : CycleEnd) (ev : EngineEvent) (rest : List EngineEvent)
    (b : Bridge σ) : Moment σ :=
  ⟨past ++ b.log.map .happened, ev, e, b.taking ev rest⟩

@[simp] theorem moment_event (past : List (Entry σ)) (e : CycleEnd) (ev : EngineEvent)
    (rest : List EngineEvent) (b : Bridge σ) : (moment past e ev rest b).event = ev := rfl

/-- **How a poll cycle goes** on a bridge, through its moments to the piece that it comes to. What
the handling of an event leaves is the bridge that takes the next one. -/
inductive Cycle (past : List (Entry σ)) (e : CycleEnd) :
    Bridge σ → List (Moment σ) → Piece σ → Prop
  /-- No event is left. -/
  | ended {b : Bridge σ} (queue : b.queue.events = []) : Cycle past e b [] (b.endCycle e)
  /-- Somebody is told of an event, and the cycle stops there. -/
  | told {b b' : Bridge σ} {ev : EngineEvent} {rest : List EngineEvent} {n : Notification}
      {r : Rest} (queue : b.queue.events = ev :: rest)
      (outcome : (moment past e ev rest b).outcome = (b', some (n, r))) :
      Cycle past e b [moment past e ev rest b] (b', .notify n r)
  /-- Nobody is told of an event, and the cycle goes on with the next one. -/
  | untold {b b' : Bridge σ} {ev : EngineEvent} {rest : List EngineEvent} {Ms : List (Moment σ)}
      {p : Piece σ} (queue : b.queue.events = ev :: rest)
      (outcome : (moment past e ev rest b).outcome = (b', none)) (next : Cycle past e b' Ms p) :
      Cycle past e b (moment past e ev rest b :: Ms) p

section Cycle
variable {s : Settings} {past : List (Entry σ)} {e : CycleEnd} {b b' : Bridge σ}
  {ev : EngineEvent} {rest : List EngineEvent} {Ms : List (Moment σ)} {p : Piece σ}

theorem handlings_cons (past : List (Entry σ)) (e : CycleEnd) (ev : EngineEvent)
    (rest : List EngineEvent) (b : Bridge σ) : handlings past e (ev :: rest) b =
      moment past e ev rest b ::
      match (b.taking ev rest).handle ev e with
      | (_, some _) => []
      | (b, none) => handlings past e rest b := rfl

/-- **Draining the queue is a cycle through its moments.** -/
theorem cycle_handlings (past : List (Entry σ)) (e : CycleEnd) : ∀ (events : List EngineEvent)
    (b : Bridge σ), b.queue.events = events →
      Cycle past e b (handlings past e events b) (drainFrom e events b)
  | [], b, hq => .ended hq
  | ev :: rest, b, hq => by
    rw [handlings_cons, drainFrom_cons]
    rcases hh : (b.taking ev rest).handle ev e with ⟨b', _ | ⟨n, r⟩⟩
    · have hrest : b'.queue.events = rest := by rw [eq_of_untold hh]; rfl
      exact .untold hq hh (cycle_handlings past e rest b' hrest)
    · exact .told hq hh

theorem eq_of_outcome (h : (moment past e ev rest b).outcome = (b', none)) :
    b' = { b.taking ev rest with correlator := b.correlator.settle ev } :=
  eq_of_untold h

theorem log_of_untold (h : (moment past e ev rest b).outcome = (b', none)) :
    b'.log = b.log ++ [.taken ev] := by
  rw [eq_of_outcome h, taking_log]

theorem log_of_told {t : Notification × Rest}
    (h : (moment past e ev rest b).outcome = (b', some t)) :
    ∃ hs, b'.log = b.log ++ .taken ev :: hs ∧ ∀ x ∈ hs, ∃ u k, x = .discovered u k := by
  obtain ⟨registry, hs, hf, hp⟩ := handle_frame e ev (b.taking ev rest)
  have hb' : b' = ((b.taking ev rest).handle ev e).1 := (congrArg Prod.fst h).symm
  exact ⟨hs, by rw [hb', hf]; simp, hp⟩

theorem endCycle_log (e : CycleEnd) (b : Bridge σ) : (b.endCycle e).1.log = b.log := by
  rw [(endCycle_drained (s := b.settings) e b).log, List.append_nil]

theorem Cycle.log_mono (h : Cycle past e b Ms p) : b.log <+: p.1.log := by
  induction h with
  | ended _ => exact (endCycle_log _ _).symm ▸ List.prefix_refl _
  | told _ outcome =>
    obtain ⟨hs, hlog, -⟩ := log_of_told outcome
    exact ⟨_, hlog.symm⟩
  | untold _ outcome _ ih =>
    rw [log_of_untold outcome] at ih
    exact (List.prefix_append _ _).trans ih

/-- **What is so at a moment of a cycle:** the event is the next entry, and what is pending is what
the entries before say. -/
theorem Cycle.at_moment (h : Cycle past e b Ms p) {M : Moment σ} (hM : M ∈ Ms) : ∃ hs,
    M.past = past ++ (b.log ++ hs).map .happened ∧
      b.log ++ hs ++ [.taken M.event] <+: p.1.log ∧
      M.bridge.correlator.find? = replay s b.correlator.find? (hs.map .happened : List (Entry σ)) ∧
      M.bridge.settings = b.settings := by
  induction h with
  | ended _ => cases hM
  | @told b b' ev rest n r queue outcome =>
    obtain rfl := List.mem_singleton.mp hM
    obtain ⟨hs, hlog, -⟩ := log_of_told outcome
    have hpre : b.log ++ [.taken ev] <+: b'.log := ⟨hs, by rw [hlog]; simp⟩
    exact ⟨[], by simp [moment], by simpa using hpre, rfl, rfl⟩
  | @untold b b' ev rest Ms p queue outcome next ih =>
    have hlog := log_of_untold outcome
    rcases List.mem_cons.mp hM with rfl | hM
    · have hpre := next.log_mono
      rw [hlog] at hpre
      exact ⟨[], by simp [moment], by simpa using hpre, rfl, rfl⟩
    · obtain ⟨hs, hpast, hpre, hfind, hset⟩ := ih hM
      rw [hlog] at hpast hpre
      refine ⟨.taken ev :: hs, by simpa using hpast, by simpa using hpre, ?_, ?_⟩
      · rw [List.map_cons, ← List.singleton_append, replay_append, replay_taken, hfind,
          eq_of_outcome outcome]
      · rw [hset, eq_of_outcome outcome, taking_settings]

/-- **Every event that a cycle takes is handled at one of its moments.** -/
theorem Cycle.exists_moment (h : Cycle past e b Ms p) {i : ℕ} {ev : EngineEvent}
    (hi : b.log.length ≤ i) (hev : p.1.log[i]? = some (.taken ev)) :
    ∃ M ∈ Ms, M.event = ev ∧ M.past = past ++ (p.1.log.take i).map .happened := by
  induction h with
  | ended _ =>
    rw [endCycle_log, List.getElem?_eq_none hi] at hev
    cases hev
  | @told b b' ev' rest n r queue outcome =>
    obtain ⟨hs, hlog, hp⟩ := log_of_told outcome
    dsimp only at hev ⊢
    rw [hlog, List.getElem?_append_right hi] at hev
    by_cases hib : i = b.log.length
    · subst hib
      simp only [Nat.sub_self, List.getElem?_cons_zero, Option.some.injEq,
        Happening.taken.injEq] at hev
      exact ⟨_, List.mem_singleton_self _, hev, by simp [hlog, moment]⟩
    · rw [List.getElem?_cons, if_neg (by omega)] at hev
      obtain ⟨t, k, heq⟩ := hp _ (List.mem_of_getElem? hev)
      cases heq
  | @untold b b' ev' rest Ms p queue outcome next ih =>
    have hlog := log_of_untold outcome
    by_cases hib : i = b.log.length
    · subst hib
      obtain ⟨more, hmore⟩ := next.log_mono
      rw [hlog] at hmore
      rw [← hmore] at hev ⊢
      simp only [List.append_assoc, List.singleton_append, List.getElem?_append_right,
        Nat.le_refl, Nat.sub_self, List.getElem?_cons_zero, Option.some.injEq,
        Happening.taken.injEq] at hev
      exact ⟨_, List.mem_cons_self, hev, by simp [moment]⟩
    · have hlt : b'.log.length ≤ i := by
        rw [hlog, List.length_append, List.length_singleton]
        omega
      obtain ⟨M, hM, hevent, hpast⟩ := ih hlt hev
      exact ⟨M, List.mem_cons_of_mem _ hM, hevent, hpast⟩

end Cycle

/-! ### The moments of a step -/

section Step
variable {eng : Engine σ} {s : Settings}

theorem system_start_events (installed : Category → Bool) (c : Command σ) (b : Bridge σ) :
    ((system eng).start installed c b).events = (b.perform eng installed c).1.log := rfl

theorem system_proceed_events (rest : Rest) (delivered : Bool) (b : Bridge σ) :
    ((system eng).proceed rest delivered b).events = (b.proceed rest).1.log := rfl

theorem proceed_drain (e : CycleEnd) (b : Bridge σ) :
    b.proceed (.drain e) = drainFrom e b.queue.events b := rfl

theorem perform_of_cycle? (installed : Category → Bool) {c : Command σ} {b b' : Bridge σ}
    {e : CycleEnd} (h : cycle? eng c b = some (e, b')) :
    b.perform eng installed c = drainFrom e b'.queue.events b' ∧
      b' = (b.callEngine eng .poll).2 := by
  unfold cycle? at h
  cases c with
  | poll =>
    simp only [Option.ite_none_right_eq_some, Option.some.injEq, Prod.mk.injEq] at h
    obtain ⟨⟨hr, ht, hp⟩, rfl, rfl⟩ := h
    simp [perform, poll, pollCycle, drain, hr, ht, hp]
  | cycle =>
    simp only [Option.ite_none_right_eq_some, Option.some.injEq, Prod.mk.injEq] at h
    obtain ⟨⟨hq, hp⟩, rfl, rfl⟩ := h
    simp only [Bool.not_eq_true'] at hq
    simp [perform, workerCycle, pollCycle, drain, hq, hp]
  | _ => cases h

theorem notTaken_of_cycle? {installed : Category → Bool} {c : Command σ} {b : Bridge σ}
    (hl : b.log = []) (hs : b.Sound) (hlim : b.correlator.issued < Token.limit)
    (h : cycle? eng c b = none) : ∀ x ∈ (b.perform eng installed c).1.log, NotTaken x := by
  have hend : ∀ e : CycleEnd, ∀ x ∈ (b.endCycle e).1.log, NotTaken x := by
    intro e x hx
    rw [endCycle_log, hl] at hx
    cases hx
  have hlaw : Lawful c [.called c] b (b.perform eng installed c) :=
    perform_lawful installed c hl hs hlim
  rcases hlaw.quiet with hc | hc | hc
  · cases hc
  · unfold cycle? at h
    cases c with
    | poll =>
      simp only [ite_eq_right_iff, reduceCtorEq, imp_false, not_and] at h
      simp only [perform, poll]
      split_ifs with h₁ h₂ h₃
      · simp [hl]
      · simp [hl]
      · simp [hl]
      · simp only [Bool.not_eq_true', Bool.not_eq_false] at h₁
        unfold pollCycle
        rw [if_neg (h h₁ h₃)]
        exact hend _
    | cycle =>
      simp only [ite_eq_right_iff, reduceCtorEq, imp_false, not_and] at h
      simp only [perform, workerCycle]
      split_ifs with h₁
      · exact hend _
      · unfold pollCycle
        rw [if_neg (h (by simpa using h₁))]
        exact hend _
    | _ => exact hc.elim
  · exact hc

theorem taken_in_piece {past : List (Entry σ)} {hs : List Happening} {x : Entry σ} {i : ℕ}
    {ev : EngineEvent} (hx : x ≠ .happened (.taken ev)) (hi : past.length ≤ i)
    (h : (past ++ (hs.map .happened ++ [x]) : List (Entry σ))[i]? = some (.happened (.taken ev))) :
    hs[i - past.length]? = some (.taken ev) ∧
      (past ++ (hs.map .happened ++ [x]) : List (Entry σ)).take i =
        past ++ ((hs.take (i - past.length)).map .happened : List (Entry σ)) := by
  rw [List.getElem?_append_right hi] at h
  have hlt : i - past.length < hs.length := by
    by_contra hge
    rw [List.getElem?_append_right (by simpa using hge)] at h
    exact hx (List.mem_singleton.mp (List.mem_of_getElem? h)).symm
  rw [List.getElem?_append_left (by simpa using hlt), List.getElem?_map] at h
  obtain ⟨y, hy, heq⟩ := Option.map_eq_some_iff.mp h
  cases heq
  refine ⟨hy, ?_⟩
  rw [List.take_append, List.take_of_length_le hi,
    List.take_append_of_le_length (by rw [List.length_map]; omega), ← List.map_take]

theorem closing_ne_happened (o : Dispatch.Outcome Rest Reply) (c : Command σ)
    (h : Option HandlerName) (x : Happening) : (o.closing c h : Entry σ) ≠ .happened x := by
  cases o <;> exact nofun

theorem mem_of_happened {hs : List Happening} {x : Happening} {o : Dispatch.Outcome Rest Reply}
    {c : Command σ} {h : Option HandlerName}
    (hx : .happened x ∈ (hs.map .happened ++ [o.closing c h] : List (Entry σ))) : x ∈ hs := by
  rcases List.mem_append.mp hx with hx | hx
  · obtain ⟨y, hy, heq⟩ := List.mem_map.mp hx
    cases heq
    exact hy
  · exact absurd (List.mem_singleton.mp hx).symm (closing_ne_happened o c h x)

theorem entries_mono (past : List (Entry σ)) {pre hs : List Happening} {x : Happening}
    (y : Entry σ) (h : pre ++ [x] <+: hs) :
    past ++ (pre.map .happened : List (Entry σ)) ++ [.happened x] <+:
      past ++ (hs.map .happened ++ [y]) := by
  obtain ⟨more, rfl⟩ := h
  exact ⟨more.map .happened ++ [y], by simp⟩

/-- **How the next step begins to go through the queue,** after the entries `past` and on the bridge
`b`. A command lets the engine go on first; the rest of a command takes the bridge as it is. -/
inductive Opens (eng : Engine σ) (m : Machine σ) : List (Entry σ) → CycleEnd → Bridge σ → Prop
  | polled {c : Command σ} {next : Reply → Program σ}
      {below : List (Dispatch.Frame (Command σ) Rest Reply)} {e : CycleEnd} {b : Bridge σ}
      (stack : m.stack = .run (.command c next) :: below)
      (cycle : cycle? eng c m.state = some (e, b)) : Opens eng m (m.trace ++ [.called c]) e b
  | resumed {e : CycleEnd} {d : Bool} {below : List (Dispatch.Frame (Command σ) Rest Reply)}
      (stack : m.stack = .rest (.drain e) d :: below) : Opens eng m m.trace e m.state

/-- **The moments of a step are how its cycle goes,** and what the cycle comes to is what the step
leaves: the bridge, with the registry in it, and at the end of the trace the notification or the
reply. -/
def Carried (eng : Engine σ) (m : Machine σ) : Prop :=
  ∃ past e b p, Opens eng m past e b ∧ Cycle past e b (moments eng m) p ∧
    (m.step (system eng)).state = { p.1 with log := [] } ∧
    ∃ c h, (m.step (system eng)).trace = past ++ (p.1.log.map .happened ++ [p.2.closing c h])

variable {m : Machine σ} {past : List (Entry σ)} {e : CycleEnd} {b : Bridge σ}

theorem opens_of_mem {M : Moment σ} (hM : M ∈ moments eng m) : ∃ past e b, Opens eng m past e b := by
  unfold moments at hM
  split at hM
  · next c next below hs =>
    split at hM
    · next e b hc => exact ⟨_, e, b, .polled hs hc⟩
    · cases hM
  · next e d below hs => exact ⟨_, e, _, .resumed hs⟩
  · cases hM

theorem Opens.cycle (h : Opens eng m past e b) :
    Cycle past e b (moments eng m) (drainFrom e b.queue.events b) := by
  have hms : moments eng m = handlings past e b.queue.events b := by
    cases h with
    | polled stack cycle => simp only [moments, stack, cycle]
    | resumed stack => simp only [moments, stack]
  rw [hms]
  exact cycle_handlings past e _ b rfl

/-- **A step that goes through the queue takes over what draining it comes to.** -/
theorem Opens.step (h : Opens eng m past e b) (hs : Dispatch.Machine.Stacked m.stack) :
    (m.step (system eng)).state = { (drainFrom e b.queue.events b).1 with log := [] } ∧
      ∃ c h, (m.step (system eng)).trace =
        past ++ ((drainFrom e b.queue.events b).1.log.map .happened ++
          [(drainFrom e b.queue.events b).2.closing c h]) := by
  cases h with
  | @polled c next below e b stack cycle =>
    obtain ⟨hperf, -⟩ := perform_of_cycle? m.table.isInstalled cycle
    obtain ⟨hd, htrace⟩ := Dispatch.Machine.step_command_trace (system eng) stack
    have hpiece : (system eng).start m.table.isInstalled c m.state =
        takeDown (drainFrom e b.queue.events b) := congrArg takeDown hperf
    rw [hpiece] at htrace
    refine ⟨?_, c, hd, by rw [htrace, List.append_assoc]; rfl⟩
    rw [Dispatch.Machine.step_command (system eng) stack, hpiece]
    exact Dispatch.Machine.settle_state _ _ _ _ _
  | @resumed e d below stack =>
    rw [stack] at hs
    obtain ⟨c, next, below, rfl, -⟩ := Dispatch.Machine.Stacked.exists_await hs
    obtain ⟨hd, htrace⟩ := Dispatch.Machine.step_rest_trace (system eng) stack
    refine ⟨?_, c, hd, htrace⟩
    rw [Dispatch.Machine.step_rest (system eng) stack]
    exact Dispatch.Machine.settle_state _ _ _ _ _

/-- **What is handled at the moments of a step is carried on by the step.** -/
theorem carried_of_mem (hs : Dispatch.Machine.Stacked m.stack) {M : Moment σ}
    (hM : M ∈ moments eng m) : Carried eng m := by
  obtain ⟨past, e, b, ho⟩ := opens_of_mem hM
  exact ⟨past, e, b, _, ho, ho.cycle, ho.step hs⟩

/-- What is so when a cycle begins: no event is taken yet, and what is pending is what the entries
say. -/
theorem Opens.facts (h : Opens eng m past e b) (hm : Coherent s m) :
    (∀ x ∈ b.log, x.IsPlain) ∧ ledger s (past ++ b.log.map .happened) = b.correlator.find? ∧
      b.settings = s := by
  cases h with
  | @polled c next below e b stack cycle =>
    obtain ⟨-, hb⟩ := perform_of_cycle? m.table.isInstalled cycle
    have hst := callEngine_steady eng .poll m.state trivial
    rw [← hb] at hst
    obtain ⟨plain, hlog, hplain⟩ := hst.log
    rw [hm.log, List.nil_append] at hlog
    have hk : b.correlator = m.state.correlator := by rw [hb]; simp
    have hcall : abandons (.called c) = false := by
      unfold cycle? at cycle
      cases c <;> first | rfl | cases cycle
    refine ⟨by rw [hlog]; exact hplain, ?_, by rw [hst.settings, hm.settings]⟩
    rw [hk, ← hm.ledger, hlog]
    unfold ledger
    rw [replay_append, replay_append, replay_of_isPlain hplain, replay_cons, replay_nil,
      post_called hcall]
  | resumed stack => exact ⟨by simp [hm.log], by simpa [hm.log] using hm.ledger, hm.settings⟩

/-- **What is so at a moment of a step:** the event is the next entry of the trace, and what is
pending is what the trace before says. -/
theorem mem_moments (hm : Coherent s m) {M : Moment σ} (hM : M ∈ moments eng m) :
    M.past ++ [.happened (.taken M.event)] <+: (m.step (system eng)).trace ∧
      M.bridge.correlator.find? = ledger s M.past ∧ M.bridge.settings = s := by
  obtain ⟨past, e, b, ho⟩ := opens_of_mem hM
  obtain ⟨hs, hpast, hpre, hfind, hset⟩ := ho.cycle.at_moment (s := s) hM
  obtain ⟨-, c, hd, htrace⟩ := ho.step hm.stacked
  obtain ⟨-, hledger, hsettings⟩ := ho.facts hm
  refine ⟨?_, ?_, hset.trans hsettings⟩
  · rw [htrace, hpast]
    exact entries_mono past _ hpre
  · rw [hfind, ← hledger, hpast, List.map_append, ← List.append_assoc]
    exact (replay_append _ _ _).symm

theorem Opens.exists_moment (h : Opens eng m past e b) (hm : Coherent s m) {i : ℕ}
    {ev : EngineEvent} (hi : m.trace.length ≤ i)
    (hev : (m.step (system eng)).trace[i]? = some (.happened (.taken ev))) :
    ∃ M ∈ moments eng m, M.event = ev ∧ M.past = (m.step (system eng)).trace.take i := by
  obtain ⟨-, c, hd, htrace⟩ := h.step hm.stacked
  rw [htrace] at hev ⊢
  have hpast : past.length ≤ i := by
    cases h with
    | @polled c _ _ _ b _ _ =>
      have hne : m.trace.length ≠ i := by
        rintro rfl
        simp at hev
      rw [List.length_append, List.length_singleton]
      omega
    | resumed _ => exact hi
  obtain ⟨hlog, htake⟩ := taken_in_piece (closing_ne_happened _ _ _ _) hpast hev
  have hlen : b.log.length ≤ i - past.length := by
    by_contra hlt
    obtain ⟨more, hmore⟩ := h.cycle.log_mono
    rw [← hmore, List.getElem?_append_left (by omega)] at hlog
    exact (h.facts hm).1 _ (List.mem_of_getElem? hlog)
  rw [htake]
  exact h.cycle.exists_moment hlen hlog

/-- **Every event that a step takes is handled at one of its moments.** -/
theorem exists_moment (hm : Coherent s m) (hlim : m.state.correlator.issued < Token.limit) {i : ℕ}
    {ev : EngineEvent} (hi : m.trace.length ≤ i)
    (h : (m.step (system eng)).trace[i]? = some (.happened (.taken ev))) :
    ∃ M ∈ moments eng m, M.event = ev ∧ M.past = (m.step (system eng)).trace.take i := by
  -- Only a step that opens a cycle takes events.
  by_cases ho : ∃ past e b, Opens eng m past e b
  · obtain ⟨past, e, b, ho⟩ := ho
    exact ho.exists_moment hm hi h
  exfalso
  cases Dispatch.Machine.step_advance (system eng) hm.stacked with
  | aside es state trace asides rests =>
    rw [trace, List.getElem?_append_right hi] at h
    exact asides _ (List.mem_of_getElem? h)
  | start c hd p next below stack piece state trace rests =>
    rw [trace, List.getElem?_append_right hi] at h
    have htaken := mem_of_happened ((List.mem_cons.mp (List.mem_of_getElem? h)).resolve_left nofun)
    rw [piece, system_start_events] at htaken
    cases hc : cycle? eng c m.state with
    | some eb => exact ho ⟨_, _, _, .polled stack hc⟩
    | none => exact notTaken_of_cycle? hm.log hm.sound hlim hc _ htaken ev rfl
  | proceed a d c hd p below stack piece state trace rests =>
    rw [trace, List.getElem?_append_right hi] at h
    have htaken := mem_of_happened (List.mem_of_getElem? h)
    rw [piece, system_proceed_events] at htaken
    cases a with
    | drain e => exact ho ⟨_, _, _, .resumed stack⟩
    | reply r =>
      have hlog : (m.state.proceed (.reply r)).1.log = [] := hm.log
      rw [hlog] at htaken
      cases htaken
    | announce t found serials source text e =>
      obtain ⟨registry, hs', hf, hp⟩ := announce_frame t source text e serials found m.state
      have hlog : (m.state.proceed (.announce t found serials source text e)).1.log = hs' := by
        simp [proceed, hf, hm.log]
      rw [hlog] at htaken
      obtain ⟨k, heq⟩ := hp _ htaken
      cases heq

end Step

/-! ### The moments of a run -/

/-- The event at position `j` of the trace after `n` steps is handled at the moment `M`. -/
def HandledAt (eng : Engine σ) (m : Machine σ) (n j : ℕ) (M : Moment σ) : Prop :=
  j = M.past.length ∧ ∃ k < n, M ∈ moments eng (m.run (system eng) k)

section Run
variable {eng : Engine σ} {s : Settings} {m : Machine σ} {n : ℕ}

/-- **What is so at a moment of a run:** the event stands in the trace at its position, and what is
pending is what the trace before says. -/
theorem HandledAt.facts (hm : Coherent s m)
    (hlim : (m.run (system eng) n).state.correlator.issued < Token.limit) {j : ℕ} {M : Moment σ}
    (h : HandledAt eng m n j M) :
    (m.run (system eng) n).trace[j]? = some (.happened (.taken M.event)) ∧
      M.past = (m.run (system eng) n).trace.take j ∧
      M.bridge.correlator.find? = ledger s ((m.run (system eng) n).trace.take j) ∧
      M.bridge.settings = s := by
  obtain ⟨rfl, k, hk, hM⟩ := h
  have hlt : (m.run (system eng) k).state.correlator.issued < Token.limit :=
    Nat.lt_of_le_of_lt (run_issued_le hm.stacked (Nat.le_of_lt hk)) hlim
  obtain ⟨hpre, hfind, hset⟩ := mem_moments (run_coherent hm k hlt) hM
  rw [← Dispatch.Machine.run_succ] at hpre
  obtain ⟨more, hmore⟩ := hpre.trans (Dispatch.Machine.run_trace_mono (system eng) hm.stacked hk)
  have htake : (m.run (system eng) n).trace.take M.past.length = M.past := by
    rw [← hmore]
    simp
  refine ⟨?_, htake.symm, by rw [htake]; exact hfind, hset⟩
  rw [← hmore]
  simp

theorem HandledAt.carried (hs : Dispatch.Machine.Stacked m.stack) {j : ℕ} {M : Moment σ}
    (h : HandledAt eng m n j M) : ∃ k < n, M ∈ moments eng (m.run (system eng) k) ∧
      Carried eng (m.run (system eng) k) := by
  obtain ⟨-, k, hk, hM⟩ := h
  exact ⟨k, hk, hM, carried_of_mem (Dispatch.Machine.stacked_run _ hs k) hM⟩

/-- **Every event that a run takes is handled at a moment of it.** -/
theorem exists_handledAt (hm : Coherent s m)
    (hlim : (m.run (system eng) n).state.correlator.issued < Token.limit) {j : ℕ} {ev : EngineEvent}
    (hj : m.trace.length ≤ j)
    (h : (m.run (system eng) n).trace[j]? = some (.happened (.taken ev))) :
    ∃ M, HandledAt eng m n j M ∧ M.event = ev := by
  induction n with
  | zero =>
    rw [Dispatch.Machine.run, List.getElem?_eq_none hj] at h
    cases h
  | succ n ih =>
    have hlt := Nat.lt_of_le_of_lt (run_issued_le hm.stacked (Nat.le_succ n)) hlim
    rcases Nat.lt_or_ge j (m.run (system eng) n).trace.length with hjn | hjn
    · -- The event was taken before the last step.
      obtain ⟨more, hmore⟩ :=
        Dispatch.Machine.run_trace_mono (system eng) hm.stacked (Nat.le_succ n)
      rw [← hmore, List.getElem?_append_left hjn] at h
      obtain ⟨M, ⟨hpast, k, hk, hM⟩, hev⟩ := ih hlt h
      exact ⟨M, ⟨hpast, k, Nat.lt_succ_of_lt hk, hM⟩, hev⟩
    · have hlen := (List.getElem?_eq_some_iff.mp h).1
      rw [Dispatch.Machine.run_succ] at h hlen
      obtain ⟨M, hM, hev, hpast⟩ := exists_moment (run_coherent hm n hlt) hlt hjn h
      refine ⟨M, ⟨?_, n, Nat.lt_succ_self n, hM⟩, hev⟩
      rw [hpast, List.length_take]
      omega

end Run

end KnxIoT.Bridge
