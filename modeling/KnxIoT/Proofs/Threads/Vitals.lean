import KnxIoT.Proofs.Threads.Frame
import Mathlib.Tactic.Common

/-! # The life of a bridge that several threads use

Of a bridge between two steps only its *vitals* matter for how it lives: the quit flag, the state
of the loop and who holds its lock, the phase of the engine, whether there is a worker, and the
role that each call plays in starting or stopping. Thirteen kinds of events change them (`Event`),
and `Life` is what all of these keep (`Life.event`). A step of the threads is one event or none
(`Step.vitals`), so it keeps `Life` (`Step.alive`). -/

namespace KnxIoT.Threads

variable {σ : Type} {eng : Engine σ}

/-- The part of a call in the life of the bridge. `swapped` and all that come after it belong to the
stop that found the quit flag unset. -/
inductive Role where
  | plain
  | entering
  | reading
  | spawning
  | running
  | releasing
  | swapped
  | joining
  | finishing
  | ending
  | ended
  | abandoned
  deriving DecidableEq

namespace Role

/-- Between the engine's beginning and the loop's. -/
def Starts (r : Role) : Prop := r = entering ∨ r = reading ∨ r = spawning ∨ r = running

/-- Holding the lock of the loop's state. -/
def Holds (r : Role) : Prop := r = reading ∨ r = spawning ∨ r = running

/-- Past the point where the loop lets a start through. -/
def Passed (r : Role) : Prop := r = spawning ∨ r = running

/-- The engine has ended. -/
def EngineDone (r : Role) : Prop := r = ended ∨ r = abandoned

/-- The loop has ended. -/
def LoopDone (r : Role) : Prop := r = ending ∨ r.EngineDone

/-- Ending the bridge, or having ended it. -/
def Stops (r : Role) : Prop := r = swapped ∨ r = joining ∨ r = finishing ∨ r.LoopDone

end Role

/-- The vitals of a bridge. -/
structure Vitals where
  quit : Bool
  state : LoopState
  phase : EnginePhase
  owner : Option ℕ
  worker : Bool
  role : ℕ → Role

namespace Vitals

/-- The vitals after call `n` has changed its role. -/
def assign (v : Vitals) (n : ℕ) (r : Role) : Vitals :=
  { v with role := Function.update v.role n r }

@[grind =] theorem assign_role (v : Vitals) (n m : ℕ) (r : Role) :
    (v.assign n r).role m = if m = n then r else v.role m :=
  Function.update_apply ..

section
variable (v : Vitals) (n : ℕ) (r : Role)

@[grind =] theorem assign_quit : (v.assign n r).quit = v.quit := rfl

@[grind =] theorem assign_state : (v.assign n r).state = v.state := rfl

@[grind =] theorem assign_phase : (v.assign n r).phase = v.phase := rfl

@[grind =] theorem assign_owner : (v.assign n r).owner = v.owner := rfl

@[grind =] theorem assign_worker : (v.assign n r).worker = v.worker := rfl

end

end Vitals

/-- What can happen to the vitals. -/
inductive Event (v : Vitals) : Vitals → Prop
  | begin (n : ℕ) : v.role n = .plain → v.phase = .idle →
      Event v { v.assign n .entering with phase := .live }
  | lock (n : ℕ) : v.role n = .entering → v.owner = none →
      Event v { v.assign n .reading with owner := some n }
  | refuse (n : ℕ) : v.role n = .reading → v.quit = true ∨ v.state ≠ .stopped →
      Event v { v.assign n .releasing with owner := none }
  | pass (n : ℕ) (r : Role) : v.role n = .reading → v.quit = false → v.state = .stopped →
      r = .spawning ∨ r = .running → Event v (v.assign n r)
  | spawn (n : ℕ) : v.role n = .spawning → Event v { v.assign n .running with worker := true }
  | run (n : ℕ) : v.role n = .running →
      Event v { v.assign n .plain with owner := none, state := .running }
  | release (n : ℕ) : v.role n = .releasing → Event v { v.assign n .plain with phase := .released }
  | swap (n : ℕ) : v.role n = .plain → v.quit = false →
      Event v { v.assign n .swapped with quit := true }
  | drain (n : ℕ) : v.role n = .swapped → v.owner = none →
      Event v { v.assign n .joining with state := .draining }
  | join (n : ℕ) : v.role n = .joining → Event v (v.assign n .finishing)
  | finish (n : ℕ) : v.role n = .finishing → v.owner = none →
      Event v { v.assign n .ending with state := .stopped }
  | endEngine (n : ℕ) : v.role n = .ending →
      Event v { v.assign n .ended with phase := .released }
  | abandon (n : ℕ) : v.role n = .ended → Event v (v.assign n .abandoned)

/-- **What every schedule keeps.** -/
structure Life (v : Vitals) : Prop where
  holder : ∀ n, (v.role n).Holds → v.owner = some n
  starter : ∀ n m, (v.role n).Starts → (v.role m).Starts → n = m
  stopper : ∀ n m, (v.role n).Stops → (v.role m).Stops → n = m
  idle : v.phase = .idle → v.worker = false ∧ ∀ n, ¬ (v.role n).Starts
  unused : v.phase = .idle → v.quit = false → v.state = .stopped
  starts : ∀ n, (v.role n).Starts → v.quit = false → v.phase = .live ∧ v.state = .stopped
  spawns : ∀ n, (v.role n).Starts → v.role n ≠ .running → v.worker = false
  works : v.worker = true → v.quit = false →
    v.phase = .live ∧ (v.owner ≠ none ∨ v.state = .running)
  released : v.phase = .released → v.quit = true
  releases : ∀ n, v.role n = .releasing → v.quit = true
  stops : ∀ n, (v.role n).Stops → v.quit = true
  passed : ∀ n m, (v.role n).Passed → (v.role m).Stops → v.role m = .swapped
  loopDone : ∀ n, (v.role n).LoopDone → v.state = .stopped
  engineDone : ∀ n, (v.role n).EngineDone → v.phase = .released

/-! ### Each part of it, after an event

What a part rests on is named first: it is all that the events which touch it need. -/

attribute [local grind =] Role.Starts Role.Holds Role.Passed Role.Stops Role.LoopDone
  Role.EngineDone

namespace Life
variable {v v' : Vitals}

theorem event_holder (h : Life v) (he : Event v v') (n : ℕ) (hn : (v'.role n).Holds) :
    v'.owner = some n := by
  have hholder := h.holder
  cases he <;> grind

theorem event_starter (h : Life v) (he : Event v v') (n m : ℕ) (hn : (v'.role n).Starts)
    (hm : (v'.role m).Starts) : n = m := by
  have hstarter := h.starter
  have hidle := h.idle
  cases he <;> grind

theorem event_stopper (h : Life v) (he : Event v v') (n m : ℕ) (hn : (v'.role n).Stops)
    (hm : (v'.role m).Stops) : n = m := by
  have hstopper := h.stopper
  have hstops := h.stops
  cases he <;> grind

theorem event_idle (h : Life v) (he : Event v v') (hi : v'.phase = .idle) :
    v'.worker = false ∧ ∀ n, ¬ (v'.role n).Starts := by
  have hidle := h.idle
  cases he <;> grind

theorem event_unused (h : Life v) (he : Event v v') (hi : v'.phase = .idle)
    (hq : v'.quit = false) : v'.state = .stopped := by
  have hunused := h.unused
  have hidle := h.idle
  have hstops := h.stops
  cases he <;> grind

/-- While somebody starts, only he can start the loop, and only who stops can end it. -/
theorem event_starts (h : Life v) (he : Event v v') (n : ℕ) (hn : (v'.role n).Starts)
    (hq : v'.quit = false) : v'.phase = .live ∧ v'.state = .stopped := by
  have hstarts := h.starts
  have hstarter := h.starter
  have hunused := h.unused
  have hreleases := h.releases
  have hstops := h.stops
  cases he <;> grind

theorem event_spawns (h : Life v) (he : Event v v') (n : ℕ) (hn : (v'.role n).Starts)
    (hr : v'.role n ≠ .running) : v'.worker = false := by
  have hspawns := h.spawns
  have hstarter := h.starter
  have hidle := h.idle
  cases he <;> grind

theorem event_works (h : Life v) (he : Event v v') (hw : v'.worker = true)
    (hq : v'.quit = false) : v'.phase = .live ∧ (v'.owner ≠ none ∨ v'.state = .running) := by
  have hworks := h.works
  have hholder := h.holder
  have hstarts := h.starts
  have hspawns := h.spawns
  have hidle := h.idle
  have hreleases := h.releases
  have hstops := h.stops
  cases he <;> grind

theorem event_released (h : Life v) (he : Event v v') (hp : v'.phase = .released) :
    v'.quit = true := by
  have hreleased := h.released
  have hreleases := h.releases
  have hstops := h.stops
  cases he <;> grind

theorem event_releases (h : Life v) (he : Event v v') (n : ℕ) (hn : v'.role n = .releasing) :
    v'.quit = true := by
  have hreleases := h.releases
  have hstarts := h.starts
  cases he <;> grind

theorem event_stops (h : Life v) (he : Event v v') (n : ℕ) (hn : (v'.role n).Stops) :
    v'.quit = true := by
  have hstops := h.stops
  cases he <;> grind

/-- Who is past the check holds the lock, so a stop cannot drain the loop; and who checks after the
flag was set does not pass. -/
theorem event_passed (h : Life v) (he : Event v v') (n m : ℕ) (hn : (v'.role n).Passed)
    (hm : (v'.role m).Stops) : v'.role m = .swapped := by
  have hpassed := h.passed
  have hholder := h.holder
  have hstops := h.stops
  cases he <;> grind

/-- Nobody starts the loop again behind a stop, as nobody is past the check by then. -/
theorem event_loopDone (h : Life v) (he : Event v v') (n : ℕ) (hn : (v'.role n).LoopDone) :
    v'.state = .stopped := by
  have hloopDone := h.loopDone
  have hpassed := h.passed
  have hstopper := h.stopper
  cases he <;> grind

theorem event_engineDone (h : Life v) (he : Event v v') (n : ℕ) (hn : (v'.role n).EngineDone) :
    v'.phase = .released := by
  have hengineDone := h.engineDone
  cases he <;> grind

/-- **Every event keeps the life of the bridge.** -/
theorem event (h : Life v) (he : Event v v') : Life v' where
  holder := h.event_holder he
  starter := h.event_starter he
  stopper := h.event_stopper he
  idle := h.event_idle he
  unused := h.event_unused he
  starts := h.event_starts he
  spawns := h.event_spawns he
  works := h.event_works he
  released := h.event_released he
  releases := h.event_releases he
  stops := h.event_stops he
  passed := h.event_passed he
  loopDone := h.event_loopDone he
  engineDone := h.event_engineDone he

end Life

/-! ## The vitals of a bridge that threads use -/

/-- The role of a call with the given chores. -/
def Pc.role (chores : List Chore) : Pc → Role
  | .start .enter => .entering
  | .start .read => .reading
  | .start .spawn => .spawning
  | .start .run => .running
  | .start (.release _) => .releasing
  | .stop (.join _) => if .drain ∈ chores then .swapped else .joining
  | .stop .finish => .finishing
  | .stop .release => .ending
  | .stop .abandon => .ended
  | .stop .discard | .stop .clear | .stop .done => .abandoned
  | _ => .plain

def Core.vitals (k : Core σ) (role : ℕ → Role) : Vitals :=
  { quit := k.bridge.loop.quit
    state := k.bridge.loop.state
    phase := k.bridge.phase
    owner := k.owner
    worker := !k.place.isAbsent
    role }

namespace Sys

def role (s : Sys σ) (n : ℕ) : Role :=
  (s.pcs n).role (s.chores (some n))

def vitals (s : Sys σ) : Vitals :=
  s.core.vitals s.role

/-- Only a stop that has just set the quit flag has to tell it to the loop, before all else. -/
def Tidy (s : Sys σ) : Prop :=
  ∀ a, .drain ∈ s.chores a →
    s.chores a = [.drain, .latch .stop] ∧ ∃ n w, a = some n ∧ s.pcs n = .stop (.join w)

end Sys

section Ways
variable {k k' : Core σ} {more : List Chore} {pc' : Pc}

theorem Chore.Way.vitals {x : Chore} (h : Chore.Way k x k' more) (hx : x ≠ .drain) :
    (∀ role, k'.vitals role = k.vitals role) ∧ .drain ∉ more := by
  cases h with
  | drain => exact absurd rfl hx
  | rouse c =>
    refine ⟨fun role => ?_, by simp⟩
    have hp : k.place.rouse.isAbsent = k.place.isAbsent := by cases k.place <;> rfl
    simp only [Core.vitals, hp]
  | _ => exact ⟨fun _ => rfl, by simp⟩

/-- A call in no part of the bridge's life leaves the vitals alone. -/
structure Plain (k k' : Core σ) (pc' : Pc) : Prop where
  vitals : ∀ role, k'.vitals role = k.vitals role
  role : ∀ chores, pc'.role chores = .plain

theorem Errand.role_drop (e : Errand) (r : Except BridgeError Unit) (chores : List Chore) :
    (e.drop r).role chores = .plain := by
  rcases e.drop_cases r with ⟨t, -, h⟩ | ⟨-, h⟩ <;> rw [h] <;> rfl

theorem RequestPc.Way.plain {p : RequestPc} (h : RequestPc.Way eng k p k' more pc') :
    Plain k k' pc' := by
  cases h with
  | refused e | rejected e => exact ⟨fun _ => rfl, e.role_drop _⟩
  | _ => exact ⟨fun _ => rfl, fun _ => rfl⟩

theorem PollPc.Way.plain {p : PollPc} (h : PollPc.Way eng k p k' more pc') : Plain k k' pc' := by
  cases h with
  | serve next he =>
    obtain ⟨events, registry, correlator, hs, rfl, -⟩ := serveOne_frame he
    exact ⟨fun _ => rfl, fun _ => rfl⟩
  | _ => exact ⟨fun _ => rfl, fun _ => rfl⟩

theorem LimitPc.Way.plain {p : LimitPc} (h : LimitPc.Way eng k p k' more pc') :
    Plain k k' pc' := by
  cases h <;> exact ⟨fun _ => rfl, fun _ => rfl⟩

/-- The vitals are the same, or an event has changed them. -/
def Moves (v v' : Vitals) : Prop :=
  v' = v ∨ Event v v'

theorem Plain.moves {n : ℕ} {role : ℕ → Role} (h : Plain k k' pc') (hr : role n = .plain) :
    Moves (k.vitals role) (k'.vitals (Function.update role n (pc'.role more))) := by
  refine .inl ?_
  rw [h.vitals, h.role, ← hr, Function.update_eq_self]

theorem endEngine_vitals (k : Core σ) (role : ℕ → Role) :
    ({ k with bridge := (endEngine eng k.bridge).1 } : Core σ).vitals role =
      { k.vitals role with phase := .released } := by
  unfold endEngine
  split_ifs <;> rfl

theorem StartPc.Way.moves {n : ℕ} {p : StartPc} {role : ℕ → Role}
    (h : StartPc.Way eng n k p k' more pc') (hr : role n = Pc.role [] (.start p)) :
    Moves (k.vitals role) (k'.vitals (Function.update role n (pc'.role more))) := by
  cases h with
  | late | check | refused | failed =>
    exact (⟨fun _ => rfl, fun _ => rfl⟩ : Plain _ _ _).moves hr
  | begin _ _ hp => exact .inr (.begin n hr hp)
  | enter ho => exact .inr (.lock n hr ho)
  | refuse hq => exact .inr (.refuse n hr (hq.imp And.left fun h => h.2.1))
  | pass hq hs hp =>
    refine .inr (.pass n _ hr hq hs ?_)
    rcases hp with ⟨-, rfl⟩ | ⟨-, rfl⟩
    · exact .inl rfl
    · exact .inr rfl
  | spawn => exact .inr (.spawn n hr)
  | run => exact .inr (.run n hr)
  | release e =>
    rw [endEngine_vitals]
    exact .inr (.release n hr)

theorem StopPc.Way.moves {n : ℕ} {p : StopPc} {role : ℕ → Role}
    (h : StopPc.Way eng k p k' more pc') (hr : role n = Pc.role [] (.stop p)) :
    Moves (k.vitals role) (k'.vitals (Function.update role n (pc'.role more))) := by
  -- the last three points are one role
  have hkeep : role n = .abandoned → Function.update role n .abandoned = role :=
    fun h => by rw [← h, Function.update_eq_self]
  cases h with
  | late => exact (⟨fun _ => rfl, fun _ => rfl⟩ : Plain _ _ _).moves hr
  | swap onWorker hq => exact .inr (.swap n hr hq)
  | join => exact .inr (.join n hr)
  | finish ho => exact .inr (.finish n hr ho)
  | release =>
    rw [endEngine_vitals]
    exact .inr (.endEngine n hr)
  | abandon => exact .inr (.abandon n hr)
  | discard | discarded | clear => exact .inl (congrArg k.vitals (hkeep hr))

/-- **A call that moves on** is an event in the life of the bridge, or none. -/
theorem Pc.Way.moves {n : ℕ} {pc : Pc} {role : ℕ → Role}
    (h : Pc.Way eng n k pc k' more pc') (hr : role n = pc.role []) :
    Moves (k.vitals role) (k'.vitals (Function.update role n (pc'.role more))) := by
  cases h with
  | start h => exact h.moves hr
  | stop h => exact h.moves hr
  | request h => exact h.plain.moves hr
  | poll h => exact h.plain.moves hr
  | limit h => exact h.plain.moves hr
  | lost | push | edit => exact (⟨fun _ => rfl, fun _ => rfl⟩ : Plain _ _ _).moves hr

/-- Nobody but a stop that sets the quit flag gets the chore to tell it to the loop. -/
theorem Effect.drain {pc : Pc} (h : Effect pc k k' more pc') (hd : .drain ∈ more) :
    more = [.drain, .latch .stop] ∧ ∃ w, pc' = .stop (.join w) := by
  rcases h.stop with ⟨hm, -⟩ | ⟨hm, hp, -⟩
  · exact (hm _ hd).elim
  · exact ⟨hm, hp⟩

theorem Walk.vitals (h : Walk eng k k' more) (role : ℕ → Role) :
    k'.vitals role = k.vitals role := by
  have hs : ∀ p : Place, k.place.isAbsent = false → p.isAbsent = false → ∀ (b : Bridge σ) n,
      b.loop = k.bridge.loop → b.phase = k.bridge.phase →
      ({ bridge := b, owner := k.owner, place := p, polled := n } : Core σ).vitals role =
        k.vitals role := by
    intro p hk hp b n hl hb
    simp only [Core.vitals, hk, hp, hl, hb]
  have hpl : ∀ {p : Place}, k.place = p → p.isAbsent = false → k.place.isAbsent = false :=
    fun h h' => h ▸ h'
  cases h with
  | stop hp _ =>
    refine hs _ ?_ rfl _ _ rfl rfl
    rcases hp with hp | ⟨n, hp⟩ <;> exact hpl hp rfl
  | serve hp he =>
    obtain ⟨events, registry, correlator, hx, rfl, -⟩ := serveOne_frame he
    exact hs _ (hpl hp rfl) rfl _ _ rfl rfl
  | take hp _ | miss hp _ =>
    rcases hp with ⟨hp, rfl⟩ | ⟨hp, rfl⟩ <;>
      exact hs _ (hpl hp rfl) rfl _ _ rfl rfl
  | goOn hp _ | poll hp _ | skip hp _ | served hp _ | wait hp _ | enter hp | expire hp | park hp
  | rouse hp | relock hp | leave hp =>
    exact hs _ (hpl hp rfl) rfl _ _ rfl rfl

end Ways

/-! ## Steps and schedules -/

section Steps
variable {s s' : Sys σ}

theorem Step.tidy (h : Step eng s s') (ht : s.Tidy) : s'.Tidy := by
  intro a hd
  cases h with
  | call n c hn hc =>
    simp only [Function.update_apply] at hd ⊢
    by_cases ha : a = some n
    · rw [if_pos ha] at hd
      cases c <;> simp [Call.entry] at hd
    · rw [if_neg ha] at hd ⊢
      obtain ⟨hl, m, w, rfl, hm⟩ := ht a hd
      have hmn : m ≠ n := fun h => ha (by rw [h])
      exact ⟨hl, m, w, rfl, by rw [if_neg hmn, hm]⟩
  | chore b hb he =>
    simp only [Function.update_apply] at hd ⊢
    by_cases ha : a = b
    · rw [if_pos ha] at hd
      rename_i x xs more k
      exfalso
      by_cases hx : x = .drain
      · subst hx
        have hl := (ht b (by rw [hb]; simp)).1
        rw [hb] at hl
        simp only [List.cons.injEq, true_and] at hl
        cases Chore.exec_way he
        rw [hl] at hd
        simp at hd
      · have hm := ((Chore.exec_way he).vitals hx).2
        have hxs : .drain ∈ xs := (List.mem_append.mp hd).resolve_left hm
        have hl := (ht b (by rw [hb]; simp [hxs])).1
        rw [hb] at hl
        simp only [List.cons.injEq] at hl
        exact hx hl.1
    · rw [if_neg ha] at hd ⊢
      exact ht a hd
  | act n hn he =>
    simp only [Function.update_apply] at hd ⊢
    by_cases ha : a = some n
    · rw [if_pos ha] at hd ⊢
      obtain ⟨hm, w, hp⟩ := (Pc.exec_way he).effect.drain hd
      exact ⟨hm, n, w, ha, by rw [if_pos rfl, hp]⟩
    · rw [if_neg ha] at hd ⊢
      obtain ⟨hl, m, w, rfl, hm⟩ := ht a hd
      have hmn : m ≠ n := fun h => ha (by rw [h])
      exact ⟨hl, m, w, rfl, by rw [if_neg hmn, hm]⟩
  | work late hn he =>
    simp only [Function.update_apply] at hd ⊢
    by_cases ha : a = none
    · rw [if_pos ha] at hd
      exact ((Core.advance_walk he).isCommon _ hd).elim
    · rw [if_neg ha] at hd ⊢
      exact ht a hd

theorem role_update (k : Core σ) (n : ℕ) (more : List Chore) (pc : Pc) :
    (⟨k, Function.update s.chores (some n) more, Function.update s.pcs n pc⟩ : Sys σ).role =
      Function.update s.role n (pc.role more) := by
  funext m
  by_cases hm : m = n
  · subst hm
    simp [Sys.role]
  · simp [Sys.role, hm]

/-- **A step is one event in the life of the bridge, or none.** -/
theorem Step.vitals (h : Step eng s s') (ht : s.Tidy) : Moves s.vitals s'.vitals := by
  cases h with
  | call n c hn hc =>
    refine .inl ?_
    have hr : c.entry.2.role c.entry.1 = s.role n := by
      simp only [Sys.role, hn]
      cases c <;> rfl
    simp only [Sys.vitals, role_update, hr, Function.update_eq_self]
  | @chore a x xs more k hb he =>
    cases a with
    | none =>
      have hx : x ≠ .drain := by
        rintro rfl
        obtain ⟨-, n, w, hn, -⟩ := ht none (by rw [hb]; simp)
        cases hn
      refine .inl ?_
      rw [Sys.vitals, ((Chore.exec_way he).vitals hx).1]
      rfl
    | some n =>
      have hu : (⟨k, Function.update s.chores (some n) (more ++ xs), s.pcs⟩ : Sys σ).role =
          Function.update s.role n ((s.pcs n).role (more ++ xs)) := by
        rw [← role_update k, Function.update_eq_self]
      simp only [Sys.vitals, hu]
      by_cases hx : x = .drain
      · subst hx
        obtain ⟨hl, m, w, hm, hp⟩ := ht (some n) (by rw [hb]; simp)
        cases hm
        rw [hb, List.cons.injEq] at hl
        have hr : s.vitals.role n = .swapped := by
          simp [Sys.vitals, Core.vitals, Sys.role, hp, Pc.role, hb]
        cases Chore.exec_way he with
        | drain ho =>
          have hj : (s.pcs n).role ([] ++ xs) = .joining := by
            rw [hp, hl.2]
            simp [Pc.role]
          rw [hj]
          exact .inr (.drain n hr ho)
      · obtain ⟨hv, hm⟩ := (Chore.exec_way he).vitals hx
        have hr : (s.pcs n).role (more ++ xs) = s.role n := by
          have hd : .drain ∈ more ++ xs ↔ .drain ∈ x :: xs := by
            simp [hm, Ne.symm hx]
          rw [Sys.role, hb]
          unfold Pc.role
          split <;> first | rfl | simp only [hd]
        refine .inl ?_
        rw [hv, hr, Function.update_eq_self]
  | act n hn he =>
    simp only [Sys.vitals, role_update]
    exact (Pc.exec_way he).moves (by rw [Sys.role, hn])
  | work late hn he =>
    refine .inl ?_
    rw [Sys.vitals, (Core.advance_walk he).vitals]
    rfl

/-- **What is alive about a bridge** under any schedule. -/
structure Alive (s : Sys σ) : Prop where
  tidy : s.Tidy
  life : Life s.vitals

theorem Step.alive (h : Step eng s s') (ha : Alive s) : Alive s' := by
  refine ⟨h.tidy ha.tidy, ?_⟩
  rcases h.vitals ha.tidy with he | he
  · rw [he]
    exact ha.life
  · exact ha.life.event he

end Steps

theorem alive_fresh {settings : Settings} {e : σ} {b : Bridge σ}
    (h : Bridge.make settings e = .ok b) : Alive (Sys.fresh b) := by
  unfold Bridge.make at h
  split at h <;> cases h
  refine ⟨fun a ha => absurd ha List.not_mem_nil, ?_⟩
  constructor <;>
    simp [Sys.vitals, Core.vitals, Sys.role, Sys.fresh, Pc.role, Place.isAbsent, Role.Starts,
      Role.Holds, Role.Passed, Role.Stops, Role.LoopDone, Role.EngineDone]

end KnxIoT.Threads
