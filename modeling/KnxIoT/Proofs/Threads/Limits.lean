import KnxIoT.Proofs.Threads.Frame
import Mathlib.Data.List.Induction

/-! # The limit for payloads, changed by several threads

A call that changes the limit for payloads makes two steps: it stores the new limit, and then it
tells the engine, if that is live, the same number under the lock. Starting reads what is stored and
tells that in one step. In between the other threads do what they like.

* `told` reads off the log what the engine was told.
* `Sets s s' m`: what a move has to do with the limit; `move_sets` says that there is nothing else.
* `Accounts` is what a schedule keeps: where the calls are, and whose numbers are stored and told.
* `Agrees` is what it keeps besides as long as no two calls are between their two steps at the same
  time (`OneByOne`): then the engine was told last what is stored.
* `limits_followed` says what comes of it, and `limits_disagree` that two calls at the same time can
  leave the engine with the limit of one and the bridge with that of the other. -/

namespace KnxIoT

/-- The limit that the engine is told. -/
def Happening.limit? : Happening → Option ℕ
  | .engine (.setMaxPayload size) _ => some size
  | _ => none

namespace Threads

variable {σ : Type} {eng : Engine σ}

/-- The limits that the engine was told, one after the other. -/
def told (l : List Happening) : List ℕ := l.filterMap Happening.limit?

section Told
variable {l hs : List Happening}

theorem told_append : told (l ++ hs) = told l ++ told hs := List.filterMap_append

theorem told_of_quiet (h : ∀ x ∈ hs, ¬ x.IsCall) : told hs = [] := by
  refine List.filterMap_eq_nil_iff.mpr fun x hx => ?_
  cases x with
  | engine c a => exact absurd trivial (h _ hx)
  | _ => rfl

end Told

/-! ## What does not concern the limit -/

/-- **From `b` to `b'` nothing concerns the limit:** it stays, and the engine is not told any and
does not begin. -/
structure Indifferent (b b' : Bridge σ) : Prop where
  limit : b'.maxPayload = b.maxPayload
  told : told b'.log = told b.log
  phase : b'.phase = .live → b.phase = .live

section Indifferent
variable {b b' : Bridge σ} {k k' : Core σ} {more : List Chore} {pc pc' : Pc}

theorem Indifferent.of_eq (hl : b'.maxPayload = b.maxPayload) (hg : b'.log = b.log)
    (hp : b'.phase = b.phase) : Indifferent b b' :=
  ⟨hl, congrArg Threads.told hg, fun h => hp ▸ h⟩

theorem Indifferent.refl (b : Bridge σ) : Indifferent b b := .of_eq rfl rfl rfl

theorem Indifferent.of_log {hs : List Happening} (hl : b'.maxPayload = b.maxPayload)
    (hg : b'.log = b.log ++ hs) (hq : Threads.told hs = [])
    (hp : b'.phase = .live → b.phase = .live) : Indifferent b b' :=
  ⟨hl, by rw [hg, told_append, hq, List.append_nil], hp⟩

theorem told_turn (eng : Engine σ) (c : EngineCall) (b : Bridge σ) :
    told (turn eng c b).log =
      told b.log ++ (Happening.engine c (eng c b.engine).answer).limit?.toList := by
  rw [turn, Bridge.note, told_append]
  refine congrArg (told b.log ++ ·) ?_
  unfold told
  cases hl : (Happening.engine c (eng c b.engine).answer).limit? <;> simp [hl]

theorem turn_indifferent {c : EngineCall}
    (hc : (Happening.engine c (eng c b.engine).answer).limit? = none) :
    Indifferent b (turn eng c b) :=
  ⟨rfl, by rw [told_turn, hc, Option.toList_none, List.append_nil], id⟩

theorem limit?_of_asks {c : EngineCall} (h : c.Asks) (a : c.Answer) :
    (Happening.engine c a).limit? = none := by
  cases c with
  | setMaxPayload size => exact h.elim
  | _ => rfl

theorem endEngine_indifferent (eng : Engine σ) (b : Bridge σ) :
    Indifferent b (endEngine eng b).1 := by
  unfold endEngine
  split_ifs
  · exact .of_log rfl rfl rfl nofun
  · exact .of_log rfl (List.append_nil _).symm rfl nofun

theorem serveOne_indifferent {s : Serving} {rest : Option Serving}
    (h : serveOne b s = (b', rest)) : Indifferent b b' := by
  obtain ⟨events, registry, correlator, hs, rfl, -, -, hq⟩ := serveOne_frame h
  exact .of_log rfl rfl (told_of_quiet hq) id

theorem Chore.Way.indifferent {x : Chore} (h : Chore.Way k x k' more) :
    Indifferent k.bridge k'.bridge := by
  cases h with
  | send e => exact .of_log rfl rfl rfl id
  | _ => exact .of_eq rfl rfl rfl

theorem Walk.indifferent (h : Walk eng k k' more) : Indifferent k.bridge k'.bridge := by
  cases h with
  | poll => exact turn_indifferent rfl
  | serve hp he => exact serveOne_indifferent he
  | _ => exact .of_eq rfl rfl rfl

/-- The call is at one of its two steps. -/
def Pc.OnLimit : Pc → Prop
  | .limit _ => True
  | _ => False

/-- A call moves on with something else than the limit. -/
structure Elsewhere (k k' : Core σ) (pc' : Pc) : Prop where
  core : Indifferent k.bridge k'.bridge
  pc : ¬ pc'.OnLimit

theorem StopPc.Way.elsewhere {p : StopPc} (h : StopPc.Way eng k p k' more pc') :
    Elsewhere k k' pc' := by
  cases h with
  | release => exact ⟨endEngine_indifferent eng _, id⟩
  | discard => exact ⟨.of_log rfl rfl rfl id, id⟩
  | _ => exact ⟨.of_eq rfl rfl rfl, id⟩

theorem RequestPc.Way.elsewhere {p : RequestPc} (h : RequestPc.Way eng k p k' more pc') :
    Elsewhere k k' pc' := by
  have hdrop : ∀ (e : Errand) r, ¬ (e.drop r).OnLimit := by
    intro e r
    rcases e.drop_cases r with ⟨t, -, h⟩ | ⟨-, h⟩ <;> rw [h] <;> exact id
  have hturn : ∀ e : Errand, Indifferent k.bridge (turn eng e.call k.bridge) :=
    fun e => turn_indifferent (limit?_of_asks e.asks _)
  cases h with
  | refused e => exact ⟨.refl _, hdrop e _⟩
  | sent e => exact ⟨hturn e, id⟩
  | rejected e => exact ⟨hturn e, hdrop e _⟩
  | _ => exact ⟨.of_eq rfl rfl rfl, id⟩

theorem PollPc.Way.elsewhere {p : PollPc} (h : PollPc.Way eng k p k' more pc') :
    Elsewhere k k' pc' := by
  cases h with
  | cycle => exact ⟨turn_indifferent rfl, id⟩
  | serve next hs => exact ⟨serveOne_indifferent hs, id⟩
  | _ => exact ⟨.refl _, id⟩

theorem StartPc.Way.begins {n : ℕ} {p : StartPc} (h : StartPc.Way eng n k p k' more pc') :
    Elsewhere k k' pc' ∨ (∃ identity, p = .begin identity) ∧ ¬ pc'.OnLimit ∧
      k'.bridge.maxPayload = k.bridge.maxPayload ∧
      told k'.bridge.log = told k.bridge.log ++ [k.bridge.maxPayload] := by
  cases h with
  | failed => exact Or.inl ⟨turn_indifferent rfl, id⟩
  | @begin identity i size hi hsize =>
    refine Or.inr ⟨⟨identity, rfl⟩, id, rfl, ?_⟩
    subst hsize
    dsimp only
    rw [told_turn, told_turn]
    exact congrArg (· ++ _) (List.append_nil _)
  | release => exact Or.inl ⟨endEngine_indifferent eng _, id⟩
  | _ => exact Or.inl ⟨.of_eq rfl rfl rfl, id⟩

end Indifferent

/-! ## What a move has to do with the limit -/

/-- The call is at one of its two steps, or it has returned. -/
def Pc.Fixed : Pc → Prop
  | .limit _ | .returned _ => True
  | _ => False

/-- What a call with the limit zero returns. -/
abbrev refusedLimit : Reply := .unit (.error (.settings Settings.zeroPayload))

/-- All calls that change the limit stay where they are. -/
def Stays (s s' : Sys σ) : Prop :=
  ∀ n, s'.pcs n = s.pcs n ∨ ¬ (s.pcs n).Fixed ∧ ¬ (s'.pcs n).OnLimit

/-- **What a move has to do with the limit.** -/
inductive Sets (s s' : Sys σ) : Move → Prop
  | other {m : Move} (new : ∀ n size, m ≠ .call n (.setMaxPayload size))
      (core : Indifferent s.core.bridge s'.core.bridge) (pcs : Stays s s') : Sets s s' m
  | called (n size : ℕ) (was : s.pcs n = .idle) (core : s'.core = s.core)
      (pcs : s'.pcs = Function.update s.pcs n (.limit (.store size))) :
      Sets s s' (.call n (.setMaxPayload size))
  /-- The engine begins and is told what is stored. -/
  | begun (n : ℕ) (limit : s'.core.bridge.maxPayload = s.core.bridge.maxPayload)
      (told : told s'.core.bridge.log = told s.core.bridge.log ++ [s.core.bridge.maxPayload])
      (pcs : Stays s s') : Sets s s' (.act n)
  | refused (n : ℕ) (was : s.pcs n = .limit (.store 0)) (core : s'.core = s.core)
      (pcs : s'.pcs = Function.update s.pcs n (.returned refusedLimit)) : Sets s s' (.act n)
  | stored (n size : ℕ) (pos : size ≠ 0) (was : s.pcs n = .limit (.store size))
      (limit : s'.core.bridge.maxPayload = size) (log : s'.core.bridge.log = s.core.bridge.log)
      (phase : s'.core.bridge.phase = s.core.bridge.phase)
      (pcs : s'.pcs = Function.update s.pcs n (.limit (.tell size))) : Sets s s' (.act n)
  /-- The engine is told if it is live, and the call returns. -/
  | passed (n size : ℕ) (was : s.pcs n = .limit (.tell size))
      (limit : s'.core.bridge.maxPayload = s.core.bridge.maxPayload)
      (told : s.core.bridge.phase = .live →
        told s'.core.bridge.log = told s.core.bridge.log ++ [size])
      (phase : s'.core.bridge.phase = s.core.bridge.phase)
      (pcs : s'.pcs = Function.update s.pcs n (.returned (.unit (.ok ())))) : Sets s s' (.act n)

section Sets
variable {s s' : Sys σ} {m : Move} {n : ℕ} {k : Core σ} {more : List Chore} {pc : Pc}

theorem stays_update (hn : ¬ (s.pcs n).Fixed) (hpc : ¬ pc.OnLimit)
    (hs : s'.pcs = Function.update s.pcs n pc) : Stays s s' := by
  intro a
  rw [hs]
  by_cases ha : a = n
  · subst ha
    rw [Function.update_self]
    exact Or.inr ⟨hn, hpc⟩
  · exact Or.inl (Function.update_of_ne ha ..)

/-- **What a call does to the limit when it moves on.** -/
theorem exec_sets (hk : s'.core = k) (hs : s'.pcs = Function.update s.pcs n pc)
    (h : (s.pcs n).exec eng n s.core = some (k, more, pc)) : Sets s s' (.act n) := by
  have helse : ¬ (s.pcs n).Fixed → Elsewhere s.core k pc → Sets s s' (.act n) := fun hn he =>
    .other nofun (hk ▸ he.core) (stays_update hn he.pc hs)
  have hway := Pc.exec_way h
  generalize hp : s.pcs n = p at hway
  cases hway with
  | start h =>
    rcases h.begins with he | ⟨-, hpc, hlimit, htold⟩
    · exact helse (by rw [hp]; exact id) he
    · exact .begun n (hk ▸ hlimit) (hk ▸ htold) (stays_update (by rw [hp]; exact id) hpc hs)
  | stop h => exact helse (by rw [hp]; exact id) h.elsewhere
  | request h => exact helse (by rw [hp]; exact id) h.elsewhere
  | poll h => exact helse (by rw [hp]; exact id) h.elsewhere
  | lost => exact helse (by rw [hp]; exact id) ⟨.refl _, id⟩
  | push => exact helse (by rw [hp]; exact id) ⟨.of_log rfl rfl rfl id, id⟩
  | edit => exact helse (by rw [hp]; exact id) ⟨.of_eq rfl rfl rfl, id⟩
  | limit h =>
    cases h with
    | zero => exact .refused n hp hk hs
    | @store size hpos => exact .stored n size hpos hp (by rw [hk]) (by rw [hk]) (by rw [hk]) hs
    | tell size =>
      refine .passed n size hp (by rw [hk]; rfl) (fun _ => ?_) (by rw [hk]; rfl) hs
      rw [hk]
      exact told_turn eng _ _
    | keep size hlive =>
      exact .passed n size hp (by rw [hk]) (fun hl => absurd hl hlive) (by rw [hk]) hs

/-- **No move has to do anything else with the limit.** -/
theorem move_sets (h : s.move eng m = some s') : Sets s s' m := by
  cases m with
  | call n c =>
    simp only [Sys.move] at h
    split at h <;> cases h
    next hidle _ =>
    cases c with
    | setMaxPayload size => exact .called n size hidle rfl rfl
    | _ => exact .other (by simp) (.refl _) (stays_update (by rw [hidle]; exact id) id rfl)
  | chore a =>
    simp only [Sys.move] at h
    split at h
    · cases h
    · split at h <;> cases h
      next he => exact .other (by simp) (Chore.exec_way he).indifferent fun _ => Or.inl rfl
  | act n =>
    simp only [Sys.move] at h
    split at h
    · cases h
    · split at h <;> cases h
      next he => exact exec_sets rfl rfl he
  | work late =>
    simp only [Sys.move] at h
    split at h
    · cases h
    · split at h <;> cases h
      next he =>
        exact .other (by simp) (Core.advance_walk he).indifferent fun _ => Or.inl rfl

end Sets

/-! ## What a schedule keeps -/

/-- The call `n` was made to change the limit to `size`. -/
def Called (ms : List Move) (n size : ℕ) : Prop := .call n (.setMaxPayload size) ∈ ms

/-- **Where a call is** that was made to change the limit to `size`. -/
inductive Follows (size : ℕ) : Pc → Prop
  | storing : Follows size (.limit (.store size))
  | telling (pos : size ≠ 0) : Follows size (.limit (.tell size))
  | done (pos : size ≠ 0) : Follows size (.returned (.unit (.ok ())))
  | refused (zero : size = 0) : Follows size (.returned refusedLimit)

/-- The limit of a call. -/
def LimitPc.size : LimitPc → ℕ
  | .store size => size
  | .tell size => size

/-- **Whose limit it is:** that of a call, or the configured one, as long as it is early for every
call that does not ask for zero. -/
def Source (settings : Settings) (ms : List Move) (early : ℕ → ℕ → Prop) (size : ℕ) : Prop :=
  (∃ n, Called ms n size ∧ size ≠ 0) ∨
    size = settings.maxPayloadSize ∧ ∀ n x, Called ms n x → x ≠ 0 → early n x

/-- **The calls that change the limit** after a schedule, and whose limits are stored and told: the
stored one is that of a call once a call has stored its own, and the told one once a call has
returned. -/
structure Accounts (settings : Settings) (ms : List Move) (s : Sys σ) : Prop where
  stage : ∀ n size, Called ms n size → Follows size (s.pcs n)
  known : ∀ n p, s.pcs n = .limit p → Called ms n p.size
  limit : Source settings ms (fun n x => s.pcs n = .limit (.store x)) s.core.bridge.maxPayload
  told : s.core.bridge.phase = .live → ∃ size, (told s.core.bridge.log).getLast? = some size ∧
    Source settings ms (fun n _ => (s.pcs n).OnLimit) size

section Accounts
variable {settings : Settings} {ms : List Move} {s s' : Sys σ} {m : Move} {a n size : ℕ} {pc : Pc}

theorem Follows.fixed (h : Follows size pc) : pc.Fixed := by cases h <;> trivial

theorem Follows.update (h : Follows size (s.pcs a)) (hn : a = n → Follows size pc) :
    Follows size (Function.update s.pcs n pc a) := by
  by_cases ha : a = n
  · subst ha
    rw [Function.update_self]
    exact hn rfl
  · rw [Function.update_of_ne ha]
    exact h

theorem called_concat : Called (ms ++ [m]) n size ↔
    Called ms n size ∨ m = .call n (.setMaxPayload size) := by
  simp [Called, eq_comm]

theorem Called.concat (h : Called ms n size) (m : Move) : Called (ms ++ [m]) n size :=
  called_concat.mpr (.inl h)

theorem Stays.pcs_eq (h : Stays s s') (hf : (s.pcs n).Fixed) : s'.pcs n = s.pcs n :=
  (h n).resolve_right fun hn => hn.1 hf

theorem Stays.limit_pc (h : Stays s s') {p : LimitPc} (hp : s'.pcs n = .limit p) :
    s.pcs n = .limit p := by
  rcases h n with heq | ⟨-, hn⟩
  · rw [← heq, hp]
  · exact absurd (by rw [hp]; trivial) hn

theorem Sets.follows (h : Sets s s' m) (hf : Follows size (s.pcs a)) : Follows size (s'.pcs a) := by
  cases h with
  | other new core pcs | begun n limit told pcs =>
    rw [pcs.pcs_eq hf.fixed]
    exact hf
  | called n x was core pcs =>
    rw [pcs]
    refine hf.update fun han => ?_
    rw [han, was] at hf
    cases hf
  | refused n was core pcs =>
    rw [pcs]
    refine hf.update fun han => ?_
    rw [han, was] at hf
    cases hf
    exact .refused rfl
  | stored n x pos was limit log phase pcs =>
    rw [pcs]
    refine hf.update fun han => ?_
    rw [han, was] at hf
    cases hf
    exact .telling pos
  | passed n x was limit told phase pcs =>
    rw [pcs]
    refine hf.update fun han => ?_
    rw [han, was] at hf
    cases hf with
    | telling pos => exact .done pos

theorem Sets.storing (h : Sets s s' (.call n (.setMaxPayload size))) :
    s'.pcs n = .limit (.store size) := by
  cases h with
  | other new core pcs => exact absurd rfl (new n size)
  | called _ _ was core pcs => rw [pcs, Function.update_self]

theorem Sets.stage (h : Sets s s' m) (hs : ∀ n x, Called ms n x → Follows x (s.pcs n))
    (hc : Called (ms ++ [m]) n size) : Follows size (s'.pcs n) := by
  rcases called_concat.mp hc with hc | rfl
  · exact h.follows (hs n size hc)
  · rw [h.storing]
    exact .storing

theorem Sets.known (h : Sets s s' m) (hs : ∀ n p, s.pcs n = .limit p → Called ms n p.size)
    {p : LimitPc} (hp : s'.pcs a = .limit p) : Called (ms ++ [m]) a p.size := by
  cases h with
  | other new core pcs | begun n limit told pcs => exact (hs a p (pcs.limit_pc hp)).concat _
  | called n x was core pcs =>
    rw [pcs, Function.update_apply] at hp
    split_ifs at hp with han
    · cases hp
      exact called_concat.mpr (.inr (by rw [han]; rfl))
    · exact (hs a p hp).concat _
  | refused n was core pcs | passed n x was limit told phase pcs =>
    rw [pcs, Function.update_apply] at hp
    split_ifs at hp
    exact (hs a p hp).concat _
  | stored n x pos was limit log phase pcs =>
    rw [pcs, Function.update_apply] at hp
    split_ifs at hp with han
    · cases hp
      rw [han]
      exact (hs n _ was).concat _
    · exact (hs a p hp).concat _

theorem Source.move {early late : ℕ → ℕ → Prop} (h : Source settings ms early size)
    (hold : ∀ n x, Called ms n x → x ≠ 0 → early n x → late n x)
    (hnew : ∀ n x, m = .call n (.setMaxPayload x) → late n x) :
    Source settings (ms ++ [m]) late size := by
  refine h.imp (fun ⟨n, hn, hpos⟩ => ⟨n, hn.concat m, hpos⟩) fun ⟨hsize, hall⟩ => ⟨hsize, ?_⟩
  intro n x hn hx
  rcases called_concat.mp hn with hn | rfl
  · exact hold n x hn hx (hall n x hn hx)
  · exact hnew n x rfl

theorem Accounts.limit_move (hs : Accounts settings ms s) (h : Sets s s' m) :
    Source settings (ms ++ [m]) (fun n x => s'.pcs n = .limit (.store x))
      s'.core.bridge.maxPayload := by
  -- a call that moved was not about to store, or it has stored now
  have hupdate : ∀ {n : ℕ} {pc : Pc}, s'.pcs = Function.update s.pcs n pc →
      (∀ x, x ≠ 0 → s.pcs n ≠ .limit (.store x)) → ∀ a x, Called ms a x → x ≠ 0 →
      s.pcs a = .limit (.store x) → s'.pcs a = .limit (.store x) := by
    intro n pc hpcs hn a x _ hx ha
    rw [hpcs, Function.update_of_ne, ha]
    rintro rfl
    exact hn x hx ha
  cases h with
  | other new core pcs =>
    rw [core.limit]
    exact hs.limit.move (fun a x _ _ ha => by rw [pcs.pcs_eq (by rw [ha]; trivial), ha])
      fun a x hm => absurd hm (new a x)
  | begun n limit told pcs =>
    rw [limit]
    exact hs.limit.move (fun a x _ _ ha => by rw [pcs.pcs_eq (by rw [ha]; trivial), ha]) nofun
  | called n x was core pcs =>
    rw [core]
    exact hs.limit.move (hupdate pcs (by simp [was])) fun a y hm => by
      cases hm
      rw [pcs, Function.update_self]
  | refused n was core pcs =>
    rw [core]
    exact hs.limit.move (hupdate pcs (by simp [was, eq_comm])) nofun
  | stored n x pos was limit log phase pcs =>
    rw [limit]
    exact .inl ⟨n, (hs.known n _ was).concat _, pos⟩
  | passed n x was limit told phase pcs =>
    rw [limit]
    exact hs.limit.move (hupdate pcs (by simp [was])) nofun

theorem Accounts.told_move (hs : Accounts settings ms s) (h : Sets s s' m)
    (hlive : s'.core.bridge.phase = .live) :
    ∃ size, (Threads.told s'.core.bridge.log).getLast? = some size ∧
      Source settings (ms ++ [m]) (fun n _ => (s'.pcs n).OnLimit) size := by
  have hstays : Stays s s' → ∀ a x, Called ms a x → x ≠ 0 → (s.pcs a).OnLimit →
      (s'.pcs a).OnLimit := by
    intro hpcs a x hc _ ha
    rw [hpcs.pcs_eq (hs.stage a x hc).fixed]
    exact ha
  -- a call that moved was not at its steps, is still there, or asks for zero
  have hupdate : ∀ {n : ℕ} {pc : Pc}, s'.pcs = Function.update s.pcs n pc →
      (∀ x, x ≠ 0 → Follows x (s.pcs n) → pc.OnLimit) → ∀ a x, Called ms a x → x ≠ 0 →
      (s.pcs a).OnLimit → (s'.pcs a).OnLimit := by
    intro n pc hpcs hn a x hc hx ha
    rw [hpcs, Function.update_apply]
    split_ifs with han
    · exact hn x hx (han ▸ hs.stage a x hc)
    · exact ha
  cases h with
  | other new core pcs =>
    obtain ⟨size, hlast, hsource⟩ := hs.told (core.phase hlive)
    refine ⟨size, by rw [core.told, hlast], hsource.move (hstays pcs) ?_⟩
    exact fun a x hm => absurd hm (new a x)
  | begun n limit told pcs =>
    refine ⟨_, by rw [told, List.getLast?_concat], hs.limit.move (fun a x hc hx ha => ?_) nofun⟩
    exact hstays pcs a x hc hx (by rw [ha]; trivial)
  | called n x was core pcs =>
    rw [core] at hlive ⊢
    obtain ⟨size, hlast, hsource⟩ := hs.told hlive
    refine ⟨size, hlast, hsource.move (hupdate pcs fun _ _ _ => trivial) fun a y hm => ?_⟩
    cases hm
    rw [pcs, Function.update_self]
    trivial
  | refused n was core pcs =>
    rw [core] at hlive ⊢
    obtain ⟨size, hlast, hsource⟩ := hs.told hlive
    refine ⟨size, hlast, hsource.move (hupdate pcs fun x hx hf => ?_) nofun⟩
    rw [was] at hf
    cases hf
    exact absurd rfl hx
  | stored n x pos was limit log phase pcs =>
    rw [phase] at hlive
    rw [log]
    obtain ⟨size, hlast, hsource⟩ := hs.told hlive
    exact ⟨size, hlast, hsource.move (hupdate pcs fun _ _ _ => trivial) nofun⟩
  | passed n x was limit told phase pcs =>
    rw [phase] at hlive
    have hcalled : Called ms n x := hs.known n _ was
    refine ⟨x, by rw [told hlive, List.getLast?_concat], .inl ⟨n, hcalled.concat _, ?_⟩⟩
    have hf := hs.stage n x hcalled
    rw [was] at hf
    cases hf with
    | telling pos => exact pos

/-- **What a move keeps.** -/
theorem Accounts.move (hs : Accounts settings ms s) (h : Sets s s' m) :
    Accounts settings (ms ++ [m]) s' where
  stage _ _ hc := h.stage hs.stage hc
  known _ _ hp := h.known hs.known hp
  limit := hs.limit_move h
  told := hs.told_move h

/-- **What a schedule keeps.** -/
theorem Accounts.run : ∀ (rest : List Move) {ms : List Move} {s : Sys σ},
    Accounts settings ms s → s.run eng rest = some s' → Accounts settings (ms ++ rest) s'
  | [], ms, s, hs, h => by
    cases h
    rwa [List.append_nil]
  | m :: rest, ms, s, hs, h => by
    simp only [Sys.run] at h
    split at h
    · cases h
    next s₁ hm =>
      have := Accounts.run rest (hs.move (move_sets hm)) h
      rwa [List.append_assoc] at this

theorem accounts_fresh {e : σ} {b : Bridge σ} (hb : Bridge.make settings e = .ok b) :
    Accounts settings [] (Sys.fresh b) := by
  unfold Bridge.make Settings.validate at hb
  split_ifs at hb
  cases hb
  have hnone : ∀ n x, ¬ Called [] n x := fun _ _ => List.not_mem_nil
  refine ⟨fun n x hc => absurd hc (hnone n x), nofun, .inr ⟨rfl, ?_⟩, nofun⟩
  exact fun n x hc => absurd hc (hnone n x)

end Accounts

/-! ## One call at a time -/

/-- At most one call has stored its limit and has not told it yet. -/
def Sys.Single (s : Sys σ) : Prop :=
  ∀ n m x y, s.pcs n = .limit (.tell x) → s.pcs m = .limit (.tell y) → n = m

/-- **No two calls are between their two steps** at the same time. -/
def OneByOne (eng : Engine σ) (s : Sys σ) (ms : List Move) : Prop :=
  ∀ pre s', pre <+: ms → s.run eng pre = some s' → s'.Single

/-- **The engine and the bridge agree** but for a call that has yet to tell what it has stored. -/
structure Agrees (s : Sys σ) : Prop where
  told : s.core.bridge.phase = .live → (∀ n size, s.pcs n ≠ .limit (.tell size)) →
    (told s.core.bridge.log).getLast? = some s.core.bridge.maxPayload
  telling : ∀ n size, s.pcs n = .limit (.tell size) → s.core.bridge.maxPayload = size

section OneByOne
variable {ms : List Move} {s s' : Sys σ} {m : Move}

theorem Agrees.move (hs : Agrees s) (h : Sets s s' m) (hone : s'.Single) : Agrees s' := by
  have hstays : Stays s s' → (∀ n size, s'.pcs n ≠ .limit (.tell size)) →
      ∀ n size, s.pcs n ≠ .limit (.tell size) := by
    intro hpcs hnone n size hn
    exact hnone n size (by rw [hpcs.pcs_eq (by rw [hn]; trivial), hn])
  cases h with
  | other new core pcs =>
    refine ⟨fun hlive hnone => ?_, fun n size hn => ?_⟩
    · rw [core.told, core.limit]
      exact hs.told (core.phase hlive) (hstays pcs hnone)
    · rw [core.limit]
      exact hs.telling n size (pcs.limit_pc hn)
  | begun n limit told pcs =>
    refine ⟨fun _ _ => by rw [told, limit, List.getLast?_concat], fun a size ha => ?_⟩
    rw [limit]
    exact hs.telling a size (pcs.limit_pc ha)
  | called n x was core pcs | refused n was core pcs =>
    have hiff : ∀ a size, s'.pcs a = .limit (.tell size) ↔ s.pcs a = .limit (.tell size) := by
      intro a size
      rw [pcs, Function.update_apply]
      split_ifs with han <;> simp [han, was]
    refine ⟨fun hlive hnone => ?_, fun a size ha => ?_⟩
    · rw [core] at hlive ⊢
      exact hs.told hlive fun a size ha => hnone a size ((hiff a size).mpr ha)
    · rw [core]
      exact hs.telling a size ((hiff a size).mp ha)
  | stored n x pos was limit log phase pcs =>
    have hn : s'.pcs n = .limit (.tell x) := by rw [pcs, Function.update_self]
    refine ⟨fun _ hnone => absurd hn (hnone n x), fun a size ha => ?_⟩
    cases hone a n size x ha hn
    rw [hn] at ha
    cases ha
    exact limit
  | passed n x was limit told phase pcs =>
    refine ⟨fun hlive _ => ?_, fun a size ha => ?_⟩
    · rw [told (phase ▸ hlive), limit, hs.telling n x was, List.getLast?_concat]
    · rw [pcs, Function.update_apply] at ha
      split_ifs at ha
      rw [limit]
      exact hs.telling a size ha

theorem Agrees.run : ∀ (ms : List Move) {s : Sys σ}, Agrees s → OneByOne eng s ms →
    s.run eng ms = some s' → Agrees s'
  | [], s, hs, _, h => by
    cases h
    exact hs
  | m :: ms, s, hs, hone, h => by
    simp only [Sys.run] at h
    split at h
    · cases h
    next s₁ hm =>
      have hlater : ∀ pre t, s₁.run eng pre = some t → s.run eng (m :: pre) = some t := by
        intro pre t ht
        simp only [Sys.run, hm, ht]
      refine Agrees.run ms (hs.move (move_sets hm) ?_) (fun pre t hpre ht => ?_) h
      · exact hone [m] s₁ (by simp) (hlater [] s₁ rfl)
      · exact hone (m :: pre) t (by simpa using hpre) (hlater pre t ht)

theorem agrees_fresh {settings : Settings} {e : σ} {b : Bridge σ}
    (hb : Bridge.make settings e = .ok b) : Agrees (Sys.fresh b) := by
  unfold Bridge.make Settings.validate at hb
  split_ifs at hb
  cases hb
  exact ⟨nofun, nofun⟩

/-- With a single call that changes the limit there are never two. -/
theorem oneByOne_of_called {settings : Settings} {e : σ} {b : Bridge σ}
    (hb : Bridge.make settings e = .ok b)
    (h : ∀ n m x y, Called ms n x → Called ms m y → n = m) : OneByOne eng (Sys.fresh b) ms := by
  intro pre t hpre ht n m x y hn hm
  have hs : Accounts settings pre t := Accounts.run pre (accounts_fresh hb) ht
  exact h n m x y (hpre.subset (hs.known n _ hn)) (hpre.subset (hs.known m _ hm))

end OneByOne

/-! ## When the calls have returned -/

/-- All calls that change the limit have returned. -/
def Sys.SettersBack (s : Sys σ) : Prop := ∀ n, ¬ (s.pcs n).OnLimit

/-- **The limit is asked for** by a call that has succeeded, or by the settings if there is none. -/
def AskedFor (settings : Settings) (ms : List Move) (s : Sys σ) (size : ℕ) : Prop :=
  (∃ n, Called ms n size ∧ s.pcs n = .returned (.unit (.ok ()))) ∨
    size = settings.maxPayloadSize ∧
      ∀ n x, Called ms n x → s.pcs n ≠ .returned (.unit (.ok ()))

section Back
variable {settings : Settings} {ms : List Move} {s : Sys σ} {n size : ℕ}

theorem Follows.succeeds_iff {pc : Pc} (h : Follows size pc) (hpc : ¬ pc.OnLimit) :
    pc = .returned (.unit (.ok ())) ↔ size ≠ 0 := by
  cases h with
  | storing | telling pos => exact absurd trivial hpc
  | done pos => simp [pos]
  | refused zero => simp [zero]

theorem Accounts.askedFor {early : ℕ → ℕ → Prop} (hs : Accounts settings ms s)
    (hback : s.SettersBack) (hsource : Source settings ms early size)
    (hearly : ∀ n x, early n x → (s.pcs n).OnLimit) : AskedFor settings ms s size := by
  have hiff : ∀ {n x}, Called ms n x → (s.pcs n = .returned (.unit (.ok ())) ↔ x ≠ 0) :=
    fun hc => (hs.stage _ _ hc).succeeds_iff (hback _)
  refine hsource.imp (fun ⟨n, hc, hpos⟩ => ⟨n, hc, (hiff hc).mpr hpos⟩) fun ⟨hsize, hall⟩ => ?_
  exact ⟨hsize, fun n x hc hok => hback n (hearly n x (hall n x hc ((hiff hc).mp hok)))⟩

theorem move_store_zero {s' : Sys σ} (hn : s.pcs n = .limit (.store 0))
    (h : s.move eng (.act n) = some s') :
    s'.core = s.core ∧ s'.pcs n = .returned refusedLimit := by
  simp only [Sys.move, hn, Pc.exec, LimitPc.exec, if_pos] at h
  split at h <;> cases h
  exact ⟨rfl, Function.update_self ..⟩

end Back

/-- **What the calls that change the limit come to** after a schedule of a new bridge `b`. -/
structure LimitsFollowed (eng : Engine σ) (settings : Settings) (b : Bridge σ) (ms : List Move)
    (s : Sys σ) : Prop where
  limit : s.SettersBack → AskedFor settings ms s s.core.bridge.maxPayload
  told : s.SettersBack → s.core.bridge.phase = .live →
    ∃ size, (told s.core.bridge.log).getLast? = some size ∧ AskedFor settings ms s size
  /-- If there was always one call at most between its two steps, both are the same. -/
  agree : OneByOne eng (Sys.fresh b) ms → s.SettersBack → s.core.bridge.phase = .live →
    (Threads.told s.core.bridge.log).getLast? = some s.core.bridge.maxPayload
  /-- A call that asks for zero has failed or will fail, with its only step, which changes
  nothing. -/
  zero : ∀ n, Called ms n 0 → s.pcs n = .returned refusedLimit ∨
    s.pcs n = .limit (.store 0) ∧ ∀ s', s.move eng (.act n) = some s' →
      s'.core = s.core ∧ s'.pcs n = .returned refusedLimit

/-- **The limit for payloads follows its calls.** Whatever the order of steps, when all calls that
change the limit have returned, the stored limit is what one of the successful calls asked for, or
the configured one if there was none, and so is the limit that a live engine was told last. They are
the same if no two calls were ever between storing and telling at the same time. A call that asks
for zero fails and changes neither. -/
theorem limits_followed {settings : Settings} {e : σ} {b : Bridge σ} {ms : List Move} {s : Sys σ}
    (hb : Bridge.make settings e = .ok b) (h : (Sys.fresh b).run eng ms = some s) :
    LimitsFollowed eng settings b ms s := by
  have hs : Accounts settings ms s := Accounts.run ms (accounts_fresh hb) h
  refine ⟨fun hback => ?_, fun hback hlive => ?_, fun hone hback hlive => ?_, fun n hn => ?_⟩
  · exact hs.askedFor hback hs.limit fun n x hn => by rw [hn]; trivial
  · obtain ⟨size, hlast, hsource⟩ := hs.told hlive
    exact ⟨size, hlast, hs.askedFor hback hsource fun _ _ => id⟩
  · have ha : Agrees s := Agrees.run ms (agrees_fresh hb) hone h
    exact ha.told hlive fun n x hn => hback n (by rw [hn]; trivial)
  · generalize hpc : s.pcs n = pc
    have hf := hs.stage n 0 hn
    rw [hpc] at hf
    cases hf with
    | storing => exact .inr ⟨rfl, fun s' => move_store_zero hpc⟩
    | telling pos | done pos => exact absurd rfl pos
    | refused => exact .inl rfl

section Demo

/-- The engine is live, and a call stores 4 while the engine begins. -/
def storedMeanwhile : List Move :=
  [.call 0 (.start none), .act 0, .call 1 (.setMaxPayload 4), .act 1, .act 0, .act 1, .act 0,
    .act 0, .act 0, .act 0]

theorem limits_followed_stored_meanwhile : ∃ s, Bridge.make {} {} = .ok usual ∧
    (Sys.fresh usual).run Bench.ScriptedEngine.engine storedMeanwhile = some s ∧
    OneByOne Bench.ScriptedEngine.engine (Sys.fresh usual) storedMeanwhile ∧
    s.SettersBack ∧ s.core.bridge.phase = .live ∧
    LimitsFollowed Bench.ScriptedEngine.engine {} usual storedMeanwhile s ∧
    told s.core.bridge.log = [4, 4] ∧ s.core.bridge.maxPayload = 4 := by
  have hsome : ((Sys.fresh usual).run Bench.ScriptedEngine.engine storedMeanwhile).isSome := rfl
  obtain ⟨s, hs⟩ := Option.isSome_iff_exists.mp hsome
  have hb : Bridge.make {} {} = .ok usual := rfl
  have hcalled : ∀ n x, Called storedMeanwhile n x → n = 1 := by
    intro n x hc
    have hnx : n = 1 ∧ x = 4 := by simpa [Called, storedMeanwhile] using hc
    exact hnx.1
  have hone : OneByOne Bench.ScriptedEngine.engine (Sys.fresh usual) storedMeanwhile :=
    oneByOne_of_called hb fun n m x y hn hm => (hcalled n x hn).trans (hcalled m y hm).symm
  refine ⟨s, hb, hs, hone, ?_, ?_, limits_followed hb hs, ?_, ?_⟩
  · cases hs
    intro n
    rcases n with _ | _ | n <;> exact id
  all_goals
    cases hs
    rfl

/-- The engine is live, and two calls take their steps in a different order: the first to store is
the last to tell. -/
def crossed : List Move :=
  [.call 0 (.start none), .act 0, .act 0, .act 0, .act 0, .act 0, .act 0,
    .call 1 (.setMaxPayload 4), .call 2 (.setMaxPayload 8), .act 1, .act 2, .act 2, .act 1]

/-- Two calls at the same time can leave a live engine with a limit that is not the stored one. -/
theorem limits_disagree : ∃ s, Bridge.make {} {} = .ok usual ∧
    (Sys.fresh usual).run Bench.ScriptedEngine.engine crossed = some s ∧
    (∀ n, s.pcs n = .idle ∨ s.pcs n = .returned (.unit (.ok ()))) ∧
    s.core.bridge.phase = .live ∧
    (told s.core.bridge.log).getLast? = some 4 ∧ s.core.bridge.maxPayload = 8 := by
  have hsome : ((Sys.fresh usual).run Bench.ScriptedEngine.engine crossed).isSome := rfl
  obtain ⟨s, hs⟩ := Option.isSome_iff_exists.mp hsome
  refine ⟨s, rfl, hs, ?_, ?_, ?_, ?_⟩
  · cases hs
    intro n
    rcases n with _ | _ | _ | n
    · exact .inr rfl
    · exact .inr rfl
    · exact .inr rfl
    · exact .inl rfl
  all_goals
    cases hs
    rfl

end Demo

end Threads

end KnxIoT
