import KnxIoT.Proofs.Threads.Vitals

/-! # The engine begins once and ends once

Whatever the order of steps, the log shows an engine that begins successfully once at most, that is
called for other things only between that and its shutdown, and that is shut down once at most
(`Chronicle`, kept by every `Use` of the engine). After the stop that found the quit flag unset has
returned, the engine was shut down if it had begun (`Life`), and the tokens that are still pending
belong to requests on their way (`Unclaimed`): so nothing is left when those have returned. -/

namespace KnxIoT

/-- The engine began. -/
def Happening.isBegun : Happening → Bool
  | .engine (.init _) a => (InitAnswer.failure? a).isNone
  | _ => false

/-- The engine was shut down. -/
def Happening.isShutdown : Happening → Bool
  | .engine .shutdown _ => true
  | _ => false

/-- How often the engine began. -/
def begun (l : List Happening) : ℕ := l.countP Happening.isBegun

/-- How often the engine was shut down. -/
def shutDown (l : List Happening) : ℕ := l.countP Happening.isShutdown

/-- A call of the engine that may come after the given happenings: it begins if it has not begun
yet, and everything else comes between its beginning and its end. -/
def EngineCall.FitsAfter (l : List Happening) : EngineCall → Prop
  | .init _ => begun l = 0
  | _ => begun l = 1 ∧ shutDown l = 0

/-- All calls of the engine are in order. -/
def Orderly (l : List Happening) : Prop :=
  ∀ pre c a post, l = pre ++ .engine c a :: post → c.FitsAfter pre

section Log
variable {l hs : List Happening}

theorem begun_append : begun (l ++ hs) = begun l + begun hs := List.countP_append

theorem shutDown_append : shutDown (l ++ hs) = shutDown l + shutDown hs := List.countP_append

theorem begun_eq_zero (h : ∀ x ∈ hs, ¬ x.IsCall) : begun hs = 0 := by
  refine List.countP_eq_zero.mpr fun x hx hb => h x hx ?_
  cases x with
  | engine c a => trivial
  | _ => cases hb

theorem shutDown_eq_zero (h : ∀ x ∈ hs, ¬ x.IsCall) : shutDown hs = 0 := by
  refine List.countP_eq_zero.mpr fun x hx hb => h x hx ?_
  cases x with
  | engine c a => trivial
  | _ => cases hb

theorem Orderly.concat (h : Orderly l) {x : Happening}
    (hx : ∀ c a, x = .engine c a → c.FitsAfter l) : Orderly (l ++ [x]) := by
  intro pre c a post he
  rcases List.append_eq_append_iff.mp he with ⟨as, rfl, has⟩ | ⟨bs, rfl, hbs⟩
  · cases as with
    | nil =>
      simp only [List.nil_append, List.cons.injEq] at has
      rw [List.append_nil]
      exact hx c a has.1
    | cons z as => simp at has
  · cases bs with
    | nil =>
      simp only [List.nil_append, List.cons.injEq] at hbs
      have hf := hx c a hbs.1.symm
      rwa [List.append_nil] at hf
    | cons z bs =>
      rw [List.cons_append, List.cons.injEq] at hbs
      exact h pre c a bs (by rw [← hbs.1])

theorem Orderly.call (h : Orderly l) {c : EngineCall} (hc : c.FitsAfter l) (a : c.Answer) :
    Orderly (l ++ [.engine c a]) :=
  h.concat fun c' a' he => by
    cases he
    exact hc

theorem Orderly.append (h : Orderly l) (hq : ∀ x ∈ hs, ¬ x.IsCall) : Orderly (l ++ hs) := by
  induction hs generalizing l with
  | nil => simpa using h
  | cons x xs ih =>
    have hx : Orderly (l ++ [x]) := h.concat fun c a he => by
      refine absurd ?_ (hq x (by simp))
      rw [he]
      trivial
    simpa using ih hx fun y hy => hq y (by simp [hy])

end Log

namespace Threads

variable {σ : Type} {eng : Engine σ}

/-! ## The log -/

/-- **What the log says** of an engine in the given phase. -/
structure Chronicle (p : EnginePhase) (l : List Happening) : Prop where
  orderly : Orderly l
  idle : p = .idle → begun l = 0 ∧ shutDown l = 0
  live : p = .live → begun l = 1 ∧ shutDown l = 0
  released : p = .released → shutDown l = begun l ∧ begun l ≤ 1

namespace Chronicle
variable {p : EnginePhase} {l hs : List Happening}

theorem quiet (h : Chronicle p l) (hq : ∀ x ∈ hs, ¬ x.IsCall) : Chronicle p (l ++ hs) := by
  have hb : begun (l ++ hs) = begun l := by rw [begun_append, begun_eq_zero hq, Nat.add_zero]
  have hd : shutDown (l ++ hs) = shutDown l := by
    rw [shutDown_append, shutDown_eq_zero hq, Nat.add_zero]
  obtain ⟨ho, hi, hl, hr⟩ := h
  exact ⟨ho.append hq, by rwa [hb, hd], by rwa [hb, hd], by rwa [hb, hd]⟩

theorem call (h : Chronicle .live l) {c : EngineCall} (hc : c.IsOrdinary) (a : c.Answer) :
    Chronicle .live (l ++ [.engine c a]) := by
  obtain ⟨hb, hd⟩ := h.live rfl
  have hfit : c.FitsAfter l := by
    cases c <;> first | exact hc.elim | exact ⟨hb, hd⟩
  have hb' : begun [.engine c a] = 0 := by cases c <;> first | exact hc.elim | rfl
  have hd' : shutDown [.engine c a] = 0 := by cases c <;> first | exact hc.elim | rfl
  refine ⟨h.orderly.call hfit a, by simp, fun _ => ?_, by simp⟩
  rw [begun_append, shutDown_append]
  omega

theorem begin (h : Chronicle .idle l) (i : Identity) {a : InitAnswer}
    (ha : InitAnswer.failure? a = none) : Chronicle .live (l ++ [.engine (.init i) a]) := by
  obtain ⟨hb, hd⟩ := h.idle rfl
  have hb' : begun [.engine (.init i) a] = 1 := by simp [begun, Happening.isBegun, ha]
  have hd' : shutDown [.engine (.init i) a] = 0 := rfl
  refine ⟨h.orderly.call (c := .init i) hb a, by simp, fun _ => ?_, by simp⟩
  rw [begun_append, shutDown_append]
  omega

theorem fail (h : Chronicle .idle l) (i : Identity) {a : InitAnswer}
    (ha : InitAnswer.failure? a ≠ none) : Chronicle .idle (l ++ [.engine (.init i) a]) := by
  obtain ⟨hb, hd⟩ := h.idle rfl
  have hb' : begun [.engine (.init i) a] = 0 := by simp [begun, Happening.isBegun, ha]
  have hd' : shutDown [.engine (.init i) a] = 0 := rfl
  refine ⟨h.orderly.call (c := .init i) hb a, fun _ => ?_, by simp, by simp⟩
  rw [begun_append, shutDown_append]
  omega

theorem shutdown (h : Chronicle .live l) (u : EngineCall.shutdown.Answer) :
    Chronicle .released (l ++ [.engine .shutdown u]) := by
  obtain ⟨hb, hd⟩ := h.live rfl
  have hb' : begun [.engine .shutdown u] = 0 := rfl
  have hd' : shutDown [.engine .shutdown u] = 1 := rfl
  refine ⟨h.orderly.call (c := .shutdown) ⟨hb, hd⟩ u, by simp, by simp, fun _ => ?_⟩
  rw [begun_append, shutDown_append]
  omega

theorem close (h : Chronicle p l) (hp : p ≠ .live) : Chronicle .released l := by
  refine ⟨h.orderly, by simp, by simp, fun _ => ?_⟩
  cases p with
  | idle =>
    obtain ⟨hb, hd⟩ := h.idle rfl
    omega
  | live => exact absurd rfl hp
  | released => exact h.released rfl

end Chronicle

/-- **Every use of the engine keeps the log in order.** -/
theorem Use.chronicle {p p' : EnginePhase} {l hs : List Happening} (hu : Use p hs p')
    (h : Chronicle p l) : Chronicle p' (l ++ hs) := by
  cases hu with
  | rest p hq => exact h.quiet hq
  | @call c a hc => exact h.call hc a
  | begin i a size u ha =>
    have hall : l ++ [.engine (.init i) a, .engine (.setMaxPayload size) u] =
        (l ++ [.engine (.init i) a]) ++ [.engine (.setMaxPayload size) u] := by simp
    rw [hall]
    exact (h.begin i ha).call (c := .setMaxPayload size) trivial u
  | fail i a ha => exact h.fail i ha
  | shutdown u => exact h.shutdown u
  | close hp =>
    rw [List.append_nil]
    exact h.close hp

theorem Step.chronicle {s s' : Sys σ} (h : Step eng s s')
    (hc : Chronicle s.core.bridge.phase s.core.bridge.log) :
    Chronicle s'.core.bridge.phase s'.core.bridge.log := by
  obtain ⟨hs, hl, hu⟩ := h.use
  rw [hl]
  exact hu.chronicle hc

/-! ## The pending tokens -/

/-- A request that has taken the token and has not handed it to the engine. -/
def Pc.Carries (t : Token) : Pc → Prop
  | .request (.put e) => e.token = some t
  | .request (.giveUp u _) => u = t
  | _ => False

section Ways
variable {k k' : Core σ} {more : List Chore} {pc' : Pc}

/-- A token that is pending after a step of a call was so before, or the call has just taken it; and
a call gives a token up when the engine is not live. -/
def Keeps (pc : Pc) (k k' : Core σ) (pc' : Pc) : Prop :=
  ∀ t p, k'.bridge.correlator.find? t = some p →
    pc'.Carries t ∨ k.bridge.correlator.find? t = some p ∧ ¬ pc.Carries t

theorem Keeps.of_eq {pc : Pc} (h : ∀ t, ¬ pc.Carries t)
    (hc : k'.bridge.correlator = k.bridge.correlator) : Keeps pc k k' pc' :=
  fun t _ hp => .inr ⟨hc ▸ hp, h t⟩

theorem endEngine_correlator (b : Bridge σ) :
    (endEngine eng b).1.correlator = b.correlator := by
  unfold endEngine
  split_ifs <;> rfl

theorem StartPc.Way.keeps {n : ℕ} {pc : StartPc} (h : StartPc.Way eng n k pc k' more pc') :
    Keeps (.start pc) k k' pc' := by
  refine .of_eq (fun t => id) ?_
  cases h with
  | release e => exact endEngine_correlator _
  | _ => rfl

theorem StopPc.Way.keeps {pc : StopPc} (h : StopPc.Way eng k pc k' more pc') :
    Keeps (.stop pc) k k' pc' := by
  cases h with
  | abandon =>
    intro t p hp
    cases hp
  | release => exact .of_eq (fun t => id) (endEngine_correlator _)
  | _ => exact .of_eq (fun t => id) rfl

theorem RequestPc.Way.keeps {pc : RequestPc} (hlive : k.bridge.phase ≠ .live)
    (h : RequestPc.Way eng k pc k' more pc') : Keeps (.request pc) k k' pc' := by
  cases h with
  | @issue w t correlator hi =>
    intro u p hp
    obtain ⟨-, -, -, hf⟩ := Correlator.issue_eq_ok hi
    by_cases hu : u = t
    · subst hu
      refine .inl ?_
      cases w <;> rfl
    · refine .inr ⟨?_, id⟩
      have := hf u
      rwa [if_neg hu, hp, eq_comm] at this
  | @refused e why =>
    intro t p hp
    by_cases ht : e.token = some t
    · rcases e.drop_cases (.error why) with ⟨u, hu, hd⟩ | ⟨hn, -⟩
      · rw [hd]
        exact .inl (Option.some.inj (hu.symm.trans ht))
      · rw [hn] at ht
        cases ht
    · exact .inr ⟨hp, ht⟩
  | sent e hp | rejected e hp => exact absurd hp hlive
  | giveUp u r =>
    intro t p hp
    simp only [Correlator.find?_discard] at hp
    split_ifs at hp with ht
    exact .inr ⟨hp, fun he => ht he.symm⟩
  | _ => exact .of_eq (fun t => id) rfl

theorem PollPc.Way.keeps {pc : PollPc} (h : PollPc.Way eng k pc k' more pc') :
    Keeps (.poll pc) k k' pc' := by
  cases h with
  | serve next he =>
    obtain ⟨events, registry, correlator, hs, rfl, -, ht, -⟩ := serveOne_frame he
    exact fun t p hp => .inr ⟨ht t p hp, id⟩
  | _ => exact .of_eq (fun t => id) rfl

/-- **A call keeps track of the tokens** once the engine is not live any more. -/
theorem Pc.Way.keeps {n : ℕ} {pc : Pc} (hlive : k.bridge.phase ≠ .live)
    (h : Pc.Way eng n k pc k' more pc') : Keeps pc k k' pc' := by
  cases h with
  | start h => exact h.keeps
  | stop h => exact h.keeps
  | request h => exact h.keeps hlive
  | poll h => exact h.keeps
  | limit h => cases h <;> exact .of_eq (fun t => id) rfl
  | lost | push | edit => exact .of_eq (fun t => id) rfl

end Ways

/-- A stop that has abandoned the tokens. -/
def Pc.Abandoned : Pc → Prop
  | .stop .discard | .stop .clear | .stop .done => True
  | _ => False

theorem Pc.abandoned_iff (pc : Pc) (l : List Chore) : pc.Abandoned ↔ pc.role l = .abandoned := by
  cases pc with
  | start p | stop p =>
    cases p <;> simp only [Abandoned, role, reduceCtorEq] <;> split_ifs <;> simp
  | _ => simp [Abandoned, role]

theorem Pc.eq_of_role_ended {pc : Pc} {l : List Chore} (h : pc.role l = .ended) :
    pc = .stop .abandon := by
  cases pc with
  | start p => cases p <;> cases h
  | stop p =>
    cases p with
    | abandon => rfl
    | join w =>
      unfold role at h
      split_ifs at h
    | _ => cases h
  | _ => cases h

theorem Moves.abandoned {v v' : Vitals} (h : Moves v v') {n : ℕ} (hn : v'.role n = .abandoned) :
    v.role n = .abandoned ∨ v.role n = .ended := by
  rcases h with rfl | h
  · exact .inl hn
  · cases h with
    | pass m r _ _ _ hr =>
      rw [Vitals.assign_role] at hn
      split_ifs at hn
      · rcases hr with hr | hr <;> rw [hr] at hn <;> cases hn
      · exact .inl hn
    | abandon m hm =>
      by_cases h : n = m
      · exact .inr (h ▸ hm)
      · rw [Vitals.assign_role, if_neg h] at hn
        exact .inl hn
    | _ =>
      simp only [Vitals.assign_role] at hn
      split_ifs at hn
      exact .inl hn

/-- **After the tokens were abandoned** each that is pending belongs to a request on its way. -/
def Unclaimed (s : Sys σ) : Prop :=
  (∃ n, (s.pcs n).Abandoned) → ∀ t p, s.core.bridge.correlator.find? t = some p →
    ∃ m, (s.pcs m).Carries t

theorem Step.unclaimed {s s' : Sys σ} (h : Step eng s s') (ha : Alive s) (hu : Unclaimed s) :
    Unclaimed s' := by
  rintro ⟨n, hn⟩ t p hp
  cases h with
  | call m c hm hc =>
    by_cases hnm : n = m
    · subst hnm
      simp only [Function.update_self] at hn
      cases c <;> exact hn.elim
    · obtain ⟨i, hi⟩ := hu ⟨n, by simpa [hnm] using hn⟩ t p hp
      have him : i ≠ m := by
        rintro rfl
        rw [hm] at hi
        exact hi.elim
      exact ⟨i, by simpa [him] using hi⟩
  | chore a hx he =>
    rw [(Chore.exec_way he).frame.correlator] at hp
    exact hu ⟨n, hn⟩ t p hp
  | @act m more k pc hm he =>
    by_cases hab : s.pcs m = .stop .abandon
    · rw [hab] at he
      cases he
      cases hp
    · have hold : ∃ i, (s.pcs i).Abandoned := by
        by_cases hnm : n = m
        · subst hnm
          simp only [Function.update_self] at hn
          have hmoves : Moves s.vitals (k.vitals (Function.update s.role n (pc.role more))) :=
            (Pc.exec_way he).moves (by rw [Sys.role, hm])
          refine ⟨n, ?_⟩
          have hrole :
              (k.vitals (Function.update s.role n (pc.role more))).role n = .abandoned := by
            simpa [Core.vitals] using (pc.abandoned_iff more).mp hn
          rcases hmoves.abandoned hrole with hr | hr
          · exact ((s.pcs n).abandoned_iff _).mpr hr
          · exact absurd (Pc.eq_of_role_ended hr) hab
        · exact ⟨n, by simpa [hnm] using hn⟩
      obtain ⟨i, hi⟩ := hold
      have hreleased : s.core.bridge.phase = .released :=
        ha.life.engineDone i (.inr (((s.pcs i).abandoned_iff _).mp hi))
      rcases (Pc.exec_way he).keeps (by rw [hreleased]; simp) t p hp with hc | ⟨hf, hc⟩
      · exact ⟨m, by simpa using hc⟩
      · obtain ⟨j, hj⟩ := hu ⟨i, hi⟩ t p hf
        have hjm : j ≠ m := by
          rintro rfl
          exact hc hj
        exact ⟨j, by simpa [hjm] using hj⟩
  | work late hm he =>
    exact hu ⟨n, hn⟩ t p ((Core.advance_walk he).frame.tokens t p hp)

/-! ## Calls that come too late -/

/-- What a call at the lifecycle check is told after a stop. -/
def Pc.refusal? : Pc → Option Reply
  | .start (.check _) | .start (.begin _) => some (.unit (.error .shutDown))
  | .request (.put e) => some (e.reply (.error .shutDown))
  | _ => none

/-- A call that comes too late, from the check to its reply. -/
def Pc.Doomed (r : Reply) (pc : Pc) : Prop :=
  pc.refusal? = some r ∨ (∃ t, pc = .request (.giveUp t r)) ∨ pc = .returned r

theorem Errand.doomed_drop (e : Errand) (why : Except BridgeError Unit) :
    (e.drop why).Doomed (e.reply why) := by
  rcases e.drop_cases why with ⟨t, -, h⟩ | ⟨-, h⟩
  · exact .inr (.inl ⟨t, h⟩)
  · exact .inr (.inr h)

/-- A call that comes too late cannot be held up, and goes on to its reply. -/
theorem Pc.exec_doomed (eng : Engine σ) (n : ℕ) {k : Core σ} {pc : Pc} {r : Reply}
    (hd : pc.Doomed r)
    (hq : k.bridge.loop.quit = true) (hp : k.bridge.phase = .released) : pc = .returned r ∨
      ∃ b pc', pc.exec eng n k = some ({ k with bridge := b }, [], pc') ∧ pc'.Doomed r ∧
        (pc' = .returned r ∨ ∃ t, pc' = .request (.giveUp t r)) := by
  rcases hd with hd | ⟨t, rfl⟩ | rfl
  · refine .inr ?_
    cases pc with
    | start p =>
      cases p with
      | check identity =>
        cases hd
        exact ⟨k.bridge, _, by simp only [exec, StartPc.exec, if_pos hq], .inr (.inr rfl), .inl rfl⟩
      | begin identity =>
        cases hd
        exact ⟨k.bridge, _, by simp only [exec, StartPc.exec, hp], .inr (.inr rfl), .inl rfl⟩
      | _ => cases hd
    | request p =>
      cases p with
      | put e =>
        cases hd
        refine ⟨k.bridge, e.drop (.error .shutDown), ?_, e.doomed_drop _, ?_⟩
        · simp only [exec, RequestPc.exec, Bridge.refusal?, hp]
        · rcases e.drop_cases (.error .shutDown) with ⟨t, -, h⟩ | ⟨-, h⟩
          · exact .inr ⟨t, h⟩
          · exact .inl h
      | _ => cases hd
    | _ => cases hd
  · exact .inr ⟨_, _, rfl, .inr (.inr rfl), .inl rfl⟩
  · exact .inl rfl

section Late
variable {s s' : Sys σ} {n : ℕ} {r : Reply}

theorem Step.doomed (h : Step eng s s') (hd : (s.pcs n).Doomed r)
    (hq : s.core.bridge.loop.quit = true) (hp : s.core.bridge.phase = .released) :
    (s'.pcs n).Doomed r := by
  cases h with
  | call m c hm =>
    by_cases hnm : n = m
    · subst hnm
      rw [hm] at hd
      rcases hd with hd | ⟨t, hd⟩ | hd <;> cases hd
    · simpa [hnm] using hd
  | chore a _ he => exact hd
  | act m hm he =>
    by_cases hnm : n = m
    · subst hnm
      rcases Pc.exec_doomed eng n hd hq hp with hr | ⟨b, pc', he', hd', -⟩
      · rw [hr] at he
        cases he
      · rw [he] at he'
        cases he'
        simpa using hd'
    · simpa [hnm] using hd
  | work late hm he => exact hd

/-- A call at the lifecycle check has no chores. -/
def Prompt (s : Sys σ) : Prop :=
  ∀ n, (s.pcs n).refusal? ≠ none → s.chores (some n) = []

theorem Pc.Way.prompt {k k' : Core σ} {more : List Chore} {pc pc' : Pc}
    (h : Pc.Way eng n k pc k' more pc') (hr : pc'.refusal? ≠ none) : more = [] := by
  have hdrop : ∀ (e : Errand) why, (e.drop why).refusal? = none := by
    intro e why
    rcases e.drop_cases why with ⟨t, -, h⟩ | ⟨-, h⟩ <;> rw [h] <;> rfl
  cases h with
  | start h =>
    cases h with
    | failed | begin | release => exact absurd rfl hr
    | _ => rfl
  | stop h => cases h <;> exact absurd rfl hr
  | request h =>
    cases h with
    | sent => exact absurd rfl hr
    | rejected e => exact absurd (hdrop e _) hr
    | _ => rfl
  | poll h => cases h <;> exact absurd rfl hr
  | limit h => cases h <;> exact absurd rfl hr
  | push => exact absurd rfl hr
  | lost | edit => rfl

theorem Step.prompt (h : Step eng s s') (hs : Prompt s) : Prompt s' := by
  intro n hr
  cases h with
  | call m c hm =>
    by_cases hnm : n = m
    · subst hnm
      simp only [Function.update_self] at hr ⊢
      cases c <;> first | rfl | exact absurd rfl hr
    · simp only [Function.update_of_ne hnm] at hr
      simpa [hnm] using hs n hr
  | @chore a x xs more k ha he =>
    have hn := hs n hr
    have han : some n ≠ a := by
      rintro rfl
      rw [hn] at ha
      cases ha
    simpa [han] using hn
  | act m hm he =>
    by_cases hnm : n = m
    · subst hnm
      simp only [Function.update_self] at hr ⊢
      exact (Pc.exec_way he).prompt hr
    · simp only [Function.update_of_ne hnm] at hr
      simpa [hnm] using hs n hr
  | work late hm he => simpa using hs n hr

theorem move_act {k : Core σ} {more : List Chore} {pc' : Pc} (hc : s.chores (some n) = [])
    (he : (s.pcs n).exec eng n s.core = some (k, more, pc')) : ∃ s1, s.move eng (.act n) = some s1 ∧
      s1.core = k ∧ s1.chores (some n) = more ∧ s1.pcs n = pc' := by
  refine ⟨_, by simp only [Sys.move, hc, he]; rfl, rfl, ?_, ?_⟩ <;> simp

/-- **A call that comes too late returns** if it is let. -/
theorem Pc.Doomed.returns (hd : (s.pcs n).Doomed r) (hc : s.chores (some n) = [])
    (hq : s.core.bridge.loop.quit = true) (hp : s.core.bridge.phase = .released) :
    ∃ ms s', s.run eng ms = some s' ∧ s'.pcs n = .returned r := by
  rcases Pc.exec_doomed eng n hd hq hp with hr | ⟨b, pc', he, -, hend⟩
  · exact ⟨[], s, rfl, hr⟩
  · obtain ⟨s1, hm, -, hc1, hp1⟩ := move_act hc he
    rcases hend with rfl | ⟨t, rfl⟩
    · exact ⟨[.act n], s1, by simp only [Sys.run, hm], hp1⟩
    · have he' : (s1.pcs n).exec eng n s1.core = some
          ({ s1.core with bridge.correlator := s1.core.bridge.correlator.discard t }, [],
            .returned r) := by rw [hp1]; rfl
      obtain ⟨s2, hm', -, -, hp2⟩ := move_act hc1 he'
      exact ⟨[.act n, .act n], s2, by simp only [Sys.run, hm, hm'], hp2⟩

end Late

/-! ## The lifecycle -/

namespace Pc

/-- Inside a start. -/
def InStart : Pc → Prop
  | .start _ => True
  | _ => False

/-- Inside a request. -/
def InRequest : Pc → Prop
  | .request _ => True
  | _ => False

theorem Carries.inRequest {t : Token} {pc : Pc} (h : pc.Carries t) : pc.InRequest := by
  cases pc with
  | request p => trivial
  | _ => exact h.elim

end Pc

/-- The stop that found the quit flag unset has returned, and so have all starts and requests that
were called before. -/
def Sys.Over (s : Sys σ) : Prop :=
  (∃ n, s.pcs n = .stop .done) ∧ ∀ n, ¬ (s.pcs n).InStart ∧ ¬ (s.pcs n).InRequest

/-- **The lifecycle of the engine** is kept in the state `s`. -/
structure LifecycleSafe (eng : Engine σ) (s : Sys σ) : Prop where
  beginsOnce : begun s.core.bridge.log ≤ 1
  endsOnce : shutDown s.core.bridge.log ≤ 1
  inOrder : Orderly s.core.bridge.log
  /-- As long as the engine has only failed to begin, the bridge can be started. -/
  startable : begun s.core.bridge.log = 0 → s.core.bridge.loop.quit = false →
    s.core.bridge.startRefusal? = none ∧
      ∃ loop, s.core.bridge.loop.start s.core.bridge.settings.threading = .ok loop
  /-- Nothing is left when all is over. -/
  settled : s.Over → shutDown s.core.bridge.log = begun s.core.bridge.log ∧
    s.core.bridge.loop.state = .stopped ∧ s.core.bridge.correlator.table = []
  /-- From then on a start or a request that comes to the lifecycle check is refused: it can return,
  and whatever else happens meanwhile, it returns this. -/
  refused : s.Over → ∀ ms s1 n r, s.run eng ms = some s1 → (s1.pcs n).refusal? = some r →
    (∃ ms' s2, s1.run eng ms' = some s2 ∧ s2.pcs n = .returned r) ∧
      ∀ ms' s2 r', s1.run eng ms' = some s2 → s2.pcs n = .returned r' → r' = r

/-- What every schedule keeps of the engine and the tokens. -/
structure Kept (s : Sys σ) : Prop where
  alive : Alive s
  chronicle : Chronicle s.core.bridge.phase s.core.bridge.log
  unclaimed : Unclaimed s
  prompt : Prompt s

theorem Step.kept {s s' : Sys σ} (h : Step eng s s') (hk : Kept s) : Kept s' :=
  ⟨h.alive hk.alive, h.chronicle hk.chronicle, h.unclaimed hk.alive hk.unclaimed,
    h.prompt hk.prompt⟩

theorem kept_fresh {settings : Settings} {e : σ} {b : Bridge σ}
    (h : Bridge.make settings e = .ok b) : Kept (Sys.fresh b) := by
  refine ⟨alive_fresh h, ?_, fun ⟨n, hn⟩ => hn.elim, fun n _ => rfl⟩
  unfold Bridge.make at h
  split at h <;> cases h
  refine ⟨fun pre c a post he => ?_, fun _ => ⟨rfl, rfl⟩, by simp [Sys.fresh], by simp [Sys.fresh]⟩
  simp [Sys.fresh] at he

theorem run_kept {s s' : Sys σ} {ms : List Move} (hs : Kept s) (h : s.run eng ms = some s') :
    Kept s' :=
  run_induction (fun _ _ hk hstep => hstep.kept hk) ms hs h

section Over
variable {s : Sys σ}

theorem Kept.ended (hk : Kept s) {n : ℕ} (hn : s.pcs n = .stop .done) :
    s.core.bridge.loop.quit = true ∧ s.core.bridge.loop.state = .stopped ∧
      s.core.bridge.phase = .released := by
  have hr : s.vitals.role n = .abandoned := by
    simp [Sys.vitals, Core.vitals, Sys.role, hn, Pc.role]
  have he : (s.vitals.role n).EngineDone := .inr hr
  exact ⟨hk.alive.life.stops n (.inr (.inr (.inr (.inr he)))),
    hk.alive.life.loopDone n (.inr he), hk.alive.life.engineDone n he⟩

theorem Kept.refused (hk : Kept s) {n m : ℕ} {ms : List Move} {s1 : Sys σ} {r : Reply}
    (hn : s.pcs n = .stop .done) (h1 : s.run eng ms = some s1) (hr : (s1.pcs m).refusal? = some r) :
    (∃ ms' s2, s1.run eng ms' = some s2 ∧ s2.pcs m = .returned r) ∧
      ∀ ms' s2 r', s1.run eng ms' = some s2 → s2.pcs m = .returned r' → r' = r := by
  obtain ⟨hq, -, hp⟩ := hk.ended hn
  have hend : s1.core.bridge.loop.quit = true ∧ s1.core.bridge.phase = .released :=
    run_induction (P := fun s => s.core.bridge.loop.quit = true ∧ s.core.bridge.phase = .released)
      (fun _ _ h hstep => ⟨hstep.quit h.1, hstep.released h.2⟩) ms ⟨hq, hp⟩ h1
  refine ⟨?_, fun ms' s2 r' h2 hr' => ?_⟩
  · exact Pc.Doomed.returns (.inl hr) ((run_kept hk h1).prompt m (by simp [hr])) hend.1 hend.2
  · have hd : (s2.core.bridge.loop.quit = true ∧ s2.core.bridge.phase = .released) ∧
        (s2.pcs m).Doomed r :=
      run_induction (P := fun s => (s.core.bridge.loop.quit = true ∧
          s.core.bridge.phase = .released) ∧ (s.pcs m).Doomed r)
        (fun _ _ h hstep => ⟨⟨hstep.quit h.1.1, hstep.released h.1.2⟩,
          hstep.doomed h.2 h.1.1 h.1.2⟩) ms' ⟨hend, .inl hr⟩ h2
    rcases hd.2 with h | ⟨t, h⟩ | h <;> rw [hr'] at h <;> cases h
    rfl

end Over

/-- **Engine lifecycle safety.** Whatever the order of steps, the engine begins successfully once
at most, is called for other things only between that and its shutdown, and is shut down once at
most; an engine that fails to begin leaves the bridge startable. When the stop has returned and no
start or request is on its way, the engine was shut down if it had begun, the loop has stopped,
nothing is pending, and every start or request that comes later is told so. -/
theorem lifecycle_safe {settings : Settings} {e : σ} {b : Bridge σ} {ms : List Move} {s : Sys σ}
    (hb : Bridge.make settings e = .ok b) (h : (Sys.fresh b).run eng ms = some s) :
    LifecycleSafe eng s := by
  have hk := run_kept (kept_fresh hb) h
  obtain ⟨ho, hi, hl, hr⟩ := hk.chronicle
  have hcount : begun s.core.bridge.log ≤ 1 ∧ shutDown s.core.bridge.log ≤ 1 := by
    cases hp : s.core.bridge.phase with
    | idle => have := hi hp; omega
    | live => have := hl hp; omega
    | released => have := hr hp; omega
  refine ⟨hcount.1, hcount.2, ho, fun h0 hq => ?_, fun ⟨⟨n, hn⟩, hret⟩ => ?_,
    fun ⟨⟨n, hn⟩, _⟩ ms' s1 m r h1 hr => hk.refused hn h1 hr⟩
  · have hp : s.core.bridge.phase = .idle := by
      cases hp : s.core.bridge.phase with
      | idle => rfl
      | live => have := hl hp; omega
      | released =>
        have hq' : s.core.bridge.loop.quit = true := hk.alive.life.released hp
        rw [hq] at hq'
        cases hq'
    have hs : s.core.bridge.loop.state = .stopped := hk.alive.life.unused hp hq
    refine ⟨by simp [Bridge.startRefusal?, hq, hp], ?_⟩
    simp [EventLoop.start, hq, hs]
  · obtain ⟨-, hs, hp⟩ := hk.ended hn
    refine ⟨(hr hp).1, hs, Correlator.table_eq_nil fun t => ?_⟩
    cases hf : s.core.bridge.correlator.find? t with
    | none => rfl
    | some p =>
      obtain ⟨m, hm⟩ := hk.unclaimed ⟨n, by rw [hn]; trivial⟩ t p hf
      exact absurd hm.inRequest (hret m).2

section Demo

/-- A stop that comes while the engine begins: the loop does not start, the start ends the engine
again, and a discovery query that took its token before is refused. -/
def stopMeanwhile : List Move :=
  [.call 0 (.start none), .act 0, .act 0, .call 2 (.discover 2 ""), .act 2,
    .call 1 (.stop false), .act 1, .chore (some 1), .chore (some 1), .chore (some 1),
    .act 1, .act 1, .act 0, .act 0, .act 0, .act 1, .act 1, .act 1, .act 1, .act 2, .act 2]

theorem lifecycle_safe_stop_meanwhile : ∃ s, Bridge.make {} {} = .ok usual ∧
    (Sys.fresh usual).run Bench.ScriptedEngine.engine stopMeanwhile = some s ∧ s.Over ∧
    begun s.core.bridge.log = 1 ∧ LifecycleSafe Bench.ScriptedEngine.engine s ∧
    shutDown s.core.bridge.log = 1 ∧ s.pcs 2 = .returned (.token (.error .shutDown)) := by
  have hsome : ((Sys.fresh usual).run Bench.ScriptedEngine.engine stopMeanwhile).isSome := rfl
  obtain ⟨s, hs⟩ := Option.isSome_iff_exists.mp hsome
  have hb : Bridge.make {} {} = .ok usual := rfl
  have hsafe := lifecycle_safe hb hs
  have hover : s.Over := by
    cases hs
    refine ⟨⟨1, rfl⟩, fun n => ?_⟩
    rcases n with _ | _ | _ | n <;> exact ⟨id, id⟩
  have hbegun : begun s.core.bridge.log = 1 := by
    cases hs
    rfl
  have hreply : s.pcs 2 = .returned (.token (.error .shutDown)) := by
    cases hs
    rfl
  exact ⟨s, hb, hs, hover, hbegun, hsafe, by rw [(hsafe.settled hover).1, hbegun], hreply⟩

end Demo

end Threads

end KnxIoT
