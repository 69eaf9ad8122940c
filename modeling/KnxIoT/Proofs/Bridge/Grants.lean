import KnxIoT.Proofs.Bridge.Atomicity

/-! # For what a pending token was given out

The numbers of tokens run through 64 bits, so in a long run a token can be given out more than once.
`GivenBy` names the command that gave it out last, and `GivenFor` for what. `Given` says that what a
pending token stands for is what it was given out for last; `Gives` says the same of a single piece,
and `Attempt.gives` and `perform_gives` go through the commands. It holds of every use of a bridge,
however long (`load_given`, `Given.use`). -/

namespace KnxIoT.Bridge

variable {σ : Type} {s : Settings}

/-- **The token was last given out by the command `c`** in a trace. -/
def GivenBy (s : Settings) (tr : List (Entry σ)) (t : Token) (c : Command σ) : Prop :=
  ∃ pre post, tr = pre ++ .returned c (.token (.ok t)) :: post ∧
    ∀ x ∈ post, ∀ q, issue? s x ≠ some (t, q)

/-- The token was last given out for `p` in a trace. -/
def GivenFor (s : Settings) (tr : List (Entry σ)) (t : Token) (p : Pending) : Prop :=
  ∃ c, GivenBy s tr t c ∧ opens? s c = some p

/-- **What is pending after the piece `p`** of the command `c` was pending before, unless the piece
gives out its token; and if somebody is told first, none is given out. -/
structure Gives (c : Command σ) (b : Bridge σ) (p : Piece σ) : Prop where
  pending : ∀ t q, p.1.correlator.find? t = some q →
    b.correlator.find? t = some q ∧ (finalReply p).granted? ≠ some t ∨
      p.2 = .reply (.token (.ok t)) ∧ opens? b.settings c = some q
  rest : ∀ n a, p.2 = .notify n a → a.finalReply.granted? = none

/-! ### Pieces -/

section Pieces
variable {eng : Engine σ} {b : Bridge σ} {c : Command σ} {p : Piece σ}

theorem gives_of_none (hf : ∀ t q, p.1.correlator.find? t = some q → b.correlator.find? t = some q)
    (hr : (finalReply p).granted? = none) : Gives c b p where
  pending t q h := Or.inl ⟨hf t q h, by rw [hr]; exact nofun⟩
  rest n a h := by rw [← finalReply_of_notify h]; exact hr

theorem gives_of_eq (hk : p.1.correlator = b.correlator) (hr : (finalReply p).granted? = none) :
    Gives c b p :=
  gives_of_none (fun t q h => by rw [← hk]; exact h) hr

theorem granted?_of_failure? {r : Reply} {e : BridgeError} (h : r.failure? = some e) :
    r.granted? = none := by
  rcases r with _ | (_ | t) | _ | _ | _ | _ | _ | _ | _ | _ | _ | _ <;> first | rfl | cases h

theorem finalReply_failing (b : Bridge σ) (s : Settings) (e : BridgeError) (r : Reply) :
    finalReply (b, failing s c e r) = r := by
  rcases failing_eq (s := s) (c := c) (e := e) (r := r) with h | ⟨n, h⟩ <;> rw [h] <;> rfl

theorem find?_of_giveUp {k k' : Correlator} {q q' : Pending} {t u : Token}
    (h : k.issue q = .ok (t, k')) (hu : (k'.discard t).find? u = some q') :
    k.find? u = some q' := by
  rw [Correlator.find?_discard, (Correlator.issue_eq_ok h).2.2.2] at hu
  split_ifs at hu
  exact hu

/-- **A request gives out a token only when it succeeds.** -/
theorem Attempt.gives (h : Attempt eng b c p) : Gives c b p := by
  cases h with
  | early hr he =>
    exact gives_of_eq rfl (by rw [finalReply_failing]; exact granted?_of_failure? hr)
  | unsent hiss h => exact gives_of_none (fun t q hq => find?_of_giveUp hiss hq) rfl
  | @refused q t k call a b' w hiss h asks ha =>
    have hk : (b'.giveUp t).correlator = k.discard t :=
      congrArg (Correlator.discard · t) (callLive_correlator h)
    refine gives_of_none (fun u q' hu => ?_) (by rw [finalReply_failing]; rfl)
    rw [hk] at hu
    exact find?_of_giveUp hiss hu
  | @sent q t k call a b' ho hiss h asks ha =>
    refine ⟨fun u q' hu => ?_, by rintro n a ⟨⟩⟩
    have hk : b'.signal.correlator = k := callLive_correlator h
    rw [hk, (Correlator.issue_eq_ok hiss).2.2.2] at hu
    split_ifs at hu with hut
    · rw [hut, ho]
      exact Or.inr ⟨rfl, hu⟩
    · exact Or.inl ⟨hu, fun heq => hut (Option.some.inj heq).symm⟩
  | unheard h asks ha =>
    exact gives_of_eq (callLive_correlator h) (by rw [finalReply_failing]; rfl)
  | heard h asks ha =>
    have hk := callLive_correlator h
    exact gives_of_eq hk rfl

theorem drainFrom_gives {e : CycleEnd} (he : e.finalReply.granted? = none)
    (events : List EngineEvent) : Gives c b (drainFrom e events b) := by
  obtain ⟨hs, hd⟩ := drainFrom_drained (s := b.settings) e events b
  exact gives_of_none hd.kept (by rw [hd.reply]; exact he)

theorem pollCycle_gives {finish : Option ℕ → CycleEnd}
    (hf : ∀ next, (finish next).finalReply.granted? = none) :
    Gives c b (b.pollCycle eng finish) := by
  unfold pollCycle
  split_ifs
  · have h := drainFrom_gives (c := c) (b := (b.callEngine eng .poll).2)
      (hf (b.callEngine eng .poll).1) (b.callEngine eng .poll).2.queue.events
    refine ⟨fun t q ht => ?_, h.rest⟩
    rw [← callEngine_correlator eng .poll b, ← callEngine_settings eng .poll b]
    exact h.pending t q ht
  · have hd := endCycle_drained (s := b.settings) (finish none) b
    exact gives_of_none hd.kept (by rw [hd.reply]; exact hf none)

theorem stop_gives {r : Reply} (hr : r.granted? = none) : Gives c b (b.stop eng, .reply r) := by
  refine gives_of_none (fun t q h => ?_) hr
  rcases stop_cases eng b with ⟨-, hs⟩ | ⟨-, hs⟩
  · rw [hs] at h
    exact h
  · rw [Correlator.find?_eq_none_of_table hs.table] at h
    cases h

theorem start_gives (identity : Option Identity) :
    Gives c b (replying .unit (b.start eng identity)) := by
  refine gives_of_none (fun t q h => ?_) rfl
  have hs : Started eng b (b.start eng identity).2 := start_started eng identity
  dsimp only [replying] at h
  rcases hs.correlator with hk | ⟨htable, -⟩
  · rw [hk] at h
    exact h
  · rw [Correlator.find?_eq_none_of_table htable] at h
    cases h

/-- **A command gives out a token only for what it asks.** -/
theorem perform_gives (eng : Engine σ) (installed : Category → Bool) (c : Command σ)
    (b : Bridge σ) : Gives c b (b.perform eng installed c) := by
  by_cases hreq : c.IsRequest
  · rcases perform_attempt eng installed hreq b with h | ⟨i, h⟩
    · exact h.gives
    · exact ⟨h.gives.pending, h.gives.rest⟩
  cases c with
  | start identity => exact start_gives identity
  | poll =>
    simp only [perform, poll]
    split
    · exact gives_of_eq rfl rfl
    split
    · exact gives_of_eq rfl rfl
    · exact pollCycle_gives fun _ => rfl
  | cycle =>
    simp only [perform, workerCycle]
    split
    · have hd := endCycle_drained (s := b.settings) (.wait none) b
      exact gives_of_none hd.kept (by rw [hd.reply]; rfl)
    · exact pollCycle_gives fun _ => rfl
  | stop => exact stop_gives rfl
  | dispose =>
    have hstop : Gives (.dispose : Command σ) b (b.stop eng, .reply (.unit (.ok ()))) :=
      stop_gives rfl
    exact ⟨hstop.pending, by rintro n a ⟨⟩⟩
  | push e => exact gives_of_eq (push_correlator e b) rfl
  | register identifier address =>
    simp only [perform, replying, register]
    split <;> exact gives_of_eq rfl rfl
  | setName identifier name =>
    simp only [perform, replying, setName]
    split
    · split <;> exact gives_of_eq rfl rfl
    · exact gives_of_eq rfl rfl
  | setSecure identifier secure =>
    simp only [perform, replying, setSecure]
    split <;> exact gives_of_eq rfl rfl
  | setMaxPayload size =>
    simp only [perform, replying, setMaxPayload]
    split
    · exact gives_of_eq rfl rfl
    split
    · next hcall =>
      have hk := callLive_correlator hcall
      exact gives_of_eq hk rfl
    · exact gives_of_eq rfl rfl
  | submit r => exact absurd trivial hreq
  | discover scope query => exact absurd trivial hreq
  | discoverDefault => exact absurd trivial hreq
  | handshake identifier password => exact absurd trivial hreq
  | groupMessage scope m => exact absurd trivial hreq
  | _ => exact gives_of_eq rfl rfl

theorem proceed_gives {rest : Rest} (hr : rest.finalReply.granted? = none) (c : Command σ)
    (b : Bridge σ) : Gives c b (b.proceed rest) := by
  cases rest with
  | reply r => exact gives_of_eq rfl hr
  | drain e => exact drainFrom_gives hr b.queue.events
  | announce t found serials source text e =>
    obtain ⟨registry, hs, hf, -⟩ := announce_frame t source text e serials found b
    have hreply := announce_finalReply t source text e serials found b
    refine gives_of_eq (by simp only [proceed, hf]) ?_
    rw [show finalReply (b.proceed (.announce t found serials source text e)) = _ from hreply]
    exact hr

end Pieces

/-! ### Uses -/

/-- **What is pending at a point of a use** is what the tokens were given out for last. -/
structure Given (s : Settings) (m : Machine σ) : Prop where
  pending : ∀ t q, m.state.correlator.find? t = some q → GivenFor s m.trace t q
  rests : ∀ a d, .rest a d ∈ m.stack → a.finalReply.granted? = none

section Uses
variable {eng : Engine σ} {m m' : Machine σ} {tr es : List (Entry σ)} {t : Token} {q : Pending}

theorem GivenFor.append (h : GivenFor s tr t q) (hes : ∀ x ∈ es, ∀ q, issue? s x ≠ some (t, q)) :
    GivenFor s (tr ++ es) t q := by
  obtain ⟨c, ⟨pre, post, rfl, hpost⟩, ho⟩ := h
  refine ⟨c, ⟨pre, post ++ es, by simp, fun x hx => ?_⟩, ho⟩
  rcases List.mem_append.mp hx with hx | hx
  · exact hpost x hx
  · exact hes x hx

theorem issue?_entries {c : Command σ} {p : Piece σ} {h : Option HandlerName}
    {opening : List (Entry σ)} (ho : ∀ x ∈ opening, x = .called c)
    (hg : (finalReply p).granted? ≠ some t) :
    ∀ x ∈ opening ++ entries c p h, ∀ q, issue? s x ≠ some (t, q) := by
  intro x hx q heq
  rcases List.mem_append.mp hx with hx | hx
  · rw [ho x hx] at heq
    cases heq
  rcases List.mem_append.mp hx with hx | hx
  · obtain ⟨y, -, rfl⟩ := List.mem_map.mp hx
    cases heq
  · rw [List.mem_singleton.mp hx] at heq
    obtain ⟨r, hr, hgr⟩ := issue?_closing heq
    rw [finalReply_of_reply hr] at hg
    exact hg hgr

theorem Given.piece {c : Command σ} {p : Piece σ} {h : Option HandlerName}
    (hm : Given s m) (opening : List (Entry σ)) (hs : m.state.settings = s)
    (hp : Gives c m.state p) (ho : ∀ x ∈ opening, x = .called c)
    (state : m'.state = { p.1 with log := [] })
    (trace : m'.trace = m.trace ++ (opening ++ entries c p h))
    (rests : ∀ a d, .rest a d ∈ m'.stack → .rest a d ∈ m.stack ∨ ∃ n, p.2 = .notify n a) :
    Given s m' := by
  refine ⟨fun t q hq => ?_, fun a d ha => ?_⟩
  · rw [state] at hq
    rw [trace]
    rcases hp.pending t q hq with ⟨hold, hg⟩ | ⟨hreply, hopens⟩
    · exact (hm.pending t q hold).append (issue?_entries ho hg)
    · rw [hs] at hopens
      refine ⟨c, ⟨m.trace ++ (opening ++ p.1.log.map .happened), [], ?_, by simp⟩, hopens⟩
      simp [entries, hreply, Dispatch.Outcome.closing]
  · rcases rests a d ha with ha | ⟨n, hn⟩
    · exact hm.rests a d ha
    · exact hp.rest n a hn

theorem Given.step (hm : Given s m) (hstacked : Dispatch.Machine.Stacked m.stack)
    (hs : m.state.settings = s) : Given s (m.step (system eng)) := by
  cases Dispatch.Machine.step_advance (system eng) hstacked with
  | aside es state trace asides rests =>
    refine ⟨fun t q hq => ?_, fun a d ha => hm.rests a d (rests a d ha)⟩
    rw [state] at hq
    rw [trace]
    refine (hm.pending t q hq).append fun x hx q' heq => ?_
    have := asides x hx
    cases x with
    | returned c r => exact this
    | _ => cases heq
  | start c h p next below stack piece state trace rests =>
    subst piece
    exact hm.piece [.called c] hs (perform_gives eng m.table.isInstalled c m.state)
      (by simp) state trace rests
  | proceed a d c h p below stack piece state trace rests =>
    subst piece
    have hr := hm.rests a d (by rw [stack]; simp)
    exact hm.piece [] hs (proceed_gives hr c m.state) (by simp) state trace rests

/-- **Any use keeps that.** -/
theorem Given.use (hm : Given s m) (hu : Use eng m m') (hstacked : Dispatch.Machine.Stacked m.stack)
    (hs : m.state.settings = s) : Given s m' := by
  induction hu with
  | refl => exact hm
  | tail hu hturn ih =>
    cases hturn with
    | step => exact ih.step (use_stacked hu hstacked) ((settings_kept eng s).use hu hstacked hs)
    | push e =>
      refine ⟨fun t q hq => ?_, ih.rests⟩
      rw [show (queueFromOutside _ e).state.correlator = _ from push_correlator e _] at hq
      refine (ih.pending t q hq).append fun x hx q' heq => ?_
      obtain ⟨y, -, rfl⟩ := List.mem_map.mp hx
      cases heq

theorem load_given {settings : Settings} {engine : σ} {b : Bridge σ}
    (h : make settings engine = .ok b) (p : Program σ) :
    Given settings (Dispatch.Machine.load { state := b } p : Machine σ) where
  pending t q hq := by
    rw [make_eq_ok h] at hq
    cases hq
  rests a d ha := by simp [Dispatch.Machine.load] at ha

end Uses

end KnxIoT.Bridge
