import KnxIoT.Proofs.Bridge.Commands
import KnxIoT.Proofs.Bridge.Requests
import KnxIoT.Proofs.Registry.Table
import Mathlib.Logic.Relation

/-! # What a command is made of

Apart from the three commands that begin or end something (`Command.IsLife`), a piece of a command
consists of few kinds of moves: the engine is called while it is live, an event enters or leaves the
queue, a token is given out or closed, one device changes. `perform_moves` and `proceed_moves`
decompose the pieces, so that what every move keeps, every piece keeps.

New devices are entered only under the identifiers and with the contents that `E` allows; this is
carried along for the devices that the rest of a command is still going to announce. -/

namespace KnxIoT

namespace Bridge

variable {σ : Type} {E : String → DeviceUpdate → Prop}

/-- What is written into a device that is registered by hand. -/
def registration (identifier address : String) : DeviceUpdate :=
  { address := some address
    endpoint := some { Endpoint.unicast address with serial := some identifier } }

/-- **One change of the registry.** -/
inductive Touch (E : String → DeviceUpdate → Prop) : Registry → Registry → Prop
  | enter {r r' : Registry} {i : String} {u : DeviceUpdate} {d : Device} (allowed : E i u)
      (h : r.upsert i u = .ok (d, r')) : Touch E r r'
  | rename {r r' : Registry} {i name : String} {d : Device} (known : (r.find? i).isSome)
      (h : r.upsert i { name := some name } = .ok (d, r')) : Touch E r r'
  | secure (r : Registry) (i : String) (on : Bool) : Touch E r (r.setSecure i on).2
  | number (r : Registry) (i : String) : Touch E r (r.modify i withSerial)
  | clear (r : Registry) : Touch E r r.clear

/-- **One move of a bridge** whose life goes on. -/
inductive Move (eng : Engine σ) (E : String → DeviceUpdate → Prop) : Bridge σ → Bridge σ → Prop
  | call {b : Bridge σ} (c : EngineCall) (live : b.phase = .live) (hc : ∀ i, c ≠ .init i) :
      Move eng E b (b.callEngine eng c).2
  | push (b : Bridge σ) (e : EngineEvent) : Move eng E b (b.push e).2
  | take {b : Bridge σ} {e : EngineEvent} {rest : List EngineEvent}
      (h : b.queue.events = e :: rest) : Move eng E b (b.taking e rest)
  | settle (b : Bridge σ) (e : EngineEvent) :
      Move eng E b { b with correlator := b.correlator.settle e }
  /-- A token is given out. -/
  | grant {b : Bridge σ} {p : Pending} {t : Token} {k : Correlator} (live : b.phase = .live)
      (h : b.correlator.issue p = .ok (t, k)) : Move eng E b { b with correlator := k }
  /-- A token is taken and given back. -/
  | vain {b : Bridge σ} {p : Pending} {t : Token} {k : Correlator}
      (h : b.correlator.issue p = .ok (t, k)) : Move eng E b { b with correlator := k.discard t }
  | touch {b : Bridge σ} {r : Registry} (h : Touch E b.registry r) :
      Move eng E b { b with registry := r }
  | tell (b : Bridge σ) (t : Token) (n : ℕ) : Move eng E b (b.note [.discovered t n])
  /-- The worker is woken or goes to wait. -/
  | rouse {b : Bridge σ} {loop : EventLoop} {wake : WakeSignal} (state : loop.state = b.loop.state)
      (quit : loop.quit = b.loop.quit) : Move eng E b { b with loop, wake }
  | limit (b : Bridge σ) (n : ℕ) : Move eng E b { b with maxPayload := n }
  | visit (b : Bridge σ) (s : σ) : Move eng E b { b with engine := s }

/-- Any number of moves. -/
abbrev Moves (eng : Engine σ) (E : String → DeviceUpdate → Prop) : Bridge σ → Bridge σ → Prop :=
  Relation.ReflTransGen (Move eng E)

/-- The devices that the rest of a command is going to announce may be entered. -/
def Announces (E : String → DeviceUpdate → Prop) : Rest → Prop
  | .announce _ _ serials source _ _ =>
    ∀ s ∈ serials, ∀ secure, E s (announced source secure s)
  | _ => True

/-- Some discovery is pending. -/
def Searching (b : Bridge σ) : Prop := ∃ t k, b.correlator.find? t = some (.discovery k)

/-- As long as a discovery is pending, any device that it finds may be entered. -/
def Admits (E : String → DeviceUpdate → Prop) (b : Bridge σ) : Prop :=
  b.Searching → ∀ s source secure, E s (announced source secure s)

/-- **The piece `p` is made of moves,** and the devices that it leaves to be announced may be
entered. -/
structure ByMoves (eng : Engine σ) (E : String → DeviceUpdate → Prop) (b : Bridge σ)
    (p : Piece σ) : Prop where
  moves : Moves eng E b p.1
  rests : ∀ n a, p.2 = .notify n a → Announces E a

/-- A command that begins or ends something. -/
def Command.IsLife : Command σ → Prop
  | .start _ | .stop | .dispose => True
  | _ => False

theorem Command.IsLife.not_isCycle {c : Command σ} (h : c.IsLife) : ¬ c.IsCycle := by
  cases c with
  | poll => exact h.elim
  | cycle => exact h.elim
  | _ => exact id

/-! ### What every move keeps -/

section Keeps
variable {eng : Engine σ} {b b' : Bridge σ}

theorem Move.quit (h : Move eng E b b') : b'.loop.quit = b.loop.quit := by
  cases h with
  | call c live hc => rw [callEngine_loop]
  | push e => unfold Bridge.push; split_ifs <;> rfl
  | rouse state quit => exact quit
  | _ => rfl

theorem callEngine_registry (eng : Engine σ) (c : EngineCall) (b : Bridge σ) :
    (b.callEngine eng c).2.registry = b.registry := by rw [callEngine_eq]

theorem Move.registry (h : Move eng E b b') :
    b'.registry = b.registry ∨ Touch E b.registry b'.registry := by
  cases h with
  | call c live hc => exact Or.inl (callEngine_registry eng c b)
  | push e => exact Or.inl (by unfold Bridge.push; split_ifs <;> rfl)
  | touch h => exact Or.inr h
  | _ => exact Or.inl rfl

theorem Move.settings (h : Move eng E b b') : b'.settings = b.settings := by
  cases h with
  | call c live hc => exact callEngine_settings eng c b
  | push e => unfold Bridge.push; split_ifs <;> rfl
  | _ => rfl

theorem abandons_of_isPlain {x : Happening} (h : x.IsPlain) :
    abandons (.happened x : Entry σ) = false := by
  unfold abandons
  split
  · next hx => cases hx
  · next hx => cases hx
  · next hx => cases hx; exact h.elim
  · rfl

theorem Move.log (h : Move eng E b b') : ∃ hs, b'.log = b.log ++ hs ∧
    ∀ x ∈ hs, abandons (.happened x : Entry σ) = false := by
  cases h with
  | call c live hc =>
    obtain ⟨hs, hl, hp⟩ := (callEngine_steady eng c b (Happening.isPlain_engine hc _)).log
    exact ⟨hs, hl, fun x hx => abandons_of_isPlain (hp x hx)⟩
  | push e =>
    obtain ⟨hs, hl, hp⟩ := (push_steady e b).log
    exact ⟨hs, hl, fun x hx => abandons_of_isPlain (hp x hx)⟩
  | take h => exact ⟨_, rfl, by simp [abandons]⟩
  | tell t n => exact ⟨_, rfl, by simp [abandons]⟩
  | _ => exact ⟨[], by simp, by simp⟩

theorem Moves.quit (h : Moves eng E b b') : b'.loop.quit = b.loop.quit := by
  induction h with
  | refl => rfl
  | tail _ h ih => exact h.quit.trans ih

theorem Moves.log (h : Moves eng E b b') : ∃ hs, b'.log = b.log ++ hs ∧
    ∀ x ∈ hs, abandons (.happened x : Entry σ) = false := by
  induction h with
  | refl => exact ⟨[], by simp, by simp⟩
  | tail _ h ih =>
    obtain ⟨hs, hl, hp⟩ := ih
    obtain ⟨hs', hl', hp'⟩ := h.log
    refine ⟨hs ++ hs', by rw [hl', hl, List.append_assoc], fun x hx => ?_⟩
    rcases List.mem_append.mp hx with hx | hx
    · exact hp x hx
    · exact hp' x hx

end Keeps

/-! ### Handling events -/

section Events
variable {eng : Engine σ} {b : Bridge σ} {e : CycleEnd}

theorem announce_moves (eng : Engine σ) (e : CycleEnd) (t : Token) (source : Endpoint)
    (text : String) :
    ∀ (serials : List String) (found : ℕ) (b : Bridge σ),
      (∀ s ∈ serials, ∀ secure, E s (announced source secure s)) →
      Moves eng E b (announce t found source text e serials b).1 ∧
        Announces E (announce t found source text e serials b).2.2
  | [], found, b => fun _ => ⟨.single (.tell b t found), trivial⟩
  | s :: serials, found, b => fun h => by
    have hrest : ∀ s ∈ serials, ∀ secure, E s (announced source secure s) :=
      fun s hs => h s (List.mem_cons_of_mem _ hs)
    unfold announce
    split
    · next d r hu => exact ⟨.single (.touch (.enter (h s (by simp) _) hu)), hrest⟩
    · exact announce_moves eng e t source text serials found b hrest

/-- A reply is only announced while a discovery is pending. -/
theorem searching_of_acceptReply {t : Token} {k : Correlator}
    (h : b.correlator.acceptReply t = (true, k)) : b.Searching := by
  unfold Correlator.acceptReply at h
  split at h
  · next hf => exact ⟨t, _, hf⟩
  · next hf => exact ⟨t, _, hf⟩
  · cases h

theorem handle_moves (eng : Engine σ) (e : CycleEnd) (ev : EngineEvent) (hE : Admits E b) :
    Moves eng E b (b.handle ev e).1 := by
  have hset : Move eng E b { b with correlator := b.correlator.settle ev } := .settle b ev
  cases ev with
  | discoveryReply t payload source =>
    rw [← Correlator.acceptReply_snd] at hset
    rcases ha : b.correlator.acceptReply t with ⟨_ | _, k⟩
    all_goals rw [ha] at hset
    · rw [handle_discoveryReply_dropped ha]
      exact .single hset
    · rw [handle_discoveryReply ha]
      exact .head hset (announce_moves eng e t source _ _ 0 _
        fun s _ secure => hE (searching_of_acceptReply ha) s source secure).1
  | response t status format payload source =>
    rw [← Correlator.complete_snd] at hset
    exact .single hset
  | handshakeResult t status identity secret =>
    rw [← Correlator.takeHandshake_snd] at hset
    exact .single hset
  | _ => exact .refl

/-- After the notification of an event only such devices are left to be announced. -/
theorem handle_announces {e : CycleEnd} {ev : EngineEvent} {n : Notification} {a : Rest}
    (eng : Engine σ) (hE : Admits E b) (h : (b.handle ev e).2 = some (n, a)) : Announces E a := by
  rcases handle_left h with rfl | ⟨t, source, text, c, ha, rfl⟩
  · trivial
  · exact (announce_moves eng e t source _ _ 0 _
      fun s _ secure => hE (searching_of_acceptReply ha) s source secure).2

theorem endCycle_moves (e : CycleEnd) (b : Bridge σ) : Moves eng E b (b.endCycle e).1 := by
  cases e with
  | reply r => exact .refl
  | wait next =>
    have h : (b.loop.afterCycle b.wake next.isSome).1.state = b.loop.state ∧
        (b.loop.afterCycle b.wake next.isSome).1.quit = b.loop.quit := by
      unfold EventLoop.afterCycle EventLoop.wake
      split_ifs
      · exact ⟨rfl, rfl⟩
      · dsimp only
        split <;> exact ⟨rfl, rfl⟩
    exact .single (.rouse h.1 h.2)

theorem endCycle_byMoves (e : CycleEnd) (b : Bridge σ) : ByMoves eng E b (b.endCycle e) := by
  refine ⟨endCycle_moves e b, fun n a h => ?_⟩
  cases e <;> cases h

/-- **Draining the queue** takes one event after the other. -/
theorem drainFrom_moves (eng : Engine σ) (e : CycleEnd) :
    ∀ (events : List EngineEvent) (b : Bridge σ), b.queue.events = events → Admits E b →
      ByMoves eng E b (drainFrom e events b)
  | [], b => fun _ _ => endCycle_byMoves e b
  | ev :: rest, b => fun hq hE => by
    have htake : Move eng E b (b.taking ev rest) := .take hq
    have hm := handle_moves eng e (b := b.taking ev rest) ev hE
    rw [drainFrom_cons]
    rcases hh : (b.taking ev rest).handle ev e with ⟨b₁, _ | ⟨n, a⟩⟩
    all_goals rw [hh] at hm
    · have hb₁ := eq_of_untold hh
      have hsearch : b₁.Searching → b.Searching := by
        rintro ⟨t, k, hf⟩
        rw [hb₁] at hf
        exact ⟨t, k, Correlator.find?_of_settle hf⟩
      obtain ⟨hm', hr⟩ := drainFrom_moves eng e rest b₁ (by rw [hb₁]; rfl) fun h => hE (hsearch h)
      exact ⟨.head htake (hm.trans hm'), hr⟩
    · refine ⟨.head htake hm, fun n' a' h => ?_⟩
      cases h
      exact handle_announces eng (b := b.taking ev rest) hE (congrArg Prod.snd hh)

theorem pollCycle_moves (finish : Option ℕ → CycleEnd) (hE : Admits E b) :
    ByMoves eng E b (b.pollCycle eng finish) := by
  unfold pollCycle
  split_ifs with hlive
  · have hcall : Move eng E b (b.callEngine eng .poll).2 := .call .poll hlive nofun
    have hs : (b.callEngine eng .poll).2.Searching → b.Searching := by
      unfold Searching
      rw [callEngine_correlator]
      exact id
    obtain ⟨hm, hr⟩ := drainFrom_moves eng (finish (b.callEngine eng .poll).1) _
      (b.callEngine eng .poll).2 rfl fun h => hE (hs h)
    exact ⟨.head hcall hm, hr⟩
  · exact endCycle_byMoves _ b

end Events

/-! ### Sending something -/

section Sending
variable {eng : Engine σ} {b : Bridge σ}

theorem signal_move (b : Bridge σ) : Move eng E b b.signal := .rouse rfl rfl

/-- Calling the engine does not depend on the pending tokens. -/
theorem callEngine_with (eng : Engine σ) (c : EngineCall) (b : Bridge σ) (k : Correlator) :
    ({ b with correlator := k } : Bridge σ).callEngine eng c =
      ((b.callEngine eng c).1, { (b.callEngine eng c).2 with correlator := k }) := by
  simp only [callEngine_eq]
  rfl

theorem live_move {c : EngineCall} {a : c.Answer} {b' : Bridge σ} (hc : ∀ i, c ≠ .init i)
    (h : b.callLive eng c = .ok (a, b')) : Move eng E b b' := by
  obtain ⟨hlive, he⟩ := callLive_eq_ok h
  obtain rfl : b' = (b.callEngine eng c).2 := by rw [← he]
  exact .call c hlive hc

/-- **An attempt is made of moves.** -/
theorem Attempt.moves {c : Command σ} {p : Piece σ} (h : Attempt eng b c p) :
    Moves eng E b p.1 := by
  cases h with
  | early hr he => exact .refl
  | unsent hiss h => exact .single (.vain hiss)
  | sent ho hiss h asks ha =>
    have hlive := (callLive_eq_ok h).1
    exact .head (.grant hlive hiss) (.head (live_move asks.ne_init h) (.single (signal_move _)))
  | @refused q t k call a b' w hiss h asks ha =>
    -- The token is taken and given back before the engine is called.
    obtain ⟨hlive, he⟩ := callLive_eq_ok h
    rw [callEngine_with] at he
    cases he
    have hcall : Move eng E { b with correlator := k.discard t }
        (({ b with correlator := k.discard t } : Bridge σ).callEngine eng call).2 :=
      .call call hlive asks.ne_init
    rw [callEngine_with] at hcall
    exact .head (.vain hiss) (.single hcall)
  | heard h asks ha => exact .head (live_move asks.ne_init h) (.single (signal_move _))
  | unheard h asks ha => exact .single (live_move asks.ne_init h)

theorem request_moves (installed : Category → Bool) {c : Command σ} (hc : c.IsRequest) :
    Moves eng E b (b.perform eng installed c).1 := by
  rcases perform_attempt eng installed hc b with h | ⟨i, h⟩
  · exact h.moves
  · exact .head (.touch (.number b.registry i)) h.moves

end Sending

/-! ### What is left after a notification -/

/-- After the notification of such a piece, if it gives one, only the reply is left. -/
def Brief (p : Piece σ) : Prop := ∀ n a, p.2 = .notify n a → ∃ r, a = .reply r

section Brief
variable {eng : Engine σ} {b : Bridge σ}

theorem brief_reply (b : Bridge σ) (r : Reply) : Brief (b, .reply r) :=
  fun _ _ h => nomatch h

theorem brief_failing {c : Command σ} {e : BridgeError} (b : Bridge σ) (s : Settings) (r : Reply) :
    Brief (b, failing s c e r) := by
  rcases failing_eq (s := s) (c := c) (e := e) (r := r) with h | ⟨n, h⟩ <;> rw [h]
  · exact brief_reply b r
  · rintro n' a ⟨⟩
    exact ⟨r, rfl⟩

theorem Attempt.brief {c : Command σ} {p : Piece σ} (h : Attempt eng b c p) : Brief p := by
  cases h with
  | early hr he => exact brief_failing _ _ _
  | refused hiss h asks ha => exact brief_failing _ _ _
  | unheard h asks ha => exact brief_failing _ _ _
  | _ => exact brief_reply _ _

theorem request_brief (installed : Category → Bool) {c : Command σ} (hc : c.IsRequest) :
    Brief (b.perform eng installed c) := by
  rcases perform_attempt eng installed hc b with h | ⟨i, h⟩
  · exact h.brief
  · exact h.brief

/-- **Only a poll cycle leaves more to be done after a notification** than to reply. -/
theorem perform_brief (installed : Category → Bool) {c : Command σ} (hc : ¬ c.IsCycle) :
    Brief (b.perform eng installed c) := by
  cases c with
  | submit r => exact request_brief installed trivial
  | discover scope query => exact request_brief installed trivial
  | discoverDefault => exact request_brief installed trivial
  | handshake identifier password => exact request_brief installed trivial
  | groupMessage scope m => exact request_brief installed trivial
  | poll => exact absurd trivial hc
  | cycle => exact absurd trivial hc
  | _ => exact brief_reply _ _

end Brief

/-! ### All commands -/

section Commands
variable {eng : Engine σ} {b : Bridge σ}

theorem register_moves {identifier address : String}
    (hE : E identifier (registration identifier address)) :
    Moves eng E b (b.register identifier address).2 := by
  unfold register
  dsimp only
  split
  · next d r h => exact .single (.touch (.enter hE h))
  · exact .refl

theorem setName_moves (identifier name : String) :
    Moves eng E b (b.setName identifier name).2 := by
  unfold setName
  split
  · next hknown =>
    split
    · next d r h => exact .single (.touch (.rename hknown h))
    · exact .refl
  · exact .refl

theorem setSecure_moves (identifier : String) (secure : Bool) :
    Moves eng E b (b.setSecure identifier secure).2 := by
  have h : Move eng E b { b with registry := (b.registry.setSecure identifier secure).2 } :=
    .touch (.secure b.registry identifier secure)
  unfold setSecure
  split
  all_goals
    next hs =>
    rw [hs] at h
    exact .single h

theorem setMaxPayload_moves (size : ℕ) : Moves eng E b (b.setMaxPayload eng size).2 := by
  have h₁ : Move eng E b { b with maxPayload := size } := .limit b size
  unfold setMaxPayload
  split
  · exact .refl
  dsimp only
  split
  · next b' h => exact .head h₁ (.single (live_move (by simp) h))
  · exact .single h₁

theorem cycle_moves (installed : Category → Bool) {c : Command σ} (hc : c.IsCycle)
    (hs : Admits E b) : ByMoves eng E b (b.perform eng installed c) := by
  unfold Command.IsCycle at hc
  split at hc
  · simp only [perform, poll]
    split
    · exact ⟨.refl, by simp⟩
    split
    · exact ⟨.refl, by simp⟩
    · exact pollCycle_moves _ hs
  · simp only [perform, workerCycle]
    split
    · exact endCycle_byMoves _ b
    · exact pollCycle_moves _ hs
  · exact hc.elim

/-- **What a command does is made of moves,** if it does not begin or end something. -/
theorem perform_moves (eng : Engine σ) (installed : Category → Bool) {c : Command σ}
    (hc : ¬ c.IsLife) (hE : ∀ i a, c = .register i a → E i (registration i a))
    (hs : Admits E b) : ByMoves eng E b (b.perform eng installed c) := by
  by_cases hcy : c.IsCycle
  · exact cycle_moves installed hcy hs
  refine ⟨?_, fun n a h => ?_⟩
  · cases c with
    | start identity => exact absurd trivial hc
    | stop => exact absurd trivial hc
    | dispose => exact absurd trivial hc
    | poll => exact absurd trivial hcy
    | cycle => exact absurd trivial hcy
    | signal => exact .single (signal_move b)
    | push e => exact .single (.push b e)
    | submit r => exact request_moves installed trivial
    | discover scope query => exact request_moves installed trivial
    | discoverDefault => exact request_moves installed trivial
    | handshake identifier password => exact request_moves installed trivial
    | groupMessage scope m => exact request_moves installed trivial
    | register identifier address => exact register_moves (hE identifier address rfl)
    | setName identifier name => exact setName_moves identifier name
    | setSecure identifier secure => exact setSecure_moves identifier secure
    | clearDevices => exact .single (.touch (.clear b.registry))
    | setMaxPayload size => exact setMaxPayload_moves size
    | visit f => exact .single (.visit b _)
    | _ => exact .refl
  · obtain ⟨r, rfl⟩ := perform_brief installed hcy n a h
    trivial

/-- **What the rest of a command does is made of moves.** -/
theorem proceed_moves (eng : Engine σ) {rest : Rest} (hr : Announces E rest) (hs : Admits E b) :
    ByMoves eng E b (b.proceed rest) := by
  cases rest with
  | reply r => exact ⟨.refl, by simp [proceed]⟩
  | drain e => exact drainFrom_moves eng e _ b rfl hs
  | announce t found serials source text e =>
    obtain ⟨hm, ha⟩ := announce_moves eng e t source text serials found b hr
    refine ⟨hm, fun n a h => ?_⟩
    simp only [proceed, Dispatch.Outcome.notify.injEq] at h
    rw [← h.2]
    exact ha

end Commands

end Bridge

end KnxIoT
