import KnxIoT.Proofs.Bridge.Frame
import KnxIoT.Proofs.Correlator.Settling
import KnxIoT.Proofs.Dispatch.Steps

/-! # Handling the queued events

`handle_frame`: handling an event closes the token that it settles and no other. `handle_told` and
`handle_final` relate the notification it gives with what its token stood for. `Drained` collects
what this makes of a whole cycle, and `drainFrom_drained` proves it by induction on the events. -/

namespace KnxIoT

/-- The reply at the end of a cycle. -/
def CycleEnd.finalReply : CycleEnd → Reply
  | .reply r => r
  | .wait next => .deadline (.ok next)

/-- The reply at the end of a command. -/
def Rest.finalReply : Rest → Reply
  | .reply r => r
  | .drain e => e.finalReply
  | .announce _ _ _ _ _ e => e.finalReply

namespace Bridge

variable {σ : Type}

/-! ### Handling one event -/

section Announce
variable (t : Token) (source : Endpoint) (text : String) (e : CycleEnd)

/-- **Announcing devices changes the registry only.** -/
theorem announce_frame : ∀ (serials : List String) (found : ℕ) (b : Bridge σ), ∃ registry hs,
    (announce t found source text e serials b).1 = { b with registry, log := b.log ++ hs } ∧
      ∀ x ∈ hs, ∃ k, x = .discovered t k
  | [], found, b => ⟨b.registry, [.discovered t found], rfl, by simp⟩
  | serial :: serials, found, b => by
    unfold announce
    split
    · next d registry _ => exact ⟨registry, [], by simp, by simp⟩
    · exact announce_frame serials found b

theorem announce_not_final : ∀ (serials : List String) (found : ℕ) (b : Bridge σ),
    ¬ (announce t found source text e serials b).2.1.IsFinal
  | [], _, _ => by simp [announce, Notification.IsFinal, Notification.category]
  | serial :: serials, found, b => by
    unfold announce
    split
    · simp [Notification.IsFinal, Notification.category]
    · exact announce_not_final serials found b

theorem announce_finalReply : ∀ (serials : List String) (found : ℕ) (b : Bridge σ),
    (announce t found source text e serials b).2.2.finalReply = e.finalReply
  | [], _, _ => rfl
  | serial :: serials, found, b => by
    unfold announce
    split
    · rfl
    · exact announce_finalReply serials found b

end Announce

section Handle

theorem handle_discoveryReply {b : Bridge σ} {t : Token} {c : Correlator}
    (h : b.correlator.acceptReply t = (true, c)) (payload : Bytes) (source : Endpoint)
    (e : CycleEnd) : b.handle (.discoveryReply t payload source) e =
      (let text := Utf8.decodeLossy payload
      let r := announce t 0 source text e (Discovery.serialsIn text) { b with correlator := c }
      (r.1, some (r.2.1, r.2.2))) := by
  simp only [handle, h]

theorem handle_discoveryReply_dropped {b : Bridge σ} {t : Token} {c : Correlator}
    (h : b.correlator.acceptReply t = (false, c)) (payload : Bytes) (source : Endpoint)
    (e : CycleEnd) : b.handle (.discoveryReply t payload source) e =
      ({ b with correlator := c }, none) := by
  simp only [handle, h]

variable {e : CycleEnd} {ev : EngineEvent} {b : Bridge σ}

/-- **Handling an event closes the token that it settles, and no other;** besides it may change the
registry. -/
theorem handle_frame (e : CycleEnd) (ev : EngineEvent) (b : Bridge σ) : ∃ registry hs,
    (b.handle ev e).1 =
      { b with registry, correlator := b.correlator.settle ev, log := b.log ++ hs } ∧
      ∀ x ∈ hs, ∃ t k, x = .discovered t k := by
  cases ev with
  | response t status format payload source =>
    refine ⟨b.registry, [], ?_, by simp⟩
    rw [← Correlator.complete_snd]; simp [handle]
  | discoveryReply t payload source =>
    rw [← Correlator.acceptReply_snd]
    rcases h : b.correlator.acceptReply t with ⟨_ | _, c⟩
    · rw [handle_discoveryReply_dropped h]
      exact ⟨b.registry, [], by simp, by simp⟩
    · rw [handle_discoveryReply h]
      obtain ⟨registry, hs, hf, hp⟩ := announce_frame t source (Utf8.decodeLossy payload) e
        (Discovery.serialsIn (Utf8.decodeLossy payload)) 0 { b with correlator := c }
      exact ⟨registry, hs, hf, fun x hx => ⟨t, hp x hx⟩⟩
  | handshakeResult t status identity secret =>
    refine ⟨b.registry, [], ?_, by simp⟩
    rw [← Correlator.takeHandshake_snd]; simp [handle]
  | gatewayNotification sender payload =>
    exact ⟨b.registry, [], by simp [handle, Correlator.settle, EngineEvent.token?], by simp⟩
  | resourceChanged anchor uri types interfaces =>
    exact ⟨b.registry, [], by simp [handle, Correlator.settle, EngineEvent.token?], by simp⟩

theorem handle_eq_none (h : (b.handle ev e).2 = none) :
    (b.handle ev e).1 = { b with correlator := b.correlator.settle ev } := by
  cases ev with
  | response t status format payload source => rw [← Correlator.complete_snd]; rfl
  | discoveryReply t payload source =>
    rw [← Correlator.acceptReply_snd]
    rcases ha : b.correlator.acceptReply t with ⟨_ | _, c⟩
    · rw [handle_discoveryReply_dropped ha]
    · rw [handle_discoveryReply ha] at h; cases h
  | handshakeResult t status identity secret => rw [← Correlator.takeHandshake_snd]; rfl
  | gatewayNotification sender payload => cases h
  | resourceChanged anchor uri types interfaces => cases h

/-- **An event that brings news of what its token stands for is told at once.** -/
theorem handle_told {t : Token} {p : Pending} {n : Notification} (ht : ev.token? = some t)
    (hp : b.correlator.find? t = some p) (hn : ev.news? p = some n) :
    b.handle ev e = ({ b with correlator := b.correlator.settle ev }, some (n, .drain e)) := by
  unfold EngineEvent.news? at hn
  split at hn
  · cases ht; cases hn
    rw [← Correlator.complete_snd]
    simp [handle, Correlator.complete, Correlator.takeRequest, hp]
  · cases ht; cases hn
    rw [← Correlator.takeHandshake_snd]
    simp [handle, Correlator.takeHandshake, hp]
  · cases hn

/-- **A final notification is the outcome of what the token of its event stood for.** -/
theorem handle_final {n : Notification} {rest : Rest} (h : (b.handle ev e).2 = some (n, rest))
    (hn : n.IsFinal) : ∃ t p, ev.token? = some t ∧ b.correlator.find? t = some p ∧
      ev.news? p = some n := by
  cases ev with
  | response t status format payload source =>
    rcases hp : b.correlator.find? t with _ | ⟨ctx⟩ | k | i <;>
      simp only [handle, Correlator.complete, Correlator.takeRequest, hp, Option.map_some,
        Option.map_none, reduceCtorEq, Option.some.injEq, Prod.mk.injEq] at h
    exact ⟨t, _, rfl, hp, by rw [← h.1]; rfl⟩
  | discoveryReply t payload source =>
    rcases ha : b.correlator.acceptReply t with ⟨_ | _, c⟩
    · rw [handle_discoveryReply_dropped ha] at h; cases h
    · rw [handle_discoveryReply ha] at h
      simp only [Option.some.injEq, Prod.mk.injEq] at h
      exact absurd (h.1 ▸ hn) (announce_not_final _ _ _ _ _ _ _)
  | handshakeResult t status identity secret =>
    rcases hp : b.correlator.find? t with _ | ⟨ctx⟩ | k | i <;>
      simp only [handle, Correlator.takeHandshake, hp, Option.map_some,
        Option.map_none, reduceCtorEq, Option.some.injEq, Prod.mk.injEq] at h
    exact ⟨t, _, rfl, hp, by rw [← h.1]; rfl⟩
  | gatewayNotification sender payload =>
    simp only [handle, Option.some.injEq, Prod.mk.injEq] at h
    rw [← h.1] at hn
    simp [Notification.IsFinal, Notification.category] at hn
  | resourceChanged anchor uri types interfaces =>
    simp only [handle, Option.some.injEq, Prod.mk.injEq] at h
    rw [← h.1] at hn
    simp [Notification.IsFinal, Notification.category] at hn

/-- What is left of an event after a notification: the queue, or devices to be announced. -/
theorem handle_left {n : Notification} {rest : Rest} (h : (b.handle ev e).2 = some (n, rest)) :
    rest = .drain e ∨ ∃ t source text c, b.correlator.acceptReply t = (true, c) ∧
      rest = (announce t 0 source text e (Discovery.serialsIn text)
        { b with correlator := c }).2.2 := by
  cases ev with
  | discoveryReply t payload source =>
    rcases ha : b.correlator.acceptReply t with ⟨_ | _, c⟩
    · rw [handle_discoveryReply_dropped ha] at h; cases h
    · rw [handle_discoveryReply ha] at h
      simp only [Option.some.injEq, Prod.mk.injEq] at h
      exact Or.inr ⟨t, source, _, c, ha, h.2.symm⟩
  | _ =>
    simp only [handle, Option.map_eq_some_iff, Option.some.injEq, Prod.mk.injEq] at h
    obtain ⟨-, -, -, rfl⟩ := h
    exact Or.inl rfl

theorem handle_finalReply {n : Notification} {rest : Rest}
    (h : (b.handle ev e).2 = some (n, rest)) : rest.finalReply = e.finalReply := by
  rcases handle_left h with rfl | ⟨t, source, text, c, -, rfl⟩
  · rfl
  · exact announce_finalReply _ _ _ _ _ _ _

/-- **An event that does not fit its token changes nothing,** and nobody is told. -/
theorem handle_stray {t : Token} (ht : ev.token? = some t)
    (h : ∀ p, b.correlator.find? t = some p → ev.fits p = false) : b.handle ev e = (b, none) := by
  cases ev with
  | response u status format payload source =>
    cases ht
    rcases hp : b.correlator.find? t with _ | ⟨c⟩ | c | i
    · simp [handle, Correlator.complete, Correlator.takeRequest, hp]
    · exact absurd (h _ hp) nofun
    all_goals simp [handle, Correlator.complete, Correlator.takeRequest, hp]
  | discoveryReply u payload source =>
    cases ht
    have hacc : b.correlator.acceptReply t = (false, b.correlator) := by
      rcases hp : b.correlator.find? t with _ | ⟨c⟩ | c | i
      · simp [Correlator.acceptReply, hp]
      · simp [Correlator.acceptReply, hp]
      · exact absurd (h _ hp) nofun
      · simp [Correlator.acceptReply, hp]
    rw [handle_discoveryReply_dropped hacc]
  | handshakeResult u status identity secret =>
    cases ht
    rcases hp : b.correlator.find? t with _ | ⟨c⟩ | c | i
    · simp [handle, Correlator.takeHandshake, hp]
    · simp [handle, Correlator.takeHandshake, hp]
    · simp [handle, Correlator.takeHandshake, hp]
    · exact absurd (h _ hp) nofun
  | gatewayNotification sender payload => cases ht
  | resourceChanged anchor uri types interfaces => cases ht

end Handle

/-! ### A whole cycle -/

variable {s : Settings}

theorem closes_of_isPlain {x : Happening} (h : x.IsPlain) (t : Token) (p : Pending) :
    closes t p (.happened x : Entry σ) = false := by
  unfold Happening.IsPlain at h
  unfold closes abandons
  split at h
  · exact h.elim
  · exact h.elim
  · next h₁ h₂ =>
    split
    · next e he => cases he; exact absurd rfl (h₁ e)
    · split
      · next he => cases he
      · next he => cases he
      · next i he => cases he; exact absurd rfl (h₂ i)
      · rfl

theorem replay_of_isPlain {hs : List Happening} (h : ∀ x ∈ hs, x.IsPlain)
    (L : Token → Option Pending) : replay s L (hs.map .happened : List (Entry σ)) = L := by
  refine replay_eq_self ?_ ?_ L
  · intro x hx
    obtain ⟨y, -, rfl⟩ := List.mem_map.mp hx
    rfl
  · intro x hx t p
    obtain ⟨y, hy, rfl⟩ := List.mem_map.mp hx
    exact closes_of_isPlain (h y hy) t p

/-- **Taking an event closes the token that it settles.** -/
theorem replay_taken (c : Correlator) (e : EngineEvent) :
    replay s c.find? ([.happened (.taken e)] : List (Entry σ)) = (c.settle e).find? := by
  funext t
  rw [Correlator.find?_settle]
  rfl

section Law
variable {b : Bridge σ} {ev : EngineEvent} {e : CycleEnd}

theorem law_of_untold (h : (b.handle ev e).2 = none) :
    Law s b.correlator.find? ([.happened (.taken ev)] : List (Entry σ)) where
  told pre post e' t p n hes ht hp hn := by
    obtain ⟨rfl, hes⟩ : pre = [] ∧ [.happened (.taken ev)] = .happened (.taken e') :: post := by
      cases pre with
      | nil => exact ⟨rfl, hes⟩
      | cons x pre => simp at hes
    cases hes
    rw [handle_told ht hp hn] at h
    cases h
  caused pre n hd post hes := by
    cases pre with
    | nil => cases hes
    | cons x pre => simp at hes

/-- **The entries from an event up to the notification that it gives obey the law.** -/
theorem law_of_handle {n : Notification} {rest : Rest} {hs : List Happening}
    (h : (b.handle ev e).2 = some (n, rest)) (hl : (b.handle ev e).1.log = b.log ++ hs)
    (hp : ∀ x ∈ hs, x.IsPlain) (hd : Option HandlerName) :
    Law s b.correlator.find?
      (.happened (.taken ev) :: (hs.map .happened ++ [.notified n hd]) : List (Entry σ)) := by
  have hquiet : ∀ e, .happened (.taken e) ∉ (hs.map .happened : List (Entry σ)) := by
    intro e he
    obtain ⟨y, hy, heq⟩ := List.mem_map.mp he
    cases heq
    exact hp _ hy
  -- An event that brings news gives that very notification, before anything else happens.
  have hnews : ∀ t p n', ev.token? = some t → b.correlator.find? t = some p →
      ev.news? p = some n' → hs = [] ∧ n' = n := by
    intro t p n' ht hf hn
    have hh := handle_told (e := e) ht hf hn
    rw [hh] at h hl
    cases h
    exact ⟨by simpa using hl, rfl⟩
  constructor
  · intro pre post e' t p n' hes ht hf hn
    cases pre with
    | nil =>
      cases hes
      obtain ⟨rfl, rfl⟩ := hnews t p n' ht hf hn
      exact ⟨hd, [], rfl⟩
    | cons x pre =>
      have hmem : .happened (.taken e') ∈
          (hs.map .happened ++ [.notified n hd] : List (Entry σ)) := by
        rw [(List.cons.inj hes).2]; simp
      rcases List.mem_append.mp hmem with hm | hm
      · exact absurd hm (hquiet e')
      · simp at hm
  · intro pre n' hd' post hes hfin
    have hlast :
        .notified n' hd' ∉ (.happened (.taken ev) :: hs.map .happened : List (Entry σ)) := by
      simp
    obtain ⟨rfl, heq⟩ := Lists.eq_of_concat_eq hes hlast
    cases heq
    obtain ⟨t, p, ht, hf, hn⟩ := handle_final h hfin
    obtain ⟨rfl, -⟩ := hnews t p n ht hf hn
    exact Or.inl ⟨[], ev, t, p, rfl, ht, hf, hn⟩

end Law

/-- The reply that a piece gives or that is still to come. -/
def finalReply (p : Piece σ) : Reply :=
  match p.2 with
  | .reply r => r
  | .notify _ rest => rest.finalReply

theorem finalReply_of_reply {p : Piece σ} {r : Reply} (h : p.2 = .reply r) : finalReply p = r := by
  unfold finalReply; rw [h]

theorem finalReply_of_notify {p : Piece σ} {n : Notification} {rest : Rest}
    (h : p.2 = .notify n rest) : finalReply p = rest.finalReply := by
  unfold finalReply; rw [h]

/-- **What draining the queue makes of a bridge,** where `hs` happens meanwhile. -/
structure Drained (s : Settings) (e : CycleEnd) (b : Bridge σ) (p : Piece σ)
    (hs : List Happening) : Prop where
  log : p.1.log = b.log ++ hs
  settings : p.1.settings = b.settings
  phase : p.1.phase = b.phase
  quit : p.1.loop.quit = b.loop.quit
  issued : p.1.correlator.issued = b.correlator.issued
  kept : ∀ t q, p.1.correlator.find? t = some q → b.correlator.find? t = some q
  replay : replay s b.correlator.find? (hs.map .happened : List (Entry σ)) = p.1.correlator.find?
  law : ∀ c h, Law s b.correlator.find?
    (hs.map .happened ++ [p.2.closing c h] : List (Entry σ))
  reply : finalReply p = e.finalReply

/-- The end of a cycle changes only what the worker does, and what is left of the wake signal. -/
theorem endCycle_drained (e : CycleEnd) (b : Bridge σ) : Drained s e b (b.endCycle e) [] := by
  have hq : ∀ c h r, Law s b.correlator.find?
      (([] : List Happening).map .happened ++
        [(Dispatch.Outcome.reply r : Dispatch.Outcome Rest Reply).closing c h] : List (Entry σ)) :=
    fun c h r =>
      law_of_quiet (by simp [Dispatch.Outcome.closing]) (by simp [Dispatch.Outcome.closing])
  cases e with
  | reply r => exact ⟨by simp [endCycle], rfl, rfl, rfl, rfl, fun _ _ => id, rfl,
      fun c h => hq c h _, rfl⟩
  | wait next =>
    have hl : (b.loop.afterCycle b.wake next.isSome).1.quit = b.loop.quit := by
      unfold EventLoop.afterCycle EventLoop.wake
      split_ifs with h
      · rfl
      · dsimp only; split <;> rfl
    exact ⟨by simp [endCycle], rfl, rfl, hl, rfl, fun _ _ => id, rfl,
      fun c h => hq c h _, rfl⟩

/-- The bridge at the moment at which `ev` is handled, with `rest` still in the queue. -/
def taking (ev : EngineEvent) (rest : List EngineEvent) (b : Bridge σ) : Bridge σ :=
  { b.note [.taken ev] with queue := { b.queue with events := rest } }

section Taking
variable {ev : EngineEvent} {rest : List EngineEvent} {b b₁ : Bridge σ} {e : CycleEnd}

@[simp] theorem taking_log : (b.taking ev rest).log = b.log ++ [.taken ev] := rfl

@[simp] theorem taking_settings : (b.taking ev rest).settings = b.settings := rfl

@[simp] theorem taking_phase : (b.taking ev rest).phase = b.phase := rfl

@[simp] theorem taking_loop : (b.taking ev rest).loop = b.loop := rfl

@[simp] theorem taking_correlator : (b.taking ev rest).correlator = b.correlator := rfl

@[simp] theorem taking_queue :
    (b.taking ev rest).queue = { b.queue with events := rest } := rfl

theorem drainFrom_cons : drainFrom e (ev :: rest) b = match (b.taking ev rest).handle ev e with
    | (b, some (n, rest)) => (b, .notify n rest)
    | (b, none) => drainFrom e rest b := rfl

theorem eq_of_untold (h : (b.taking ev rest).handle ev e = (b₁, none)) :
    b₁ = { b.taking ev rest with correlator := b.correlator.settle ev } := by
  have h₁ := handle_eq_none (congrArg Prod.snd h)
  rwa [h] at h₁

theorem drained_of_untold {p : Piece σ} {hs : List Happening}
    (hh : (b.taking ev rest).handle ev e = (b₁, none)) (h : Drained s e b₁ p hs) :
    Drained s e b p (.taken ev :: hs) := by
  have hb₁ := eq_of_untold hh
  have hpost : replay s b.correlator.find? ([.happened (.taken ev)] : List (Entry σ)) =
      b₁.correlator.find? := by rw [replay_taken, hb₁]
  exact {
    log := by rw [h.log, hb₁]; simp
    settings := by rw [h.settings, hb₁, taking_settings]
    phase := by rw [h.phase, hb₁, taking_phase]
    quit := by rw [h.quit, hb₁, taking_loop]
    issued := by rw [h.issued, hb₁]; exact Correlator.settle_issued _ _
    kept := fun t q hq => by
      have hq₁ := h.kept t q hq
      rw [hb₁] at hq₁
      exact Correlator.find?_of_settle hq₁
    replay := by
      rw [List.map_cons, ← List.singleton_append, replay_append, hpost]
      exact h.replay
    law := fun c hd => by
      rw [List.map_cons, List.cons_append, ← List.singleton_append]
      refine Law.append (law_of_untold (b := b.taking ev rest) (e := e) (by rw [hh])) ?_
      rw [hpost]
      exact h.law c hd
    reply := h.reply }

theorem drained_of_told {n : Notification} {r : Rest}
    (hh : (b.taking ev rest).handle ev e = (b₁, some (n, r))) :
    ∃ hs, Drained s e b (b₁, .notify n r) (.taken ev :: hs) := by
  obtain ⟨registry, hs, hf, hp⟩ := handle_frame e ev (b.taking ev rest)
  rw [hh] at hf
  have hplain : ∀ x ∈ hs, x.IsPlain := by
    intro x hx
    obtain ⟨t, k, rfl⟩ := hp x hx
    trivial
  dsimp only at hf
  exact ⟨hs, {
    log := by rw [hf]; simp
    settings := by rw [hf, taking_settings]
    phase := by rw [hf, taking_phase]
    quit := by rw [hf, taking_loop]
    issued := by rw [hf]; exact Correlator.settle_issued _ _
    kept := fun t q hq => by
      rw [hf] at hq
      exact Correlator.find?_of_settle hq
    replay := by
      rw [List.map_cons, ← List.singleton_append, replay_append, replay_taken,
        replay_of_isPlain hplain, hf, taking_correlator]
    law := fun c hd =>
      law_of_handle (b := b.taking ev rest) (by rw [hh]) (by rw [hh, hf]) hplain hd
    reply := handle_finalReply (by rw [hh]) }⟩

end Taking

/-- **Draining the queue.** -/
theorem drainFrom_drained (e : CycleEnd) : ∀ (events : List EngineEvent) (b : Bridge σ),
    ∃ hs, Drained s e b (drainFrom e events b) hs
  | [], b => ⟨[], endCycle_drained e b⟩
  | ev :: rest, b => by
    rw [drainFrom_cons]
    rcases hh : (b.taking ev rest).handle ev e with ⟨b₁, _ | ⟨n, r⟩⟩
    · obtain ⟨hs, ih⟩ := drainFrom_drained e rest b₁
      exact ⟨_, drained_of_untold hh ih⟩
    · obtain ⟨hs, h⟩ := drained_of_told hh
      exact ⟨_, h⟩

end Bridge

end KnxIoT
