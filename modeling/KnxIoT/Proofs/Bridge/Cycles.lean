import KnxIoT.Proofs.Bridge.Moments
import Mathlib.Logic.Relation

/-! # Poll cycles that nobody interrupts

When every category has a handler and no handler asks anything (`HandlerTable.Attended`), a poll
cycle handles all queued events in one go. `EngineEvent.Tells` says what is told of one event, given
what is pending then, and `Tellings` what is told of a queue, where every event closes the token
that it settles.

`Leads` is a stretch of a run from one piece on. `announce_leads` is the announcing of devices,
`event_leads` the handling of one event, `drainFrom_leads` goes through the queue, and `cycle_steps`
is the whole cycle from its beginning to its reply. -/

namespace KnxIoT

section Quiet
variable {κ ρ : Type}

/-- A program that asks nothing and installs nothing. -/
inductive Program.Quiet : Program κ ρ → Prop
  | done : Quiet .done
  | remark (text : String) {next : Program κ ρ} (h : Quiet next) : Quiet (.remark text next)

/-- **Every category has a handler,** and no handler asks anything. -/
def HandlerTable.Attended (t : HandlerTable (Installed κ ρ)) : Prop :=
  ∀ c, ∃ i, t.slot c = some i ∧ ∀ k n, (i.handler.react k n).Quiet

end Quiet

/-! ### What is told -/

/-- **What is told of an event,** where `c` is pending. Of a discovery reply that a session takes
the devices are told first, then the reply itself. -/
def EngineEvent.Tells (e : EngineEvent) (c : Correlator) (ns : List Notification) : Prop :=
  match e with
  | .discoveryReply t payload _ =>
    if (c.acceptReply t).1 then
      ∃ states, ns = states ++ [.discoveryResult (Utf8.decodeLossy payload)] ∧
        ∀ n ∈ states, n.category = .stateChanged
    else ns = []
  | .gatewayNotification sender payload =>
    ns = [.gatewayNotification sender ((Payload.jsonText? payload).getD "")]
  | .resourceChanged anchor uri types interfaces =>
    ns = [.resourceChanged anchor uri types interfaces]
  | e => ns = ((e.token?.bind c.find?).bind e.news?).toList

section Tells
variable {e : EngineEvent} {c : Correlator} {ns : List Notification} {t : Token} {p : Pending}

theorem EngineEvent.Tells.eq_news {n : Notification} (h : e.Tells c ns) (ht : e.token? = some t)
    (hp : c.find? t = some p) (hn : e.news? p = some n) : ns = [n] := by
  cases e with
  | discoveryReply u payload source => cases hn
  | gatewayNotification sender payload => cases ht
  | resourceChanged anchor uri types interfaces => cases ht
  | _ =>
    cases ht
    exact h.trans (by simp [EngineEvent.token?, hp, hn])

/-- **Of an event that does not fit its token nothing is told,** and no token is closed. -/
theorem EngineEvent.Tells.eq_nil (h : e.Tells c ns) (ht : e.token? = some t)
    (hf : ∀ p, c.find? t = some p → e.fits p = false) : ns = [] ∧ c.settle e = c := by
  cases e with
  | gatewayNotification sender payload => cases ht
  | resourceChanged anchor uri types interfaces => cases ht
  | _ =>
    cases ht
    unfold EngineEvent.Tells at h
    unfold Correlator.settle
    rcases hp : c.find? t with _ | ⟨x⟩ | k | i
    all_goals
      first
      | simpa [EngineEvent.token?, EngineEvent.news?, EngineEvent.settles, Correlator.acceptReply,
          hp] using h
      | exact absurd (hf _ hp) (by simp [EngineEvent.fits])

end Tells

/-- **What is told of the events of a queue,** one after the other. -/
inductive Tellings : Correlator → List EngineEvent → List Notification → Prop
  | nil (c : Correlator) : Tellings c [] []
  | cons {c : Correlator} {e : EngineEvent} {es : List EngineEvent} {ns ns' : List Notification}
      (h : e.Tells c ns) (rest : Tellings (c.settle e) es ns') : Tellings c (e :: es) (ns ++ ns')

theorem Tellings.split {c : Correlator} {es fs : List EngineEvent} {ns : List Notification}
    (h : Tellings c (es ++ fs) ns) : ∃ ns₁ ns₂, ns = ns₁ ++ ns₂ ∧ Tellings c es ns₁ ∧
      Tellings (es.foldl Correlator.settle c) fs ns₂ := by
  induction es generalizing c ns with
  | nil => exact ⟨[], ns, rfl, .nil c, h⟩
  | cons e es ih =>
    rw [List.cons_append] at h
    cases h with
    | @cons _ _ _ now later hnow hlater =>
      obtain ⟨ns₁, ns₂, rfl, h₁, h₂⟩ := ih hlater
      exact ⟨now ++ ns₁, ns₂, by rw [List.append_assoc], .cons hnow h₁, h₂⟩

namespace Bridge

variable {σ : Type}

section Handle
variable {b : Bridge σ} {ev : EngineEvent} {e : CycleEnd}

theorem handle_outcome {t : Token} (ht : ev.token? = some t)
    (hf : ∀ p, ev.news? p = none → ev.fits p = false) :
    (b.handle ev e).2 = ((b.correlator.find? t).bind ev.news?).map fun n => (n, .drain e) := by
  cases hp : b.correlator.find? t with
  | none => rw [handle_stray ht (by simp [hp])]; rfl
  | some p =>
    cases hn : ev.news? p with
    | some n => rw [handle_told ht hp hn]; simp [hn]
    | none =>
      rw [handle_stray ht (by rw [hp]; rintro _ ⟨⟩; exact hf p hn)]
      simp [hn]

/-- **An event is told at once, and then the cycle goes on,** unless it is a discovery reply that a
session takes. -/
theorem handle_tells (ev : EngineEvent) (e : CycleEnd) (b : Bridge σ) :
    (∃ t payload source k, ev = .discoveryReply t payload source ∧
      b.correlator.acceptReply t = (true, k)) ∨
    ∃ o : Option Notification, (b.handle ev e).2 = o.map (fun n => (n, .drain e)) ∧
      ev.Tells b.correlator o.toList := by
  cases ev with
  | response t status format payload source =>
    refine Or.inr ⟨_, handle_outcome rfl fun p hp => ?_, rfl⟩
    cases p <;> first | rfl | cases hp
  | discoveryReply t payload source =>
    rcases hacc : b.correlator.acceptReply t with ⟨_ | _, k⟩
    · refine Or.inr ⟨none, ?_, by simp [EngineEvent.Tells, hacc]⟩
      rw [handle_discoveryReply_dropped hacc]
      rfl
    · exact Or.inl ⟨t, payload, source, k, rfl, hacc⟩
  | handshakeResult t status identity secret =>
    refine Or.inr ⟨_, handle_outcome rfl fun p hp => ?_, rfl⟩
    cases p <;> first | rfl | cases hp
  | gatewayNotification sender payload => exact Or.inr ⟨some _, rfl, rfl⟩
  | resourceChanged anchor uri types interfaces => exact Or.inr ⟨some _, rfl, rfl⟩

theorem tells_nil (h : (b.handle ev e).2 = none) : ev.Tells b.correlator [] := by
  rcases handle_tells ev e b with ⟨t, payload, source, k, rfl, hacc⟩ | ⟨_ | n, ho, hnow⟩
  · rw [handle_discoveryReply hacc] at h
    cases h
  · exact hnow
  · rw [h] at ho
    cases ho

end Handle

/-! ### Steps -/

/-- The notifications that a handler was given. -/
def toldIn (tr : List (Entry σ)) : List Notification :=
  tr.filterMap fun
    | .notified n (some _) => some n
    | _ => none

theorem toldIn_append (tr tr' : List (Entry σ)) : toldIn (tr ++ tr') = toldIn tr ++ toldIn tr' :=
  List.filterMap_append

@[simp] theorem toldIn_happened (hs : List Happening) :
    toldIn (hs.map .happened : List (Entry σ)) = [] := by
  refine List.filterMap_eq_nil_iff.mpr fun x hx => ?_
  obtain ⟨y, -, rfl⟩ := List.mem_map.mp hx
  rfl

/-- Steps without anybody from outside. -/
def Steps (eng : Engine σ) : Machine σ → Machine σ → Prop :=
  Relation.ReflTransGen fun m m' => m' = m.step (system eng)

section Steps
variable {eng : Engine σ} {m m' m'' : Machine σ}

theorem steps_step (eng : Engine σ) (m : Machine σ) : Steps eng m (m.step (system eng)) :=
  .single rfl

theorem Steps.trans (h : Steps eng m m') (h' : Steps eng m' m'') : Steps eng m m'' :=
  Relation.ReflTransGen.trans h h'

theorem Steps.exists_run (h : Steps eng m m') : ∃ n, m.run (system eng) n = m' := by
  induction h with
  | refl => exact ⟨0, rfl⟩
  | tail _ hstep ih =>
    obtain ⟨n, rfl⟩ := ih
    exact ⟨n + 1, by rw [hstep, Dispatch.Machine.run_succ]⟩

theorem quiet_steps (eng : Engine σ) {p : Program σ} (hp : p.Quiet)
    {below : List (Dispatch.Frame (Command σ) Rest Reply)} (hs : m.stack = .run p :: below) :
    ∃ m', Steps eng m m' ∧ m'.stack = below ∧ m'.state = m.state ∧ m'.table = m.table ∧
      toldIn m'.trace = toldIn m.trace := by
  induction hp generalizing m with
  | done =>
    have hstep : m.step (system eng) = { m with stack := below } := by
      unfold Dispatch.Machine.step
      rw [hs]
    refine ⟨_, steps_step eng m, ?_⟩
    rw [hstep]
    exact ⟨rfl, rfl, rfl, rfl⟩
  | @remark text next _ ih =>
    have hstep : m.step (system eng) =
        { m.record [.remarked text] with stack := .run next :: below } := by
      unfold Dispatch.Machine.step
      rw [hs]
    obtain ⟨m', hsteps, hstack, hstate, htable, htold⟩ :=
      ih (m := m.step (system eng)) (by rw [hstep])
    refine ⟨m', (steps_step eng m).trans hsteps, hstack, ?_, ?_, ?_⟩
    · rw [hstate, hstep]
      rfl
    · rw [htable, hstep]
      rfl
    · rw [htold, hstep, Dispatch.Machine.record, toldIn_append]
      exact List.append_nil _

end Steps

/-! ### Stretches of a run -/

/-- **From the piece `p` on the machine `m` comes to `m'`,** and `ns` is told meanwhile. -/
structure Leads (eng : Engine σ) (m : Machine σ) (p : Piece σ)
    (below : List (Dispatch.Frame (Command σ) Rest Reply)) (ns : List Notification)
    (m' : Machine σ) : Prop where
  steps : Steps eng (m.settle (takeDown p) below) m'
  table : m'.table = m.table
  told : toldIn m'.trace = toldIn m.trace ++ ns

section Leads
variable {eng : Engine σ} {m m' m'' : Machine σ} {p : Piece σ} {c : Command σ}
  {next : Reply → Program σ} {below below' : List (Dispatch.Frame (Command σ) Rest Reply)}
  {ns ns' : List Notification}

theorem Leads.proceed {a : Rest} {d : Bool} (h : Leads eng m p below ns m')
    (hs : m'.stack = .rest a d :: below')
    (h' : Leads eng m' (m'.state.proceed a) below' ns' m'') :
    Leads eng m p below (ns ++ ns') m'' where
  steps := by
    have hstep : m'.step (system eng) = m'.settle (takeDown (m'.state.proceed a)) below' :=
      Dispatch.Machine.step_rest (system eng) hs
    have hsteps := steps_step eng m'
    rw [hstep] at hsteps
    exact h.steps.trans (hsteps.trans h'.steps)
  table := h'.table.trans h.table
  told := by rw [h'.told, h.told, List.append_assoc]

theorem leads_reply (eng : Engine σ) (m : Machine σ) (b : Bridge σ) (r : Reply) (c : Command σ)
    (next : Reply → Program σ) (below : List (Dispatch.Frame (Command σ) Rest Reply)) :
    ∃ m', Leads eng m (b, .reply r) (.await c next :: below) [] m' ∧
      m'.stack = .run (next r) :: below ∧ m'.state = { b with log := [] } := by
  refine ⟨_, ⟨.refl, rfl, ?_⟩, rfl, rfl⟩
  simp only [Dispatch.Machine.settle, Dispatch.Machine.answer, Dispatch.Machine.record, takeDown,
    toldIn_append, toldIn_happened, List.append_nil]
  exact List.append_nil _

theorem leads_notify (eng : Engine σ) (ht : m.table.Attended) (b : Bridge σ) (n : Notification)
    (a : Rest) (below : List (Dispatch.Frame (Command σ) Rest Reply)) :
    ∃ m', Leads eng m (b, .notify n a) below [n] m' ∧ m'.stack = .rest a true :: below ∧
      m'.state = { b with log := [] } := by
  obtain ⟨i, hi, hq⟩ := ht n.category
  have hs : (m.settle (takeDown (b, .notify n a)) below).stack =
      .run (i.handler.react (m.calls.getD i.number 0) n) :: .rest a true :: below := by
    simp [Dispatch.Machine.settle, Dispatch.Machine.deliver, Dispatch.Machine.record, takeDown, hi]
  obtain ⟨m', hsteps, hstack, hstate, htable, htold⟩ := quiet_steps eng (hq _ n) hs
  refine ⟨m', ⟨hsteps, ?_, ?_⟩, hstack, ?_⟩
  · rw [htable]
    simp [Dispatch.Machine.settle, Dispatch.Machine.deliver, Dispatch.Machine.record, takeDown, hi]
  · rw [htold]
    simp only [Dispatch.Machine.settle, Dispatch.Machine.deliver, Dispatch.Machine.record, takeDown,
      hi, toldIn_append, toldIn_happened, List.append_nil]
    rfl
  · rw [hstate]
    simp [Dispatch.Machine.settle, Dispatch.Machine.deliver, Dispatch.Machine.record, takeDown, hi]

/-- **Announcing devices** ends with telling the reply. -/
theorem announce_leads (eng : Engine σ) (t : Token) (source : Endpoint) (text : String)
    (e : CycleEnd) (below : List (Dispatch.Frame (Command σ) Rest Reply)) :
    ∀ (serials : List String) (found : ℕ) (b : Bridge σ) (m : Machine σ), m.table.Attended →
      ∃ m' states, Leads eng m ((announce t found source text e serials b).1,
          .notify (announce t found source text e serials b).2.1
            (announce t found source text e serials b).2.2) below
          (states ++ [.discoveryResult text]) m' ∧
        (∀ n ∈ states, n.category = .stateChanged) ∧
        m'.stack = .rest (.drain e) true :: below ∧
        ∃ registry, m'.state = { b with registry, log := [] }
  | [], found, b, m, ht => by
    obtain ⟨m', h, hs, hst⟩ := leads_notify eng ht (b.note [.discovered t found])
      (.discoveryResult text) (.drain e) below
    exact ⟨m', [], h, by simp, hs, b.registry, hst⟩
  | serial :: serials, found, b, m, ht => by
    unfold announce
    split
    · next d registry _ =>
      obtain ⟨m₁, h₁, hs₁, hst₁⟩ := leads_notify eng ht { b with registry }
        (.stateChanged serial source.address discoveredChange)
        (.announce t (found + 1) serials source text e) below
      obtain ⟨m', states, h, hstates, hs, registry', hst⟩ :=
        announce_leads eng t source text e below serials (found + 1) m₁.state m₁
          (by rw [h₁.table]; exact ht)
      refine ⟨m', .stateChanged serial source.address discoveredChange :: states,
        h₁.proceed hs₁ h, ?_, hs, registry', by rw [hst, hst₁]⟩
      intro n hn
      rcases List.mem_cons.mp hn with rfl | hn
      · rfl
      · exact hstates n hn
    · exact announce_leads eng t source text e below serials found b m ht

theorem event_leads (eng : Engine σ) (ht : m.table.Attended) {b b₁ : Bridge σ} {ev : EngineEvent}
    {rest : List EngineEvent} {e : CycleEnd} {n : Notification} {a : Rest}
    (hh : (b.taking ev rest).handle ev e = (b₁, some (n, a)))
    (below : List (Dispatch.Frame (Command σ) Rest Reply)) :
    ∃ m' now, Leads eng m (b₁, .notify n a) below now m' ∧ ev.Tells b.correlator now ∧
      m'.stack = .rest (.drain e) true :: below ∧ m'.state.queue.events = rest ∧
      m'.state.correlator = b.correlator.settle ev := by
  rcases handle_tells ev e (b.taking ev rest) with ⟨t, payload, source, k, rfl, hacc⟩ |
    ⟨o, ho, hnow⟩
  · rw [handle_discoveryReply hacc] at hh
    obtain ⟨hb₁, htold⟩ := Prod.mk.inj hh
    obtain ⟨hn, ha⟩ := Prod.mk.inj (Option.some.inj htold)
    obtain ⟨m', states, h, hstates, hs, registry, hstate⟩ :=
      announce_leads eng t source (Utf8.decodeLossy payload) e below
        (Discovery.serialsIn (Utf8.decodeLossy payload)) 0
        { b.taking (.discoveryReply t payload source) rest with correlator := k } m ht
    rw [taking_correlator] at hacc
    rw [hb₁, hn, ha] at h
    refine ⟨m', _, h, ?_, hs, by rw [hstate]; rfl, ?_⟩
    · simp only [EngineEvent.Tells, hacc, if_true]
      exact ⟨states, rfl, hstates⟩
    · rw [hstate, ← Correlator.acceptReply_snd, hacc]
  · obtain ⟨registry, hs, hframe, -⟩ := handle_frame e ev (b.taking ev rest)
    rw [hh] at ho hframe
    dsimp only at ho hframe
    obtain ⟨n', rfl, heq⟩ := Option.map_eq_some_iff.mp ho.symm
    cases heq
    obtain ⟨m', h, hs, hstate⟩ := leads_notify eng ht b₁ n (.drain e) below
    exact ⟨m', [n], h, hnow, hs, by rw [hstate, hframe]; rfl, by rw [hstate, hframe]; rfl⟩

/-- **The queue is handled to its end.** -/
theorem drainFrom_leads (eng : Engine σ) (e : CycleEnd) (c : Command σ) (next : Reply → Program σ)
    (below : List (Dispatch.Frame (Command σ) Rest Reply)) :
    ∀ (events : List EngineEvent) (b : Bridge σ) (m : Machine σ), m.table.Attended →
      ∃ m' ns, Leads eng m (drainFrom e events b) (.await c next :: below) ns m' ∧
        m'.stack = .run (next e.finalReply) :: below ∧ Tellings b.correlator events ns
  | [], b, m, ht => by
    obtain ⟨b', hb⟩ : ∃ b', drainFrom e [] b = (b', .reply e.finalReply) := by
      cases e <;> exact ⟨_, rfl⟩
    obtain ⟨m', h, hs, -⟩ := leads_reply eng m b' e.finalReply c next below
    rw [hb]
    exact ⟨m', [], h, hs, .nil _⟩
  | ev :: rest, b, m, ht => by
    rw [drainFrom_cons]
    rcases hh : (b.taking ev rest).handle ev e with ⟨b₁, _ | ⟨n, a⟩⟩
    · obtain ⟨m', ns, h, hs, hlater⟩ := drainFrom_leads eng e c next below rest b₁ m ht
      rw [eq_of_untold hh] at hlater
      exact ⟨m', ns, h, hs, .cons (tells_nil (congrArg Prod.snd hh)) hlater⟩
    · obtain ⟨m₁, now, h₁, hnow, hs₁, hq, hk⟩ := event_leads eng ht hh (.await c next :: below)
      obtain ⟨m', ns, h, hs, hlater⟩ := drainFrom_leads eng e c next below rest m₁.state m₁
        (by rw [h₁.table]; exact ht)
      rw [hk] at hlater
      refine ⟨m', now ++ ns, h₁.proceed hs₁ ?_, hs, .cons hnow hlater⟩
      rw [proceed_drain, hq]
      exact h

theorem Leads.command (hs : m.stack = .run (.command c next) :: below)
    (h : Leads eng (m.record [.called c]) (m.state.perform eng m.table.isInstalled c)
      (.await c next :: below) ns m') :
    Steps eng m m' ∧ m'.table = m.table ∧ toldIn m'.trace = toldIn m.trace ++ ns := by
  have hstep : m.step (system eng) = (m.record [.called c]).settle
      (takeDown (m.state.perform eng m.table.isInstalled c)) (.await c next :: below) :=
    Dispatch.Machine.step_command (system eng) hs
  have hfirst := steps_step eng m
  rw [hstep] at hfirst
  refine ⟨hfirst.trans h.steps, h.table, ?_⟩
  rw [h.told, Dispatch.Machine.record, toldIn_append]
  exact congrArg (· ++ ns) (List.append_nil _)

theorem reply_steps (hs : m.stack = .run (.command c next) :: below) {b : Bridge σ} {r : Reply}
    (hp : m.state.perform eng m.table.isInstalled c = (b, .reply r)) :
    ∃ m', Steps eng m m' ∧ m'.stack = .run (next r) :: below ∧ m'.table = m.table ∧
      toldIn m'.trace = toldIn m.trace ∧ m'.state = { b with log := [] } := by
  obtain ⟨m', h, hstack, hstate⟩ := leads_reply eng (m.record [.called c]) b r c next below
  rw [← hp] at h
  obtain ⟨hsteps, htable, htold⟩ := h.command hs
  exact ⟨m', hsteps, hstack, htable, by rw [htold, List.append_nil], hstate⟩

/-- **A poll cycle goes through the whole queue** and then replies. -/
theorem cycle_steps (ht : m.table.Attended) (hs : m.stack = .run (.command c next) :: below)
    {e : CycleEnd} {b : Bridge σ} (hc : cycle? eng c m.state = some (e, b)) :
    ∃ m' ns, Steps eng m m' ∧ m'.stack = .run (next e.finalReply) :: below ∧
      toldIn m'.trace = toldIn m.trace ++ ns ∧
      Tellings m.state.correlator b.queue.events ns := by
  obtain ⟨hperf, hb⟩ := perform_of_cycle? m.table.isInstalled hc
  obtain ⟨m', ns, h, hstack, hns⟩ :=
    drainFrom_leads eng e c next below b.queue.events b (m.record [.called c]) ht
  rw [← hperf] at h
  obtain ⟨hsteps, -, htold⟩ := h.command hs
  have hk : b.correlator = m.state.correlator := by rw [hb, callEngine_correlator]
  rw [hk] at hns
  exact ⟨m', ns, hsteps, hstack, htold, hns⟩

end Leads

end Bridge

end KnxIoT
