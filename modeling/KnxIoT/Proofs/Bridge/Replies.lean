import KnxIoT.Bench.ScriptedEngine
import KnxIoT.Bridge.Command
import KnxIoT.Proofs.Bridge.Draining
import KnxIoT.Proofs.Registry.Table

/-! # Discovery replies

What a discovery reply does, as long as no handler issues a command.

* `Enters`: the devices that a reply announces are entered from left to right, and skipped if they
  are new and there is no room. `Enters.find?` says what is found afterwards.
* `Through`: a run, and what is so at all of its moments. `program_through` is a program that issues
  no command, `notify_through` a notification with the handler that hears it.
* `announce_through`: the announcing of the devices, by induction on those that are left. What it
  carries along is that the registry and the notifications agree (`Agrees`).

`discovery_reply_effect` puts this together. -/

namespace KnxIoT

section CommandFree
variable {κ ρ : Type}

/-- A program that issues no command, and neither do the handlers that it installs. -/
inductive Program.CommandFree : Program κ ρ → Prop
  | done : CommandFree .done
  | remark (text : String) {next : Program κ ρ} (h : CommandFree next) :
      CommandFree (.remark text next)
  | install (categories : List Category) {handler : Handler κ ρ}
      {next : List (Option HandlerName) → Program κ ρ}
      (hh : ∀ k n, CommandFree (handler.react k n)) (h : ∀ olds, CommandFree (next olds)) :
      CommandFree (.install categories handler next)

/-- **No handler issues a command.** -/
def HandlerTable.CommandFree (t : HandlerTable (Installed κ ρ)) : Prop :=
  ∀ c i, t.slot c = some i → ∀ k n, (i.handler.react k n).CommandFree

theorem HandlerTable.CommandFree.installAll {i : Installed κ ρ}
    (hi : ∀ k n, (i.handler.react k n).CommandFree) : ∀ (cs : List Category)
    {t : HandlerTable (Installed κ ρ)}, t.CommandFree → (t.installAll i cs).2.CommandFree
  | [], _, ht => ht
  | c :: cs, t, ht => by
    refine installAll hi cs fun d j hj => ?_
    dsimp only [HandlerTable.install] at hj
    split_ifs at hj with hd
    · obtain rfl := Option.some.inj hj
      exact hi
    · exact ht d j hj

end CommandFree

namespace Bridge

/-! ### Entering devices -/

/-- **Entering the devices of a reply,** from left to right. A device is skipped if it is new and
the registry is at its capacity; the second list is of those that are not skipped. -/
inductive Enters (source : Endpoint) (secure : Bool) (r : Registry) :
    List String → List String → Registry → Prop
  | nil : Enters source secure r [] [] r
  | accept {ss accepted : List String} {r₁ r₂ : Registry} {s : String} {d : Device}
      (before : Enters source secure r ss accepted r₁)
      (h : r₁.upsert s (announced source secure s) = .ok (d, r₂)) :
      Enters source secure r (ss ++ [s]) (accepted ++ [s]) r₂
  | skip {ss accepted : List String} {r₁ : Registry} {s : String}
      (before : Enters source secure r ss accepted r₁) (new : r₁.find? s = none)
      (full : r₁.capacity ≠ 0 ∧ r₁.capacity ≤ r₁.count) :
      Enters source secure r (ss ++ [s]) accepted r₁

section Enters
variable {source : Endpoint} {secure : Bool} {r r' : Registry} {ss accepted : List String}

theorem Enters.sublist (h : Enters source secure r ss accepted r') : accepted.Sublist ss := by
  induction h with
  | nil => exact .slnil
  | accept _ _ ih => exact ih.append (.refl _)
  | skip _ _ _ ih => exact ih.trans (List.sublist_append_left _ _)

theorem announced_apply_apply (s : String) (d : Device) :
    (announced source secure s).apply ((announced source secure s).apply d) =
      (announced source secure s).apply d := rfl

/-- **What is found after the devices were entered.** -/
theorem Enters.find? (h : Enters source secure r ss accepted r') (i : String) :
    r'.find? i = if i ∈ accepted then
      some ((announced source secure i).apply ((r.find? i).getD { identifier := i }))
      else r.find? i := by
  induction h with
  | nil => rfl
  | @accept ss accepted r₁ r₂ s d _ hu ih =>
    rw [Registry.find?_upsert hu]
    by_cases hi : i = s
    · subst hi
      have hd : d = (announced source secure i).apply ((r₁.find? i).getD { identifier := i }) := by
        rcases Registry.upsert_eq_ok hu with ⟨d₀, hf, rfl, -⟩ | ⟨hf, -, rfl, -⟩
        · rw [hf, Option.getD_some]
        · rw [hf, Option.getD_none]
      rw [if_pos rfl, if_pos (by simp), hd, ih]
      split_ifs
      · rw [Option.getD_some, announced_apply_apply]
      · rfl
    · rw [if_neg hi, ih]
      simp [hi]
  | skip _ _ _ ih => exact ih

/-- A device that was entered or refreshed is reached at the source, and keeps its name. -/
theorem Enters.device (h : Enters source secure r ss accepted r') {s : String}
    (hs : s ∈ accepted) : r'.find? s = some
      { identifier := s
        address := some source.address
        name := ((r.find? s).map (·.name)).getD ""
        endpoint := { source with secure, serial := some s } } := by
  rw [h.find? s, if_pos hs]
  rcases hf : r.find? s with _ | d
  · rfl
  · rw [← Registry.identifier_of_find? hf]
    rfl

/-- No device is evicted, and those that are new come at the end. -/
theorem Enters.identifiers (h : Enters source secure r ss accepted r') :
    r.identifiers <+: r'.identifiers := by
  induction h with
  | nil => exact List.prefix_refl _
  | @accept ss accepted r₁ r₂ s d _ hu ih =>
    refine ih.trans ?_
    rcases Registry.upsert_eq_ok hu with ⟨d₀, -, -, rfl⟩ | ⟨-, -, -, rfl⟩
    · have hsame := Registry.identifiers_modify (r := r₁) (i := s)
        (f := (announced source secure s).apply) fun _ => rfl
      exact ⟨[], by rw [List.append_nil, hsame]⟩
    · exact ⟨[d.identifier], by simp [Registry.identifiers]⟩
  | skip _ _ _ ih => exact ih

end Enters

variable {σ : Type}

/-! ### What is dispatched -/

/-- The notifications that were given, whether or not there was a handler. -/
def dispatchedIn (tr : List (Entry σ)) : List Notification :=
  tr.filterMap fun
    | .notified n _ => some n
    | _ => none

/-- The discovery replies that were worked through, with the numbers of devices. -/
def countedIn (tr : List (Entry σ)) : List (Token × ℕ) :=
  tr.filterMap fun
    | .happened (.discovered t n) => some (t, n)
    | _ => none

/-- **What is new on a trace** since `tr`. -/
def Since (tr : List (Entry σ)) (ns : List Notification) (counts : List (Token × ℕ))
    (tr' : List (Entry σ)) : Prop :=
  ∃ es, tr' = tr ++ es ∧ dispatchedIn es = ns ∧ countedIn es = counts

section Since
variable {tr tr' : List (Entry σ)} {ns : List Notification} {counts : List (Token × ℕ)}

theorem Since.append (h : Since tr ns counts tr') (es : List (Entry σ)) :
    Since tr (ns ++ dispatchedIn es) (counts ++ countedIn es) (tr' ++ es) := by
  obtain ⟨fs, rfl, rfl, rfl⟩ := h
  exact ⟨fs ++ es, List.append_assoc _ _ _, List.filterMap_append, List.filterMap_append⟩

theorem Since.notified (h : Since tr ns counts tr') (n : Notification)
    (handler : Option HandlerName) :
    Since tr (ns ++ [n]) counts (tr' ++ [.notified n handler]) := by
  simpa [dispatchedIn, countedIn] using h.append [.notified n handler]

theorem Since.discovered (h : Since tr ns counts tr') (t : Token) (found : ℕ) :
    Since tr ns (counts ++ [(t, found)]) (tr' ++ [.happened (.discovered t found)]) := by
  simpa [dispatchedIn, countedIn] using h.append [.happened (.discovered t found)]

theorem Since.asides (h : Since tr ns counts tr') {es : List (Entry σ)}
    (he : ∀ x ∈ es, x.IsAside) : Since tr ns counts (tr' ++ es) := by
  have hnone : dispatchedIn es = [] ∧ countedIn es = [] := by
    constructor
    all_goals
      refine List.filterMap_eq_nil_iff.mpr fun x hx => ?_
      have haside := he x hx
      cases x <;> first | rfl | exact haside.elim
  simpa [hnone] using h.append es

end Since

/-! ### Runs -/

/-- **The machine `m` runs to `m'`,** and `P` is so at all moments. -/
def Through (eng : Engine σ) (P : Machine σ → Prop) (m m' : Machine σ) : Prop :=
  ∃ n, m.run (system eng) n = m' ∧ ∀ i ≤ n, P (m.run (system eng) i)

section Through
variable {eng : Engine σ} {P Q : Machine σ → Prop} {m m' m'' : Machine σ}

theorem Through.here (h : P m) : Through eng P m m :=
  ⟨0, rfl, fun i hi => by rw [Nat.le_zero.mp hi]; exact h⟩

theorem Through.first (h : Through eng P m m') : P m := by
  obtain ⟨n, -, hn⟩ := h
  exact hn 0 n.zero_le

theorem Through.last (h : Through eng P m m') : P m' := by
  obtain ⟨n, rfl, hn⟩ := h
  exact hn n n.le_refl

theorem Through.trans (h : Through eng P m m') (h' : Through eng P m' m'') :
    Through eng P m m'' := by
  obtain ⟨k, rfl, hk⟩ := h
  obtain ⟨n, rfl, hn⟩ := h'
  refine ⟨k + n, Dispatch.Machine.run_add _ k n m, fun i hi => ?_⟩
  rcases Nat.le_total i k with hik | hki
  · exact hk i hik
  · obtain ⟨j, rfl⟩ := Nat.exists_eq_add_of_le hki
    rw [Dispatch.Machine.run_add]
    exact hn j (by omega)

theorem Through.cons (h : P m) (h' : Through eng P (m.step (system eng)) m') :
    Through eng P m m' := by
  have hone : m.run (system eng) 1 = m.step (system eng) := Dispatch.Machine.run_succ _ 0 m
  refine Through.trans ⟨1, hone, fun i hi => ?_⟩ h'
  rcases Nat.le_one_iff_eq_zero_or_eq_one.mp hi with rfl | rfl
  · exact h
  · rw [hone]
    exact h'.first

theorem Through.mono (h : Through eng P m m') (hPQ : ∀ m, P m → Q m) : Through eng Q m m' := by
  obtain ⟨n, hrun, hn⟩ := h
  exact ⟨n, hrun, fun i hi => hPQ _ (hn i hi)⟩

end Through

/-- The bridge is `b`, and since `tr` nothing was left on the trace but asides. -/
structure Beside (b : Bridge σ) (tr : List (Entry σ)) (m : Machine σ) : Prop where
  table : m.table.CommandFree
  state : m.state = b
  trace : ∃ es, m.trace = tr ++ es ∧ ∀ x ∈ es, x.IsAside

section Beside
variable {b : Bridge σ} {tr : List (Entry σ)} {m m' : Machine σ}

theorem Beside.aside (hm : Beside b tr m) {x : Entry σ} (hx : x.IsAside)
    (ht : m'.table.CommandFree) (hs : m'.state = m.state) (htr : m'.trace = m.trace ++ [x]) :
    Beside b tr m' := by
  obtain ⟨es, hes, ha⟩ := hm.trace
  refine ⟨ht, hs.trans hm.state, es ++ [x], by rw [htr, hes, List.append_assoc], fun y hy => ?_⟩
  rcases List.mem_append.mp hy with hy | hy
  · exact ha y hy
  · rw [List.mem_singleton.mp hy]
    exact hx

/-- **A program that issues no command comes to its end,** and leaves asides only. -/
theorem program_through (eng : Engine σ) {p : Program σ} (hp : p.CommandFree)
    {below : List (Dispatch.Frame (Command σ) Rest Reply)} (hs : m.stack = .run p :: below)
    (hm : Beside b tr m) : ∃ m', Through eng (Beside b tr) m m' ∧ m'.stack = below := by
  induction hp generalizing m with
  | done =>
    have hstep : m.step (system eng) = { m with stack := below } := by
      unfold Dispatch.Machine.step
      rw [hs]
    refine ⟨m.step (system eng), .cons hm (.here ?_), by rw [hstep]⟩
    rw [hstep]
    exact ⟨hm.table, hm.state, hm.trace⟩
  | @remark text next _ ih =>
    have hstep : m.step (system eng) =
        { m.record [.remarked text] with stack := .run next :: below } := by
      unfold Dispatch.Machine.step
      rw [hs]
    have hnext : Beside b tr (m.step (system eng)) := by
      rw [hstep]
      exact hm.aside (x := .remarked text) trivial hm.table rfl rfl
    obtain ⟨m', hthrough, hstack⟩ := ih (by rw [hstep]) hnext
    exact ⟨m', hthrough.cons hm, hstack⟩
  | @install categories handler next hh _ _ ih =>
    obtain ⟨olds, hstep⟩ : ∃ olds, m.step (system eng) =
        { (m.install categories handler).2 with stack := .run (next olds) :: below } := by
      unfold Dispatch.Machine.step
      rw [hs]
      exact ⟨_, rfl⟩
    have hnext : Beside b tr (m.step (system eng)) := by
      rw [hstep]
      exact hm.aside (x := .installed categories ⟨m.calls.length, handler.label⟩) trivial
        (HandlerTable.CommandFree.installAll hh categories hm.table) rfl rfl
    obtain ⟨m', hthrough, hstack⟩ := ih olds (by rw [hstep]) hnext
    exact ⟨m', hthrough.cons hm, hstack⟩

theorem Beside.since (hm : Beside b tr m) {tr₀ : List (Entry σ)} {ns : List Notification}
    {counts : List (Token × ℕ)} (h : Since tr₀ ns counts tr) : Since tr₀ ns counts m.trace := by
  obtain ⟨es, hes, ha⟩ := hm.trace
  rw [hes]
  exact h.asides ha

/-- **A notification is given,** and the handler that hears it, if there is one, comes to its
end. -/
theorem notify_through (eng : Engine σ) (ht : m.table.CommandFree) (b : Bridge σ)
    (n : Notification) (a : Rest) (below : List (Dispatch.Frame (Command σ) Rest Reply)) :
    ∃ h d m', Through eng
        (Beside { b with log := [] } (m.trace ++ b.log.map .happened ++ [.notified n h]))
        (m.settle (takeDown (b, .notify n a)) below) m' ∧
      m'.stack = .rest a d :: below := by
  rcases hi : m.table.slot n.category with _ | i
  · have hsettle : m.settle (takeDown (b, .notify n a)) below = { m with
        state := { b with log := [] }
        trace := m.trace ++ b.log.map .happened ++ [.notified n none]
        stack := .rest a false :: below } := by
      simp [Dispatch.Machine.settle, Dispatch.Machine.deliver, Dispatch.Machine.record, takeDown,
        hi]
    rw [hsettle]
    exact ⟨none, false, _, .here ⟨ht, rfl, [], (List.append_nil _).symm, by simp⟩, rfl⟩
  · have hsettle : m.settle (takeDown (b, .notify n a)) below = { m with
        state := { b with log := [] }
        calls := m.calls.set i.number (m.calls.getD i.number 0 + 1)
        trace := m.trace ++ b.log.map .happened ++ [.notified n (some i.name)]
        stack := .run (i.handler.react (m.calls.getD i.number 0) n) :: .rest a true :: below } := by
      simp [Dispatch.Machine.settle, Dispatch.Machine.deliver, Dispatch.Machine.record, takeDown,
        hi]
    have hbeside : Beside { b with log := [] }
        (m.trace ++ b.log.map .happened ++ [.notified n (some i.name)])
        (m.settle (takeDown (b, .notify n a)) below) := by
      rw [hsettle]
      exact ⟨ht, rfl, [], (List.append_nil _).symm, by simp⟩
    obtain ⟨m', hthrough, hstack⟩ := program_through eng (ht _ i hi _ n)
      (congrArg Dispatch.Machine.stack hsettle) hbeside
    exact ⟨some i.name, true, m', hthrough, hstack⟩

end Beside

/-! ### Announcing the devices -/

/-- What is said about a device that a reply from `source` has announced. -/
def discoveredAt (source : Endpoint) (serial : String) : Notification :=
  .stateChanged serial source.address discoveredChange

/-- **The registry and the notifications agree** while a reply that announces `serials` is worked
through: up to some point they are entered, and of each that was accepted a handler was told. -/
def Agrees (source : Endpoint) (secure : Bool) (r : Registry) (serials : List String)
    (text : String) (tr : List (Entry σ)) (m : Machine σ) : Prop :=
  ∃ done left accepted, serials = done ++ left ∧
    Enters source secure r done accepted m.state.registry ∧
    ((∃ counts, Since tr (accepted.map (discoveredAt source)) counts m.trace) ∨
      left = [] ∧ ∃ counts, Since tr (accepted.map (discoveredAt source) ++ [.discoveryResult text])
        counts m.trace)

section Announce
variable {t : Token} {found : ℕ} {source : Endpoint} {text : String} {e : CycleEnd} {s : String}
  {left : List String} {b : Bridge σ}

theorem proceed_announce_ok {d : Device} {registry : Registry}
    (h : b.registry.upsert s (announced source b.settings.secureByDefault s) = .ok (d, registry)) :
    b.proceed (.announce t found (s :: left) source text e) =
      ({ b with registry }, .notify (discoveredAt source s)
        (.announce t (found + 1) left source text e)) := by
  simp only [proceed, announce, h]
  rfl

theorem proceed_announce_error {err : BridgeError}
    (h : b.registry.upsert s (announced source b.settings.secureByDefault s) = .error err) :
    b.proceed (.announce t found (s :: left) source text e) =
      b.proceed (.announce t found left source text e) := by
  simp only [proceed, announce, h]

variable (eng : Engine σ) (t : Token) (source : Endpoint) (text : String) (e : CycleEnd)
  (below : List (Dispatch.Frame (Command σ) Rest Reply)) {tr : List (Entry σ)} {r : Registry}
  {serials : List String}

/-- **The devices that are left are announced,** and then the reply itself. -/
theorem announce_through : ∀ (left done accepted : List String) (b : Bridge σ) (m : Machine σ),
    m.table.CommandFree → serials = done ++ left →
    Enters source b.settings.secureByDefault r done accepted b.registry →
    Since tr (accepted.map (discoveredAt source)) [] (m.trace ++ b.log.map .happened) →
    ∃ m' accepted' d,
      Through eng (Agrees source b.settings.secureByDefault r serials text tr)
        (m.settle (takeDown (b.proceed (.announce t accepted.length left source text e))) below)
        m' ∧
      Enters source b.settings.secureByDefault r serials accepted' m'.state.registry ∧
      m'.stack = .rest (.drain e) d :: below ∧
      m'.state = { b with registry := m'.state.registry, log := [] } ∧
      Since tr (accepted'.map (discoveredAt source) ++ [.discoveryResult text])
        [(t, accepted'.length)] m'.trace
  | [], done, accepted, b, m, ht, hdone, henters, hsince => by
    obtain ⟨h, d, m', hthrough, hstack⟩ := notify_through eng ht
      (b.note [.discovered t accepted.length]) (.discoveryResult text) (.drain e) below
    have hall : Since tr (accepted.map (discoveredAt source) ++ [.discoveryResult text])
        [(t, accepted.length)]
        (m.trace ++ (b.note [.discovered t accepted.length]).log.map .happened ++
          [.notified (.discoveryResult text) h]) := by
      simpa [note] using (hsince.discovered t accepted.length).notified (.discoveryResult text) h
    rw [List.append_nil] at hdone
    subst hdone
    have hstate := hthrough.last.state
    refine ⟨m', accepted, d, hthrough.mono fun m₁ hm₁ => ?_, ?_, hstack, ?_,
      hthrough.last.since hall⟩
    · refine ⟨serials, [], accepted, (List.append_nil _).symm, ?_,
        Or.inr ⟨rfl, _, hm₁.since hall⟩⟩
      rw [hm₁.state]
      exact henters
    · rw [hstate]
      exact henters
    · rw [hstate]
      rfl
  | s :: left, done, accepted, b, m, ht, hdone, henters, hsince => by
    have hdone' : serials = (done ++ [s]) ++ left := by rw [hdone, List.append_assoc]; rfl
    rcases hu : b.registry.upsert s (announced source b.settings.secureByDefault s) with
      err | ⟨dev, registry⟩
    · obtain ⟨hnew, hfull, -⟩ := Registry.upsert_eq_error.mp hu
      have hcap : b.registry.capacity ≠ 0 ∧ b.registry.capacity ≤ b.registry.count := by
        simpa [Registry.isFull, Registry.count] using hfull
      rw [proceed_announce_error hu]
      exact announce_through left (done ++ [s]) accepted b m ht hdone' (henters.skip hnew hcap)
        hsince
    · rw [proceed_announce_ok hu]
      obtain ⟨h, d, m₁, hfirst, hstack⟩ := notify_through eng ht { b with registry }
        (discoveredAt source s) (.announce t (accepted.length + 1) left source text e) below
      have hnow := henters.accept hu
      have hall : Since tr ((accepted ++ [s]).map (discoveredAt source)) []
          (m.trace ++ b.log.map .happened ++ [.notified (discoveredAt source s) h]) := by
        simpa using hsince.notified (discoveredAt source s) h
      have hagrees : ∀ m₂, Beside { b with registry, log := [] }
          (m.trace ++ b.log.map .happened ++ [.notified (discoveredAt source s) h]) m₂ →
          Agrees source b.settings.secureByDefault r serials text tr m₂ := by
        intro m₂ hm₂
        refine ⟨done ++ [s], left, accepted ++ [s], hdone', ?_, Or.inl ⟨[], hm₂.since hall⟩⟩
        rw [hm₂.state]
        exact hnow
      have hstate := hfirst.last.state
      have hsecure : m₁.state.settings = b.settings := by rw [hstate]
      -- The machine has come to the rest of the announcing, with nothing on its log.
      obtain ⟨m', accepted', d', hthrough, henters', hstack', hstate', hsince'⟩ :=
        announce_through left (done ++ [s]) (accepted ++ [s]) m₁.state m₁ hfirst.last.table hdone'
          (by rw [hstate]; exact hnow) (by simpa [hstate] using hfirst.last.since hall)
      rw [hsecure, List.length_append, List.length_singleton] at hthrough
      rw [hsecure] at henters'
      refine ⟨m', accepted', d', (hfirst.mono hagrees).trans (.cons (hagrees m₁ hfirst.last) ?_),
        henters', hstack', ?_, hsince'⟩
      · rw [Dispatch.Machine.step_rest (system eng) hstack]
        exact hthrough
      · rw [hstate', hstate]

end Announce

/-! ### The effect of a reply -/

/-- **What a reply has done** that a session takes, when it has been worked through. Of the devices
that it announces those in `accepted` were entered or refreshed; `tr` is the trace before. -/
structure Worked (b : Bridge σ) (t : Token) (payload : Bytes) (source : Endpoint)
    (continuous : Bool) (rest : List EngineEvent) (tr : List (Entry σ)) (accepted : List String)
    (m' : Machine σ) : Prop where
  entered : Enters source b.settings.secureByDefault b.registry
    (Discovery.serialsIn (Utf8.decodeLossy payload)) accepted m'.state.registry
  sublist : accepted.Sublist (Discovery.serialsIn (Utf8.decodeLossy payload))
  /-- The devices are reached where the reply came from, and keep their names. -/
  devices : ∀ s ∈ accepted, m'.state.registry.find? s = some
    { identifier := s
      address := some source.address
      name := ((b.registry.find? s).map (·.name)).getD ""
      endpoint := { source with secure := b.settings.secureByDefault, serial := some s } }
  untouched : ∀ s, s ∉ accepted → m'.state.registry.find? s = b.registry.find? s
  /-- None is evicted. -/
  kept : b.registry.identifiers <+: m'.state.registry.identifiers
  /-- A session for a single reply is closed, and nothing else is changed. -/
  state : m'.state = { b.taking (.discoveryReply t payload source) rest with
    registry := m'.state.registry
    correlator := if continuous then b.correlator else b.correlator.discard t
    log := [] }
  told : Since tr
    (accepted.map (discoveredAt source) ++ [.discoveryResult (Utf8.decodeLossy payload)])
    [(t, accepted.length)] m'.trace

/-- **What a discovery reply does** that is the next event of the queue, where `m` is the machine in
which the bridge `b` handles the queue. -/
structure ReplyEffect (eng : Engine σ) (b : Bridge σ) (t : Token) (payload : Bytes)
    (source : Endpoint) (rest : List EngineEvent) (e : CycleEnd) (m : Machine σ)
    (below : List (Dispatch.Frame (Command σ) Rest Reply)) : Prop where
  /-- Without an open session nothing is changed and nobody is told: the next event is handled. -/
  dropped : (∀ k, b.correlator.find? t ≠ some (.discovery k)) →
    (b.taking (.discoveryReply t payload source) rest).handle (.discoveryReply t payload source) e =
        (b.taking (.discoveryReply t payload source) rest, none) ∧
      drainFrom e (.discoveryReply t payload source :: rest) b =
        drainFrom e rest (b.taking (.discoveryReply t payload source) rest)
  /-- With one the reply is worked through, and then the rest of the queue is handled. At all moments
  the registry and the notifications agree. -/
  worked : ∀ k, b.correlator.find? t = some (.discovery k) → ∃ tr m' accepted d,
    tr = m.trace ++ (b.taking (.discoveryReply t payload source) rest).log.map .happened ∧
      Through eng
        (Agrees source b.settings.secureByDefault b.registry
          (Discovery.serialsIn (Utf8.decodeLossy payload)) (Utf8.decodeLossy payload) tr)
        (m.settle (takeDown (drainFrom e (.discoveryReply t payload source :: rest) b)) below) m' ∧
      m'.stack = .rest (.drain e) d :: below ∧
      Worked b t payload source k rest tr accepted m'

theorem drainFrom_discoveryReply {b : Bridge σ} {t : Token} {c : Correlator}
    (h : b.correlator.acceptReply t = (true, c)) (payload : Bytes) (source : Endpoint)
    (rest : List EngineEvent) (e : CycleEnd) :
    drainFrom e (.discoveryReply t payload source :: rest) b =
      ({ b.taking (.discoveryReply t payload source) rest with correlator := c } : Bridge σ).proceed
        (.announce t 0 (Discovery.serialsIn (Utf8.decodeLossy payload)) source
          (Utf8.decodeLossy payload) e) := by
  rw [drainFrom_cons, handle_discoveryReply (b := b.taking _ rest) h]
  dsimp only [proceed]

/-- **The effect of a discovery reply,** if no handler issues a command. -/
theorem discovery_reply_effect (eng : Engine σ) {m : Machine σ} (ht : m.table.CommandFree)
    (b : Bridge σ) (t : Token) (payload : Bytes) (source : Endpoint) (rest : List EngineEvent)
    (e : CycleEnd) (below : List (Dispatch.Frame (Command σ) Rest Reply)) :
    ReplyEffect eng b t payload source rest e m below where
  dropped hno := by
    have hhandle : (b.taking (.discoveryReply t payload source) rest).handle
        (.discoveryReply t payload source) e =
        (b.taking (.discoveryReply t payload source) rest, none) := by
      refine handle_stray rfl fun p hp => ?_
      rcases p with x | k | i
      · rfl
      · exact absurd hp (hno k)
      · rfl
    refine ⟨hhandle, ?_⟩
    rw [drainFrom_cons, hhandle]
  worked k hk := by
    have hacc : b.correlator.acceptReply t =
        (true, if k then b.correlator else b.correlator.discard t) := by
      cases k <;> simp [Correlator.acceptReply, hk]
    rw [drainFrom_discoveryReply hacc]
    obtain ⟨m', accepted, d, hthrough, henters, hstack, hstate, htold⟩ := announce_through eng t
      source (Utf8.decodeLossy payload) e below (Discovery.serialsIn (Utf8.decodeLossy payload)) []
      [] { b.taking (.discoveryReply t payload source) rest with
        correlator := if k then b.correlator else b.correlator.discard t } m ht (List.nil_append _).symm .nil
      ⟨[], (List.append_nil _).symm, rfl, rfl⟩
    exact ⟨_, m', accepted, d, rfl, hthrough, hstack,
      { entered := henters
        sublist := henters.sublist
        devices := fun s hs => henters.device hs
        untouched := fun s hs => by rw [henters.find? s, if_neg hs]; rfl
        kept := henters.identifiers
        state := hstate
        told := htold }⟩

section Demo

/-- A bridge with room for one more device than the one it knows. It waits for one reply. -/
def almostFull : Bridge Bench.ScriptedEngine :=
  { settings := {}
    engine := {}
    registry := { capacity := 2, devices := [{ identifier := "B", name := "door" }] }
    correlator := { issued := 1, table := [(.after 0, .discovery false)] }
    maxPayload := 0 }

/-- A machine with a handler for every category, which only remarks that it was called. -/
def attentive : Machine Bench.ScriptedEngine :=
  { state := almostFull
    table := { slot := fun c => some ⟨0, .mk "ear" fun _ _ => .remark c.name .done⟩ }
    calls := [0] }

def threeDevices : Bytes :=
  Utf8.encode "<>;ep=urn:knx:sn.A,<>;ep=urn:knx:sn.C,<>;ep=urn:knx:sn.B,<>;ep=urn:knx:sn.A"

def sender : Endpoint := { Endpoint.unicast "fe80::1" with handle := 7 }

/-- The machine when the reply has been worked through. -/
def filled : Machine Bench.ScriptedEngine :=
  (attentive.settle (takeDown (drainFrom (.reply (.unit (.ok ())))
    [.discoveryReply (.after 0) threeDevices sender] almostFull)) []).run
      (system Bench.ScriptedEngine.engine) 11

/-- The device `A` takes the last place, `C` finds none, and `B` and `A` are refreshed. -/
theorem discovery_reply_effect_filling :
    attentive.table.CommandFree ∧
      almostFull.correlator.find? (.after 0) = some (.discovery false) ∧
      ReplyEffect Bench.ScriptedEngine.engine almostFull (.after 0) threeDevices sender []
        (.reply (.unit (.ok ()))) attentive [] ∧
      dispatchedIn filled.trace = ["A", "B", "A"].map (discoveredAt sender) ++
        [.discoveryResult (Utf8.decodeLossy threeDevices)] ∧
      countedIn filled.trace = [(.after 0, 3)] ∧
      filled.state.registry.identifiers = ["B", "A"] := by
  have ht : attentive.table.CommandFree := fun c i hi k n => by
    obtain rfl := Option.some.inj hi
    exact .remark _ .done
  exact ⟨ht, rfl, discovery_reply_effect _ ht _ _ _ _ _ _ _, by decide +kernel⟩

end Demo

end Bridge

end KnxIoT
