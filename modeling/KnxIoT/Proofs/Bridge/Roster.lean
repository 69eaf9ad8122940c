import KnxIoT.Proofs.Bridge.Atomicity

/-! # What a trace says about the devices

A trace alone tells which devices are known and where each is reached: a device is entered when it
is registered by hand or announced by a discovery reply, its protection can be set, and all are
forgotten when they are cleared or the bridge stops. `roster` reads this off a trace entry by entry.

A notification about a device that was found does not say where the reply came from. That stands in
the trace where the reply was taken from the queue, by the same call; as handlers may make calls of
their own in between, the roster keeps a source for each call in progress.

* `Tracks R b`: what was read is how the bridge stands.
* `perform_followed`, `proceed_followed`: reading the entries of a piece leads from the roster
  before it to the roster after it.
* `Rostered.use`: so it does for any use of a bridge. -/

namespace KnxIoT

/-- Where the devices are that the rest of a command is going to announce. -/
def Rest.source? : Rest → Option Endpoint
  | .announce _ _ _ source _ _ => some source
  | _ => none

namespace Bridge

variable {σ : Type}

/-- **What a trace tells about the devices.** -/
structure Roster where
  /-- For each call in progress, the innermost first, where the discovery reply came from that it
  took from the queue last. -/
  sources : List (Option Endpoint) := []
  stopped : Bool := false
  /-- Where each known device is reached. -/
  place : String → Option Endpoint := fun _ => none

namespace Roster

variable (s : Settings) (R : Roster)

/-- A device is entered, or entered anew. -/
def enter (identifier : String) (e : Endpoint) : Roster :=
  { R with place := fun i => if i = identifier then some e else R.place i }

/-- The protection of a device is set. -/
def secure (identifier : String) (on : Bool) : Roster :=
  { R with
    place := fun i =>
      if i = identifier then (R.place i).map fun e => { e with secure := on } else R.place i }

/-- All devices are forgotten. -/
def forget : Roster := { R with place := fun _ => none }

/-- The bridge stops, which it does only once. -/
def halt : Roster := if R.stopped then R else { R.forget with stopped := true }

/-- A call begins. -/
def opened : Roster := { R with sources := none :: R.sources }

/-- The innermost call ends. -/
def closed : Roster := { R with sources := R.sources.tail }

/-- The innermost call takes a discovery reply from the queue. -/
def turnTo (source : Endpoint) : Roster := { R with sources := some source :: R.sources.tail }

/-- Where the discovery reply came from that the innermost call took last. -/
def source : Endpoint := R.sources.head?.join.getD {}

/-- **What a trace tells after one more entry.** -/
def read : Entry σ → Roster
  | .called .stop => R.halt.opened
  | .called .dispose => R.halt.opened
  | .called .clearDevices => R.forget.opened
  | .called _ => R.opened
  | .returned (.register i a) (.device (.ok _)) =>
    R.closed.enter i { Endpoint.unicast a with serial := some i }
  | .returned (.setSecure i on) (.unit (.ok _)) => R.closed.secure i on
  | .returned _ _ => R.closed
  | .notified (.stateChanged i _ _) _ =>
    R.enter i { R.source with secure := s.secureByDefault, serial := some i }
  | .happened (.taken (.discoveryReply _ _ source)) => R.turnTo source
  | .happened (.engine (.init _) InitAnswer.readyButStopped) => R.halt
  | _ => R

end Roster

/-- **What a whole trace tells about the devices.** -/
def roster (s : Settings) (tr : List (Entry σ)) : Roster := tr.foldl (Roster.read s) {}

/-- A command whose success is an entry about a device. -/
def Command.IsEdit : Command σ → Prop
  | .register .. | .setSecure .. => True
  | _ => False

/-- What is read of a roster is how a bridge stands. -/
structure Tracks (R : Roster) (b : Bridge σ) : Prop where
  stopped : R.stopped = b.loop.quit
  place : R.place = b.registry.places

/-- What is read after a piece of a call, with the sources `ss` of the calls around it: it has
ended, or it waits and has the source of what it is going to announce. -/
def Suspends (ss : List (Option Endpoint)) :
    Dispatch.Outcome Rest Reply → List (Option Endpoint) → Prop
  | .reply _, l => l = ss
  | .notify _ a, l => ∃ source, l = source :: ss ∧ ∀ e, a.source? = some e → source = some e

/-- **The piece `p` of a call of `c`, in which `hs` happens, is followed** when it is read from the
roster `R` on. -/
structure Followed (s : Settings) (R : Roster) (ss : List (Option Endpoint)) (c : Command σ)
    (hs : List Happening) (p : Piece σ) : Prop where
  tracks : ∀ h, Tracks ((hs.map .happened ++ [p.2.closing c h] : List (Entry σ)).foldl
    (Roster.read s) R) p.1
  sources : ∀ h, Suspends ss p.2 ((hs.map .happened ++ [p.2.closing c h] : List (Entry σ)).foldl
    (Roster.read s) R).sources

/-! ### Reading single entries -/

section Read
variable {s : Settings} {R : Roster} {b b' : Bridge σ} {ss : List (Option Endpoint)}
  {c : Command σ} {src : Option Endpoint}

@[simp] theorem roster_append (s : Settings) (tr es : List (Entry σ)) :
    roster s (tr ++ es) = es.foldl (Roster.read s) (roster s tr) := List.foldl_append

theorem Tracks.of_eq (h : Tracks R b) (hl : b'.loop.quit = b.loop.quit)
    (hr : b'.registry = b.registry) : Tracks R b' :=
  ⟨h.stopped.trans hl.symm, h.place.trans (by rw [hr])⟩

theorem Tracks.opened (h : Tracks R b) : Tracks R.opened b := ⟨h.stopped, h.place⟩

theorem Tracks.closed (h : Tracks R b) : Tracks R.closed b := ⟨h.stopped, h.place⟩

theorem Tracks.turnTo (h : Tracks R b) (source : Endpoint) : Tracks (R.turnTo source) b :=
  ⟨h.stopped, h.place⟩

theorem Tracks.halt (h : Tracks R b) (hq : b'.loop.quit = true)
    (hr : b.loop.quit = true → b'.registry = b.registry)
    (hc : b.loop.quit = false → b'.registry = b.registry.clear) : Tracks R.halt b' := by
  unfold Roster.halt
  split_ifs with hs
  · exact h.of_eq (hq.trans (h.stopped.symm.trans hs).symm) (hr (h.stopped.symm.trans hs))
  · refine ⟨hq.symm, ?_⟩
    rw [hc (by rw [← h.stopped]; simpa using hs)]
    rfl

theorem Roster.halt_sources : R.halt.sources = R.sources := by
  unfold Roster.halt
  split_ifs <;> rfl

theorem read_plain {x : Happening} (h : x.IsPlain) : R.read s (.happened x : Entry σ) = R := by
  unfold Happening.IsPlain at h
  unfold Roster.read
  split at h
  · exact h.elim
  · exact h.elim
  · next h₁ h₂ =>
    split
    all_goals first
      | rfl
      | (next he => cases he)
      | (next hx => cases hx; exact absurd rfl (h₁ _))
      | (next hx => cases hx; exact absurd rfl (h₂ _))

theorem foldl_plain {hs : List Happening} (h : ∀ x ∈ hs, x.IsPlain) :
    (hs.map .happened : List (Entry σ)).foldl (Roster.read s) R = R := by
  induction hs with
  | nil => rfl
  | cons x hs ih =>
    rw [List.map_cons, List.foldl_cons, read_plain (h x (by simp))]
    exact ih fun y hy => h y (by simp [hy])

theorem read_returned (hc : ¬ c.IsEdit) (r : Reply) :
    R.read s (.returned c r : Entry σ) = R.closed := by
  cases c with
  | register i a => exact absurd trivial hc
  | setSecure i on => exact absurd trivial hc
  | _ => rfl

theorem read_taken (hR : Tracks R b) (hsrc : R.sources = src :: ss) (ev : EngineEvent) :
    Tracks (R.read s (.happened (.taken ev) : Entry σ)) b ∧
      ∃ src', (R.read s (.happened (.taken ev) : Entry σ)).sources = src' :: ss := by
  cases ev with
  | discoveryReply t payload source =>
    refine ⟨hR.turnTo source, some source, ?_⟩
    simp only [Roster.read, Roster.turnTo, hsrc, List.tail_cons]
  | _ => exact ⟨hR, src, hsrc⟩

end Read

/-! ### Reading the pieces of a command -/

section Pieces
variable {s : Settings} {eng : Engine σ} {R : Roster} {b b' : Bridge σ}
  {ss : List (Option Endpoint)} {c : Command σ} {src : Option Endpoint} {hs : List Happening}
  {e : CycleEnd}

theorem followed_of_plain {p : Piece σ} (hp : ∀ x ∈ hs, x.IsPlain)
    (h : ∀ h, Tracks (R.read s (p.2.closing c h : Entry σ)) p.1 ∧
      Suspends ss p.2 (R.read s (p.2.closing c h : Entry σ)).sources) : Followed s R ss c hs p := by
  have hread : ∀ h, (hs.map .happened ++ [p.2.closing c h] : List (Entry σ)).foldl
      (Roster.read s) R = R.read s (p.2.closing c h) := by
    intro h
    rw [List.foldl_append, foldl_plain hp]
    rfl
  exact ⟨fun k => by rw [hread]; exact (h k).1, fun k => by rw [hread]; exact (h k).2⟩

theorem followed_of_reply {p : Piece σ} {r : Reply} (ho : p.2 = .reply r) (hc : ¬ c.IsEdit)
    (hp : ∀ x ∈ hs, x.IsPlain) (hsrc : R.sources = src :: ss) (h : Tracks R p.1) :
    Followed s R ss c hs p := by
  refine followed_of_plain hp fun k => ?_
  have hread : R.read s (p.2.closing c k : Entry σ) = R.closed := by
    rw [ho]
    exact read_returned hc r
  rw [hread, ho]
  exact ⟨h.closed, by rw [Roster.closed, hsrc]; rfl⟩

theorem followed_of_notify {p : Piece σ} {n : Notification} {a : Rest} (ho : p.2 = .notify n a)
    (hn : ∀ i x y, n ≠ .stateChanged i x y) (ha : ∀ e, a.source? = some e → src = some e)
    (hp : ∀ x ∈ hs, x.IsPlain) (hsrc : R.sources = src :: ss) (h : Tracks R p.1) :
    Followed s R ss c hs p := by
  refine followed_of_plain hp fun k => ?_
  have hread : R.read s (p.2.closing c k : Entry σ) = R := by
    rw [ho]
    cases n with
    | stateChanged i x y => exact absurd rfl (hn i x y)
    | _ => rfl
  rw [hread, ho]
  exact ⟨h, src, hsrc, ha⟩

theorem Followed.cons_taken {p : Piece σ} {ev : EngineEvent}
    (h : Followed s (R.read s (.happened (.taken ev) : Entry σ)) ss c hs p) :
    Followed s R ss c (.taken ev :: hs) p := ⟨h.tracks, h.sources⟩

theorem Followed.append_plain {p : Piece σ} {hs' : List Happening}
    (h : Followed s R ss c hs p) (hp : ∀ x ∈ hs', x.IsPlain) :
    Followed s R ss c (hs' ++ hs) p := by
  have hread : ∀ es : List (Entry σ), ((hs' ++ hs).map .happened ++ es : List (Entry σ)).foldl
      (Roster.read s) R = (hs.map .happened ++ es : List (Entry σ)).foldl (Roster.read s) R := by
    intro es
    rw [List.map_append, List.append_assoc, List.foldl_append, foldl_plain hp]
  exact ⟨fun k => by rw [hread]; exact h.tracks k, fun k => by rw [hread]; exact h.sources k⟩

/-- **Announcing devices is followed** if the innermost call has their source. -/
theorem announce_followed {source : Endpoint} (hset : b.settings = s)
    (hsrc : R.sources = some source :: ss) (h : Tracks R b) (t : Token) (text : String)
    (e : CycleEnd) : ∀ (serials : List String) (found : ℕ), ∃ hs,
      (announce t found source text e serials b).1.log = b.log ++ hs ∧
      Followed s R ss c hs ((announce t found source text e serials b).1,
        .notify (announce t found source text e serials b).2.1
          (announce t found source text e serials b).2.2)
  | [], found => by
    refine ⟨[.discovered t found], rfl, ?_⟩
    exact followed_of_notify rfl nofun nofun (by simp [Happening.IsPlain]) hsrc (h.of_eq rfl rfl)
  | serial :: serials, found => by
    unfold announce
    split
    · next d r hu =>
      refine ⟨[], by simp, followed_of_plain (by simp) fun k => ?_⟩
      have hread : R.read s ((Dispatch.Outcome.notify (.stateChanged serial source.address
          discoveredChange) (.announce t (found + 1) serials source text e) :
          Dispatch.Outcome Rest Reply).closing c k : Entry σ) =
          R.enter serial { source with secure := s.secureByDefault, serial := some serial } := by
        simp only [Dispatch.Outcome.closing, Roster.read, Roster.source, hsrc, List.head?_cons,
          Option.join_some, Option.getD_some]
      rw [hread]
      refine ⟨⟨h.stopped, ?_⟩, some source, hsrc, ?_⟩
      · rw [Registry.places_enter hu rfl, ← h.place, hset]
        rfl
      · rintro e' ⟨⟩
        rfl
    · exact announce_followed hset hsrc h t text e serials found

/-- **Handling an event of which somebody is told is followed.** -/
theorem handle_followed {ev : EngineEvent} {n : Notification} {a : Rest} (hset : b.settings = s)
    (hsrc : R.sources = src :: ss) (h : Tracks R b) (hh : b.handle ev e = (b', some (n, a))) :
    ∃ hs, b'.log = b.log ++ hs ∧
      Followed s (R.read s (.happened (.taken ev) : Entry σ)) ss c hs (b', .notify n a) := by
  obtain ⟨hR, src', hsrc'⟩ := read_taken (s := s) h hsrc ev
  cases ev with
  | discoveryReply t payload source =>
    rcases ha : b.correlator.acceptReply t with ⟨_ | _, k⟩
    · rw [handle_discoveryReply_dropped ha] at hh
      cases hh
    · rw [handle_discoveryReply ha] at hh
      simp only [Prod.mk.injEq, Option.some.injEq] at hh
      obtain ⟨rfl, rfl, rfl⟩ := hh
      have hsrc'' : (R.turnTo source).sources = some source :: ss := by
        simp only [Roster.turnTo, hsrc, List.tail_cons]
      exact announce_followed (b := { b with correlator := k }) hset hsrc''
        ((h.turnTo source).of_eq rfl rfl) t _ e _ 0
  | response t status format payload source =>
    rcases hk : b.correlator.complete t status format payload with ⟨_ | n', k⟩ <;>
      simp only [handle, hk, Option.map_some, Option.map_none, Prod.mk.injEq, Option.some.injEq,
        reduceCtorEq, and_false] at hh
    obtain ⟨rfl, rfl, rfl⟩ := hh
    refine ⟨[], by simp, followed_of_notify rfl ?_ (by rintro _ ⟨⟩) (by simp) hsrc' (hR.of_eq rfl rfl)⟩
    rintro i x y rfl
    unfold Correlator.complete at hk
    split at hk <;> cases hk
  | handshakeResult t status identity secret =>
    rcases hk : b.correlator.takeHandshake t with ⟨_ | i, k⟩ <;>
      simp only [handle, hk, Option.map_some, Option.map_none, Prod.mk.injEq, Option.some.injEq,
        reduceCtorEq, and_false] at hh
    obtain ⟨rfl, rfl, rfl⟩ := hh
    exact ⟨[], by simp, followed_of_notify rfl (by rintro _ _ _ ⟨⟩) (by rintro _ ⟨⟩) (by simp) hsrc'
      (hR.of_eq rfl rfl)⟩
  | gatewayNotification sender payload =>
    cases hh
    exact ⟨[], by simp, followed_of_notify rfl (by rintro _ _ _ ⟨⟩) (by rintro _ ⟨⟩) (by simp) hsrc'
      hR⟩
  | resourceChanged anchor uri types interfaces =>
    cases hh
    exact ⟨[], by simp, followed_of_notify rfl (by rintro _ _ _ ⟨⟩) (by rintro _ ⟨⟩) (by simp) hsrc'
      hR⟩

theorem endCycle_followed (hc : ¬ c.IsEdit) (hsrc : R.sources = src :: ss) (h : Tracks R b)
    (e : CycleEnd) : ∃ hs, (b.endCycle e).1.log = b.log ++ hs ∧
      Followed s R ss c hs (b.endCycle e) := by
  have hq := (endCycle_drained (s := s) e b).quit
  refine ⟨[], (endCycle_drained (s := s) e b).log, ?_⟩
  cases e with
  | reply r => exact followed_of_reply rfl hc (by simp) hsrc h
  | wait next => exact followed_of_reply rfl hc (by simp) hsrc (h.of_eq hq rfl)

/-- **Draining the queue is followed.** -/
theorem drainFrom_followed (hc : ¬ c.IsEdit) (e : CycleEnd) :
    ∀ (events : List EngineEvent) (b : Bridge σ) (R : Roster) (src : Option Endpoint),
      b.settings = s → R.sources = src :: ss → Tracks R b →
      ∃ hs, (drainFrom e events b).1.log = b.log ++ hs ∧ Followed s R ss c hs (drainFrom e events b)
  | [], b, R, src => fun _ hsrc h => endCycle_followed hc hsrc h e
  | ev :: rest, b, R, src => fun hset hsrc h => by
    rw [drainFrom_cons]
    rcases hh : (b.taking ev rest).handle ev e with ⟨b₁, _ | ⟨n, a⟩⟩
    · have hb₁ := eq_of_untold hh
      obtain ⟨hR, src', hsrc'⟩ := read_taken (s := s) h hsrc ev
      obtain ⟨hs, hl, hf⟩ := drainFrom_followed hc e rest b₁ _ src' (by rw [hb₁]; exact hset) hsrc'
        (hR.of_eq (by rw [hb₁]; rfl) (by rw [hb₁]; rfl))
      refine ⟨.taken ev :: hs, ?_, hf.cons_taken⟩
      rw [hl, hb₁]
      simp
    · obtain ⟨hs, hl, hf⟩ := handle_followed (b := b.taking ev rest) hset hsrc (h.of_eq rfl rfl) hh
      refine ⟨.taken ev :: hs, ?_, hf.cons_taken⟩
      rw [hl]
      simp

theorem pollCycle_followed (eng : Engine σ) (hc : ¬ c.IsEdit) (hset : b.settings = s)
    (hsrc : R.sources = src :: ss) (h : Tracks R b) (finish : Option ℕ → CycleEnd) :
    ∃ hs, (b.pollCycle eng finish).1.log = b.log ++ hs ∧
      Followed s R ss c hs (b.pollCycle eng finish) := by
  unfold pollCycle
  split_ifs
  · obtain ⟨hs₁, hl₁, hp⟩ := (callEngine_steady eng .poll b trivial).log
    obtain ⟨hs, hl, hf⟩ := drainFrom_followed hc (finish (b.callEngine eng .poll).1) _
      (b.callEngine eng .poll).2 R src (by rw [callEngine_settings, hset]) hsrc
      (h.of_eq (by rw [callEngine_loop]) (callEngine_registry eng .poll b))
    exact ⟨hs₁ ++ hs, by rw [← List.append_assoc, ← hl₁]; exact hl, hf.append_plain hp⟩
  · exact endCycle_followed hc hsrc h _

/-! ### Commands -/

theorem rejection_ne {x : BridgeError} {n : Notification} (h : c.rejection? s x = some n)
    (i a w : String) : n ≠ .stateChanged i a w := by
  rintro rfl
  unfold Command.rejection? at h
  split at h
  · split_ifs at h
    cases h
  · split_ifs at h
    cases h
  · cases h
  · cases h

theorem Started.roster (h : Started eng b b') :
    (Calm b b' ∧ b'.loop.quit = b.loop.quit ∧ b'.registry = b.registry) ∨
    (b.loop.quit = false ∧ b'.loop.quit = true ∧ b'.registry = b.registry.clear ∧
      ∃ i hs, b'.log = b.log ++ .engine (.init i) InitAnswer.readyButStopped :: hs ∧
        ∀ x ∈ hs, x.IsPlain) := by
  cases h with
  | refused => exact Or.inl ⟨.of_eq rfl rfl, rfl, rfl⟩
  | failed i e go idle answer =>
    refine Or.inl ⟨(callEngine_steady eng _ b ?_).toCalm, by rw [callEngine_loop],
      callEngine_registry eng _ b⟩
    rw [answer]
    trivial
  | ready i go idle answer =>
    have h₁ : Calm b (b.callEngine eng (.init i)).2 := by
      refine (callEngine_steady eng _ b ?_).toCalm
      rw [answer]
      trivial
    obtain ⟨h₂, -, hl₂⟩ := goLive_facts eng (b.callEngine eng (.init i)).2
    obtain ⟨h₃, -, hq₃⟩ := startLoop_facts eng ((b.callEngine eng (.init i)).2.goLive eng)
    have hq : (((b.callEngine eng (.init i)).2.goLive eng).startLoop eng).2.loop.quit =
        b.loop.quit := by rw [hq₃, hl₂, callEngine_loop]
    rcases (Started.ready i go idle answer).clears with ⟨-, hr⟩ | ⟨-, hq', -⟩
    · exact Or.inl ⟨h₁.trans (h₂.trans h₃), hq, hr⟩
    · rw [hq, go] at hq'
      cases hq'
  | stopped i go idle answer =>
    have hend := begun_ended eng i go
    obtain ⟨-, h₁, -, -⟩ := stopLoop_facts (b.callEngine eng (.init i)).2
    obtain ⟨h₂, -, -⟩ := goLive_facts eng (b.callEngine eng (.init i)).2.stopLoop.2
    obtain ⟨h₃, -, -⟩ :=
      startLoop_facts eng ((b.callEngine eng (.init i)).2.stopLoop.2.goLive eng)
    obtain ⟨hs, he, hp⟩ :=
      (h₁.trans (h₂.trans (h₃.trans (finishStop_facts eng _).1))).log
    refine Or.inr ⟨go, hend.quit, hend.registry, i,
      (b.pushedBy eng (.init i)).map .queued ++ hs, ?_, ?_⟩
    · rw [he, callEngine_log, answer, List.append_assoc, List.cons_append]
    · intro x hx
      rcases List.mem_append.mp hx with hx | hx
      · obtain ⟨e, -, rfl⟩ := List.mem_map.mp hx
        trivial
      · exact hp x hx

theorem stop_calm (eng : Engine σ) (b : Bridge σ) : Calm b (b.stop eng) := by
  cases hq : b.loop.quit with
  | true =>
    rw [stop_of_quit hq]
    exact .of_eq rfl rfl
  | false =>
    rw [stop_of_go hq]
    exact (stopLoop_facts b).2.1.trans (finishStop_facts eng _).1

theorem stop_tracks (eng : Engine σ) (h : Tracks R b) : Tracks R.halt (b.stop eng) := by
  refine h.halt (stop_quit eng b) (fun hq => ?_) fun hq => (stop_ended eng hq).registry
  rw [stop_of_quit hq]

/-- **Beginning or ending something is followed.** -/
theorem life_followed (installed : Category → Bool) (hc : c.IsLife) (hl : b.log = [])
    (h : Tracks R b) : Followed s (R.read s (.called c : Entry σ)) R.sources c
      (b.perform eng installed c).1.log (b.perform eng installed c) := by
  have halt_opened : R.halt.opened.sources = none :: R.sources := by
    rw [Roster.opened, Roster.halt_sources]
  cases c with
  | start identity =>
    have hstart := start_started eng identity (b := b)
    rcases hstart.roster with ⟨hcalm, hq, hr⟩ | ⟨hgo, hq, hr, i, hs, hlog, hp⟩
    · obtain ⟨hs, hlog, hp⟩ := hcalm.log
      rw [hl, List.nil_append] at hlog
      exact followed_of_reply rfl nofun (by rw [← hlog] at hp; exact hp) rfl (h.opened.of_eq hq hr)
    · rw [hl, List.nil_append] at hlog
      have hrest : Followed s R.opened.halt R.sources (.start identity) hs
          (b.perform eng installed (.start identity)) :=
        followed_of_reply rfl nofun hp Roster.halt_sources <|
          h.opened.halt hq (fun hq' => absurd (hgo.symm.trans hq') nofun) fun _ => hr
      rw [show (b.perform eng installed (.start identity)).1.log = _ from hlog]
      exact ⟨hrest.tracks, hrest.sources⟩
  | stop =>
    obtain ⟨hs, hlog, hp⟩ := (stop_calm eng b).log
    rw [hl, List.nil_append] at hlog
    exact followed_of_reply rfl nofun (by rw [← hlog] at hp; exact hp) halt_opened
      (stop_tracks eng h).opened
  | dispose =>
    obtain ⟨hs, hlog, hp⟩ := ((stop_calm eng b).trans (discardQueue_calm _)).log
    rw [hl, List.nil_append] at hlog
    exact followed_of_reply rfl nofun (by rw [← hlog] at hp; exact hp) halt_opened
      ((stop_tracks eng h).opened.of_eq rfl rfl)
  | _ => exact hc.elim

theorem read_called (hlife : ¬ c.IsLife) (hclear : c ≠ .clearDevices) :
    R.read s (.called c : Entry σ) = R.opened := by
  cases c with
  | stop => exact absurd trivial hlife
  | dispose => exact absurd trivial hlife
  | clearDevices => exact absurd rfl hclear
  | _ => rfl

theorem Attempt.calm {p : Piece σ} (h : Attempt eng b c p) : Calm b p.1 := by
  cases h with
  | early hr he => exact .of_eq rfl rfl
  | unsent hiss h => exact .of_eq rfl rfl
  | refused hiss h asks ha =>
    obtain ⟨hset, hlog⟩ := (callLive_steady asks.ne_init h).1.toCalm
    exact ⟨hset, hlog⟩
  | sent ho hiss h asks ha =>
    obtain ⟨hset, hlog⟩ := (callLive_steady asks.ne_init h).1.toCalm
    exact ⟨hset, hlog⟩
  | unheard h asks ha => exact (callLive_steady asks.ne_init h).1.toCalm
  | heard h asks ha => exact ((callLive_steady asks.ne_init h).1.trans (signal_steady _)).toCalm

theorem request_calm (eng : Engine σ) (installed : Category → Bool) (hc : c.IsRequest)
    (b : Bridge σ) : Calm b (b.perform eng installed c).1 := by
  rcases perform_attempt eng installed hc b with h | ⟨i, h⟩
  · exact h.calm
  · obtain ⟨hset, hlog⟩ := h.calm
    exact ⟨hset, hlog⟩

/-- **A request is followed:** it leaves the devices as they are. -/
theorem request_followed (installed : Category → Bool) (hc : c.IsRequest) (hl : b.log = [])
    (hn : Numbered b) (hsrc : R.sources = src :: ss) (h : Tracks R b) :
    Followed s R ss c (b.perform eng installed c).1.log (b.perform eng installed c) := by
  have hedit : ¬ c.IsEdit := by
    cases c with
    | register i a => exact fun _ => hc
    | setSecure i on => exact fun _ => hc
    | _ => exact id
  obtain ⟨hs, hlog, hp⟩ := (request_calm eng installed hc b).log
  rw [hl, List.nil_append] at hlog
  rw [← hlog] at hp
  have hmoves : Moves eng (fun _ _ => True) b (b.perform eng installed c).1 :=
    request_moves installed hc
  have hquit := hmoves.quit
  have hatomic : Atomic b c (b.perform eng installed c) := request_atomic hl hn installed hc
  rcases hatomic with
    ⟨x, hr, -, -, r, -, ho⟩ | ⟨hr, -, r, -, ho, -⟩
  · unfold failing at ho
    split at ho
    · next n hrej =>
      exact followed_of_notify ho (rejection_ne hrej) nofun hp hsrc (h.of_eq hquit hr)
    · exact followed_of_reply ho hedit hp hsrc (h.of_eq hquit hr)
  · exact followed_of_reply ho hedit hp hsrc (h.of_eq hquit hr)

/-- **An edit of a device is followed.** -/
theorem edit_followed (installed : Category → Bool) (hc : c.IsEdit) (hl : b.log = [])
    (hsrc : R.sources = src :: ss) (h : Tracks R b) :
    Followed s R ss c (b.perform eng installed c).1.log (b.perform eng installed c) := by
  have htail : R.sources.tail = ss := by rw [hsrc, List.tail_cons]
  cases c with
  | register i a =>
    simp only [perform, replying, register]
    split
    · next d r hu =>
      refine followed_of_plain (by simp [hl]) fun k => ⟨⟨h.stopped, ?_⟩, htail⟩
      rw [Registry.places_enter hu rfl, ← h.place]
      rfl
    · exact followed_of_plain (by simp [hl]) fun k => ⟨h.closed, htail⟩
  | setSecure i on =>
    have hplace : (b.registry.setSecure i on).2.places = (R.secure i on).place := by
      rw [Registry.places_setSecure, ← h.place]
      rfl
    simp only [perform, replying, setSecure]
    split
    · next d r hu =>
      rw [hu] at hplace
      exact followed_of_plain (by simp [hl]) fun k => ⟨⟨h.stopped, hplace.symm⟩, htail⟩
    · next r hu =>
      -- A device that is not known is left alone.
      have hnone : b.registry.places i = none := by
        have := congrArg Prod.fst hu
        simp only [Registry.setSecure, Option.map_eq_none_iff] at this
        rw [Registry.places, this]
        rfl
      refine followed_of_plain (by simp [hl]) fun k => ⟨⟨h.stopped, ?_⟩, htail⟩
      rw [hu] at hplace
      refine Eq.trans ?_ hplace.symm
      funext j
      simp only [Roster.secure, Dispatch.Outcome.closing, Roster.read, Roster.closed]
      split_ifs with hj
      · rw [hj, h.place, hnone]
        rfl
      · rfl
  | _ => exact hc.elim

theorem push_registry (e : EngineEvent) (b : Bridge σ) :
    (b.push e).2.registry = b.registry := by
  unfold push
  split_ifs <;> rfl

theorem setMaxPayload_calm (size : ℕ) : Calm b (b.setMaxPayload eng size).2 := by
  unfold setMaxPayload
  split
  · exact .of_eq rfl rfl
  dsimp only
  split
  · next b' h =>
    obtain ⟨hset, hlog⟩ := (callLive_steady (by simp) h).1.toCalm
    exact ⟨hset, hlog⟩
  · exact .of_eq rfl rfl

theorem setMaxPayload_registry (size : ℕ) :
    (b.setMaxPayload eng size).2.registry = b.registry := by
  unfold setMaxPayload
  split
  · rfl
  dsimp only
  split
  · next b' h => exact (callLive_registry h).trans rfl
  · rfl

theorem setName_tracks (h : Tracks R b) (identifier name : String) :
    Tracks R (b.setName identifier name).2 := by
  unfold setName
  split
  · next hknown =>
    split
    · next d r hu => exact ⟨h.stopped, h.place.trans (Registry.places_rename hknown hu).symm⟩
    · exact h
  · exact h

theorem setName_calm (identifier name : String) : Calm b (b.setName identifier name).2 := by
  unfold setName
  split
  · split <;> exact .of_eq rfl rfl
  · exact .of_eq rfl rfl

theorem calm_followed {p : Piece σ} {r : Reply} (ho : p.2 = .reply r) (hc : ¬ c.IsEdit)
    (hl : b.log = []) (hcalm : Calm b p.1) (hsrc : R.sources = src :: ss) (h : Tracks R p.1) :
    Followed s R ss c p.1.log p := by
  obtain ⟨hs, hlog, hp⟩ := hcalm.log
  rw [hl, List.nil_append] at hlog
  rw [← hlog] at hp
  exact followed_of_reply ho hc hp hsrc h

theorem cycle_followed (installed : Category → Bool) (hc : c.IsCycle) (hl : b.log = [])
    (hset : b.settings = s) (hsrc : R.sources = src :: ss) (h : Tracks R b) :
    Followed s R ss c (b.perform eng installed c).1.log (b.perform eng installed c) := by
  have hpoll : ∀ {c : Command σ} (finish : Option ℕ → CycleEnd), ¬ c.IsEdit →
      Followed s R ss c (b.pollCycle eng finish).1.log (b.pollCycle eng finish) := by
    intro c finish hedit
    obtain ⟨hs, hlog, hf⟩ := pollCycle_followed eng hedit hset hsrc h finish
    rw [hl, List.nil_append] at hlog
    rw [hlog]
    exact hf
  unfold Command.IsCycle at hc
  split at hc
  · simp only [perform, poll]
    split
    · exact calm_followed rfl id hl (.of_eq rfl rfl) hsrc h
    split
    · exact calm_followed rfl id hl (.of_eq rfl rfl) hsrc h
    · exact hpoll _ id
  · simp only [perform, workerCycle]
    split
    · obtain ⟨hs, hlog, hf⟩ :=
        endCycle_followed (s := s) (c := (.cycle : Command σ)) id hsrc h (.wait none)
      rw [hl, List.nil_append] at hlog
      rw [hlog]
      exact hf
    · exact hpoll _ id
  · exact hc.elim

theorem perform_followed (eng : Engine σ) (installed : Category → Bool) (c : Command σ)
    (hl : b.log = []) (hn : Numbered b) (hset : b.settings = s) (h : Tracks R b) :
    Followed s (R.read s (.called c : Entry σ)) R.sources c (b.perform eng installed c).1.log
      (b.perform eng installed c) := by
  by_cases hlife : c.IsLife
  · exact life_followed installed hlife hl h
  by_cases hclear : c = .clearDevices
  · subst hclear
    exact calm_followed rfl id hl (.of_eq rfl rfl) rfl ⟨h.stopped, rfl⟩
  rw [read_called hlife hclear]
  have hopen := h.opened
  cases c with
  | start identity => exact absurd trivial hlife
  | stop => exact absurd trivial hlife
  | dispose => exact absurd trivial hlife
  | clearDevices => exact absurd rfl hclear
  | poll => exact cycle_followed installed trivial hl hset rfl hopen
  | cycle => exact cycle_followed installed trivial hl hset rfl hopen
  | submit r => exact request_followed installed trivial hl hn rfl hopen
  | discover scope query => exact request_followed installed trivial hl hn rfl hopen
  | discoverDefault => exact request_followed installed trivial hl hn rfl hopen
  | handshake identifier password => exact request_followed installed trivial hl hn rfl hopen
  | groupMessage scope m => exact request_followed installed trivial hl hn rfl hopen
  | register identifier address => exact edit_followed installed trivial hl rfl hopen
  | setSecure identifier on => exact edit_followed installed trivial hl rfl hopen
  | setName identifier name =>
    exact calm_followed rfl id hl (setName_calm identifier name) rfl
      (setName_tracks hopen identifier name)
  | push e =>
    exact calm_followed rfl id hl (push_steady e b).toCalm rfl
      (hopen.of_eq (push_steady e b).quit (push_registry e b))
  | setMaxPayload size =>
    exact calm_followed rfl id hl (setMaxPayload_calm size) rfl
      (hopen.of_eq (setMaxPayload_moves (E := fun _ _ => True) size).quit
        (setMaxPayload_registry size))
  | _ => exact calm_followed rfl id hl (.of_eq rfl rfl) rfl (hopen.of_eq rfl rfl)

theorem proceed_followed {rest : Rest} (hc : ¬ c.IsEdit) (hl : b.log = []) (hset : b.settings = s)
    (hsrc : R.sources = src :: ss) (ha : ∀ e, rest.source? = some e → src = some e)
    (h : Tracks R b) : Followed s R ss c (b.proceed rest).1.log (b.proceed rest) := by
  obtain ⟨hs, hlog, hf⟩ : ∃ hs, (b.proceed rest).1.log = b.log ++ hs ∧
      Followed s R ss c hs (b.proceed rest) := by
    cases rest with
    | reply r => exact ⟨[], by simp [proceed], followed_of_reply rfl hc (by simp) hsrc h⟩
    | drain e => exact drainFrom_followed hc e _ b R src hset hsrc h
    | announce t found serials source text e =>
      exact announce_followed hset (by rw [hsrc, ha source rfl]) h t text e serials found
  rw [hl, List.nil_append] at hlog
  rw [hlog]
  exact hf

end Pieces

/-! ### Runs, also with events from outside -/

/-- **Every call in progress has its source,** and is no edit if it waits for a handler. -/
def Sourced : List (Dispatch.Frame (Command σ) Rest Reply) → List (Option Endpoint) → Prop
  | [], ss => ss = []
  | .run _ :: below, ss => Sourced below ss
  | .rest a _ :: .await c _ :: below, source :: ss =>
    ¬ c.IsEdit ∧ (∀ e, a.source? = some e → source = some e) ∧ Sourced below ss
  | _, _ => False

/-- **What a use keeps:** the trace tells how the bridge stands. -/
structure Rostered (s : Settings) (m : Machine σ) : Prop where
  tracks : Tracks (roster s m.trace) m.state
  sourced : Sourced m.stack (roster s m.trace).sources

section Runs
variable {s : Settings} {eng : Engine σ} {m m' : Machine σ} {c : Command σ}
  {next : Reply → Program σ} {below : List (Dispatch.Frame (Command σ) Rest Reply)}
  {ss l : List (Option Endpoint)}

theorem Sourced.exists_await {a : Rest} {d : Bool} (h : Sourced (.rest a d :: below) l) :
    ∃ c next below' source ss, below = .await c next :: below' ∧ l = source :: ss ∧
      ¬ Command.IsEdit c ∧ (∀ e, a.source? = some e → source = some e) ∧ Sourced below' ss := by
  rcases below with _ | ⟨p | ⟨a', d'⟩ | ⟨c, next⟩, below⟩
  · exact h.elim
  · exact h.elim
  · exact h.elim
  · rcases l with _ | ⟨source, ss⟩
    · exact h.elim
    · exact ⟨c, next, below, source, ss, rfl, rfl, h.1, h.2.1, h.2.2⟩

theorem not_isEdit_of_notify {installed : Category → Bool} {b : Bridge σ} {n : Notification}
    {a : Rest} (h : (b.perform eng installed c).2 = .notify n a) : ¬ c.IsEdit := by
  cases c with
  | register i x => cases h
  | setSecure i on => cases h
  | _ => exact id

theorem settle_sourced (m : Machine σ) {p : Dispatch.Piece (Bridge σ) Rest Reply Happening}
    (h : Sourced below ss) (hp : Suspends ss p.outcome l)
    (hc : ∀ n a, p.outcome = .notify n a → ¬ c.IsEdit) :
    Sourced (m.settle p (.await c next :: below)).stack l := by
  obtain ⟨b, es, r | ⟨n, a⟩⟩ := p
  · rw [Dispatch.Machine.settle_reply m c next below rfl]
    rw [show l = ss from hp]
    exact h
  · obtain ⟨source, rfl, ha⟩ := hp
    obtain ⟨d, hd | ⟨q, hd⟩⟩ := Dispatch.Machine.settle_notify m c next below
      (p := ⟨b, es, .notify n a⟩) rfl
    all_goals rw [hd]; exact ⟨hc n a rfl, ha, h⟩

theorem foldl_asides {es : List (Entry σ)} (h : ∀ x ∈ es, x.IsAside) {R : Roster} :
    es.foldl (Roster.read s) R = R := by
  induction es with
  | nil => rfl
  | cons x es ih =>
    have hx : R.read s x = R := by
      have := h x (by simp)
      unfold Dispatch.Entry.IsAside at this
      split at this <;> first | rfl | exact this.elim
    rw [List.foldl_cons, hx]
    exact ih fun y hy => h y (by simp [hy])

theorem Rostered.aside (hm : Rostered s m) (es : List (Entry σ)) (hs : m'.state = m.state)
    (ht : m'.trace = m.trace ++ es) (ha : ∀ x ∈ es, x.IsAside)
    (hst : ∀ ss, Sourced m.stack ss → Sourced m'.stack ss) : Rostered s m' := by
  have hr : roster s m'.trace = roster s m.trace := by rw [ht, roster_append, foldl_asides ha]
  exact ⟨by rw [hr, hs]; exact hm.tracks, by rw [hr]; exact hst _ hm.sourced⟩

/-- **A step keeps that the trace tells how the bridge stands.** -/
theorem Rostered.step (hm : Rostered s m) (hl : m.state.log = []) (hn : Numbered m.state)
    (hset : m.state.settings = s) : Rostered s (m.step (system eng)) := by
  have hsrc := hm.sourced
  match hst : m.stack with
  | [] =>
    rw [Dispatch.Machine.step_of_stack_eq_nil _ hst]
    exact hm
  | .run .done :: below =>
    have hstep : m.step (system eng) = { m with stack := below } := by
      unfold Dispatch.Machine.step
      rw [hst]
    rw [hstep]
    exact hm.aside [] rfl (by simp) (by simp) fun ss h => by rw [hst] at h; exact h
  | .run (.remark text next) :: below =>
    have hstep : m.step (system eng) = { m.record [.remarked text] with
        stack := .run next :: below } := by
      unfold Dispatch.Machine.step
      rw [hst]
    rw [hstep]
    exact hm.aside [.remarked text] rfl rfl (by simp [Dispatch.Entry.IsAside])
      fun ss h => by rw [hst] at h; exact h
  | .run (.install categories hd next) :: below =>
    have hstep : m.step (system eng) = { (m.install categories hd).2 with
        stack := .run (next (m.install categories hd).1) :: below } := by
      unfold Dispatch.Machine.step
      rw [hst]
    rw [hstep]
    exact hm.aside [_] (Dispatch.Machine.install_state m categories hd)
      (Dispatch.Machine.install_trace m categories hd) (by simp [Dispatch.Entry.IsAside])
      fun ss h => by rw [hst] at h; exact h
  | .run (.command c next) :: below =>
    rw [hst] at hsrc
    obtain ⟨k, htr⟩ := Dispatch.Machine.step_command_trace (system eng) hst
    have hf := perform_followed eng m.table.isInstalled c hl hn hset hm.tracks
    have hr : roster s (m.step (system eng)).trace = ((entries c
        (m.state.perform eng m.table.isInstalled c) k).foldl (Roster.read s)
          ((roster s m.trace).read s (.called c))) := by
      rw [htr, roster_append]
      rfl
    have hstep := Dispatch.Machine.step_command (system eng) hst
    refine ⟨?_, ?_⟩
    · rw [hr, hstep, Dispatch.Machine.settle_state]
      exact (hf.tracks k).of_eq rfl rfl
    · rw [hr, hstep]
      exact settle_sourced _ hsrc (hf.sources k) fun n a => not_isEdit_of_notify
  | .rest a d :: below =>
    rw [hst] at hsrc
    obtain ⟨c, next, below, source, ss, rfl, hsrcs, hc, ha, hbelow⟩ := hsrc.exists_await
    obtain ⟨k, htr⟩ := Dispatch.Machine.step_rest_trace (system eng) hst
    have hf := proceed_followed hc hl hset hsrcs ha hm.tracks
    have hr : roster s (m.step (system eng)).trace =
        (entries c (m.state.proceed a) k).foldl (Roster.read s) (roster s m.trace) := by
      rw [htr, roster_append]
      rfl
    have hstep := Dispatch.Machine.step_rest (system eng) hst
    refine ⟨?_, ?_⟩
    · rw [hr, hstep, Dispatch.Machine.settle_state]
      exact (hf.tracks k).of_eq rfl rfl
    · rw [hr, hstep]
      exact settle_sourced _ hbelow (hf.sources k) fun n a _ => hc
  | .await c next :: below =>
    rw [hst] at hsrc
    exact hsrc.elim

theorem Rostered.push (hm : Rostered s m) (hl : m.state.log = []) (e : EngineEvent) :
    Rostered s (queueFromOutside m e) := by
  obtain ⟨hs, hlog, hp⟩ := (push_steady e m.state).log
  rw [hl, List.nil_append] at hlog
  rw [← hlog] at hp
  have hr : roster s (queueFromOutside m e).trace = roster s m.trace := by
    rw [show (queueFromOutside m e).trace =
      m.trace ++ (m.state.push e).2.log.map .happened from rfl, roster_append, foldl_plain hp]
  exact ⟨by rw [hr]; exact hm.tracks.of_eq (push_steady e m.state).quit (push_registry e m.state),
    by rw [hr]; exact hm.sourced⟩

/-- **In any use of a bridge the trace tells how it stands.** -/
theorem Rostered.use (hm : Rostered s m) (hu : Use eng m m')
    (hs : Dispatch.Machine.Stacked m.stack) (hl : m.state.log = []) (hn : Numbered m.state)
    (hset : m.state.settings = s) : Rostered s m' := by
  induction hu with
  | refl => exact hm
  | tail hu hturn ih =>
    cases hturn with
    | step =>
      exact ih.step (use_log hu hs hl) ((numbered_kept eng).use hu hs hn)
        ((settings_kept eng s).use hu hs hset)
    | push e => exact ih.push (use_log hu hs hl) e

theorem load_rostered {settings : Settings} {engine : σ} {b : Bridge σ}
    (h : make settings engine = .ok b) (p : Program σ) :
    Rostered settings (Dispatch.Machine.load { state := b } p : Machine σ) := by
  rw [make_eq_ok h]
  exact ⟨⟨rfl, rfl⟩, rfl⟩

end Runs

end Bridge

end KnxIoT
