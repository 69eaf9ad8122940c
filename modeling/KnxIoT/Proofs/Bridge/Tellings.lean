import KnxIoT.Proofs.Bridge.Moves

/-! # Why somebody is told

A piece of a command gives a notification for one of four reasons: it has handled an event, the
engine has refused what it was asked, the device of a request is not known, or a discovery reply is
announced further. `Telling` lists them with what has happened before. Each command has one lemma
that says which of them it can have (`Tells`), and `perform_tells` and `proceed_tells` put these
together. -/

namespace KnxIoT.Bridge

variable {σ : Type}

/-- Nothing but the progress of a discovery reply. -/
def IsProgress (hs : List Happening) : Prop := ∀ y ∈ hs, ∃ t k, y = .discovered t k

/-- **Why the piece `p`, begun in `b`, tells `x`.** The entries `opening` come before its own. -/
inductive Telling (b : Bridge σ) (x : Notification) (opening : List (Entry σ)) (p : Piece σ) : Prop
  /-- It has handled the event `ev`, the last one that it has taken. -/
  | handled {b₀ : Bridge σ} {ev : EngineEvent} {e : CycleEnd} {a : Rest} (evs : List EngineEvent)
      (hs ds : List Happening) (owner : ∀ c, .called c ∈ opening → c.IsCycle)
      (before : b₀.correlator = evs.foldl Correlator.settle b.correlator)
      (handle : b₀.handle ev e = (p.1, some (x, a))) (log : p.1.log = hs ++ .taken ev :: ds)
      (progress : IsProgress ds)
  /-- The engine has refused what it was asked under the token `t`, and the token is given back. -/
  | refused {c : Command σ} {q : Pending} {t : Token} {k : Correlator} {call : EngineCall}
      {a : call.Answer} {w : Submission} (es : List EngineEvent) (owner : opening = [.called c])
      (issue : b.correlator.issue q = .ok (t, k)) (correlator : p.1.correlator = k.discard t)
      (log : p.1.log = .engine call a :: es.map .queued) (token : call.token? = some t)
      (refusal : call.accepts a = false)
      (why : c.rejection? b.settings (.submissionRejected w) = some x)
  /-- The device of a request is not known. -/
  | unknown {c : Command σ} {i : String} (owner : opening = [.called c]) (log : p.1.log = [])
      (why : c.rejection? b.settings (.unknownDevice i) = some x)
  /-- A discovery reply is announced further. -/
  | announcing (owner : opening = []) (other : ¬ x.IsFinal) (progress : IsProgress p.1.log)

/-- If the piece tells somebody, it has one of these reasons. -/
def Tells (b : Bridge σ) (opening : List (Entry σ)) (p : Piece σ) : Prop :=
  ∀ x a, p.2 = .notify x a → Telling b x opening p

section Requests
variable {eng : Engine σ} {b b₀ b' : Bridge σ} {c : Command σ} {opening : List (Entry σ)}

theorem tells_reply (b₀ : Bridge σ) (r : Reply) : Tells b opening (b₀, .reply r) :=
  fun _ _ h => nomatch h

theorem rejection_of_failing {s : Settings} {e : BridgeError} {r : Reply} {x : Notification}
    {a : Rest} (h : failing s c e r = .notify x a) : c.rejection? s e = some x := by
  unfold failing at h
  split at h
  · next hx => cases h; exact hx
  · cases h

theorem refused_tells {q : Pending} {t : Token} {k : Correlator} {call : EngineCall}
    {a : call.Answer} {w : Submission} {r : Reply} (hiss : b.correlator.issue q = .ok (t, k))
    (h : b₀.callLive eng call = .ok (a, b')) (hk : b₀.correlator = k) (hl : b₀.log = [])
    (ht : call.token? = some t) (ha : call.accepts a = false) :
    Tells b [.called c] (b'.giveUp t, failing b.settings c (.submissionRejected w) r) := by
  intro x rest hx
  obtain ⟨-, he⟩ := callLive_eq_ok h
  have hanswer : a = (b₀.callEngine eng call).1 := congrArg Prod.fst he
  have hb' : b' = (b₀.callEngine eng call).2 := congrArg Prod.snd he
  have hlog : b'.log = .engine call a :: (b₀.pushedBy eng call).map .queued := by
    rw [hb', hanswer, callEngine_log, hl, List.nil_append]
  refine .refused _ rfl hiss ?_ hlog ht ha (rejection_of_failing hx)
  rw [← hk]
  exact congrArg (Correlator.discard · t) (callLive_correlator h)

theorem submit_tells (hl : b.log = []) (r : Request) :
    Tells b [.called (.submit r)] (b.submit eng r) := by
  unfold submit
  split
  · exact tells_reply _ _
  split
  · rw [refuse_eq rfl rfl]
    exact fun x a h => .unknown rfl hl (rejection_of_failing h)
  split
  · exact tells_reply _ _
  next d hd t k hiss =>
  dsimp only
  split
  · exact tells_reply _ _
  · exact tells_reply _ _
  · next b' h =>
    have hset : (b'.giveUp t).settings = b.settings := (callLive_steady (by simp) h).1.settings
    rw [refuse_eq hset rfl]
    exact refused_tells hiss h rfl hl rfl rfl

theorem discover_tells (scope : UInt8) (query : String) :
    Tells b opening (b.discover eng scope query) := by
  unfold discover
  split
  · exact tells_reply _ _
  dsimp only
  split <;> exact tells_reply _ _

theorem handshake_tells (hl : b.log = []) (identifier password : String) :
    Tells b [.called (.handshake identifier password)] (b.handshake eng identifier password) := by
  unfold handshake
  split
  · exact tells_reply _ _
  dsimp only
  split
  · exact tells_reply _ _
  next t k hiss =>
  split
  · exact tells_reply _ _
  · exact tells_reply _ _
  · next b' h =>
    have hrefused : Tells b [.called (.handshake identifier password)] (b'.giveUp t,
        failing b.settings (.handshake identifier password : Command σ)
          (.submissionRejected .handshake) (.token (.error (.submissionRejected .handshake)))) :=
      refused_tells hiss h rfl hl rfl rfl
    exact hrefused

theorem groupMessage_tells (scope : UInt8) (m : GroupMessage) :
    Tells b opening (b.groupMessage eng scope m) := by
  unfold groupMessage
  dsimp only
  split
  · exact tells_reply _ _
  split <;> exact tells_reply _ _

end Requests

/-! ### Events -/

section Events
variable {eng : Engine σ} {b b' : Bridge σ} {e : CycleEnd} {opening : List (Entry σ)}

/-- **Draining the queue tells somebody of the last event it takes.** -/
theorem drainFrom_tells (howner : ∀ c, .called c ∈ opening → c.IsCycle) :
    ∀ (events : List EngineEvent) (evs : List EngineEvent) (b₀ : Bridge σ),
      b₀.correlator = evs.foldl Correlator.settle b.correlator →
        Tells b opening (drainFrom e events b₀)
  | [], _, b₀, _ => by
    intro x a h
    rw [drainFrom] at h
    cases e <;> cases h
  | ev :: rest, evs, b₀, hk => by
    rw [drainFrom_cons]
    obtain ⟨registry, ds, hf, hds⟩ := handle_frame e ev (b₀.taking ev rest)
    rcases hh : (b₀.taking ev rest).handle ev e with ⟨b₁, _ | ⟨n, r⟩⟩
    · refine drainFrom_tells howner rest (evs ++ [ev]) b₁ ?_
      rw [eq_of_untold hh, List.foldl_append, ← hk]
      rfl
    · rintro x a ⟨⟩
      rw [hh] at hf
      refine .handled evs b₀.log ds howner (by rw [taking_correlator, hk]) hh ?_ hds
      rw [hf, taking_log, List.append_assoc]
      rfl

theorem pollCycle_tells {c : Command σ} (hc : c.IsCycle) (finish : Option ℕ → CycleEnd) :
    Tells b [.called c] (b.pollCycle eng finish) := by
  have howner : ∀ d, (.called d : Entry σ) ∈ [.called c] → d.IsCycle := by
    intro d hd
    cases List.mem_singleton.mp hd
    exact hc
  unfold pollCycle
  split_ifs
  · exact drainFrom_tells howner _ [] _ (callEngine_correlator eng .poll b)
  · exact drainFrom_tells howner [] [] b rfl

theorem announce_tells (t : Token) (found : ℕ) (serials : List String) (source : Endpoint)
    (text : String) (hl : b.log = []) :
    Tells b [] (b.proceed (.announce t found serials source text e)) := by
  intro x a h
  obtain ⟨registry, ds, hf, hds⟩ := announce_frame t source text e serials found b
  have hx : (announce t found source text e serials b).2.1 = x :=
    (Dispatch.Outcome.notify.inj h).1
  refine .announcing rfl (hx ▸ announce_not_final t source text e serials found b) ?_
  rw [show (b.proceed (.announce t found serials source text e)).1 = _ from hf]
  intro y hy
  dsimp only at hy
  rw [hl, List.nil_append] at hy
  exact ⟨t, hds y hy⟩

end Events

/-! ### All commands -/

section Commands
variable {b : Bridge σ}

/-- **Why a command tells somebody.** -/
theorem perform_tells (eng : Engine σ) (installed : Category → Bool) (c : Command σ)
    (hl : b.log = []) : Tells b [.called c] (b.perform eng installed c) := by
  cases c with
  | poll =>
    simp only [perform, poll]
    split
    · exact tells_reply _ _
    split
    · exact tells_reply _ _
    · exact pollCycle_tells (c := .poll) trivial _
  | cycle =>
    simp only [perform, workerCycle]
    split
    · rintro x a ⟨⟩
    · exact pollCycle_tells (c := .cycle) trivial _
  | submit r => exact submit_tells hl r
  | discover scope query => exact discover_tells scope query
  | discoverDefault => exact discover_tells _ _
  | handshake identifier password => exact handshake_tells hl identifier password
  | groupMessage scope m => exact groupMessage_tells scope m
  | _ => exact tells_reply _ _

/-- **Why the rest of a command tells somebody.** -/
theorem proceed_tells (rest : Rest) (hl : b.log = []) : Tells b [] (b.proceed rest) := by
  cases rest with
  | reply r => exact tells_reply _ _
  | drain e => exact drainFrom_tells (fun _ h => absurd h List.not_mem_nil) _ [] b rfl
  | announce t found serials source text e => exact announce_tells t found serials source text hl

end Commands

end KnxIoT.Bridge
