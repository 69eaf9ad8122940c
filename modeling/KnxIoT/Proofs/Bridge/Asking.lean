import KnxIoT.Proofs.Bridge.Roster

/-! # What is handed to the engine

The engine is asked to send something by requests only, each of which asks it at most once and does
nothing else before. `Hands` says how what it is asked depends on where the devices are;
`perform_asked` and `proceed_unasked` go through the pieces of the commands. `HandedOver` says it of
a whole trace: whatever the engine is asked, it is asked at the very beginning of a call, and the
trace up to that call tells what is handed over. -/

namespace KnxIoT

namespace Bridge

variable {σ : Type}

/-- **What a request hands to the engine** when `K` tells where the devices are: the endpoint of its
device, where a request to a device may set the protection itself. -/
def Hands (K : String → Endpoint → Prop) : Command σ → EngineCall → Prop
  | .submit r, .submit q => ∃ e, K r.identifier e ∧ e.serial = some r.identifier ∧
      q.endpoint = { e with secure := r.secure.getD e.secure }
  | .handshake identifier password, .handshake e password' hint _ =>
    K identifier e ∧ e.serial = some identifier ∧ password' = password ∧
      hint = Utf8.encode identifier
  | .groupMessage scope _, .submit q => q.endpoint = .allNodes scope
  | .discover .., .discover .. => True
  | .discoverDefault, .discover .. => True
  | _, _ => False

theorem Hands.imp {K K' : String → Endpoint → Prop} (h : ∀ i e, K i e → K' i e) {k : Command σ}
    {c : EngineCall} (hands : Hands K k c) : Hands K' k c := by
  unfold Hands at hands ⊢
  split at hands
  · obtain ⟨e, hK, he⟩ := hands
    exact ⟨e, h _ _ hK, he⟩
  · exact ⟨h _ _ hands.1, hands.2⟩
  · exact hands
  · trivial
  · trivial
  · exact hands.elim

/-- A roster has the device at the endpoint. -/
def Roster.Has (R : Roster) (i : String) (e : Endpoint) : Prop := R.place i = some e

/-- A bridge has the device at the endpoint. -/
def Has (b : Bridge σ) (i : String) (e : Endpoint) : Prop := b.registry.places i = some e

theorem Tracks.has {R : Roster} {b : Bridge σ} (h : Tracks R b) : R.Has = b.Has := by
  funext i e
  rw [Roster.Has, Has, h.place]

/-- **Whatever the engine is asked in a trace,** it is asked at the beginning of a call, which hands
over what the trace up to it tells. -/
def HandedOver (s : Settings) (tr : List (Entry σ)) : Prop :=
  ∀ pre (c : EngineCall) (a : c.Answer) post, tr = pre ++ .happened (.engine c a) :: post → c.Asks →
    ∃ pre' k, pre = pre' ++ [.called k] ∧ Hands (roster s pre').Has k c

/-- None of this asks the engine to send something. -/
def NoneAsked (hs : List Happening) : Prop :=
  ∀ (c : EngineCall) (a : c.Answer), .engine c a ∈ hs → ¬ c.Asks

/-- From `b` to `b'` the engine is not asked to send anything. -/
def Unasked (b b' : Bridge σ) : Prop := ∃ hs, b'.log = b.log ++ hs ∧ NoneAsked hs

/-- In these happenings the engine is asked nothing, or at once something of the kind `H`. -/
def AsksFirst (H : EngineCall → Prop) (hs : List Happening) : Prop :=
  NoneAsked hs ∨ ∃ (c : EngineCall) (a : c.Answer) (es : List EngineEvent),
    hs = .engine c a :: es.map .queued ∧ H c

/-! ### What asks nothing -/

section Unasked
variable {eng : Engine σ} {b b' b'' : Bridge σ} {e : CycleEnd}

theorem noneAsked_nil : NoneAsked [] := fun _ _ h => nomatch h

theorem NoneAsked.append {hs hs' : List Happening} (h : NoneAsked hs) (h' : NoneAsked hs') :
    NoneAsked (hs ++ hs') := fun c a hm => (List.mem_append.mp hm).elim (h c a) (h' c a)

theorem Unasked.of_eq (hl : b'.log = b.log) : Unasked b b' := ⟨[], by simp [hl], noneAsked_nil⟩

theorem Unasked.trans (h : Unasked b b') (h' : Unasked b' b'') : Unasked b b'' := by
  obtain ⟨hs, hl, hn⟩ := h
  obtain ⟨hs', hl', hn'⟩ := h'
  exact ⟨hs ++ hs', by rw [hl', hl, List.append_assoc], hn.append hn'⟩

theorem callEngine_unasked (eng : Engine σ) {c : EngineCall} (hc : ¬ c.Asks) (b : Bridge σ) :
    Unasked b (b.callEngine eng c).2 := by
  refine ⟨_, callEngine_log eng c b, fun c' a hm => ?_⟩
  rcases List.mem_cons.mp hm with h | h
  · cases h
    exact hc
  · obtain ⟨e, -, he⟩ := List.mem_map.mp h
    cases he

theorem push_unasked (e : EngineEvent) (b : Bridge σ) : Unasked b (b.push e).2 := by
  unfold push
  split_ifs
  · exact .of_eq rfl
  · exact ⟨[.queued e], rfl, fun c a hm => by simp at hm⟩

theorem release_unasked (eng : Engine σ) (b : Bridge σ) : Unasked b (b.release eng) := by
  unfold release
  dsimp only
  split_ifs
  · exact (callEngine_unasked eng id b).trans (.of_eq rfl)
  · exact .of_eq rfl

theorem goLive_unasked (eng : Engine σ) (b : Bridge σ) : Unasked b (b.goLive eng) :=
  (callEngine_unasked eng id b).trans (.of_eq rfl)

theorem startLoop_unasked (eng : Engine σ) (b : Bridge σ) : Unasked b (b.startLoop eng).2 := by
  rcases startLoop_cases eng b with ⟨-, loop, h, -⟩ | ⟨-, h⟩ <;> rw [h]
  · exact .of_eq rfl
  · exact release_unasked eng b

theorem discardQueue_unasked (b : Bridge σ) : Unasked b b.discardQueue := by
  refine ⟨_, rfl, fun c a hm => ?_⟩
  obtain ⟨e, -, he⟩ := List.mem_map.mp hm
  cases he

theorem finishStop_unasked (eng : Engine σ) (b : Bridge σ) : Unasked b (b.finishStop eng) :=
  (release_unasked eng b).trans ((discardQueue_unasked { b.release eng with
    correlator := (b.release eng).correlator.abandonAll }).trans (.of_eq rfl))

theorem stop_unasked (eng : Engine σ) (b : Bridge σ) : Unasked b (b.stop eng) := by
  cases hq : b.loop.quit with
  | true =>
    rw [stop_of_quit hq]
    exact .of_eq rfl
  | false =>
    rw [stop_of_go hq]
    exact finishStop_unasked eng b.stopLoop.2

theorem Started.unasked (h : Started eng b b') : Unasked b b' := by
  have begin_unasked := fun i => callEngine_unasked eng (c := .init i) id b
  cases h with
  | refused => exact .of_eq rfl
  | failed i e go idle answer => exact begin_unasked i
  | ready i go idle answer =>
    exact (begin_unasked i).trans ((goLive_unasked eng _).trans (startLoop_unasked eng _))
  | stopped i go idle answer =>
    exact (begin_unasked i).trans
      ((goLive_unasked eng (b.callEngine eng (.init i)).2.stopLoop.2).trans
        ((startLoop_unasked eng _).trans (finishStop_unasked eng _)))

theorem handle_unasked (e : CycleEnd) (ev : EngineEvent) (b : Bridge σ) :
    Unasked b (b.handle ev e).1 := by
  obtain ⟨registry, hs, hf, hd⟩ := handle_frame e ev b
  refine ⟨hs, by rw [hf], fun c a hm => ?_⟩
  obtain ⟨t, k, h⟩ := hd _ hm
  cases h

theorem taking_unasked (ev : EngineEvent) (rest : List EngineEvent) (b : Bridge σ) :
    Unasked b (b.taking ev rest) := ⟨[.taken ev], rfl, fun c a hm => by simp at hm⟩

theorem drainFrom_unasked (e : CycleEnd) : ∀ (events : List EngineEvent) (b : Bridge σ),
    Unasked b (drainFrom e events b).1
  | [], b => .of_eq (by cases e <;> rfl)
  | ev :: rest, b => by
    have h := (taking_unasked ev rest b).trans (handle_unasked e ev (b.taking ev rest))
    rw [drainFrom_cons]
    rcases hh : (b.taking ev rest).handle ev e with ⟨b₁, _ | ⟨n, a⟩⟩ <;> rw [hh] at h
    · exact h.trans (drainFrom_unasked e rest b₁)
    · exact h

theorem pollCycle_unasked (eng : Engine σ) (finish : Option ℕ → CycleEnd) (b : Bridge σ) :
    Unasked b (b.pollCycle eng finish).1 := by
  unfold pollCycle
  split_ifs
  · exact (callEngine_unasked eng id b).trans (drainFrom_unasked _ _ _)
  · exact drainFrom_unasked (finish none) [] b

theorem setMaxPayload_unasked (eng : Engine σ) (size : ℕ) (b : Bridge σ) :
    Unasked b (b.setMaxPayload eng size).2 := by
  unfold setMaxPayload
  split
  · exact .of_eq rfl
  dsimp only
  split
  · next b' h =>
    obtain ⟨-, he⟩ := callLive_eq_ok h
    obtain rfl : b' = _ := congrArg Prod.snd he
    exact callEngine_unasked eng (b := { b with maxPayload := size }) id
  · exact .of_eq rfl

/-- **Only requests ask the engine to send something.** -/
theorem perform_unasked (eng : Engine σ) (installed : Category → Bool) {c : Command σ}
    (hc : ¬ c.IsRequest) (b : Bridge σ) : Unasked b (b.perform eng installed c).1 := by
  cases c with
  | submit r => exact absurd trivial hc
  | discover scope query => exact absurd trivial hc
  | discoverDefault => exact absurd trivial hc
  | handshake identifier password => exact absurd trivial hc
  | groupMessage scope m => exact absurd trivial hc
  | start identity => exact (start_started eng identity).unasked
  | stop => exact stop_unasked eng b
  | dispose => exact (stop_unasked eng b).trans ((discardQueue_unasked _).trans (.of_eq rfl))
  | poll =>
    simp only [perform, poll]
    split
    · exact .of_eq rfl
    split
    · exact .of_eq rfl
    · exact pollCycle_unasked eng _ b
  | cycle =>
    simp only [perform, workerCycle]
    split
    · exact drainFrom_unasked (.wait none) [] b
    · exact pollCycle_unasked eng _ b
  | push e => exact push_unasked e b
  | setMaxPayload size => exact setMaxPayload_unasked eng size b
  | register identifier address =>
    simp only [perform, replying, register]
    split <;> exact .of_eq rfl
  | setName identifier name => 
    simp only [perform, replying, setName]
    split
    · split <;> exact .of_eq rfl
    · exact .of_eq rfl
  | setSecure identifier secure =>
    simp only [perform, replying, setSecure]
    split <;> exact .of_eq rfl
  | _ => exact .of_eq rfl

theorem proceed_unasked (rest : Rest) (b : Bridge σ) : Unasked b (b.proceed rest).1 := by
  cases rest with
  | reply r => exact .of_eq rfl
  | drain e => exact drainFrom_unasked e _ b
  | announce t found serials source text e =>
    obtain ⟨registry, hs, hf, hd⟩ := announce_frame t source text e serials found b
    refine ⟨hs, by rw [show (b.proceed (.announce t found serials source text e)).1 = _ from hf],
      fun c a hm => ?_⟩
    obtain ⟨k, h⟩ := hd _ hm
    cases h

end Unasked

/-! ### What requests ask -/

section Asked
variable {eng : Engine σ} {b b' : Bridge σ} {H : EngineCall → Prop}

theorem asksFirst_nil (hl : b.log = []) : AsksFirst H b.log :=
  Or.inl (by rw [hl]; exact noneAsked_nil)

theorem asksFirst_of_callLive (b' : Bridge σ) {c : EngineCall} {a : c.Answer} (hl : b.log = [])
    (h : b.callLive eng c = .ok (a, b')) (hc : H c) : AsksFirst H b'.log := by
  obtain ⟨-, he⟩ := callLive_eq_ok h
  obtain rfl : b' = _ := congrArg Prod.snd he
  rw [callEngine_log, hl, List.nil_append]
  exact Or.inr ⟨c, _, _, rfl, hc⟩

/-- **A request to a device** hands over the endpoint of the device. -/
theorem submit_asked (hl : b.log = []) (r : Request)
    (hw : ∀ d, b.registry.find? r.identifier = some d → d.endpoint.serial = some r.identifier) :
    AsksFirst (Hands b.Has (.submit r : Command σ)) (b.submit eng r).1.log := by
  unfold submit
  split
  · exact asksFirst_nil hl
  split
  · rw [refuse_fst]
    exact asksFirst_nil hl
  next d hd =>
  split
  · exact asksFirst_nil hl
  next t k hiss =>
  have hands : Hands b.Has (.submit r : Command σ) (.submit (engineRequest r d t)) :=
    ⟨d.endpoint, by rw [Has, Registry.places, hd]; rfl, hw d hd, rfl⟩
  dsimp only
  split
  · exact asksFirst_nil (b := ({ b with correlator := k } : Bridge σ).giveUp t) hl
  · next b' h => exact asksFirst_of_callLive b' (b := { b with correlator := k }) hl h hands
  · next b' h =>
    rw [refuse_fst]
    exact asksFirst_of_callLive b' (b := { b with correlator := k }) hl h hands

theorem discover_asked (hl : b.log = []) (scope : UInt8) (query : String)
    (hc : ∀ t, H (.discover query scope t)) : AsksFirst H (b.discover eng scope query).1.log := by
  unfold discover
  split
  · exact asksFirst_nil hl
  next t k hiss =>
  dsimp only
  split
  · exact asksFirst_nil (b := ({ b with correlator := k } : Bridge σ).giveUp t) hl
  · next b' h => exact asksFirst_of_callLive b' (b := { b with correlator := k }) hl h (hc t)
  · next b' h => exact asksFirst_of_callLive b' (b := { b with correlator := k }) hl h (hc t)

/-- **A handshake** hands over the endpoint of its device, which has a serial number already. -/
theorem handshake_asked (hl : b.log = []) (identifier password : String)
    (hw : ∀ d, b.registry.find? identifier = some d → d.endpoint.serial = some identifier) :
    AsksFirst (Hands b.Has (.handshake identifier password : Command σ))
      (b.handshake eng identifier password).1.log := by
  unfold handshake
  split
  · exact asksFirst_nil hl
  next d hd =>
  have hself : withSerial d = d := withSerial_eq_self (by rw [hw d hd]; rfl)
  have hands : ∀ t, Hands b.Has (.handshake identifier password : Command σ)
      (.handshake d.endpoint password (Utf8.encode identifier) t) :=
    fun t => ⟨by rw [Has, Registry.places, hd]; rfl, hw d hd, rfl, rfl⟩
  dsimp only
  rw [hself]
  split
  · exact asksFirst_nil hl
  next t k hiss =>
  split
  · exact asksFirst_nil hl
  · next b' h => exact asksFirst_of_callLive b' (b := { b with
      registry := b.registry.modify identifier withSerial, correlator := k }) hl h (hands t)
  · next b' h => exact asksFirst_of_callLive b' (b := { b with
      registry := b.registry.modify identifier withSerial, correlator := k }) hl h (hands t)

theorem groupMessage_asked (hl : b.log = []) (scope : UInt8) (m : GroupMessage) :
    AsksFirst (Hands b.Has (.groupMessage scope m : Command σ))
      (b.groupMessage eng scope m).1.log := by
  unfold groupMessage
  dsimp only
  split
  · exact asksFirst_nil hl
  split
  · exact asksFirst_nil hl
  · next b' h => exact asksFirst_of_callLive b' hl h (show _ = _ from rfl)
  · next b' h => exact asksFirst_of_callLive b' hl h (show _ = _ from rfl)

/-- **What a command asks the engine, it asks at once,** and it hands over the endpoint of its
device. -/
theorem perform_asked (eng : Engine σ) (installed : Category → Bool) (c : Command σ)
    (hl : b.log = []) (hw : ∀ i d, b.registry.find? i = some d → d.endpoint.serial = some i) :
    AsksFirst (Hands b.Has c) (b.perform eng installed c).1.log := by
  by_cases hc : c.IsRequest
  · cases c with
    | submit r => exact submit_asked hl r (hw _)
    | discover scope query => exact discover_asked hl scope query fun _ => trivial
    | discoverDefault => exact discover_asked hl _ _ fun _ => trivial
    | handshake identifier password => exact handshake_asked hl identifier password (hw _)
    | groupMessage scope m => exact groupMessage_asked hl scope m
    | _ => exact hc.elim
  · obtain ⟨hs, hlog, hn⟩ := perform_unasked eng installed hc b
    rw [hlog, hl, List.nil_append]
    exact Or.inl hn

end Asked

/-! ### Traces -/

section Traces
variable {s : Settings} {tr es : List (Entry σ)}

theorem handedOver_concat {x : Entry σ} (h : HandedOver s tr)
    (hx : ∀ (c : EngineCall) (a : c.Answer), x = .happened (.engine c a) → c.Asks →
      ∃ pre k, tr = pre ++ [.called k] ∧ Hands (roster s pre).Has k c) :
    HandedOver s (tr ++ [x]) := by
  intro pre c a post heq hc
  rcases List.eq_nil_or_concat post with rfl | ⟨post', y, rfl⟩
  · obtain ⟨rfl, hxa⟩ := List.append_inj' heq rfl
    exact hx c a (by simpa using hxa) hc
  · rw [List.concat_eq_append, ← List.cons_append, ← List.append_assoc] at heq
    obtain ⟨rfl, -⟩ := List.append_inj' heq rfl
    exact h pre c a post' rfl hc

theorem HandedOver.append (h : HandedOver s tr)
    (hes : ∀ (c : EngineCall) (a : c.Answer), .happened (.engine c a) ∈ es → ¬ c.Asks) :
    HandedOver s (tr ++ es) := by
  induction es generalizing tr with
  | nil => simpa using h
  | cons x es ih =>
    rw [← List.singleton_append, ← List.append_assoc]
    refine ih (handedOver_concat h ?_) fun c a hm => hes c a (by simp [hm])
    rintro c a rfl hc
    exact absurd hc (hes c a (by simp))

theorem HandedOver.asked (h : HandedOver s tr) {k : Command σ} {c : EngineCall} {a : c.Answer}
    (hands : Hands (roster s tr).Has k c) :
    HandedOver s (tr ++ [.called k] ++ [.happened (.engine c a)]) := by
  refine handedOver_concat (h.append fun c a hm => by simp at hm) ?_
  rintro c' a' hx -
  cases hx
  exact ⟨tr, k, rfl, hands⟩

end Traces

section Runs
variable {s : Settings} {eng : Engine σ} {m m' : Machine σ}

theorem not_happened_closing {c : Command σ} {o : Dispatch.Outcome Rest Reply}
    {h : Option HandlerName} {x : Happening} : (.happened x : Entry σ) ∉ [o.closing c h] := by
  rcases o with r | ⟨n, a⟩ <;> simp [Dispatch.Outcome.closing]

theorem HandedOver.rest {tr : List (Entry σ)} (h : HandedOver s tr) {hs : List Happening}
    (hn : NoneAsked hs) (c : Command σ) (o : Dispatch.Outcome Rest Reply) (k : Option HandlerName) :
    HandedOver s (tr ++ (hs.map .happened ++ [o.closing c k])) := by
  refine h.append fun c' a hm => ?_
  rcases List.mem_append.mp hm with hm | hm
  · obtain ⟨y, hy, he⟩ := List.mem_map.mp hm
    cases he
    exact hn c' a hy
  · exact absurd hm not_happened_closing

/-- **A step keeps that everything is handed over as the trace tells.** -/
theorem HandedOver.step (hm : HandedOver s m.trace) (hr : Rostered s m)
    (hst : Dispatch.Machine.Stacked m.stack) (hl : m.state.log = [])
    (hw : ∀ i d, m.state.registry.find? i = some d → d.endpoint.serial = some i) :
    HandedOver s (m.step (system eng)).trace := by
  cases Dispatch.Machine.step_advance (system eng) hst with
  | aside es state trace asides rests =>
    rw [trace]
    exact hm.append fun c a hx => (asides _ hx).elim
  | start c hn p next below stack piece state trace rests =>
    subst piece
    rw [trace, List.append_cons]
    have hasked := perform_asked eng m.table.isInstalled c hl hw
    rw [← hr.tracks.has] at hasked
    rcases hasked with hnone | ⟨c', a, es, hlog, hands⟩
    · exact (hm.append fun c a hx => by simp at hx).rest hnone c _ hn
    · have hevents : ((system eng).start m.table.isInstalled c m.state).events =
        .engine c' a :: es.map .queued := hlog
      rw [hevents, List.map_cons, List.cons_append, List.append_cons]
      refine (hm.asked hands).rest (fun c'' a'' hx => ?_) c _ hn
      obtain ⟨e, -, he⟩ := List.mem_map.mp hx
      cases he
  | proceed a d c hn p below stack piece state trace rests owner =>
    subst piece
    rw [trace]
    obtain ⟨hs, hlog, hnone⟩ := proceed_unasked a m.state
    rw [hl, List.nil_append] at hlog
    rw [← hlog] at hnone
    exact hm.rest hnone c _ hn

theorem HandedOver.push (hm : HandedOver s m.trace) (hl : m.state.log = []) (e : EngineEvent) :
    HandedOver s (queueFromOutside m e).trace := by
  obtain ⟨hs, hlog, hnone⟩ := push_unasked e m.state
  rw [hl, List.nil_append] at hlog
  rw [← hlog] at hnone
  refine hm.append fun c a hx => ?_
  obtain ⟨y, hy, he⟩ := List.mem_map.mp hx
  cases he
  exact hnone c a hy

end Runs

end Bridge

end KnxIoT
