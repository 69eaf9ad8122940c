import KnxIoT.Bench.ScriptedEngine
import KnxIoT.Proofs.Bridge.Life

/-! # The queue of events

`Passes eng q es q'` says that the entries `es` take the queue from `q` to `q'`: what is queued
comes in at the end, what is taken or thrown away leaves at the front, and an engine call is
followed at once by all that the engine queued during it. Every move and every beginning or ending
is of this kind (`Move.flows`, `perform_flows`), hence every use of a bridge.

* `Passes.fifo`: at any time the events that have left the queue are the first that came in.
* `Passes.block`: an engine call and what the engine queued during it are not interrupted.
* `drainFrom_reply`: a poll cycle replies only when the queue is empty. -/

namespace KnxIoT.Bridge

variable {σ : Type}

/-! ### Entries and the queue -/

/-- The events that came into the queue, in order. -/
def queuedIn (tr : List (Entry σ)) : List EngineEvent :=
  tr.filterMap fun
    | .happened (.queued e) => some e
    | _ => none

/-- The events that left the queue, to be handled or to be thrown away, in order. -/
def goneIn (tr : List (Entry σ)) : List EngineEvent :=
  tr.filterMap fun
    | .happened (.taken e) => some e
    | .happened (.discarded e) => some e
    | _ => none

/-- **The entries of an engine call:** the call itself and what the engine queues during it. -/
def callBlock (eng : Engine σ) (c : EngineCall) (s : σ) : List (Entry σ) :=
  .happened (.engine c (eng c s).answer) :: (eng c s).pushed.map fun e => .happened (.queued e)

/-- An entry that has nothing to do with the engine or the queue. -/
def IsStill : Entry σ → Prop
  | .happened (.engine ..) => False
  | .happened (.queued _) => False
  | .happened (.taken _) => False
  | .happened (.discarded _) => False
  | _ => True

/-- **The entries `es` take the queue from `q` to `q'`.** -/
inductive Passes (eng : Engine σ) :
    List EngineEvent → List (Entry σ) → List EngineEvent → Prop
  | nil (q : List EngineEvent) : Passes eng q [] q
  | call {q q' : List EngineEvent} {es : List (Entry σ)} (c : EngineCall) (s : σ)
      (h : Passes eng (q ++ (eng c s).pushed) es q') : Passes eng q (callBlock eng c s ++ es) q'
  | push {q q' : List EngineEvent} {es : List (Entry σ)} (e : EngineEvent)
      (h : Passes eng (q ++ [e]) es q') : Passes eng q (.happened (.queued e) :: es) q'
  | take {q q' : List EngineEvent} {es : List (Entry σ)} (e : EngineEvent)
      (h : Passes eng q es q') : Passes eng (e :: q) (.happened (.taken e) :: es) q'
  | discard {q q' : List EngineEvent} {es : List (Entry σ)} (e : EngineEvent)
      (h : Passes eng q es q') : Passes eng (e :: q) (.happened (.discarded e) :: es) q'
  | still {q q' : List EngineEvent} {es : List (Entry σ)} {x : Entry σ} (hx : IsStill x)
      (h : Passes eng q es q') : Passes eng q (x :: es) q'

section Passes
variable {eng : Engine σ} {q q' q'' : List EngineEvent} {es fs : List (Entry σ)}

theorem Passes.append (h : Passes eng q es q') (h' : Passes eng q' fs q'') :
    Passes eng q (es ++ fs) q'' := by
  induction h with
  | nil q => exact h'
  | call c s _ ih => rw [List.append_assoc]; exact .call c s (ih h')
  | push e _ ih => exact .push e (ih h')
  | take e _ ih => exact .take e (ih h')
  | discard e _ ih => exact .discard e (ih h')
  | still hx _ ih => exact .still hx (ih h')

theorem passes_still (q : List EngineEvent) (h : ∀ x ∈ es, IsStill x) : Passes eng q es q := by
  induction es with
  | nil => exact .nil q
  | cons x es ih => exact .still (h x (by simp)) (ih fun y hy => h y (by simp [hy]))

theorem passes_discarded (q : List EngineEvent) :
    Passes eng q ((q.map .discarded).map .happened) [] := by
  induction q with
  | nil => exact .nil []
  | cons e q ih => exact .discard e ih

theorem queuedIn_append (tr tr' : List (Entry σ)) :
    queuedIn (tr ++ tr') = queuedIn tr ++ queuedIn tr' := List.filterMap_append

theorem goneIn_append (tr tr' : List (Entry σ)) :
    goneIn (tr ++ tr') = goneIn tr ++ goneIn tr' := List.filterMap_append

@[simp] theorem queuedIn_callBlock (c : EngineCall) (s : σ) :
    queuedIn (callBlock eng c s) = (eng c s).pushed := by
  unfold queuedIn callBlock
  rw [List.filterMap_cons_none rfl, List.filterMap_map]
  exact List.filterMap_some

theorem goneIn_callBlock (c : EngineCall) (s : σ) (i : ℕ) :
    goneIn ((callBlock eng c s).take i) = [] := by
  refine List.filterMap_eq_nil_iff.mpr fun x hx => ?_
  rcases List.mem_cons.mp (List.mem_of_mem_take hx) with rfl | hx
  · rfl
  · obtain ⟨e, -, rfl⟩ := List.mem_map.mp hx
    rfl

theorem queuedIn_cons_still {x : Entry σ} (hx : IsStill x) (es : List (Entry σ)) :
    queuedIn (x :: es) = queuedIn es := by
  refine List.filterMap_cons_none ?_
  split
  · exact hx.elim
  · rfl

theorem goneIn_cons_still {x : Entry σ} (hx : IsStill x) (es : List (Entry σ)) :
    goneIn (x :: es) = goneIn es := by
  refine List.filterMap_cons_none ?_
  split
  · exact hx.elim
  · exact hx.elim
  · rfl

/-- **Nothing is lost:** what was in the queue or came in has left it or still waits. -/
theorem Passes.balance (h : Passes eng q es q') : q ++ queuedIn es = goneIn es ++ q' := by
  induction h with
  | nil q => simp [queuedIn, goneIn]
  | call c s _ ih =>
    have hgone : goneIn (callBlock eng c s) = [] :=
      (congrArg goneIn (List.take_length).symm).trans (goneIn_callBlock c s _)
    rw [queuedIn_append, goneIn_append, queuedIn_callBlock, hgone, ← List.append_assoc, ih]
    rfl
  | push e _ ih => rw [List.append_assoc] at ih; exact ih
  | take e _ ih => exact congrArg (e :: ·) ih
  | discard e _ ih => exact congrArg (e :: ·) ih
  | still hx _ ih => rw [queuedIn_cons_still hx, goneIn_cons_still hx, ih]

/-- **First in, first out:** at any time the events that have left are the first of all. -/
theorem Passes.fifo (h : Passes eng q es q') (i : ℕ) :
    goneIn (es.take i) <+: q ++ queuedIn (es.take i) := by
  induction h generalizing i with
  | nil q => simp [goneIn]
  | @call q _ es c s _ ih =>
    rw [List.take_append, goneIn_append, goneIn_callBlock, List.nil_append, queuedIn_append]
    by_cases hi : i ≤ (callBlock eng c s).length
    · rw [Nat.sub_eq_zero_of_le hi]
      exact List.nil_prefix
    · have hall : (callBlock eng c s).take i = callBlock eng c s :=
        List.take_of_length_le (by omega)
      rw [hall, queuedIn_callBlock, ← List.append_assoc]
      exact ih _
  | push e _ ih =>
    cases i with
    | zero => exact List.nil_prefix
    | succ i =>
      have := ih i
      rw [List.append_assoc] at this
      exact this
  | take e _ ih =>
    cases i with
    | zero => exact List.nil_prefix
    | succ i => exact List.cons_prefix_cons.mpr ⟨rfl, ih i⟩
  | discard e _ ih =>
    cases i with
    | zero => exact List.nil_prefix
    | succ i => exact List.cons_prefix_cons.mpr ⟨rfl, ih i⟩
  | still hx _ ih =>
    cases i with
    | zero => exact List.nil_prefix
    | succ i =>
      rw [List.take_succ_cons, queuedIn_cons_still hx, goneIn_cons_still hx]
      exact ih i

/-- **An engine call is not interrupted:** it is followed at once by all that the engine queued
during it. -/
theorem Passes.block (h : Passes eng q es q') {i : ℕ} {c : EngineCall} {a : c.Answer}
    (hi : es[i]? = some (.happened (.engine c a))) :
    ∃ s, a = (eng c s).answer ∧ callBlock eng c s <+: es.drop i := by
  induction h generalizing i with
  | nil q => cases hi
  | @call q _ es c' s _ ih =>
    rcases Nat.lt_or_ge i (callBlock eng c' s).length with hlt | hge
    · rw [List.getElem?_append_left hlt] at hi
      cases i with
      | zero =>
        cases hi
        exact ⟨s, rfl, List.prefix_append _ _⟩
      | succ i =>
        simp [callBlock] at hi
    · rw [List.getElem?_append_right hge] at hi
      rw [List.drop_append, List.drop_of_length_le hge, List.nil_append]
      exact ih hi
  | still hx _ ih =>
    cases i with
    | zero => cases hi; exact hx.elim
    | succ i => exact ih hi
  | _ =>
    rename_i ih
    cases i with
    | zero => cases hi
    | succ i => exact ih hi

end Passes

/-! ### Pieces of a command -/

/-- **What happens from `b` to `b'` accounts for the queue.** -/
def Flows (eng : Engine σ) (b b' : Bridge σ) : Prop :=
  ∃ hs, b'.log = b.log ++ hs ∧ Passes eng b.queue.events (hs.map .happened) b'.queue.events

section Flows
variable {eng : Engine σ} {E : String → DeviceUpdate → Prop} {b b' b'' : Bridge σ}

theorem Flows.of_eq (hl : b'.log = b.log) (hq : b'.queue.events = b.queue.events) :
    Flows eng b b' :=
  ⟨[], by rw [hl, List.append_nil], by rw [hq]; exact .nil _⟩

theorem Flows.trans (h : Flows eng b b') (h' : Flows eng b' b'') : Flows eng b b'' := by
  obtain ⟨hs, hl, hp⟩ := h
  obtain ⟨hs', hl', hp'⟩ := h'
  refine ⟨hs ++ hs', by rw [hl', hl, List.append_assoc], ?_⟩
  rw [List.map_append]
  exact hp.append hp'

theorem callEngine_flows (hc : b.queue.closed = false) (c : EngineCall) :
    Flows eng b (b.callEngine eng c).2 := by
  have hp : b.pushedBy eng c = (eng c b.engine).pushed := by simp [pushedBy, accepted, hc]
  rw [callEngine_eq, hp]
  refine ⟨_, rfl, ?_⟩
  have hcall : Passes eng b.queue.events (callBlock eng c b.engine ++ [])
      (b.queue.events ++ (eng c b.engine).pushed) := .call c b.engine (.nil _)
  rw [List.append_nil] at hcall
  simpa [callBlock, Function.comp_def] using hcall

theorem push_flows (e : EngineEvent) (b : Bridge σ) : Flows eng b (b.push e).2 := by
  unfold push
  split_ifs
  · exact .of_eq rfl rfl
  · exact ⟨[.queued e], rfl, .push e (.nil _)⟩

theorem not_closed_of_live (hb : Orderly b) (h : b.phase = .live) : b.queue.closed = false := by
  cases hc : b.queue.closed with
  | false => rfl
  | true =>
    rw [hb.released (hb.closed hc)] at h
    cases h

theorem not_closed_of_go (hb : Orderly b) (h : b.loop.quit = false) : b.queue.closed = false := by
  cases hc : b.queue.closed with
  | false => rfl
  | true =>
    rw [hb.closed hc] at h
    cases h

/-- **Every move accounts for the queue.** -/
theorem Move.flows (h : Move eng E b b') (hb : Orderly b) : Flows eng b b' := by
  cases h with
  | call c live hc => exact callEngine_flows (not_closed_of_live hb live) c
  | push e => exact push_flows e b
  | take h =>
    refine ⟨_, rfl, ?_⟩
    rw [h]
    exact .take _ (.nil _)
  | tell t n => exact ⟨_, rfl, .still trivial (.nil _)⟩
  | _ => exact .of_eq rfl rfl

theorem Moves.flows (h : Moves eng E b b') (hb : Orderly b) : Flows eng b b' ∧ Orderly b' := by
  induction h with
  | refl => exact ⟨.of_eq rfl rfl, hb⟩
  | tail _ h ih => exact ⟨ih.1.trans (h.flows ih.2), h.orderly ih.2⟩

theorem release_flows (hc : b.queue.closed = false) : Flows eng b (b.release eng) := by
  unfold release
  dsimp only
  split_ifs
  · exact (callEngine_flows hc .shutdown).trans (.of_eq rfl rfl)
  · exact .of_eq rfl rfl

theorem goLive_flows (hc : b.queue.closed = false) : Flows eng b (b.goLive eng) :=
  (callEngine_flows hc _).trans (.of_eq rfl rfl)

theorem startLoop_flows (hc : b.queue.closed = false) : Flows eng b (b.startLoop eng).2 := by
  rcases startLoop_cases eng b with ⟨-, loop, h, -⟩ | ⟨-, h⟩ <;> rw [h]
  · exact .of_eq rfl rfl
  · exact release_flows hc

theorem discardQueue_flows (b : Bridge σ) : Flows eng b b.discardQueue :=
  ⟨_, rfl, passes_discarded _⟩

theorem stopLoop_flows (b : Bridge σ) : Flows eng b b.stopLoop.2 := .of_eq rfl rfl

theorem finishStop_flows (hc : b.queue.closed = false) : Flows eng b (b.finishStop eng) := by
  have habandon : Flows eng (b.release eng)
      { b.release eng with correlator := (b.release eng).correlator.abandonAll } := .of_eq rfl rfl
  exact (release_flows hc).trans
    (habandon.trans ((discardQueue_flows _).trans (.of_eq rfl rfl)))

theorem stop_flows (hb : Orderly b) : Flows eng b (b.stop eng) := by
  cases hq : b.loop.quit with
  | true => rw [stop_of_quit hq]; exact .of_eq rfl rfl
  | false =>
    rw [stop_of_go hq]
    have hc : b.stopLoop.2.queue.closed = false := by
      rw [← not_closed_of_go hb hq]
      rfl
    exact (stopLoop_flows b).trans (finishStop_flows hc)

theorem Started.flows (h : Started eng b b') (hb : Orderly b) : Flows eng b b' := by
  cases h with
  | refused => exact .of_eq rfl rfl
  | failed i e go idle answer => exact callEngine_flows (not_closed_of_go hb go) _
  | ready i go idle answer =>
    have hc := not_closed_of_go hb go
    have h₁ := callEngine_aloof eng (.init i) b
    have h₂ := h₁.trans (goLive_aloof eng _)
    exact (callEngine_flows hc _).trans ((goLive_flows (h₁.closed.trans hc)).trans
      (startLoop_flows (h₂.closed.trans hc)))
  | stopped i go idle answer =>
    have hc := not_closed_of_go hb go
    have hc₁ : (b.callEngine eng (.init i)).2.stopLoop.2.queue.closed = false :=
      (callEngine_aloof eng (.init i) b).closed.trans hc
    have hc₂ := (goLive_aloof eng (b.callEngine eng (.init i)).2.stopLoop.2).closed.trans hc₁
    have hc₃ := (startLoop_closed eng _).trans hc₂
    refine (callEngine_flows hc (.init i)).trans ?_
    refine (stopLoop_flows _).trans ?_
    exact (goLive_flows hc₁).trans ((startLoop_flows hc₂).trans (finishStop_flows hc₃))

theorem life_flows (installed : Category → Bool) {c : Command σ} (hc : c.IsLife)
    (hb : Orderly b) : Flows eng b (b.perform eng installed c).1 := by
  cases c with
  | start identity => exact (start_started eng identity).flows hb
  | stop => exact stop_flows hb
  | dispose => exact (stop_flows hb).trans ((discardQueue_flows _).trans (.of_eq rfl rfl))
  | _ => exact hc.elim

/-- **Every command accounts for the queue.** -/
theorem perform_flows (installed : Category → Bool) (c : Command σ) (hb : Orderly b) :
    Flows eng b (b.perform eng installed c).1 := by
  by_cases hc : c.IsLife
  · exact life_flows installed hc hb
  · have h := perform_moves eng (E := fun _ _ => True) installed hc
      (fun i a _ => free_any.byHand i a) (free_any.admits b)
    exact (h.moves.flows hb).1

theorem proceed_flows (eng : Engine σ) (rest : Rest) (hb : Orderly b) :
    Flows eng b (b.proceed rest).1 := by
  have h := proceed_moves eng (free_any.announces rest) (free_any.admits b)
  exact (h.moves.flows hb).1

end Flows

/-! ### When a poll replies -/

section Reply
variable {eng : Engine σ} {b : Bridge σ} {r : Reply}

/-- What a poll cycle leaves after a notification is more than to reply. -/
def Goes (a : Rest) : Prop := ∀ r, a ≠ .reply r

theorem goes_drain (e : CycleEnd) : Goes (.drain e) := by
  intro r h
  cases h

theorem announce_goes (t : Token) (source : Endpoint) (text : String) (e : CycleEnd) :
    ∀ (serials : List String) (found : ℕ) (b : Bridge σ),
      Goes (announce t found source text e serials b).2.2
  | [], _, _ => goes_drain e
  | s :: serials, found, b => by
    unfold announce
    split
    · exact nofun
    · exact announce_goes t source text e serials found b

theorem handle_goes {ev : EngineEvent} {e : CycleEnd} {n : Notification} {a : Rest}
    (h : (b.handle ev e).2 = some (n, a)) : Goes a := by
  rcases handle_left h with rfl | ⟨t, source, text, c, -, rfl⟩
  · exact goes_drain e
  · exact announce_goes _ _ _ _ _ _ _

theorem endCycle_reply (e : CycleEnd) (b : Bridge σ) :
    (b.endCycle e).1.queue = b.queue ∧ ∃ r, (b.endCycle e).2 = .reply r := by
  cases e <;> exact ⟨rfl, _, rfl⟩

/-- **A poll cycle replies only when the queue is empty,** and before that it leaves more to be done
than to reply. -/
theorem drainFrom_reply (e : CycleEnd) : ∀ (events : List EngineEvent) (b : Bridge σ),
    b.queue.events = events →
      ((∃ r, (drainFrom e events b).2 = .reply r) → (drainFrom e events b).1.queue.events = []) ∧
      ∀ n a, (drainFrom e events b).2 = .notify n a → Goes a
  | [], b => fun hq => by
    obtain ⟨hqueue, r, hr⟩ := endCycle_reply e b
    refine ⟨fun _ => (congrArg _ hqueue).trans hq, fun n a h => ?_⟩
    rw [show (drainFrom e [] b).2 = .reply r from hr] at h
    cases h
  | ev :: rest, b => fun _ => by
    rw [drainFrom_cons]
    rcases hh : (b.taking ev rest).handle ev e with ⟨b₁, _ | ⟨n, a⟩⟩
    · exact drainFrom_reply e rest b₁ (by rw [eq_of_untold hh]; rfl)
    · refine ⟨?_, ?_⟩
      · rintro ⟨r, h⟩
        cases h
      · rintro n' a' ⟨⟩
        exact handle_goes (congrArg Prod.snd hh)

theorem pollCycle_goes (finish : Option ℕ → CycleEnd) {n : Notification} {a : Rest}
    (h : (b.pollCycle eng finish).2 = .notify n a) : Goes a := by
  unfold pollCycle at h
  split_ifs at h
  · exact (drainFrom_reply _ _ _ rfl).2 n a h
  · obtain ⟨-, r, hr⟩ := endCycle_reply (finish none) b
    rw [hr] at h
    cases h

theorem cycle_goes (installed : Category → Bool) {c : Command σ} (hc : c.IsCycle)
    {n : Notification} {a : Rest} (h : (b.perform eng installed c).2 = .notify n a) : Goes a := by
  unfold Command.IsCycle at hc
  split at hc
  · simp only [perform, poll] at h
    split at h
    · cases h
    split at h
    · cases h
    · exact pollCycle_goes _ h
  · simp only [perform, workerCycle] at h
    split at h
    · cases h
    · exact pollCycle_goes _ h
  · exact hc.elim

/-- **A poll that succeeds at once has emptied the queue.** -/
theorem poll_reply (hb : Orderly b) {next : Option ℕ}
    (h : (b.poll eng).2 = .reply (.deadline (.ok next))) : (b.poll eng).1.queue.events = [] := by
  unfold poll at h ⊢
  split_ifs at h ⊢ with hrun hq hw
  · cases h
  · cases h
  · cases h
  · have hlive := hb.running (by simpa [EventLoop.isRunning] using hrun)
    unfold pollCycle at h ⊢
    rw [if_pos hlive] at h ⊢
    exact (drainFrom_reply _ _ _ rfl).1 ⟨_, h⟩

theorem proceed_reply {a : Rest} (ha : Goes a) (b : Bridge σ) :
    ((∃ r, (b.proceed a).2 = .reply r) → (b.proceed a).1.queue.events = []) ∧
      ∀ n a', (b.proceed a).2 = .notify n a' → Goes a' := by
  cases a with
  | reply r => exact absurd rfl (ha r)
  | drain e => exact drainFrom_reply e _ b rfl
  | announce t found serials source text e =>
    refine ⟨?_, fun n a' h => ?_⟩
    · rintro ⟨r, h⟩
      cases h
    simp only [proceed, Dispatch.Outcome.notify.injEq] at h
    rw [← h.2]
    exact announce_goes _ _ _ _ _ _ _

end Reply

/-! ### Runs -/

/-- **A poll that succeeds has emptied the queue:** all that came in before has left. -/
def PollsEmpty (tr : List (Entry σ)) : Prop :=
  ∀ i next, tr[i]? = some (.returned .poll (.deadline (.ok next))) →
    goneIn (tr.take i) = queuedIn (tr.take i)

section Trace
variable {tr es : List (Entry σ)} {x : Entry σ}

theorem PollsEmpty.append (h : PollsEmpty tr) (hes : ∀ c r, .returned c r ∉ es) :
    PollsEmpty (tr ++ es) := by
  intro i next hi
  rcases Nat.lt_or_ge i tr.length with hlt | hge
  · rw [List.getElem?_append_left hlt] at hi
    rw [List.take_append_of_le_length (Nat.le_of_lt hlt)]
    exact h i next hi
  · rw [List.getElem?_append_right hge] at hi
    exact absurd (List.mem_of_getElem? hi) (hes _ _)

theorem PollsEmpty.concat (h : PollsEmpty tr)
    (hx : ∀ next, x = .returned .poll (.deadline (.ok next)) → goneIn tr = queuedIn tr) :
    PollsEmpty (tr ++ [x]) := by
  intro i next hi
  by_cases hl : i = tr.length
  · subst hl
    rw [List.getElem?_concat_length, Option.some.injEq] at hi
    rw [List.take_left]
    exact hx next hi
  · have hi' := Lists.getElem?_concat_of_ne hi hl
    rw [List.take_append_of_le_length (Nat.le_of_lt (List.getElem?_eq_some_iff.mp hi').1)]
    exact h i next hi'

end Trace

/-- **What any use of a bridge keeps as to its queue.** -/
structure Disciplined (eng : Engine σ) (m : Machine σ) : Prop where
  passes : Passes eng [] m.trace m.state.queue.events
  polls : PollsEmpty m.trace
  owned : Dispatch.Machine.Owned (fun c a => c.IsCycle → Goes a) m.stack

section Use
variable {eng : Engine σ} {m m' : Machine σ}

theorem isStill_closing {c : Command σ} {o : Dispatch.Outcome Rest Reply}
    {h : Option HandlerName} : IsStill (o.closing c h : Entry σ) := by
  cases o <;> trivial

theorem Disciplined.piece {c : Command σ} {p : Piece σ} {h : Option HandlerName}
    (opening : List (Entry σ)) (hm : Disciplined eng m) (hl : m.state.log = [])
    (flows : Flows eng m.state p.1) (ho : ∀ x ∈ opening, x = .called c)
    (state : m'.state = { p.1 with log := [] })
    (trace : m'.trace = m.trace ++ (opening ++ entries c p h))
    (reply : c = .poll → ∀ next, p.2 = .reply (.deadline (.ok next)) → p.1.queue.events = []) :
    Passes eng [] m'.trace m'.state.queue.events ∧ PollsEmpty m'.trace := by
  obtain ⟨hs, hlog, hp⟩ := flows
  rw [hl, List.nil_append] at hlog
  have htr : m'.trace = (m.trace ++ (opening ++ hs.map .happened)) ++ [p.2.closing c h] := by
    rw [trace, entries, hlog]
    simp
  have hopen : Passes eng m.state.queue.events opening m.state.queue.events :=
    passes_still _ fun x hx => by rw [ho x hx]; trivial
  have hpass : Passes eng [] (m.trace ++ (opening ++ hs.map .happened)) p.1.queue.events :=
    hm.passes.append (hopen.append hp)
  rw [htr, state]
  refine ⟨hpass.append (.still isStill_closing (.nil _)), PollsEmpty.concat ?_ fun next hx => ?_⟩
  · refine hm.polls.append fun c' r hmem => ?_
    rcases List.mem_append.mp hmem with hmem | hmem
    · cases ho _ hmem
    · obtain ⟨y, -, hy⟩ := List.mem_map.mp hmem
      cases hy
  · have hbal := hpass.balance
    rcases hout : p.2 with r | ⟨n, a⟩ <;> rw [hout] at hx <;> cases hx
    rw [reply rfl next hout, List.append_nil, List.nil_append] at hbal
    exact hbal.symm

/-- **Every step keeps the discipline.** -/
theorem Disciplined.step (hm : Disciplined eng m) (hs : Dispatch.Machine.Stacked m.stack)
    (hl : m.state.log = []) (hb : Orderly m.state) : Disciplined eng (m.step (system eng)) := by
  have howned : Dispatch.Machine.Owned (fun c a => c.IsCycle → Goes a)
      (m.step (system eng)).stack := by
    refine Dispatch.Machine.owned_step (system eng) (fun i c b n a h hc => ?_)
      (fun a d b c n a' ha h hc => ?_) hs hm.owned
    · exact cycle_goes i hc h
    · exact (proceed_reply (ha hc) b).2 n a' h
  cases Dispatch.Machine.step_advance (system eng) hs with
  | aside es state trace asides rests =>
    refine ⟨?_, ?_, howned⟩
    · rw [trace, state]
      refine hm.passes.append (passes_still _ fun x hx => ?_)
      have := asides x hx
      unfold Dispatch.Entry.IsAside at this
      split at this <;> trivial
    · rw [trace]
      exact hm.polls.append fun c r hmem => asides _ hmem
  | start c hn p next below stack piece state trace rests =>
    subst piece
    obtain ⟨hp, hpoll⟩ := hm.piece [.called c] hl
      (perform_flows m.table.isInstalled c hb) (by simp) state trace fun hc next h => by
        subst hc
        exact poll_reply hb h
    exact ⟨hp, hpoll, howned⟩
  | proceed a d c hn p below stack piece state trace rests owner =>
    subst piece
    obtain ⟨next, below', rfl⟩ := owner
    have ha : c.IsCycle → Goes a := by
      have := hm.owned
      rw [stack] at this
      exact this.1
    obtain ⟨hp, hpoll⟩ := hm.piece [] hl (proceed_flows eng a hb) (by simp) state trace
      fun hc next h => by
        subst hc
        exact (proceed_reply (ha trivial) m.state).1 ⟨_, h⟩
    exact ⟨hp, hpoll, howned⟩

theorem Disciplined.push (hm : Disciplined eng m) (hl : m.state.log = []) (e : EngineEvent) :
    Disciplined eng (queueFromOutside m e) := by
  obtain ⟨hs, hlog, hp⟩ : Flows eng m.state (m.state.push e).2 := push_flows e m.state
  rw [hl, List.nil_append] at hlog
  refine ⟨?_, ?_, hm.owned⟩
  · rw [← hlog] at hp
    exact hm.passes.append hp
  · refine hm.polls.append fun c r hmem => ?_
    obtain ⟨y, -, hy⟩ := List.mem_map.mp hmem
    cases hy

/-- **Every use keeps the discipline.** -/
theorem Disciplined.use (hm : Disciplined eng m) (hu : Use eng m m')
    (hs : Dispatch.Machine.Stacked m.stack) (hl : m.state.log = []) (hb : Orderly m.state) :
    Disciplined eng m' := by
  induction hu with
  | refl => exact hm
  | tail hu hturn ih =>
    cases hturn with
    | step => exact ih.step (use_stacked hu hs) (use_log hu hs hl) ((orderly_kept eng).use hu hs hb)
    | push e => exact ih.push (use_log hu hs hl) e

end Use

/-- **The discipline of the queue** in a run. -/
structure QueueDiscipline (eng : Engine σ) (m : Machine σ) : Prop where
  /-- At any time the events that have left the queue, to be handled or to be thrown away, are the
  first of those that came in, in the same order. -/
  fifo : ∀ i, goneIn (m.trace.take i) <+: queuedIn (m.trace.take i)
  /-- All others still wait. -/
  kept : queuedIn m.trace = goneIn m.trace ++ m.state.queue.events
  /-- When a poll returns and has succeeded, no event waits. -/
  emptied : ∀ i next, m.trace[i]? = some (.returned .poll (.deadline (.ok next))) →
    goneIn (m.trace.take i) = queuedIn (m.trace.take i)
  /-- Nothing happens between an engine call and the last event that the engine queued during it: no
  notification is given, and no event is handled. -/
  apart : ∀ i c a, m.trace[i]? = some (.happened (.engine c a)) →
    ∃ s, a = (eng c s).answer ∧ callBlock eng c s <+: m.trace.drop i

/-- **The queue is disciplined** in every use of a new bridge: whatever the program and its handlers
do, and whatever the engine and others queue meanwhile. -/
theorem queue_disciplined {settings : Settings} {engine : σ} {b : Bridge σ} (eng : Engine σ)
    (hb : make settings engine = .ok b) (p : Program σ) {m : Machine σ}
    (hu : Use eng (Dispatch.Machine.load { state := b } p) m) : QueueDiscipline eng m := by
  obtain ⟨hl, hq⟩ : b.log = [] ∧ b.queue.events = [] := by
    rw [make_eq_ok hb]
    exact ⟨rfl, rfl⟩
  have hstart : Disciplined eng (Dispatch.Machine.load { state := b } p : Machine σ) := by
    refine ⟨?_, (fun i next hi => nomatch hi), trivial⟩
    rw [show (Dispatch.Machine.load { state := b } p : Machine σ).state.queue.events = [] from hq]
    exact .nil []
  have hm := hstart.use hu trivial hl (orderly_make hb)
  exact ⟨fun i => hm.passes.fifo i, hm.passes.balance, hm.polls, fun i c a hi => hm.passes.block hi⟩

section Demo

/-- The change of a resource. -/
def changed (uri : String) : EngineEvent := .resourceChanged "" uri [] []

/-- A program with a handler that polls again whenever a resource has changed. -/
def pollAgain : Program Bench.ScriptedEngine :=
  .install [.resourceChanged] (.mk "poller" fun _ _ => .command .poll fun _ => .done) fun _ =>
    .command (.start none) fun _ => .command (.push (changed "/a")) fun _ =>
      .command .poll fun _ => .done

/-- An engine that reports a change at each of two polls. -/
def twoChanges : Bench.ScriptedEngine :=
  { batches := [[changed "/b"], [changed "/c"]] }

/-- The run of the program with that engine, after which somebody outside reports another change. -/
def polledAgain (b : Bridge Bench.ScriptedEngine) : Machine Bench.ScriptedEngine :=
  queueFromOutside ((Dispatch.Machine.load { state := b } pollAgain : Machine _).run
    (system Bench.ScriptedEngine.engine) 30) (changed "/d")

/-- The handlers take the events that the engine queues during the polls of other handlers; only the
event from outside is left. -/
theorem queue_disciplined_polled_again :
    ∃ b, make { threading := .cooperative } twoChanges = .ok b ∧
      QueueDiscipline Bench.ScriptedEngine.engine (polledAgain b) ∧
      goneIn (polledAgain b).trace = [changed "/a", changed "/b", changed "/c"] ∧
      (polledAgain b).state.queue.events = [changed "/d"] := by
  have hb : make { threading := .cooperative } twoChanges = .ok _ := rfl
  refine ⟨_, hb, queue_disciplined _ hb pollAgain ?_, ?_, ?_⟩
  · exact (use_run _ _ 30).tail (.push _ _)
  · decide
  · decide

end Demo

end KnxIoT.Bridge
