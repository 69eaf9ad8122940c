import KnxIoT.Proofs.Threads.Vitals

/-! # Nothing waits behind a sleeping worker

`Covered c s`: if the worker goes to sleep without looking again, then some thread will notify it
because of `c`. Where the worker has still to take the latch, it is latched or will be; where it
has found no latch and holds the mutex, somebody has still to look at the flag of the sleeper; and
where it is parked, somebody has still to look or to rouse it. Each part hands the obligation to
the next, so a chore keeps it (`Covered.chore`) and so does the worker (`Covered.walk`).

`Awake` says what is covered in every schedule: a queued event by its producer, a set quit flag by
the stop that set it, and a request that the engine took after its latest poll by its caller.
Callers that find the quit flag set do not notify, so the last one needs the flag unset; that a
caller finds the loop running then is a fact of the life of the bridge. -/

namespace KnxIoT.Threads

variable {σ : Type} {eng : Engine σ}

/-! ## Chores that lead to a notification -/

namespace Chore

/-- The chore leads to a latched notification because of `c`. -/
def Latches (c : Cause) : Chore → Prop
  | .signal | .ifRunning => c = .request
  | .latch d => d = c
  | _ => False

/-- The chore leads to a look at the flag of the sleeper. -/
def Looks (c : Cause) (x : Chore) : Prop :=
  x.Latches c ∨ x = .look c

/-- The chore leads to rousing a parked worker. -/
def Rouses (c : Cause) (x : Chore) : Prop :=
  x.Looks c ∨ x = .rouse c

theorem Rouses.cause {c : Cause} {x : Chore} (h : x.Rouses c) : x.cause? = some c := by
  rcases h with (h | rfl) | rfl
  · cases x <;> simp_all [Latches, cause?]
  · rfl
  · rfl

end Chore

/-- Some thread has such a chore. -/
def Has (f : Option ℕ → List Chore) (P : Chore → Prop) : Prop :=
  ∃ a, ∃ x ∈ f a, P x

theorem Has.update {f : Option ℕ → List Chore} {P Q : Chore → Prop} {a : Option ℕ} {l : List Chore}
    (h : Has f P) (hl : ∀ x ∈ f a, P x → ∃ y ∈ l, Q y) (hq : ∀ x, P x → Q x) :
    Has (Function.update f a l) Q := by
  obtain ⟨b, x, hx, hp⟩ := h
  by_cases hb : b = a
  · subst hb
    obtain ⟨y, hy, hqy⟩ := hl x hx hp
    exact ⟨b, y, by simpa using hy, hqy⟩
  · exact ⟨b, x, by simpa [hb] using hx, hq x hp⟩

theorem Has.update_nil {f : Option ℕ → List Chore} {P : Chore → Prop} {a : Option ℕ}
    {l : List Chore} (h : Has f P) (ha : f a = []) : Has (Function.update f a l) P :=
  h.update (by simp [ha]) fun _ => id

theorem Has.of_mem {f : Option ℕ → List Chore} {P : Chore → Prop} {a : Option ℕ} {l : List Chore}
    {x : Chore} (hx : x ∈ l) (hp : P x) : Has (Function.update f a l) P :=
  ⟨a, x, by simpa using hx, hp⟩

/-! ## Covering -/

/-- From here the worker parks unless it finds a notification. With requests this begins when the
engine has been polled, otherwise when the queue was found empty. -/
def Place.Settled (c : Cause) : Place → Prop
  | .serving .. => c = .request
  | .recheck _ | .swap _ | .enter _ | .scan _ | .decide _ | .parked _ | .roused _ => True
  | _ => False

/-- Whether the flag of the sleeper is set. -/
def Place.sleeps : Place → Bool
  | .scan _ | .decide _ | .parked _ | .roused _ | .leave => true
  | _ => false

/-- **The worker will be notified** because of `c`, unless it looks again by itself. -/
structure Covered (c : Cause) (k : Core σ) (f : Option ℕ → List Chore) : Prop where
  latch : k.place.Settled c → k.bridge.wake.latched = true ∨ Has f (·.Latches c)
  look : ∀ n, k.place = .decide n → Has f (·.Looks c)
  rouse : ∀ n, k.place = .parked n → Has f (·.Rouses c)

section Covered
variable {c : Cause} {k k' : Core σ} {f : Option ℕ → List Chore} {a : Option ℕ}
  {more xs : List Chore} {x : Chore}

theorem Covered.of_mem (hx : x ∈ more) (h : x.Latches c) :
    Covered c k (Function.update f a more) :=
  ⟨fun _ => .inr (.of_mem hx h), fun _ _ => .of_mem hx (.inl h),
    fun _ _ => .of_mem hx (.inl (.inl h))⟩

theorem Covered.of_not_settled (h : ¬ k.place.Settled c) : Covered c k f := by
  refine ⟨fun hs => absurd hs h, fun n hn => ?_, fun n hn => ?_⟩ <;>
    exact absurd (by rw [hn]; trivial) h

/-- A call that moves on keeps what is covered, because it has done its chores before. -/
theorem Covered.update_nil (h : Covered c k f) (ha : f a = [])
    (hw : k'.bridge.wake = k.bridge.wake) (hp : k'.place = k.place) :
    Covered c k' (Function.update f a more) := by
  refine ⟨fun hs => ?_, fun n hn => ?_, fun n hn => ?_⟩
  · rw [hw]
    exact (h.latch (hp ▸ hs)).imp id (·.update_nil ha)
  · exact (h.look n (hp ▸ hn)).update_nil ha
  · exact (h.rouse n (hp ▸ hn)).update_nil ha

theorem Chore.Way.wake (h : Chore.Way k x k' more) :
    (k'.place = k.place ∨ (∃ d, x = .rouse d) ∧ k'.place = k.place.rouse) ∧
      (k.bridge.wake.latched = true → k'.bridge.wake.latched = true) ∧
      k'.bridge.wake.parked = k.bridge.wake.parked := by
  cases h with
  | latch c => exact ⟨.inl rfl, fun _ => rfl, rfl⟩
  | rouse c => exact ⟨.inr ⟨⟨c, rfl⟩, rfl⟩, id, rfl⟩
  | _ => exact ⟨.inl rfl, id, rfl⟩

theorem Chore.Way.place_eq (h : Chore.Way k x k' more) {p : Place} (hp : k'.place = p)
    (hr : ∀ n, p ≠ .roused n) : k.place = p := by
  rcases h.wake.1 with he | ⟨-, he⟩
  · rw [← he, hp]
  · rw [hp] at he
    cases hk : k.place with
    | parked n => rw [hk] at he; exact absurd he (hr n)
    | _ => rw [hk] at he; exact he.symm

/-- **A chore keeps what is covered:** latching leads to a look, and a look at a parked worker to
rousing it. Only a signal must not be dropped. -/
theorem Covered.chore (hc : Covered c k f) (ha : f a = x :: xs) (he : Chore.Way k x k' more)
    (hflag : k.bridge.wake.parked = k.place.sleeps)
    (hsig : x = .signal ∨ x = .ifRunning → c = .request → k.place.Settled c →
      ∃ y ∈ more, y.Latches c) :
    Covered c k' (Function.update f a (more ++ xs)) := by
  have hlatch : x.Latches c → k.place.Settled c →
      (∃ y ∈ more, y.Latches c) ∨ k'.bridge.wake.latched = true ∧ .look c ∈ more := by
    intro hx hs
    cases x with
    | signal => exact .inl (hsig (.inl rfl) hx hs)
    | ifRunning => exact .inl (hsig (.inr rfl) hx hs)
    | latch d =>
      obtain rfl : d = c := hx
      cases he
      exact .inr ⟨rfl, by simp⟩
    | _ => exact hx.elim
  -- a chore further down the list is still there, so only the one that is done matters
  have hrest : ∀ {P Q : Chore → Prop}, Has f P → (P x → ∃ y ∈ more, Q y) → (∀ y, P y → Q y) →
      Has (Function.update f a (more ++ xs)) Q := by
    intro P Q h hx hq
    refine h.update (fun y hy hp => ?_) hq
    rw [ha] at hy
    rcases List.mem_cons.mp hy with rfl | hy
    · obtain ⟨z, hz, hqz⟩ := hx hp
      exact ⟨z, List.mem_append_left _ hz, hqz⟩
    · exact ⟨y, List.mem_append_right _ hy, hq y hp⟩
  obtain ⟨hplace, hmono, -⟩ := he.wake
  refine ⟨fun hs => ?_, fun n hn => ?_, fun n hn => ?_⟩
  · have hs' : k.place.Settled c := by
      rcases hplace with hp | ⟨-, hp⟩
      · exact hp ▸ hs
      · rw [hp] at hs
        cases hk : k.place <;> rw [hk] at hs <;> trivial
    rcases hc.latch hs' with hl | hl
    · exact .inl (hmono hl)
    · by_cases hx : x.Latches c
      · rcases hlatch hx hs' with ⟨y, hy, hyl⟩ | ⟨hl', -⟩
        · exact .inr (.of_mem (List.mem_append_left _ hy) hyl)
        · exact .inl hl'
      · exact .inr (hrest hl (fun h => absurd h hx) fun _ => id)
  · have hk : k.place = .decide n := he.place_eq hn (by simp)
    refine hrest (hc.look n hk) (fun hx => ?_) fun _ => id
    rcases hx with hx | rfl
    · rcases hlatch hx (by rw [hk]; trivial) with ⟨y, hy, hyl⟩ | ⟨-, hl⟩
      · exact ⟨y, hy, .inl hyl⟩
      · exact ⟨_, hl, .inr rfl⟩
    · -- the worker holds the mutex, so nobody can look
      cases he with
      | awake _ hl | asleep _ hl => rw [hk] at hl; cases hl
  · have hk : k.place = .parked n := he.place_eq hn (by simp)
    refine hrest (hc.rouse n hk) (fun hx => ?_) fun _ => id
    rcases hx with (hx | rfl) | rfl
    · rcases hlatch hx (by rw [hk]; trivial) with ⟨y, hy, hyl⟩ | ⟨-, hl⟩
      · exact ⟨y, hy, .inl (.inl hyl)⟩
      · exact ⟨_, hl, .inl (.inr rfl)⟩
    · cases he with
      | awake _ _ hp => rw [hflag, hk] at hp; cases hp
      | asleep => exact ⟨.rouse c, by simp, .inr rfl⟩
    · cases he
      rw [hk] at hn
      cases hn

/-- **The worker keeps what is covered:** it parks only when it has found no notification. -/
theorem Covered.walk (hc : Covered c k f) (hw : Walk eng k k' more) (ha : f none = [])
    (hs : k'.place.Settled c → k.place.Settled c) :
    Covered c k' (Function.update f none more) := by
  refine ⟨fun hs' => ?_, fun n hn => ?_, fun n hn => ?_⟩
  · have h := (hc.latch (hs hs')).imp id (·.update_nil (l := more) ha)
    cases hw with
    | take hp _ => rcases hp with ⟨-, rfl⟩ | ⟨-, rfl⟩ <;> cases hs'
    | serve hp he =>
      obtain ⟨events, registry, correlator, hx, rfl, -⟩ := serveOne_frame he
      exact h
    | _ => exact h
  · cases hw with
    | take hp _ => rcases hp with ⟨-, rfl⟩ | ⟨-, rfl⟩ <;> cases hn
    | miss hp hl =>
      refine Has.update_nil ?_ ha
      have hk : k.place.Settled c := by
        rcases hp with ⟨hp, -⟩ | ⟨hp, -⟩ <;> rw [hp] <;> trivial
      obtain ⟨b, x, hx, hxl⟩ := (hc.latch hk).resolve_left (by simp [hl])
      exact ⟨b, x, hx, .inl hxl⟩
    | _ => cases hn
  · cases hw with
    | take hp _ => rcases hp with ⟨-, rfl⟩ | ⟨-, rfl⟩ <;> cases hn
    | miss hp hl => rcases hp with ⟨-, rfl⟩ | ⟨-, rfl⟩ <;> cases hn
    | park hp =>
      refine Has.update_nil ?_ ha
      obtain ⟨b, x, hx, hxl⟩ := hc.look _ hp
      exact ⟨b, x, hx, .inl hxl⟩
    | _ => cases hn

end Covered

/-! ## What is covered in every schedule -/

/-- The engine has been polled since it took the last request. -/
def Core.Polled (k : Core σ) : Prop :=
  ∀ x ∈ k.bridge.log.drop k.polled, ¬ x.IsSubmission

/-- The worker will find the quit flag set before it waits. -/
def Core.Exits (k : Core σ) : Prop :=
  k.bridge.loop.quit = true ∧ ∃ n, k.place = .recheck n

/-- A call that has set the quit flag. -/
def Pc.Stops : Pc → Prop
  | .stop (.swap _) => False
  | .stop _ => True
  | _ => False

/-- **What holds of the worker and of those who wake it,** in every schedule. -/
structure Awake (s : Sys σ) : Prop where
  flag : s.core.bridge.wake.parked = s.core.place.sleeps
  polled : s.core.polled ≤ s.core.bridge.log.length
  busy : s.chores none ≠ [] → ∃ sv next, s.core.place = .serving sv next
  stoppers : ∀ a, ∀ x ∈ s.chores a, x.cause? = some .stop → ∃ n, a = some n ∧ (s.pcs n).Stops
  events : s.core.bridge.queue.events ≠ [] → s.core.Exits ∨ Covered .event s.core s.chores
  stops : s.core.bridge.loop.quit = true → s.core.Exits ∨ Covered .stop s.core s.chores
  requests : ¬ s.core.Polled → s.core.bridge.loop.quit = false →
    Covered .request s.core s.chores

section Steps
variable {s s' : Sys σ} {k k' : Core σ} {more : List Chore} {x : Chore}

theorem Core.polled_of_log {hs : List Happening} (hp : k.polled ≤ k.bridge.log.length)
    (hn : k'.polled = k.polled) (hl : k'.bridge.log = k.bridge.log ++ hs) (h : ¬ k'.Polled) :
    ¬ k.Polled ∨ ∃ x ∈ hs, x.IsSubmission := by
  by_contra hc
  simp only [not_or, not_not, not_exists, not_and] at hc
  refine h fun x hx => ?_
  rw [hn, hl, List.drop_append_of_le_length hp, List.mem_append] at hx
  exact hx.elim (hc.1 x) (hc.2 x)

theorem Core.polled_of_eq (h : k.polled = k.bridge.log.length) : k.Polled := by
  intro x hx
  rw [h, List.drop_length] at hx
  cases hx

theorem Chore.Way.cause (h : Chore.Way k x k' more) :
    ∀ y ∈ more, y.cause? = some .stop → x.cause? = some .stop := by
  cases h <;> simp [cause?]

theorem Effect.covered {pc pc' : Pc} {c : Cause} {f : Option ℕ → List Chore} {a : Option ℕ}
    (he : Effect pc k k' more pc') (ha : f a = []) (h : k.Exits ∨ Covered c k f) :
    k'.Exits ∨ Covered c k' (Function.update f a more) := by
  rcases he.place with hp | ⟨-, hp⟩
  · refine h.imp (fun ⟨hq, n, hn⟩ => ⟨he.quit_mono hq, n, hp.trans hn⟩) fun h => ?_
    exact h.update_nil ha he.wake hp
  · exact .inr (.of_not_settled (by rw [hp]; exact id))

theorem Awake.call (hs : Awake s) {n : ℕ} (c : Call)
    (hn : s.chores (some n) = []) :
    Awake
      { s with
        chores := Function.update s.chores (some n) c.entry.1
        pcs := Function.update s.pcs n c.entry.2 } := by
  refine ⟨hs.flag, hs.polled, fun h => hs.busy (by simpa using h), ?_, fun h => ?_, fun h => ?_,
    fun h h' => ?_⟩
  · intro a x hx hc
    by_cases ha : a = some n
    · subst ha
      cases c <;> simp_all [Call.entry, Chore.cause?]
    · obtain ⟨m, rfl, hm⟩ := hs.stoppers a x (by simpa [ha] using hx) hc
      have hmn : m ≠ n := fun h => ha (by rw [h])
      exact ⟨m, rfl, by simpa [hmn] using hm⟩
  · exact (hs.events h).imp id (·.update_nil hn rfl rfl)
  · exact (hs.stops h).imp id (·.update_nil hn rfl rfl)
  · exact (hs.requests h h').update_nil hn rfl rfl

theorem Awake.chore (hs : Awake s) (hl : Alive s) {a : Option ℕ} {xs : List Chore}
    (ha : s.chores a = x :: xs) (he : Chore.Way s.core x k more) :
    Awake { s with core := k, chores := Function.update s.chores a (more ++ xs) } := by
  obtain ⟨hplace, -, hparked⟩ := he.wake
  obtain ⟨hn, hquit, -, -, hqueue, new, hlog, hnew⟩ := he.frame
  have hexit : s.core.Exits → k.Exits := by
    rintro ⟨hq, n, hp⟩
    refine ⟨hquit.trans hq, n, ?_⟩
    rcases hplace with h | ⟨-, h⟩ <;> rw [h, hp]
    rfl
  refine ⟨?_, ?_, fun h => ?_, ?_, fun h => ?_, fun h => ?_, fun h h' => ?_⟩
  · rw [hparked, hs.flag]
    rcases hplace with h | ⟨-, h⟩ <;> rw [h]
    cases s.core.place <;> rfl
  · rw [hn, hlog, List.length_append]
    exact Nat.le_add_right_of_le hs.polled
  · have hb : s.chores none ≠ [] := by
      by_cases hw : a = none
      · rw [← hw, ha]; exact List.cons_ne_nil _ _
      · simpa [Ne.symm hw] using h
    obtain ⟨sv, next, hp⟩ := hs.busy hb
    refine ⟨sv, next, ?_⟩
    rcases hplace with h | ⟨-, h⟩ <;> rw [h, hp]
    rfl
  · intro b y hy hc
    by_cases hb : b = a
    · subst hb
      simp only [Function.update_self, List.mem_append] at hy
      rcases hy with hy | hy
      · exact hs.stoppers b x (by simp [ha]) (he.cause y hy hc)
      · exact hs.stoppers b y (by simp [ha, hy]) hc
    · exact hs.stoppers b y (by simpa [hb] using hy) hc
  · rcases hqueue with hq | hq
    · refine (hs.events (hq ▸ h)).imp hexit fun hc => hc.chore ha he hs.flag ?_
      intro _ h
      cases h
    · exact .inr (.of_mem (List.mem_append_left _ hq) rfl)
  · refine (hs.stops (hquit ▸ h)).imp hexit fun hc => hc.chore ha he hs.flag ?_
    intro _ h
    cases h
  · have hq : s.core.bridge.loop.quit = false := hquit ▸ h'
    have hu : ¬ s.core.Polled := (Core.polled_of_log hs.polled hn hlog h).resolve_right
      fun ⟨y, hy, hy'⟩ => hnew y hy hy'.isCall
    refine (hs.requests hu hq).chore ha he hs.flag fun hx _ hp => ?_
    rcases hx with rfl | rfl
    · cases he with
      | late hq' => rw [hq] at hq'; cases hq'
      | signal => exact ⟨.ifRunning, by simp, rfl⟩
    · -- nobody holds the lock of a loop that has a worker and was not told to stop: it runs
      have hw : s.vitals.worker = true := by
        simp only [Sys.vitals, Core.vitals]
        cases hk : s.core.place <;> rw [hk] at hp <;> first | rfl | exact hp.elim
      cases he with
      | drop ho hr =>
        have hstate : s.core.bridge.loop.state = .running :=
          (hl.life.works hw hq).2.resolve_left (not_not.mpr ho)
        simp [EventLoop.isRunning, hstate] at hr
      | pass => exact ⟨.latch .request, by simp, rfl⟩

theorem Awake.act (hs : Awake s) (hl : Alive s) {n : ℕ} {pc : Pc} (hn : s.chores (some n) = [])
    (he : Pc.Way eng n s.core (s.pcs n) k more pc) :
    Awake
      { core := k
        chores := Function.update s.chores (some n) more
        pcs := Function.update s.pcs n pc } := by
  have hf := he.effect
  obtain ⟨new, hlog, -, hnew⟩ := hf.log
  have hplace : k.place = s.core.place ∨ s.core.place = .absent ∧ k.place = .check := by
    refine hf.place.imp id fun ⟨hp, h⟩ => ⟨?_, h⟩
    have hr : s.vitals.role n = .spawning := by
      simp [Sys.vitals, Core.vitals, Sys.role, hp, Pc.role]
    have hw := hl.life.spawns n (by simp [hr, Role.Starts]) (by simp [hr])
    simp only [Sys.vitals, Core.vitals] at hw
    cases hk : s.core.place <;> rw [hk] at hw <;> first | rfl | cases hw
  refine ⟨?_, ?_, fun h => ?_, ?_, fun h => ?_, fun h => ?_, fun h h' => ?_⟩
  · rw [hf.wake, hs.flag]
    rcases hplace with h | ⟨ha, h⟩
    · rw [h]
    · rw [h, ha]; rfl
  · rw [hf.polled, hlog, List.length_append]
    exact Nat.le_add_right_of_le hs.polled
  · obtain ⟨sv, next, hp⟩ := hs.busy (by simpa using h)
    rcases hplace with h | ⟨ha, -⟩
    · exact ⟨sv, next, h.trans hp⟩
    · rw [ha] at hp; cases hp
  · intro a x hx hc
    by_cases ha : a = some n
    · subst ha
      simp only [Function.update_self] at hx
      rcases hf.stop with ⟨hm, -⟩ | ⟨-, ⟨w, rfl⟩, -⟩
      · have := hm x hx
        cases x <;> simp_all [Chore.IsCommon, Chore.cause?]
      · exact ⟨n, rfl, by simp [Pc.Stops]⟩
    · obtain ⟨m, rfl, hm⟩ := hs.stoppers a x (by simpa [ha] using hx) hc
      have hmn : m ≠ n := fun h => ha (by rw [h])
      exact ⟨m, rfl, by simpa [hmn] using hm⟩
  · by_cases hq : s.core.bridge.queue.events = []
    · exact .inr (.of_mem ((hf.queue hq).resolve_left h) rfl)
    · exact hf.covered hn (hs.events hq)
  · rcases hf.stop with ⟨-, hq⟩ | ⟨hm, -, -⟩
    · exact hf.covered hn (hs.stops (hq ▸ h))
    · exact .inr (.of_mem (x := .latch .stop) (by simp [hm]) rfl)
  · have hq : s.core.bridge.loop.quit = false := by
      rcases hf.stop with ⟨-, hq⟩ | ⟨-, -, hq⟩
      · exact hq ▸ h'
      · rw [hq] at h'; cases h'
    rcases Core.polled_of_log hs.polled hf.polled hlog h with hu | ⟨x, hx, hx'⟩
    · refine (hf.covered hn (.inr (hs.requests hu hq))).resolve_left fun hx => ?_
      rw [hx.1] at h'
      cases h'
    · exact .of_mem (hnew x hx hx') rfl

/-- The worker settles by polling the engine, by finding it not live, or by finding the queue
empty. -/
theorem Walk.settled {c : Cause} (h : Walk eng k k' more) (hs : k'.place.Settled c) :
    k.place.Settled c ∨ (c = .request ∧ k'.polled = k'.bridge.log.length) ∨
      (k.place = .cycle ∧ k.bridge.phase ≠ .live ∧ k'.place = .recheck none) ∨
      (c ≠ .request ∧ k.bridge.queue.events = [] ∧ ∃ n, k'.place = .recheck n) := by
  cases h with
  | stop | goOn | expire | leave => exact hs.elim
  | poll => exact .inr (.inl ⟨hs, rfl⟩)
  | skip hp hl => exact .inr (.inr (.inl ⟨hp, hl, rfl⟩))
  | serve hp => exact .inl (by rw [hp]; exact hs)
  | served hp hq =>
    by_cases hc : c = .request
    · exact .inl (by rw [hp]; exact hc)
    · exact .inr (.inr (.inr ⟨hc, hq, _, rfl⟩))
  | take hp => rcases hp with ⟨-, rfl⟩ | ⟨-, rfl⟩ <;> exact hs.elim
  | miss hp => rcases hp with ⟨hp, -⟩ | ⟨hp, -⟩ <;> exact .inl (by rw [hp]; trivial)
  | wait hp | enter hp | park hp | rouse hp | relock hp => exact .inl (by rw [hp]; trivial)

theorem Walk.exits {c : Cause} {f : Option ℕ → List Chore} (h : Walk eng k k' more)
    (he : k.Exits) : Covered c k' f := by
  obtain ⟨hq, n, hn⟩ := he
  cases h with
  | stop => exact .of_not_settled id
  | wait hp hq' => rw [hq] at hq'; cases hq'
  | take hp | miss hp => rcases hp with ⟨hp, -⟩ | ⟨hp, -⟩ <;> rw [hn] at hp <;> cases hp
  | goOn hp | poll hp | skip hp | serve hp | served hp | enter hp | expire hp | park hp | rouse hp
  | relock hp | leave hp => rw [hn] at hp; cases hp

/-- A bridge with a worker that was not told to stop has a live engine. -/
theorem Alive.live (hl : Alive s) (hp : s.core.place ≠ .absent)
    (hq : s.core.bridge.loop.quit = false) : s.core.bridge.phase = .live ∧
      (s.core.owner ≠ none ∨ s.core.bridge.loop.state = .running) := by
  refine hl.life.works ?_ hq
  simp only [Sys.vitals, Core.vitals]
  cases hk : s.core.place <;> first | rfl | exact absurd hk hp

/-- What the worker leaves behind when it settles stays covered, or it will find the quit flag. -/
theorem Walk.covered {c : Cause} (h : Walk eng s.core k more) (hl : Alive s)
    (hn : s.chores none = []) (hc : c ≠ .request)
    (hq : s.core.bridge.queue.events ≠ [] ∨ s.core.bridge.loop.quit = true)
    (hs : s.core.Exits ∨ Covered c s.core s.chores) :
    k.Exits ∨ Covered c k (Function.update s.chores none more) := by
  rcases hs with hs | hs
  · exact .inr (h.exits hs)
  by_cases hk : k.place.Settled c
  · rcases h.settled hk with hp | ⟨hr, -⟩ | ⟨hp, hlive, hp'⟩ | ⟨-, he, n, hp'⟩
    · exact .inr (hs.walk h hn fun _ => hp)
    · exact absurd hr hc
    · -- an engine that is not live any more was ended by a stop
      have hquit : s.core.bridge.loop.quit = true := by
        by_contra hq'
        exact hlive (hl.live (by simp [hp]) (by simpa using hq')).1
      exact .inl ⟨by rw [h.frame.loop, hquit], _, hp'⟩
    · exact .inl ⟨by rw [h.frame.loop]; exact hq.resolve_left (by simp [he]), n, hp'⟩
  · exact .inr (.of_not_settled hk)

theorem Awake.work (hs : Awake s) (hl : Alive s) (hn : s.chores none = [])
    (hw : Walk eng s.core k more) :
    Awake { s with core := k, chores := Function.update s.chores none more } := by
  have hf := hw.frame
  obtain ⟨new, hlog, -, hnew⟩ := hf.log
  refine ⟨?_, ?_, fun h => ?_, ?_, fun h => ?_, fun h => ?_, fun h h' => ?_⟩
  · have hflag := hs.flag
    cases hw with
    | stop hp _ => rcases hp with hp | ⟨n, hp⟩ <;> rw [hp] at hflag <;> exact hflag
    | take hp _ | miss hp _ =>
      rcases hp with ⟨hp, rfl⟩ | ⟨hp, rfl⟩ <;> rw [hp] at hflag <;> exact hflag
    | serve hp he =>
      rw [hp] at hflag
      obtain ⟨events, registry, correlator, hx, rfl, -⟩ := serveOne_frame he
      exact hflag
    | enter hp | leave hp => rfl
    | goOn hp | poll hp | skip hp | served hp | wait hp | expire hp | park hp | rouse hp
    | relock hp => rw [hp] at hflag; exact hflag
  · rcases hf.polled with hp | hp
    · rw [hp, hlog, List.length_append]
      exact Nat.le_add_right_of_le hs.polled
    · exact Nat.le_of_eq hp
  · simp only [Function.update_self] at h
    cases hw with
    | poll => exact ⟨_, _, rfl⟩
    | _ => exact absurd rfl h
  · intro a x hx hc
    by_cases ha : a = none
    · subst ha
      have hm := hw.isCommon x (by simpa using hx)
      cases x <;> simp_all [Chore.IsCommon, Chore.cause?]
    · exact hs.stoppers a x (by simpa [ha] using hx) hc
  · have hq : s.core.bridge.queue.events ≠ [] := fun he => h (hf.queue he)
    exact hw.covered hl hn (by simp) (.inl hq) (hs.events hq)
  · have hq : s.core.bridge.loop.quit = true := by rw [← hf.loop]; exact h
    exact hw.covered hl hn (by simp) (.inr hq) (hs.stops hq)
  · have hq : s.core.bridge.loop.quit = false := by rw [← hf.loop]; exact h'
    rcases hf.polled with hp | hp
    · have hu : ¬ s.core.Polled := by
        refine (Core.polled_of_log hs.polled hp hlog h).resolve_right ?_
        rintro ⟨y, hy, hy'⟩
        exact hnew y hy hy'
      refine (hs.requests hu hq).walk hw hn fun hk => ?_
      rcases hw.settled hk with hp | ⟨-, hp⟩ | ⟨hp, hlive, -⟩ | ⟨hr, -⟩
      · exact hp
      · exact absurd (Core.polled_of_eq hp) h
      · exact absurd (hl.live (by simp [hp]) hq).1 hlive
      · exact absurd rfl hr
    · exact absurd (Core.polled_of_eq hp) h

theorem Step.awake (h : Step eng s s') (hl : Alive s) (hs : Awake s) : Awake s' := by
  cases h with
  | call n c _ hn => exact hs.call c hn
  | chore a ha he => exact hs.chore hl ha (Chore.exec_way he)
  | act n hn he => exact hs.act hl hn (Pc.exec_way he)
  | work late hn he => exact hs.work hl hn (Core.advance_walk he)

end Steps

theorem awake_fresh {settings : Settings} {e : σ} {b : Bridge σ}
    (h : Bridge.make settings e = .ok b) : Awake (Sys.fresh b) := by
  unfold Bridge.make at h
  split at h <;> cases h
  exact ⟨rfl, Nat.zero_le _, fun h => absurd rfl h, fun a x hx => absurd hx List.not_mem_nil,
    fun _ => .inr (.of_not_settled id), fun _ => .inr (.of_not_settled id),
    fun _ _ => .of_not_settled id⟩

/-- **Every schedule keeps the worker awake** for as long as there is work. -/
theorem run_awake {settings : Settings} {e : σ} {b : Bridge σ} {ms : List Move} {s : Sys σ}
    (hb : Bridge.make settings e = .ok b) (h : (Sys.fresh b).run eng ms = some s) :
    Alive s ∧ Awake s :=
  run_induction (P := fun s => Alive s ∧ Awake s)
    (fun _ _ hs hstep => ⟨hstep.alive hs.1, hstep.awake hs.1 hs.2⟩)
    ms ⟨alive_fresh hb, awake_fresh hb⟩ h

/-! ## No stranded work -/

namespace Sys

/-- No caller is between its engine call and the end of its signal, and no producer of an event
between the queue and the end of its notification. -/
def NoneBetween (s : Sys σ) : Prop :=
  ∀ n, ∀ x ∈ s.chores (some n), x.cause? = none ∨ x.cause? = some .stop

/-- A stop has set the quit flag and is about to wake the worker. -/
def StopComes (s : Sys σ) : Prop :=
  ∃ n, (s.pcs n).Stops ∧ ∃ x ∈ s.chores (some n), x.cause? = some .stop

/-- Call `n` is a stop that has set the quit flag and completed its notification. -/
def StopNotified (s : Sys σ) (n : ℕ) : Prop :=
  (s.pcs n).Stops ∧ ∀ x ∈ s.chores (some n), x.cause? ≠ some .stop

end Sys

/-- In a wait for the wake signal. -/
def Place.Waits : Place → Prop
  | .swap _ | .enter _ | .scan _ | .decide _ | .parked _ | .roused _ => True
  | _ => False

theorem Pc.Stops.role {pc : Pc} (h : pc.Stops) (chores : List Chore) :
    (pc.role chores).Stops := by
  cases pc with
  | stop p =>
    cases p with
    | swap w => exact h.elim
    | join w =>
      unfold Pc.role
      split_ifs <;> simp [Role.Stops]
    | _ => simp [Pc.role, Role.Stops, Role.LoopDone, Role.EngineDone]
  | _ => exact h.elim

section Stranded
variable {s : Sys σ}

/-- A stop that has notified finds the worker awake, or with a notification to take. -/
theorem Awake.of_stopNotified (hs : Awake s) (hl : Alive s) {n : ℕ} (h : s.StopNotified n)
    (hw : s.core.place.Waits) : s.core.bridge.wake.latched = true ∧
      ∀ next, s.core.place ≠ .decide next ∧ s.core.place ≠ .parked next := by
  obtain ⟨hn, hx⟩ := h
  have hquit : s.core.bridge.loop.quit = true := hl.life.stops n (hn.role _)
  -- only the stop that set the flag wakes the worker because of it, and it has done so
  have hno : ∀ P : Chore → Prop, (∀ x, P x → x.cause? = some .stop) → ¬ Has s.chores P := by
    rintro P hP ⟨a, x, hxa, hp⟩
    obtain ⟨m, rfl, hm⟩ := hs.stoppers a x hxa (hP x hp)
    obtain rfl : m = n := hl.life.stopper m n (hm.role _) (hn.role _)
    exact hx x hxa (hP x hp)
  rcases hs.stops hquit with ⟨-, next, hp⟩ | hc
  · rw [hp] at hw
    exact hw.elim
  · have hset : s.core.place.Settled .stop := by
      cases hp : s.core.place <;> rw [hp] at hw <;> trivial
    refine ⟨(hc.latch hset).resolve_right (hno _ fun x h => Chore.Rouses.cause (.inl (.inl h))),
      fun next => ⟨fun hp => ?_, fun hp => ?_⟩⟩
    · exact hno _ (fun x h => Chore.Rouses.cause (.inl h)) (hc.look next hp)
    · exact hno _ (fun x h => h.cause) (hc.rouse next hp)

/-- **No stranded work.** Whatever the order of steps: when the worker is parked without a deadline
and nobody is between an engine call or the queue and the end of the notification, then the queue is
empty, the engine was polled after it took the last request, unless a stop is about to wake the
worker, and no stop has completed its notification. And a stop that has completed its notification
never joins a worker that will not wake: one that waits finds the notification before it parks. -/
theorem no_stranded_work {settings : Settings} {e : σ} {b : Bridge σ} {ms : List Move} {s : Sys σ}
    (hb : Bridge.make settings e = .ok b) (h : (Sys.fresh b).run eng ms = some s) :
    (s.core.place = .parked none → s.NoneBetween →
      s.core.bridge.queue.events = [] ∧ (¬ s.StopComes → s.core.Polled) ∧
        ∀ n, ¬ s.StopNotified n) ∧
    ∀ n, s.StopNotified n → s.core.place.Waits → s.core.bridge.wake.latched = true ∧
      ∀ next, s.core.place ≠ .decide next ∧ s.core.place ≠ .parked next := by
  obtain ⟨hl, hs⟩ := run_awake hb h
  refine ⟨fun hp hnone => ?_, fun n hn => hs.of_stopNotified hl hn⟩
  have hidle : s.chores none = [] := by
    by_contra hb
    obtain ⟨sv, next, hp'⟩ := hs.busy hb
    rw [hp] at hp'; cases hp'
  -- nobody is about to wake the worker for an event or a request
  have hno : ∀ c, c ≠ .stop → ¬ Covered c s.core s.chores := by
    intro c hc hcov
    obtain ⟨a, x, hx, hr⟩ := hcov.rouse none hp
    cases a with
    | none => rw [hidle] at hx; cases hx
    | some n =>
      rcases hnone n x hx with h | h <;> rw [hr.cause] at h <;> cases h
      exact hc rfl
  refine ⟨?_, fun hstop => ?_, fun n hn => ?_⟩
  · by_contra hq
    rcases hs.events hq with ⟨-, n, hn⟩ | hc
    · rw [hp] at hn; cases hn
    · exact hno _ (by simp) hc
  · by_contra hpolled
    cases hquit : s.core.bridge.loop.quit with
    | false => exact hno _ (by simp) (hs.requests hpolled hquit)
    | true =>
      rcases hs.stops hquit with ⟨-, n, hn⟩ | hc
      · rw [hp] at hn; cases hn
      · obtain ⟨a, x, hx, hr⟩ := hc.rouse none hp
        obtain ⟨m, rfl, hm⟩ := hs.stoppers a x hx hr.cause
        exact hstop ⟨m, hm, x, hx, hr.cause⟩
  · exact ((hs.of_stopNotified hl hn (by rw [hp]; trivial)).2 none).2 hp

end Stranded

section Demo

/-- A start, then a discovery query that the engine takes after the worker has found no notification
and before it parks. The worker is roused, polls once more and parks again. -/
def lateQuery : List Move :=
  [.call 0 (.start none), .act 0, .act 0, .act 0, .act 0, .act 0, .act 0,
    .work false, .work false, .work false, .work false, .work false, .work false, .work false,
    .call 1 (.discover 2 ""), .act 1, .act 1, .chore (some 1), .chore (some 1), .chore (some 1),
    .work false, .chore (some 1), .chore (some 1),
    .work false, .work false, .work false, .work false, .work false, .work false, .work false,
    .work false, .work false, .work false, .work false]

theorem no_stranded_work_late_query : ∃ s, Bridge.make {} {} = .ok usual ∧
    (Sys.fresh usual).run Bench.ScriptedEngine.engine lateQuery = some s ∧
    s.core.place = .parked none ∧ s.NoneBetween ∧ (∃ x ∈ s.core.bridge.log, x.IsSubmission) ∧
    s.core.bridge.queue.events = [] ∧ s.core.Polled := by
  have hsome : ((Sys.fresh usual).run Bench.ScriptedEngine.engine lateQuery).isSome := rfl
  obtain ⟨s, hs⟩ := Option.isSome_iff_exists.mp hsome
  have hb : Bridge.make {} {} = .ok usual := rfl
  have hdone : ∀ a, s.chores a = [] := by
    cases hs
    intro a
    rcases a with _ | _ | _ | n <;> rfl
  have hnone : s.NoneBetween := fun n x hx => by
    rw [hdone] at hx
    cases hx
  have hplace : s.core.place = .parked none := by
    cases hs
    rfl
  have hsent : ∃ x ∈ s.core.bridge.log, x.IsSubmission := by
    cases hs
    exact ⟨.engine (.discover "" 2 ⟨1⟩) true, .tail _ (.tail _ (.tail _ (.head _))), rfl⟩
  obtain ⟨hqueue, hpolled, -⟩ := (no_stranded_work hb hs).1 hplace hnone
  refine ⟨s, hb, hs, hplace, hnone, hsent, hqueue, hpolled ?_⟩
  rintro ⟨n, -, x, hx, -⟩
  rw [hdone] at hx
  cases hx

end Demo

end KnxIoT.Threads
