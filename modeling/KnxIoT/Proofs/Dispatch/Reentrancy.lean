import KnxIoT.Dispatch.Direct
import KnxIoT.Proofs.Dispatch.Slots
import KnxIoT.Proofs.Lists

/-! # Dispatch under re-entrancy

A handler may install handlers and dispatch notifications itself, so a run is a tree of dispatches.
On the stack a dispatch is a frame that waits while its handler runs above it.

* `step_append`: a step with something on top of the stack does not touch what lies below;
  `waits`: so a frame stays until everything above it has ended.
* `Dispatched`: what one dispatch does. It calls the handler of the latest installation for the
  category, if there is one, and no other; what is installed later does not change its course.
* `Reentrant`, `reentrant`: the table law, after any number of steps of any program. -/

namespace KnxIoT.Dispatch

namespace Machine

variable {σ κ α ρ ε : Type} (sys : System σ κ α ρ ε)

/-- **A step leaves what lies below the top of the stack.** -/
theorem step_append {m : Machine σ κ α ρ ε} {top below : List (Frame κ α ρ)} (ht : Stacked top)
    (hne : top ≠ []) (hs : m.stack = top ++ below) :
    ∃ top', Stacked top' ∧ (m.step sys).stack = top' ++ below := by
  -- a piece that began on `.await c next :: rest` ends there
  have hpiece : ∀ (m : Machine σ κ α ρ ε) c next rest (p : Piece σ α ρ ε), Stacked rest →
      ∃ top', Stacked top' ∧
        (m.settle p (.await c next :: (rest ++ below))).stack = top' ++ below := by
    intro m c next rest p hrest
    rcases hp : p.outcome with r | ⟨x, a⟩
    · exact ⟨.run (next r) :: rest, hrest, settle_reply m c next _ hp⟩
    · obtain ⟨d, hd | ⟨q, hd⟩⟩ := settle_notify m c next (rest ++ below) hp
      · exact ⟨.rest a d :: .await c next :: rest, hrest, hd⟩
      · exact ⟨.run q :: .rest a d :: .await c next :: rest, hrest, hd⟩
  match top, ht, hne with
  | .run .done :: rest, ht, _ => exact ⟨rest, ht, by unfold step; rw [hs]; rfl⟩
  | .run (.remark text next) :: rest, ht, _ =>
    exact ⟨.run next :: rest, ht, by unfold step; rw [hs]; rfl⟩
  | .run (.install cs h next) :: rest, ht, _ =>
    exact ⟨.run (next (m.install cs h).1) :: rest, ht, by unfold step; rw [hs]; rfl⟩
  | .run (.command c next) :: rest, ht, _ =>
    rw [step_command sys hs]
    exact hpiece _ c next rest _ ht
  | .rest a d :: .await c next :: rest, ht, _ =>
    rw [step_rest sys hs]
    exact hpiece _ c next rest _ ht

/-- **A frame stays until everything above it has ended**, and then comes to the top. -/
theorem waits {m : Machine σ κ α ρ ε} {top below : List (Frame κ α ρ)} (ht : Stacked top)
    (hs : m.stack = top ++ below) (k : ℕ) :
    (∃ top', Stacked top' ∧ (m.run sys k).stack = top' ++ below) ∨
      ∃ j < k, (m.run sys j).stack = below := by
  induction k with
  | zero => exact Or.inl ⟨top, ht, hs⟩
  | succ k ih =>
    rcases ih with ⟨top', ht', hk⟩ | ⟨j, hj, hb⟩
    · rcases eq_or_ne top' [] with rfl | hne
      · exact Or.inr ⟨k, Nat.lt_succ_self k, hk⟩
      · rw [run_succ]
        exact Or.inl (step_append sys ht' hne hk)
    · exact Or.inr ⟨j, Nat.lt_succ_of_lt hj, hb⟩

end Machine

/-! ### Dispatches of a program -/

open Machine

/-- A machine about to run a program, with nothing installed. -/
def fresh (p : Program Notification Bool) : Machine Unit Notification Unit Bool Empty :=
  Machine.load { state := () } p

/-- The machine after `n` steps of a program. -/
def after (p : Program Notification Bool) (n : ℕ) : Machine Unit Notification Unit Bool Empty :=
  (fresh p).run direct n

/-- The installations of the first `n` steps. -/
def history (p : Program Notification Bool) (n : ℕ) :
    List (Category × Installed Notification Bool) :=
  (fresh p).installs direct n

/-- What they gave back. -/
def givenBack (p : Program Notification Bool) (n : ℕ) : List (Category × Option HandlerName) :=
  (fresh p).returns direct n

/-- The handler that a notification finds after `n` steps. -/
def target (p : Program Notification Bool) (n : ℕ) (x : Notification) :
    Option (Installed Notification Bool) :=
  latest (history p n) x.category

/-- The frames of a dispatch that waits for its handler. -/
def pending (d : Bool) (x : Notification) (next : Bool → Program Notification Bool)
    (below : List (Frame Notification Unit Bool)) : List (Frame Notification Unit Bool) :=
  .rest () d :: .await x next :: below

/-- **What the dispatch of `x` does that begins after `n` steps.** -/
structure Dispatched (p : Program Notification Bool) (n : ℕ) (x : Notification)
    (next : Bool → Program Notification Bool) (below : List (Frame Notification Unit Bool)) :
    Prop where
  /-- It calls the handler of the latest installation. -/
  called : ∀ i, target p n x = some i →
    (after p (n + 1)).stack =
        .run (i.handler.react ((after p n).calls.getD i.number 0) x) :: pending true x next below ∧
      (after p (n + 1)).trace = (after p n).trace ++ [.called x, .notified x (some i.name)]
  /-- It calls none if there was no installation. -/
  dropped : target p n x = none →
    (after p (n + 1)).stack = pending false x next below ∧
      (after p (n + 1)).trace = (after p n).trace ++ [.called x, .notified x none]
  /-- It waits below what its handler does, and once that has ended it returns whether there was a
  handler when it began. -/
  returned : ∀ k, n < k →
    (∃ top, (after p k).stack = top ++ pending (target p n x).isSome x next below) ∨
      ∃ j, n < j ∧ j < k ∧ (after p j).stack = pending (target p n x).isSome x next below ∧
        (after p (j + 1)).stack = .run (next (target p n x).isSome) :: below ∧
        (after p (j + 1)).trace = (after p j).trace ++ [.returned x (target p n x).isSome]

/-- **The table law** after `n` steps of a program. -/
structure Reentrant (p : Program Notification Bool) (n : ℕ) : Prop where
  /-- Every slot holds the handler of the latest installation for its category. -/
  slots : ∀ c, (after p n).table.slot c = latest (history p n) c
  /-- A dispatch calls the handler in its slot and returns whether there was one. -/
  dispatch : ∀ x next below, (after p n).stack = .run (.command x next) :: below →
    Dispatched p n x next below
  /-- A handler is called at the beginning of a dispatch only. -/
  calls : ∃ es, (after p (n + 1)).trace = (after p n).trace ++ es ∧
    ∀ x h, .notified x h ∈ es → h = (target p n x).map Installed.name ∧
      ∃ next below, (after p n).stack = .run (.command x next) :: below
  /-- A program that installs a handler goes on with the handlers that it displaced. -/
  install : ∀ cs h next below, (after p n).stack = .run (.install cs h next) :: below →
    (after p (n + 1)).stack = .run (next ((displaced (history p n)
      (cs.map (·, ⟨(after p n).calls.length, h⟩))).map (·.map Installed.name))) :: below
  /-- What was given back for a category, and what is in its slot, are no handler and then those
  that were installed, in their order. -/
  conserved : ∀ c,
    ofCategory (givenBack p n) c ++ [((after p n).table.slot c).map Installed.name] =
      none :: (ofCategory (history p n) c).map fun i => some i.name
  /-- So every handler is in its slot still, or exactly one installation has given it back, and that
  one came later. -/
  once : (∀ k < n, ((after p k).installing.map Prod.fst).Nodup) →
    ∀ (c : Category) (k : ℕ) (i : Installed Notification Bool),
      (ofCategory (history p n) c)[k]? = some i →
      ((after p n).table.slot c = some i ∧
        ∀ j : ℕ, (ofCategory (givenBack p n) c)[j]? ≠ some (some i.name)) ∨
      ((after p n).table.slot c ≠ some i ∧
        ∃ j > k, ∀ j' : ℕ, (ofCategory (givenBack p n) c)[j']? = some (some i.name) ↔ j' = j)
  /-- What is not done to a category leaves its slot and its history. -/
  others : ∀ c, c ∉ (after p n).installing.map Prod.fst →
    (after p (n + 1)).table.slot c = (after p n).table.slot c ∧
      ofCategory (history p (n + 1)) c = ofCategory (history p n) c

section Law
variable (p : Program Notification Bool) (n : ℕ)

theorem after_succ : after p (n + 1) = (after p n).step direct :=
  run_succ direct n (fresh p)

theorem after_add (k : ℕ) : after p (n + k) = (after p n).run direct k :=
  run_add direct n k (fresh p)

theorem stacked_after : Stacked (after p n).stack :=
  stacked_run direct (m := fresh p) trivial n

theorem slots_after : Slots (after p n).table (history p n) :=
  slots_run direct (m := fresh p) rfl n

theorem given_back_after (c : Category) :
    ofCategory (givenBack p n) c ++ [((after p n).table.slot c).map Installed.name] =
      none :: (ofCategory (history p n) c).map fun i => some i.name :=
  returns_eq direct (m := fresh p) rfl c n

theorem step_dispatch {m : Machine Unit Notification Unit Bool Empty} {x : Notification}
    {next : Bool → Program Notification Bool} {below : List (Frame Notification Unit Bool)}
    (hs : m.stack = .run (.command x next) :: below) :
    m.step direct = (m.record [.called x]).deliver x () (.await x next :: below) := by
  rw [step_command direct hs]
  simp only [settle, direct, record, List.map_nil, List.append_nil]

theorem step_pending {m : Machine Unit Notification Unit Bool Empty} {d : Bool} {x : Notification}
    {next : Bool → Program Notification Bool} {below : List (Frame Notification Unit Bool)}
    (hs : m.stack = pending d x next below) :
    (m.step direct).stack = .run (next d) :: below ∧
      (m.step direct).trace = m.trace ++ [.returned x d] := by
  rw [step_rest direct hs]
  exact ⟨rfl, by simp [settle, direct, answer, record]⟩

theorem dispatched {x : Notification} {next : Bool → Program Notification Bool}
    {below : List (Frame Notification Unit Bool)}
    (hs : (after p n).stack = .run (.command x next) :: below) : Dispatched p n x next below := by
  have hslot : (after p n).table.slot x.category = target p n x := slots_after p n x.category
  have hstep := step_dispatch hs
  rw [← after_succ] at hstep
  have hcalled : ∀ i, target p n x = some i →
      (after p (n + 1)).stack = .run (i.handler.react ((after p n).calls.getD i.number 0) x) ::
          pending true x next below ∧
        (after p (n + 1)).trace = (after p n).trace ++ [.called x, .notified x (some i.name)] := by
    intro i hi
    rw [hi] at hslot
    rw [hstep]
    unfold deliver
    simp only [record, hslot, List.append_assoc]
    exact ⟨rfl, rfl⟩
  have hdropped : target p n x = none →
      (after p (n + 1)).stack = pending false x next below ∧
        (after p (n + 1)).trace = (after p n).trace ++ [.called x, .notified x none] := by
    intro hi
    rw [hi] at hslot
    rw [hstep]
    unfold deliver
    simp only [record, hslot, List.append_assoc]
    exact ⟨rfl, rfl⟩
  refine ⟨hcalled, hdropped, fun k hk => ?_⟩
  -- the frames of the dispatch lie below its handler, and so stay until that has ended
  obtain ⟨top, htop, hbegin⟩ : ∃ top, Stacked top ∧
      (after p (n + 1)).stack = top ++ pending (target p n x).isSome x next below := by
    cases hi : target p n x with
    | none => exact ⟨[], trivial, (hdropped hi).1⟩
    | some i => exact ⟨[.run _], trivial, (hcalled i hi).1⟩
  obtain ⟨k, rfl⟩ := Nat.exists_eq_add_of_lt hk
  rw [show n + k + 1 = n + 1 + k by omega]
  rcases waits direct htop hbegin k with ⟨top', -, hk'⟩ | ⟨j, hj, hpending⟩
  · exact Or.inl ⟨top', by rw [after_add, hk']⟩
  · rw [← after_add] at hpending
    obtain ⟨hstack, htrace⟩ := step_pending hpending
    rw [← after_succ] at hstack htrace
    exact Or.inr ⟨n + 1 + j, by omega, by omega, hpending, hstack, htrace⟩

theorem calls_of_step : ∃ es, (after p (n + 1)).trace = (after p n).trace ++ es ∧
    ∀ x h, .notified x h ∈ es → h = (target p n x).map Installed.name ∧
      ∃ next below, (after p n).stack = .run (.command x next) :: below := by
  have hst := stacked_after p n
  have hadvance := step_advance direct hst
  rw [← after_succ] at hadvance
  cases hadvance with
  | aside es state trace asides rests => exact ⟨es, trace, fun x h hx => (asides _ hx).elim⟩
  | start x h q next below stack piece state trace rests =>
    have hd := dispatched p n stack
    cases hi : target p n x with
    | none =>
      refine ⟨_, (hd.dropped hi).2, fun y h' hy => ?_⟩
      simp only [List.mem_cons, reduceCtorEq, false_or, Entry.notified.injEq, List.not_mem_nil,
        or_false] at hy
      obtain ⟨rfl, rfl⟩ := hy
      exact ⟨by rw [hi]; rfl, next, below, stack⟩
    | some i =>
      refine ⟨_, (hd.called i hi).2, fun y h' hy => ?_⟩
      simp only [List.mem_cons, reduceCtorEq, false_or, Entry.notified.injEq, List.not_mem_nil,
        or_false] at hy
      obtain ⟨rfl, rfl⟩ := hy
      exact ⟨by rw [hi]; rfl, next, below, stack⟩
  | proceed a d x h q below stack piece state trace rests owner =>
    obtain ⟨next, below, rfl⟩ := owner
    have htrace := (step_pending stack).2
    rw [← after_succ] at htrace
    exact ⟨_, htrace, fun y h' hy => by simp at hy⟩

/-- Every handler is in its slot or was given back once, if no step installs twice for one
category. -/
theorem given_back_once (hn : ∀ k < n, ((after p k).installing.map Prod.fst).Nodup) (c : Category)
    {k : ℕ} {i : Installed Notification Bool} (hk : (ofCategory (history p n) c)[k]? = some i) :
    ((after p n).table.slot c = some i ∧
        ∀ j : ℕ, (ofCategory (givenBack p n) c)[j]? ≠ some (some i.name)) ∨
      ((after p n).table.slot c ≠ some i ∧
        ∃ j > k, ∀ j' : ℕ, (ofCategory (givenBack p n) c)[j']? = some (some i.name) ↔ j' = j) := by
  have hpair := installs_numbers direct (fresh p) hn c
  have hnames : ((ofCategory (history p n) c).map Installed.name).Nodup := by
    rw [List.nodup_iff_pairwise_ne, List.pairwise_map]
    exact hpair.imp fun hlt he => Nat.ne_of_lt hlt (congrArg HandlerName.number he)
  rcases Lists.once_of_shift (given_back_after p n c) hnames hk with
    ⟨hs, hnone⟩ | ⟨hs, hone⟩
  · -- the handler in the slot is among those that were installed, and there it is told by its name
    left
    refine ⟨?_, hnone⟩
    obtain ⟨i', hi', hname⟩ := Option.map_eq_some_iff.mp hs
    have hmem : i' ∈ ofCategory (history p n) c := by
      have := slots_after p n c
      rw [hi'] at this
      exact List.mem_of_getLast? this.symm
    rw [hi', List.inj_on_of_nodup_map hnames hmem (List.mem_of_getElem? hk) hname]
  · exact Or.inr ⟨fun he => hs (congrArg (Option.map Installed.name) he), hone⟩

end Law

/-- **The handler table under re-entrancy**: its law holds after every step of every program. -/
theorem reentrant (p : Program Notification Bool) (n : ℕ) : Reentrant p n where
  slots := slots_after p n
  dispatch _ _ _ hs := dispatched p n hs
  calls := calls_of_step p n
  install cs h next below hs := by
    have hinstall := ((slots_after p n).installAll ⟨(after p n).calls.length, h⟩ cs).1
    rw [after_succ, ← hinstall]
    unfold step
    rw [hs]
    rfl
  conserved := given_back_after p n
  once hn c _ _ hk := given_back_once p n hn c hk
  others c hc := by
    constructor
    · rw [after_succ]
      exact step_slot direct _ hc
    · change ofCategory (history p n ++ (after p n).installing) c = _
      rw [ofCategory_append, ofCategory_eq_nil hc, List.append_nil]

section Demo

/-- A handler that puts another one into its place and dispatches the notification again. -/
def relay : Handler Notification Bool :=
  .mk "relay" fun _ x => .install [x.category] (.mk "heir" fun _ _ => .done) fun _ =>
    .command x fun _ => .done

/-- The dispatch in progress stays with the handler that it began with; the one within finds the
heir. -/
example :
    let p := .install [.gatewayNotification] relay fun _ =>
      .command (.gatewayNotification "s" "\x7b\x7d") fun _ => .done
    ((after p 10).trace.filterMap fun
      | .notified _ h => h
      | _ => none) = [⟨0, "relay"⟩, ⟨1, "heir"⟩] := by
  decide

end Demo

end KnxIoT.Dispatch
