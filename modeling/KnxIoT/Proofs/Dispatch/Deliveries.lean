import KnxIoT.Proofs.Dispatch.Slots

/-! # Deliveries

* `heard`: what a notification brings onto the stack, above the frames that wait for it (`waiting`):
  a run of the handler in its slot, if there is one, and the rest of the command.
* `Giving`: a step that gives a notification, as its trace tells; `step_giving`: what such a step
  does.
* `Everywhere P m`: all programs that are still to be run have the property `P`;
  `everywhere_step`: they have it after a step, if `P` passes on to what programs go on with. -/

namespace KnxIoT.Dispatch.Machine

variable {σ κ α ρ ε : Type}

/-! ### Notifications -/

/-- What a notification brings onto the stack. -/
def heard (m : Machine σ κ α ρ ε) (x : Notification) (a : α) : List (Frame κ α ρ) :=
  match m.table.slot x.category with
  | some i => [.run (i.handler.react (m.calls.getD i.number 0) x), .rest a true]
  | none => [.rest a false]

/-- What waits below the piece that is done next. -/
def waiting (m : Machine σ κ α ρ ε) : List (Frame κ α ρ) :=
  match m.stack with
  | .run (.command c next) :: below => .await c next :: below
  | .rest _ _ :: below => below
  | below => below

/-- **A step of `m` gives the notification `x`**, to the handler `h`, after `es`. -/
def Giving (sys : System σ κ α ρ ε) (m : Machine σ κ α ρ ε) (es : List (Entry κ ρ ε))
    (x : Notification) (h : Option HandlerName) : Prop :=
  (m.step sys).trace = m.trace ++ (es ++ [.notified x h])

section Piece
variable (m : Machine σ κ α ρ ε) (below : List (Frame κ α ρ))

theorem deliver_eq (x : Notification) (a : α) :
    (m.deliver x a below).stack = m.heard x a ++ below ∧
      (m.deliver x a below).trace =
        m.trace ++ [.notified x ((m.table.slot x.category).map Installed.name)] := by
  unfold deliver heard
  cases m.table.slot x.category with
  | none => exact ⟨rfl, rfl⟩
  | some i => exact ⟨rfl, rfl⟩

theorem settle_eq_deliver {p : Piece σ α ρ ε} {x : Notification} {a : α}
    (hp : p.outcome = .notify x a) :
    (m.settle p below).stack = m.heard x a ++ below ∧
      (m.settle p below).trace = m.trace ++ (p.events.map .happened ++
        [.notified x ((m.table.slot x.category).map Installed.name)]) := by
  simp only [settle, hp]
  obtain ⟨hstack, htrace⟩ := deliver_eq
    { m.record (p.events.map .happened) with state := p.state } below x a
  exact ⟨hstack, htrace.trans (List.append_assoc _ _ _)⟩

end Piece

variable (sys : System σ κ α ρ ε) {m : Machine σ κ α ρ ε}

/-- The piece of a command that a step carries out, with what comes before it in the trace. -/
inductive Doing (m : Machine σ κ α ρ ε) : List (Entry κ ρ ε) → Piece σ α ρ ε → Prop
  | start (c : κ) (next : ρ → Program κ ρ) (below : List (Frame κ α ρ))
      (stack : m.stack = .run (.command c next) :: below) :
      Doing m [.called c] (sys.start m.table.isInstalled c m.state)
  | proceed (a : α) (d : Bool) (c : κ) (next : ρ → Program κ ρ) (below : List (Frame κ α ρ))
      (stack : m.stack = .rest a d :: .await c next :: below) :
      Doing m [] (sys.proceed a d m.state)

/-- **A step that gives a notification** does a piece that ends with it, and calls the handler in
the slot. -/
theorem step_giving {es : List (Entry κ ρ ε)} {x : Notification} {h : Option HandlerName}
    (hst : Stacked m.stack) (hx : Giving sys m es x h) :
    h = (m.table.slot x.category).map Installed.name ∧
      ∃ pre p a, Doing sys m pre p ∧ p.outcome = .notify x a ∧
        es = pre ++ p.events.map .happened ∧ (m.step sys).state = p.state ∧
        (m.step sys).stack = m.heard x a ++ m.waiting := by
  unfold Giving at hx
  cases step_advance sys hst with
  | aside es' state trace asides rests =>
    rw [trace, List.append_right_inj] at hx
    exact (asides (.notified x h) (by simp [hx])).elim
  | start c h' p next below stack piece state trace rests =>
    obtain ⟨s, evs, r | ⟨y, a⟩⟩ := p
    · rw [trace, List.append_right_inj, ← List.cons_append] at hx
      exact absurd (List.append_inj' hx rfl).2 (by simp [Outcome.closing])
    · obtain ⟨hstack, htrace⟩ := settle_eq_deliver (m.record [.called c]) (.await c next :: below)
        (p := sys.start m.table.isInstalled c m.state) (by rw [← piece])
      rw [← step_command sys stack] at hstack htrace
      rw [hx, ← piece, record, List.append_assoc, List.append_right_inj,
        ← List.append_assoc] at htrace
      obtain ⟨hes, hlast⟩ := List.append_inj' htrace rfl
      obtain ⟨rfl, rfl⟩ : x = y ∧ h = _ := by simpa using hlast
      refine ⟨rfl, [.called c], _, a, .start c next below stack, by rw [← piece], ?_, ?_, ?_⟩
      · rw [hes, ← piece]
      · rw [state, ← piece]
      · rw [hstack]
        simp only [waiting, stack]
        rfl
  | proceed a d c h' p below stack piece state trace rests owner =>
    obtain ⟨next, below, rfl⟩ := owner
    obtain ⟨s, evs, r | ⟨y, a'⟩⟩ := p
    · rw [trace, List.append_right_inj] at hx
      exact absurd (List.append_inj' hx rfl).2 (by simp [Outcome.closing])
    · obtain ⟨hstack, htrace⟩ := settle_eq_deliver m (.await c next :: below)
        (p := sys.proceed a d m.state) (by rw [← piece])
      rw [← step_rest sys stack] at hstack htrace
      rw [hx, ← piece, List.append_right_inj] at htrace
      obtain ⟨hes, hlast⟩ := List.append_inj' htrace rfl
      obtain ⟨rfl, rfl⟩ : x = y ∧ h = _ := by simpa using hlast
      refine ⟨rfl, [], _, a', .proceed a d c next below stack, by rw [← piece], ?_, ?_, ?_⟩
      · rw [hes, ← piece]; rfl
      · rw [state, ← piece]
      · rw [hstack]
        simp only [waiting, stack]

/-! ### Programs -/

/-- What a property of programs has to pass on: what they go on with has it as well, and so has what
the handlers do that they install. -/
structure PassedOn (P : Program κ ρ → Prop) : Prop where
  remark : ∀ {text next}, P (.remark text next) → P next
  install : ∀ {cs h next}, P (.install cs h next) →
    (∀ olds, P (next olds)) ∧ ∀ n x, P (h.react n x)
  command : ∀ {c next}, P (.command c next) → ∀ r, P (next r)

/-- The programs of a frame have a property. -/
def Frame.Has (P : Program κ ρ → Prop) : Frame κ α ρ → Prop
  | .run p => P p
  | .rest _ _ => True
  | .await _ next => ∀ r, P (next r)

/-- **All programs of a machine have a property**: those on the stack, and those of the handlers in
the table. -/
structure Everywhere (P : Program κ ρ → Prop) (m : Machine σ κ α ρ ε) : Prop where
  frames : ∀ f ∈ m.stack, Frame.Has P f
  handlers : ∀ c i, m.table.slot c = some i → ∀ n x, P (i.handler.react n x)

section Everywhere
variable {P : Program κ ρ → Prop}

theorem Everywhere.heard (h : Everywhere P m) (x : Notification) (a : α) :
    ∀ f ∈ m.heard x a, Frame.Has P f := by
  unfold Machine.heard
  cases hi : m.table.slot x.category with
  | none => simp [Frame.Has]
  | some i => simpa [Frame.Has] using h.handlers _ i hi _ x

theorem Everywhere.settle (h : Everywhere P m) (p : Piece σ α ρ ε) {c : κ} {next : ρ → Program κ ρ}
    {below : List (Frame κ α ρ)} (hnext : ∀ r, P (next r)) (hbelow : ∀ f ∈ below, Frame.Has P f) :
    ∀ f ∈ (m.settle p (.await c next :: below)).stack, Frame.Has P f := by
  rcases hp : p.outcome with r | ⟨x, a⟩
  · rw [settle_reply m c next below hp]
    exact List.forall_mem_cons.mpr ⟨hnext r, hbelow⟩
  · rw [(settle_eq_deliver m _ hp).1]
    exact List.forall_mem_append.mpr ⟨h.heard x a, List.forall_mem_cons.mpr ⟨hnext, hbelow⟩⟩

/-- **A step keeps a property of all programs** that passes on. -/
theorem everywhere_step (hP : PassedOn P) (hst : Stacked m.stack) (h : Everywhere P m) :
    Everywhere P (m.step sys) := by
  constructor
  · have hframes := h.frames
    unfold step
    split
    · exact hframes
    · next below hs => rw [hs] at hframes; exact (List.forall_mem_cons.mp hframes).2
    · next text next below hs =>
      rw [hs, List.forall_mem_cons] at hframes
      exact List.forall_mem_cons.mpr ⟨hP.remark hframes.1, hframes.2⟩
    · next cs hd next below hs =>
      rw [hs, List.forall_mem_cons] at hframes
      exact List.forall_mem_cons.mpr ⟨(hP.install hframes.1).1 _, hframes.2⟩
    · next c next below hs =>
      rw [hs, List.forall_mem_cons] at hframes
      have hrecord : Everywhere P (m.record [.called c]) := ⟨h.frames, h.handlers⟩
      exact hrecord.settle _ (hP.command hframes.1) hframes.2
    · next a d below hs =>
      rw [hs] at hst hframes
      obtain ⟨c, next, below, rfl, -⟩ := Stacked.exists_await hst
      simp only [List.forall_mem_cons] at hframes
      exact h.settle _ hframes.2.1 hframes.2.2
    · next c next below hs => rw [hs] at hframes; exact (List.forall_mem_cons.mp hframes).2
  · intro c i hi
    cases step_fills sys m with
    | nothing installing returning table calls => exact h.handlers c i (table ▸ hi)
    | installs cs hd next below stack installing returning table calls after =>
      rw [table, HandlerTable.slot_installAll] at hi
      split_ifs at hi with hc
      · obtain rfl := Option.some.inj hi
        have hrun : Frame.Has P (.run (.install cs hd next) : Frame κ α ρ) :=
          h.frames _ (by rw [stack]; exact List.mem_cons_self)
        exact (hP.install hrun).2
      · exact h.handlers c i hi

theorem everywhere_run (hP : PassedOn P) (hst : Stacked m.stack) (h : Everywhere P m) (n : ℕ) :
    Everywhere P (m.run sys n) :=
  (run_induction sys (P := fun m => Stacked m.stack ∧ Everywhere P m)
    (fun _ hm => ⟨stacked_step sys hm.1, everywhere_step sys hP hm.1 hm.2⟩) n m ⟨hst, h⟩).2

end Everywhere

end KnxIoT.Dispatch.Machine
