import KnxIoT.Dispatch.Machine
import Mathlib.Tactic.Common

/-! # The machine: what a step does

A step either does something for a program on its own account (it leaves a remark, installs a
handler, or is done), or it carries out one piece of a command. In the second case the trace grows
by what happened in the piece and, at its end, by the reply or by the notification that was given.

* `Stacked`: the rest of a command lies directly on the program that waits for its reply;
  `stacked_step` keeps it, so a reply always reaches a program.
* `Owned`: a rest of a command was left by that command, in a way that the command can leave it.
* `Advance m m'`: the ways in which `m'` can follow `m`; `step_advance`: a step is one of them.
* `run_succ`, `run_induction`: a run makes one step after the other, and keeps what a step keeps. -/

namespace KnxIoT.Dispatch

variable {σ κ α ρ ε : Type}

/-- An entry that a program leaves without asking the system for anything. -/
def Entry.IsAside : Entry κ ρ ε → Prop
  | .installed _ _ => True
  | .remarked _ => True
  | _ => False

/-- The entry at the end of a piece of the command `c`; `h` is the handler of the notification. -/
def Outcome.closing (c : κ) (h : Option HandlerName) : Outcome α ρ → Entry κ ρ ε
  | .reply r => .returned c r
  | .notify n _ => .notified n h

namespace Machine

/-- Every rest of a command lies directly on the program that waits for its reply. -/
def Stacked : List (Frame κ α ρ) → Prop
  | [] => True
  | .run _ :: below => Stacked below
  | .rest _ _ :: .await _ _ :: below => Stacked below
  | _ => False

theorem Stacked.exists_await {a : α} {d : Bool} {below : List (Frame κ α ρ)}
    (h : Stacked (.rest a d :: below)) :
    ∃ c next below', below = .await c next :: below' ∧ Stacked below' := by
  match below, h with
  | .await c next :: below, h => exact ⟨c, next, below, rfl, h⟩

/-- **How `m'` follows `m` in one step.** -/
inductive Advance (sys : System σ κ α ρ ε) (m m' : Machine σ κ α ρ ε) : Prop
  /-- A program goes on by itself. -/
  | aside (es : List (Entry κ ρ ε)) (state : m'.state = m.state) (trace : m'.trace = m.trace ++ es)
      (asides : ∀ x ∈ es, x.IsAside)
      (rests : ∀ a d, .rest a d ∈ m'.stack → .rest a d ∈ m.stack)
  /-- A command begins. -/
  | start (c : κ) (h : Option HandlerName) (p : Piece σ α ρ ε)
      (next : ρ → Program κ ρ) (below : List (Frame κ α ρ))
      (stack : m.stack = .run (.command c next) :: below)
      (piece : p = sys.start m.table.isInstalled c m.state) (state : m'.state = p.state)
      (trace : m'.trace =
        m.trace ++ .called c :: (p.events.map .happened ++ [p.outcome.closing c h]))
      (rests : ∀ a d, .rest a d ∈ m'.stack →
        .rest a d ∈ m.stack ∨ ∃ n, p.outcome = .notify n a)
  /-- A command goes on after a notification. -/
  | proceed (a : α) (d : Bool) (c : κ) (h : Option HandlerName) (p : Piece σ α ρ ε)
      (below : List (Frame κ α ρ)) (stack : m.stack = .rest a d :: below)
      (piece : p = sys.proceed a d m.state) (state : m'.state = p.state)
      (trace : m'.trace = m.trace ++ (p.events.map .happened ++ [p.outcome.closing c h]))
      (rests : ∀ a d, .rest a d ∈ m'.stack →
        .rest a d ∈ m.stack ∨ ∃ n, p.outcome = .notify n a)
      (owner : ∃ next below', below = .await c next :: below')

section Settle
variable (m : Machine σ κ α ρ ε) (c : κ) (next : ρ → Program κ ρ) (below : List (Frame κ α ρ))

theorem deliver_state (n : Notification) (rest : α) : (m.deliver n rest below).state = m.state := by
  unfold deliver; split <;> rfl

theorem deliver_trace (n : Notification) (rest : α) :
    ∃ h, (m.deliver n rest below).trace = m.trace ++ [.notified n h] := by
  unfold deliver
  split
  · next h _ => exact ⟨some h.name, rfl⟩
  · exact ⟨none, rfl⟩

theorem deliver_stack (n : Notification) (rest : α) :
    ∃ d, (m.deliver n rest below).stack = .rest rest d :: below ∨
      ∃ p, (m.deliver n rest below).stack = .run p :: .rest rest d :: below := by
  unfold deliver
  split
  · exact ⟨true, Or.inr ⟨_, rfl⟩⟩
  · exact ⟨false, Or.inl rfl⟩

theorem settle_state (p : Piece σ α ρ ε) :
    (m.settle p (.await c next :: below)).state = p.state := by
  obtain ⟨s, es, r | ⟨n, rest⟩⟩ := p
  · rfl
  · exact deliver_state _ _ n rest

theorem settle_trace (p : Piece σ α ρ ε) : ∃ h, (m.settle p (.await c next :: below)).trace =
    m.trace ++ (p.events.map .happened ++ [p.outcome.closing c h]) := by
  obtain ⟨s, es, r | ⟨n, rest⟩⟩ := p
  · exact ⟨none, List.append_assoc _ _ _⟩
  · obtain ⟨h, ht⟩ := deliver_trace { m.record (es.map .happened) with state := s }
      (.await c next :: below) n rest
    exact ⟨h, ht.trans (List.append_assoc _ _ _)⟩

theorem settle_reply {p : Piece σ α ρ ε} {r : ρ} (h : p.outcome = .reply r) :
    (m.settle p (.await c next :: below)).stack = .run (next r) :: below := by
  simp only [settle, h]
  rfl

theorem settle_notify {p : Piece σ α ρ ε} {n : Notification} {a : α}
    (h : p.outcome = .notify n a) :
    ∃ d, (m.settle p (.await c next :: below)).stack = .rest a d :: .await c next :: below ∨
      ∃ q, (m.settle p (.await c next :: below)).stack =
        .run q :: .rest a d :: .await c next :: below := by
  simp only [settle, h]
  exact deliver_stack _ _ n a

theorem settle_rests {p : Piece σ α ρ ε} {a : α} {d : Bool}
    (ha : .rest a d ∈ (m.settle p (.await c next :: below)).stack) :
    .rest a d ∈ below ∨ ∃ n, p.outcome = .notify n a := by
  obtain ⟨s, es, r | ⟨n, rest⟩⟩ := p
  · left; simpa [settle, answer] using ha
  · obtain ⟨d', hd | ⟨q, hd⟩⟩ := deliver_stack { m.record (es.map .happened) with state := s }
      (.await c next :: below) n rest
    all_goals
      simp only [settle, hd, List.mem_cons, reduceCtorEq, false_or, Frame.rest.injEq] at ha
      rcases ha with ⟨rfl, -⟩ | ha
      · exact Or.inr ⟨n, rfl⟩
      · exact Or.inl ha

theorem settle_stacked (p : Piece σ α ρ ε) (h : Stacked below) :
    Stacked (m.settle p (.await c next :: below)).stack := by
  obtain ⟨s, es, r | ⟨n, rest⟩⟩ := p
  · exact h
  · obtain ⟨d', hd | ⟨q, hd⟩⟩ := deliver_stack { m.record (es.map .happened) with state := s }
      (.await c next :: below) n rest
    all_goals simp only [settle, hd]; exact h

end Settle

/-- **Every rest of a command is one that such a command can leave.** -/
def Owned (P : κ → α → Prop) : List (Frame κ α ρ) → Prop
  | [] => True
  | .rest a _ :: .await c _ :: below => P c a ∧ Owned P below
  | _ :: below => Owned P below

theorem settle_owned {P : κ → α → Prop} (m : Machine σ κ α ρ ε) (c : κ) (next : ρ → Program κ ρ)
    {below : List (Frame κ α ρ)} {p : Piece σ α ρ ε} (h : Owned P below)
    (hp : ∀ n a, p.outcome = .notify n a → P c a) :
    Owned P (m.settle p (.await c next :: below)).stack := by
  obtain ⟨s, es, r | ⟨n, rest⟩⟩ := p
  · exact h
  · obtain ⟨d', hd | ⟨q, hd⟩⟩ := deliver_stack { m.record (es.map .happened) with state := s }
      (.await c next :: below) n rest
    all_goals simp only [settle, hd]; exact ⟨hp n rest rfl, h⟩

theorem install_state (m : Machine σ κ α ρ ε) (cs : List Category) (h : Handler κ ρ) :
    (m.install cs h).2.state = m.state := rfl

theorem install_trace (m : Machine σ κ α ρ ε) (cs : List Category) (h : Handler κ ρ) :
    (m.install cs h).2.trace =
      m.trace ++ [.installed cs ⟨m.calls.length, h.label⟩] := rfl

variable (sys : System σ κ α ρ ε)

theorem stacked_step {m : Machine σ κ α ρ ε} (h : Stacked m.stack) :
    Stacked (m.step sys).stack := by
  unfold step
  split
  · exact h
  · next below hs => rw [hs] at h; exact h
  · next text next below hs => rw [hs] at h; exact h
  · next cs hd next below hs => rw [hs] at h; exact h
  · next c next below hs => rw [hs] at h; exact settle_stacked _ _ _ _ _ h
  · next a d below hs =>
    rw [hs] at h
    obtain ⟨c, next, below, rfl, h⟩ := Stacked.exists_await h
    exact settle_stacked _ _ _ _ _ h
  · next hs => rw [hs] at h; exact h.elim

theorem step_command_trace {m : Machine σ κ α ρ ε} {c : κ} {next : ρ → Program κ ρ}
    {below : List (Frame κ α ρ)} (hs : m.stack = .run (.command c next) :: below) :
    ∃ h, (m.step sys).trace = m.trace ++ .called c ::
      ((sys.start m.table.isInstalled c m.state).events.map .happened ++
        [(sys.start m.table.isInstalled c m.state).outcome.closing c h]) := by
  obtain ⟨h, ht⟩ := settle_trace (m.record [.called c]) c next below
    (sys.start m.table.isInstalled c m.state)
  refine ⟨h, ?_⟩
  unfold step
  rw [hs]
  simpa [record] using ht

theorem step_command {m : Machine σ κ α ρ ε} {c : κ} {next : ρ → Program κ ρ}
    {below : List (Frame κ α ρ)} (hs : m.stack = .run (.command c next) :: below) :
    m.step sys = (m.record [.called c]).settle (sys.start m.table.isInstalled c m.state)
      (.await c next :: below) := by
  unfold step
  rw [hs]

theorem step_rest {m : Machine σ κ α ρ ε} {a : α} {d : Bool} {below : List (Frame κ α ρ)}
    (hs : m.stack = .rest a d :: below) :
    m.step sys = m.settle (sys.proceed a d m.state) below := by
  unfold step
  rw [hs]

theorem step_rest_trace {m : Machine σ κ α ρ ε} {a : α} {d : Bool} {c : κ}
    {next : ρ → Program κ ρ} {below : List (Frame κ α ρ)}
    (hs : m.stack = .rest a d :: .await c next :: below) :
    ∃ h, (m.step sys).trace = m.trace ++
      ((sys.proceed a d m.state).events.map .happened ++
        [(sys.proceed a d m.state).outcome.closing c h]) := by
  obtain ⟨h, ht⟩ := settle_trace m c next below (sys.proceed a d m.state)
  refine ⟨h, ?_⟩
  unfold step
  rw [hs]
  exact ht

/-- **A step carries a machine on in one of the ways of `Advance`.** -/
theorem step_advance {m : Machine σ κ α ρ ε} (h : Stacked m.stack) :
    Advance sys m (m.step sys) := by
  unfold step
  split
  · exact .aside [] rfl (by simp) (by simp) fun _ _ ha => ha
  · next below hs =>
    exact .aside [] rfl (by simp) (by simp) fun a d ha => by
      rw [hs]; exact List.mem_cons_of_mem _ ha
  · next text next below hs =>
    refine .aside [.remarked text] rfl rfl (by simp [Entry.IsAside]) fun a d ha => ?_
    rw [hs]
    simpa using ha
  · next cs hd next below hs =>
    refine .aside [_] (install_state m cs hd) (install_trace m cs hd) (by simp [Entry.IsAside])
      fun a d ha => ?_
    rw [hs]
    simpa using ha
  · next c next below hs =>
    obtain ⟨hn, ht⟩ := settle_trace (m.record [.called c]) c next below
      (sys.start m.table.isInstalled c m.state)
    refine .start c hn _ next below hs rfl (settle_state _ _ _ _ _) (by simpa [record] using ht)
      fun a d ha => ?_
    rw [hs]
    simpa using settle_rests _ _ _ _ ha
  · next a d below hs =>
    rw [hs] at h
    obtain ⟨c, next, below, rfl, h⟩ := Stacked.exists_await h
    obtain ⟨hn, ht⟩ := settle_trace m c next below (sys.proceed a d m.state)
    refine .proceed a d c hn _ _ hs rfl (settle_state _ _ _ _ _) ht (fun a' d' ha => ?_)
      ⟨next, below, rfl⟩
    rw [hs]
    rcases settle_rests _ _ _ _ ha with ha | ha
    · exact Or.inl (by simp [ha])
    · exact Or.inr ha
  · next hs => rw [hs] at h; exact h.elim

theorem owned_step {P : κ → α → Prop} {m : Machine σ κ α ρ ε}
    (hstart : ∀ i c s n a, (sys.start i c s).outcome = .notify n a → P c a)
    (hproceed : ∀ a d s c n a', P c a → (sys.proceed a d s).outcome = .notify n a' → P c a')
    (hs : Stacked m.stack) (h : Owned P m.stack) : Owned P (m.step sys).stack := by
  unfold step
  split
  · exact h
  · next below hst => rw [hst] at h; exact h
  · next text next below hst => rw [hst] at h; exact h
  · next cs hd next below hst => rw [hst] at h; exact h
  · next c next below hst =>
    rw [hst] at h
    exact settle_owned _ c next h fun n a => hstart _ c _ n a
  · next a d below hst =>
    rw [hst] at hs h
    obtain ⟨c, next, below, rfl, -⟩ := Stacked.exists_await hs
    exact settle_owned _ c next h.2 fun n a' => hproceed a d _ c n a' h.1
  · next hst => rw [hst] at hs; exact hs.elim

theorem step_of_stack_eq_nil {m : Machine σ κ α ρ ε} (h : m.stack = []) : m.step sys = m := by
  unfold step; rw [h]

/-- **A longer run makes one more step.** -/
theorem run_succ (n : ℕ) (m : Machine σ κ α ρ ε) : m.run sys (n + 1) = (m.run sys n).step sys := by
  induction n generalizing m with
  | zero =>
    rw [run, run]
    split_ifs with h
    · exact (step_of_stack_eq_nil sys (List.isEmpty_iff.mp h)).symm
    · rfl
  | succ n ih =>
    rw [run, ih, run]
    split_ifs with h
    · exact (step_of_stack_eq_nil sys (List.isEmpty_iff.mp h)).symm
    · rfl

theorem run_add (k n : ℕ) (m : Machine σ κ α ρ ε) :
    m.run sys (k + n) = (m.run sys k).run sys n := by
  induction n with
  | zero => rfl
  | succ n ih => rw [← Nat.add_assoc, run_succ, ih, run_succ]

theorem step_trace_mono {m : Machine σ κ α ρ ε} (h : Stacked m.stack) :
    m.trace <+: (m.step sys).trace := by
  cases step_advance sys h with
  | aside es state trace asides rests => exact ⟨es, trace.symm⟩
  | start c h p next below stack piece state trace rests => exact ⟨_, trace.symm⟩
  | proceed a d c h p below stack piece state trace rests => exact ⟨_, trace.symm⟩

/-- **What every step keeps, a run keeps.** -/
theorem run_induction {P : Machine σ κ α ρ ε → Prop} (hstep : ∀ m, P m → P (m.step sys)) (n : ℕ)
    (m : Machine σ κ α ρ ε) (h : P m) : P (m.run sys n) := by
  induction n with
  | zero => exact h
  | succ n ih => rw [run_succ]; exact hstep _ ih

theorem stacked_run {m : Machine σ κ α ρ ε} (h : Stacked m.stack) (n : ℕ) :
    Stacked (m.run sys n).stack :=
  run_induction sys (P := fun m => Stacked m.stack) (fun _ => stacked_step sys) n m h

theorem run_trace_mono {m : Machine σ κ α ρ ε} (h : Stacked m.stack) {k n : ℕ} (hkn : k ≤ n) :
    (m.run sys k).trace <+: (m.run sys n).trace := by
  induction hkn with
  | refl => exact List.prefix_refl _
  | step _ ih =>
    rw [run_succ]
    exact ih.trans (step_trace_mono sys (stacked_run sys h _))

end Machine

end KnxIoT.Dispatch
